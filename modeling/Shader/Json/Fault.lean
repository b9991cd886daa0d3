import Shader.Json.Value

/-!
# What can be wrong with a JSON text

A `Cause` is one way in which a text fails to be JSON, or to be JSON of the wanted shape, and
`Cause.message` its wording. A `Fault` is a cause together with the line it was noticed on.
-/

namespace Shader.Json

/-- What stands in a text where something else was wanted. -/
inductive Found where
  | null
  | boolean (value : Bool)
  | number (value : Number)
  | string (value : String)
  | sequence
  | map
  | unitVariant

def Found.text : Found → String
  | .null => "null"
  | .boolean b => s!"boolean `{b}`"
  | .number (.whole i) => s!"integer `{i}`"
  | .number (.real x) => "floating point `" ++ (Number.real x).text ++ "`"
  | .string s => "string " ++ Text.quoted s
  | .sequence => "sequence"
  | .map => "map"
  | .unitVariant => "unit variant"

inductive Cause where
  /-- The text ends where a value should start, or inside a value. -/
  | endInValue
  | endInObject
  | endInList
  | endInString
  /-- Something that starts no value stands where one should. -/
  | noValue
  | noColon
  | noCommaInObject
  | noCommaInList
  /-- A misspelt `true`, `false` or `null`. -/
  | misspelt
  | keyNotString
  | trailingComma
  | trailingText
  | badNumber
  /-- A number exceeds the largest binary64. -/
  | hugeNumber
  | badEscape
  /-- A second half of a surrogate pair stands where none may, or the first half is followed by
  something else. -/
  | loneSurrogate
  /-- The first half of a surrogate pair is not followed by an escape. -/
  | halfPair
  | controlCharacter
  | tooDeep
  | missingField (name : String)
  | duplicateField (name : String)
  | unknownVariant (name : String) (known : List String)
  | wrongType (found : Found) (wanted : String)
  | outOfRange (value : Int) (wanted : String)
  | wrongLength (count : Nat) (wanted : String)

/-- Alternatives in a message: one, two with `or`, or a list. -/
def alternatives (names : List String) : String :=
  let quoted := names.map fun n => "`" ++ n ++ "`"
  match quoted with
  | [] => "there are no variants"
  | [a] => "expected " ++ a
  | [a, b] => "expected " ++ a ++ " or " ++ b
  | more => "expected one of " ++ String.intercalate ", " more

def Cause.message : Cause → String
  | .endInValue => "EOF while parsing a value"
  | .endInObject => "EOF while parsing an object"
  | .endInList => "EOF while parsing a list"
  | .endInString => "EOF while parsing a string"
  | .noValue => "expected value"
  | .noColon => "expected `:`"
  | .noCommaInObject => "expected `,` or `\x7d`"
  | .noCommaInList => "expected `,` or `]`"
  | .misspelt => "expected ident"
  | .keyNotString => "key must be a string"
  | .trailingComma => "trailing comma"
  | .trailingText => "trailing characters"
  | .badNumber => "invalid number"
  | .hugeNumber => "number out of range"
  | .badEscape => "invalid escape"
  | .loneSurrogate => "lone leading surrogate in hex escape"
  | .halfPair => "unexpected end of hex escape"
  | .controlCharacter => "control character (\\u0000-\\u001F) found while parsing a string"
  | .tooDeep => "recursion limit exceeded"
  | .missingField f => "missing field `" ++ f ++ "`"
  | .duplicateField f => "duplicate field `" ++ f ++ "`"
  | .unknownVariant v known => "unknown variant `" ++ v ++ "`, " ++ alternatives known
  | .wrongType found wanted => "invalid type: " ++ found.text ++ ", expected " ++ wanted
  | .outOfRange i wanted => s!"invalid value: integer `{i}`, expected {wanted}"
  | .wrongLength n wanted => s!"invalid length {n}, expected {wanted}"

/-- A cause and the line it was noticed on, counted from one. -/
structure Fault where
  cause : Cause
  line : Nat

def lineBreaks (c : Char) : Nat := if c = '\n' then 1 else 0

end Shader.Json
