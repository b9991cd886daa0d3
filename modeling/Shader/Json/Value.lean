import Shader.Decimal.Style
import Shader.Text.Quoted

/-!
# JSON values and their text

`Json` is a JSON value with the members of an object in the order in which they stand. `compact`
and `pretty` are its two written forms: without any blank, and with one item per line and two
blanks per level.
-/

namespace Shader

/-- A JSON number: whole as long as its numeral is whole and fits 64 bits, a binary64 otherwise. -/
inductive Number where
  | whole (value : Int)
  | real (value : Float)

def Number.text : Number → String
  | .whole i => toString i
  | .real x => Decimal.Style.number.write .double x.toBits.toNat

inductive Json where
  | null
  | bool (value : Bool)
  | num (value : Number)
  | str (value : String)
  | arr (items : List Json)
  | obj (members : List (String × Json))

namespace Json

def int (i : Int) : Json := .num (.whole i)

def nat (n : Nat) : Json := .num (.whole n)

/-- `null` for nothing. -/
def option {α : Type} (f : α → Json) : Option α → Json
  | none => .null
  | some a => f a

def escapedChar (c : Char) : String :=
  match c with
  | '"' => "\\\""
  | '\\' => "\\\\"
  | '\x08' => "\\b"
  | '\t' => "\\t"
  | '\n' => "\\n"
  | '\x0c' => "\\f"
  | '\r' => "\\r"
  | c =>
    if c.toNat < 0x20 then
      "\\u00" ++ (if c.toNat < 0x10 then "0" else "") ++ Text.hex c.toNat
    else c.toString

def quote (s : String) : String := "\"" ++ String.join (s.toList.map escapedChar) ++ "\""

mutual

def compact : Json → String
  | .null => "null"
  | .bool b => toString b
  | .num n => n.text
  | .str s => quote s
  | .arr items => "[" ++ String.intercalate "," (compactItems items) ++ "]"
  | .obj members => "\x7b" ++ String.intercalate "," (compactMembers members) ++ "\x7d"

def compactItems : List Json → List String
  | [] => []
  | j :: js => compact j :: compactItems js

def compactMembers : List (String × Json) → List String
  | [] => []
  | (k, v) :: rest => (quote k ++ ":" ++ compact v) :: compactMembers rest

end

def margin (depth : Nat) : String := String.ofList (List.replicate (2 * depth) ' ')

def bracketed (depth : Nat) (opening closing : String) (items : List String) : String :=
  if items.isEmpty then opening ++ closing
  else
    opening ++ "\n" ++ String.intercalate ",\n" (items.map (margin (depth + 1) ++ ·)) ++ "\n" ++
      margin depth ++ closing

mutual

/-- The text of a value that starts at some depth, one item per line. -/
def prettyAt (depth : Nat) : Json → String
  | .arr items => bracketed depth "[" "]" (prettyItems (depth + 1) items)
  | .obj members => bracketed depth "\x7b" "\x7d" (prettyMembers (depth + 1) members)
  | .null => "null"
  | .bool b => toString b
  | .num n => n.text
  | .str s => quote s

def prettyItems (depth : Nat) : List Json → List String
  | [] => []
  | j :: js => prettyAt depth j :: prettyItems depth js

def prettyMembers (depth : Nat) : List (String × Json) → List String
  | [] => []
  | (k, v) :: rest => (quote k ++ ": " ++ prettyAt depth v) :: prettyMembers depth rest

end

def pretty (j : Json) : String := prettyAt 0 j

end Json

end Shader
