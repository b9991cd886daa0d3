import Shader.Json.Fault

/-!
# String literals

`StringLiteral.read` gives the content of a string literal, `StringLiteral.skip` only finds its end.
The two differ in what they refuse: passing over a string does not pair surrogates. Both start after
the opening quote and give the text after the closing one.
-/

namespace Shader.Json.StringLiteral

def hexDigit (c : Char) : Option Nat :=
  if '0' ≤ c ∧ c ≤ '9' then some (c.toNat - '0'.toNat)
  else if 'a' ≤ c ∧ c ≤ 'f' then some (c.toNat - 'a'.toNat + 10)
  else if 'A' ≤ c ∧ c ≤ 'F' then some (c.toNat - 'A'.toNat + 10)
  else none

/-- Lines broken within the first `n` bytes of a text. -/
def breaksWithin : Nat → List Char → Nat
  | _, [] => 0
  | 0, _ => 0
  | n + 1, c :: cs => lineBreaks c + breaksWithin (n + 1 - c.utf8Size) cs

/-- The four hexadecimal digits of an escape. They are counted in bytes, so a text with fewer than
four bytes left has ended, whatever they are. -/
def hexEscape (line : Nat) (cs : List Char) : Except Fault (Nat × List Char) :=
  match (cs.take 4).mapM hexDigit with
  | some [a, b, c, d] => .ok (((a * 16 + b) * 16 + c) * 16 + d, cs.drop 4)
  | _ =>
    if (String.ofList cs).utf8ByteSize < 4 then
      .error ⟨.endInString, line + cs.count '\n'⟩
    else .error ⟨.badEscape, line + breaksWithin 4 cs⟩

def simpleEscape : Char → Option Char
  | '"' => some '"'
  | '\\' => some '\\'
  | '/' => some '/'
  | 'b' => some '\x08'
  | 'f' => some '\x0c'
  | 'n' => some '\n'
  | 'r' => some '\r'
  | 't' => some '\t'
  | _ => none

/-- The second half of a surrogate pair, whose first half is `high`. -/
def secondHalf (line high : Nat) (cs : List Char) : Except Fault (Char × List Char) :=
  match cs with
  | [] => .error ⟨.endInString, line⟩
  | '\\' :: [] => .error ⟨.endInString, line⟩
  | '\\' :: 'u' :: rest => do
    let (low, rest) ← hexEscape line rest
    if 0xdc00 ≤ low ∧ low ≤ 0xdfff then
      .ok (Char.ofNat ((high - 0xd800) * 0x400 + (low - 0xdc00) + 0x10000), rest)
    else .error ⟨.loneSurrogate, line⟩
  | '\\' :: c :: _ => .error ⟨.halfPair, line + lineBreaks c⟩
  | c :: _ => .error ⟨.halfPair, line + lineBreaks c⟩

/-- What an escape stands for; the text starts after the backslash. -/
def escape (line : Nat) (cs : List Char) : Except Fault (Char × List Char) :=
  match cs with
  | [] => .error ⟨.endInString, line⟩
  | 'u' :: rest => do
    let (n, rest) ← hexEscape line rest
    if 0xdc00 ≤ n ∧ n ≤ 0xdfff then .error ⟨.loneSurrogate, line⟩
    else if 0xd800 ≤ n ∧ n ≤ 0xdbff then secondHalf line n rest
    else .ok (Char.ofNat n, rest)
  | c :: rest =>
    match simpleEscape c with
    | some e => .ok (e, rest)
    | none => .error ⟨.badEscape, line + lineBreaks c⟩

def skipEscape (line : Nat) (cs : List Char) : Except Fault (List Char) :=
  match cs with
  | [] => .error ⟨.endInString, line⟩
  | 'u' :: rest => do
    let (_, rest) ← hexEscape line rest
    .ok rest
  | c :: rest =>
    match simpleEscape c with
    | some _ => .ok rest
    | none => .error ⟨.badEscape, line + lineBreaks c⟩

/-- Reads on with the characters found so far, last first. -/
def readFrom (line : Nat) : Nat → List Char → List Char → Except Fault (String × List Char)
  | 0, _, _ => .error ⟨.endInString, line⟩
  | fuel + 1, sofar, cs =>
    match cs with
    | [] => .error ⟨.endInString, line⟩
    | '"' :: rest => .ok (String.ofList sofar.reverse, rest)
    | '\\' :: rest =>
      match escape line rest with
      | .ok (c, rest) => readFrom line fuel (c :: sofar) rest
      | .error f => .error f
    | c :: rest =>
      if c.toNat < 0x20 then .error ⟨.controlCharacter, line + lineBreaks c⟩
      else readFrom line fuel (c :: sofar) rest

/-- The content of a string literal. A text has fewer literal characters than characters. -/
def read (line : Nat) (cs : List Char) : Except Fault (String × List Char) :=
  readFrom line (cs.length + 1) [] cs

def skipFrom (line : Nat) : Nat → List Char → Except Fault (List Char)
  | 0, _ => .error ⟨.endInString, line⟩
  | fuel + 1, cs =>
    match cs with
    | [] => .error ⟨.endInString, line⟩
    | '"' :: rest => .ok rest
    | '\\' :: rest =>
      match skipEscape line rest with
      | .ok rest => skipFrom line fuel rest
      | .error f => .error f
    | c :: rest =>
      if c.toNat < 0x20 then .error ⟨.controlCharacter, line⟩
      else skipFrom line fuel rest

def skip (line : Nat) (cs : List Char) : Except Fault (List Char) :=
  skipFrom line (cs.length + 1) cs

end Shader.Json.StringLiteral
