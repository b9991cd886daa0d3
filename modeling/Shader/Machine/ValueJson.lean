import Shader.Json.Access
import Shader.Machine.Value
import Shader.Text.Quoted

/-!
# The JSON form of values

A JSON numeral cannot carry every real, so a real is written by the eight digits of its word, as in
`{"r": "3f800000"}`. All values that are no numbers are written alike. A pointer is written by its
slot and its path, a composite as a list, and an undefined value as null.
-/

namespace Shader

def Real32.digits (x : Real32) : String :=
  if x.isNaN then "nan"
  else
    let digits := Text.hex x.bits.toNat
    String.ofList (List.replicate (8 - digits.length) '0') ++ digits

def hexDigit (c : Char) : Nat :=
  if c.isDigit then c.toNat - '0'.toNat else c.toNat - 'a'.toNat + 10

def Real32.ofDigits (s : String) : Real32 :=
  if s = "nan" then ⟨0x7fc00000⟩
  else ⟨UInt32.ofNat (s.toList.foldl (fun n c => 16 * n + hexDigit c) 0)⟩

namespace Value

def pointerJson (p : Pointer) : Json :=
  .obj [("ptr", .arr [.nat p.slot, .arr (p.path.map .nat)])]

mutual

def toJson : Value → Json
  | .bool b => .bool b
  | .int i => .int i.toInt
  | .real x => .obj [("r", .str x.digits)]
  | .composite vs => .arr (toJsons vs)
  | .pointer p => pointerJson p
  | .undefined => .null

def toJsons : List Value → List Json
  | [] => []
  | v :: vs => v.toJson :: toJsons vs

end

/-- The real or the pointer that an object stands for. -/
def ofObject (j : Json) : Value :=
  match j.get "r", j.get "ptr" with
  | .str s, _ => .real (.ofDigits s)
  | _, .arr parts =>
    .pointer ⟨(Json.item (.arr parts) 0).toNat, (Json.item (.arr parts) 1).items.map Json.toNat⟩
  | _, _ => .undefined

mutual

def ofJson : Json → Value
  | .bool b => .bool b
  | .num (.whole i) => .int (Int32.ofInt i)
  | .arr items => .composite (ofJsons items)
  | .obj members => ofObject (.obj members)
  | _ => .undefined

def ofJsons : List Json → List Value
  | [] => []
  | j :: js => ofJson j :: ofJsons js

end

end Value

end Shader
