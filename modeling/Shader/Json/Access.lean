import Shader.Json.Value

/-!
# Looking into plain values

What is missing reads as null, and a value of another sort as zero, as nothing or as empty.
-/

namespace Shader

namespace Json

def members : Json → List (String × Json)
  | .obj members => members
  | _ => []

/-- Whether an object has a member, be it null. -/
def has (j : Json) (key : String) : Bool := j.members.any (·.1 == key)

def get (j : Json) (key : String) : Json := (j.members.lookup key).getD .null

/-- Whether an object has a member that is not null. -/
def gives (j : Json) (key : String) : Bool :=
  match j.get key with
  | .null => false
  | _ => true

def items : Json → List Json
  | .arr items => items
  | _ => []

def item (j : Json) (index : Nat) : Json := j.items[index]?.getD .null

def toInt? : Json → Option Int
  | .num (.whole i) => some i
  | _ => none

def toNat? (j : Json) : Option Nat := j.toInt?.map Int.toNat

def toNat (j : Json) : Nat := j.toNat?.getD 0

def toText? : Json → Option String
  | .str s => some s
  | _ => none

def toText (j : Json) : String := j.toText?.getD ""

def toBool : Json → Bool
  | .bool b => b
  | _ => false

/-- A thing that is missing when the value is null. -/
def unlessNull {α : Type} (f : Json → α) : Json → Option α
  | .null => none
  | j => some (f j)

end Json

end Shader
