import Shader.Machine.Error
import Shader.Machine.Value

/-!
# Memory

Memory is a row of slots that only grows. A pointer names a slot and a path into the value there;
`read?` and `write?` focus on the component at that place.
-/

namespace Shader

namespace Value

def get? : Value → List Nat → Option Value
  | v, [] => some v
  | .composite vs, i :: path =>
    match vs[i]? with
    | some v => v.get? path
    | none => none
  | _, _ :: _ => none

/-- The value with the component at a path replaced. -/
def set? : Value → List Nat → Value → Option Value
  | _, [], new => some new
  | .composite vs, i :: path, new =>
    match vs[i]? with
    | some v => (v.set? path new).map fun v => .composite (vs.set i v)
    | none => none
  | _, _ :: _, _ => none

end Value

abbrev Memory := Array Value

namespace Memory

def read? (m : Memory) (p : Pointer) : Option Value :=
  match m[p.slot]? with
  | some v => v.get? p.path
  | none => none

/-- Memory with the value that a pointer names replaced, if it names one. -/
def write? (m : Memory) (p : Pointer) (new : Value) : Option Memory :=
  match m[p.slot]? with
  | some v => (v.set? p.path new).map fun v => m.setIfInBounds p.slot v
  | none => none

end Memory

end Shader
