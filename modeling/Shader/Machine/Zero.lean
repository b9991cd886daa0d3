import Shader.Machine.Value
import Shader.Types.Registry

/-!
# Zero values

What a variable holds before anything is stored in it.
-/

namespace Shader

namespace Registry

/-- The zero value of a type, in which at most `depth` types are nested. -/
def zeroWithin (r : Registry) : Nat → TypeRef → Except IrError Value
  | 0, t => .error (.endless t)
  | depth + 1, t => do
    let i ← r.info t
    match i.kind with
    | .bool => return .bool false
    | .int => return .int 0
    | .float => return .real .zero
    | .vector | .matrix | .array =>
      match i.component with
      | some c => return .composite (List.replicate i.count (← zeroWithin r depth c))
      | none => return .undefined
    | .struct => return .composite (← i.parts.mapM (zeroWithin r depth))
    | _ => return .undefined

/-- The zero value of a type. A type that does not contain itself nests at most all types. -/
def zeroValue (r : Registry) (t : TypeRef) : Except IrError Value := r.zeroWithin (r.size + 1) t

end Registry

end Shader
