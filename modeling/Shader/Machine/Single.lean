import Shader.IR.Builder
import Shader.Machine.Run

/-!
# Single operations

What one operation gives on some arguments: a function applies it to all its parameters and returns
the result, and a fresh machine calls that function.
-/

namespace Shader

namespace Machine

/-- Builds a function that applies an operation to all its parameters. -/
def applying (opcode : Opcode) (arity : Nat) (ty : TypeRef) : BuildM Unit := do
  let values ← (List.range arity).mapM fun i => Builder.parameter s!"p{i}" ty
  Builder.enter (← Builder.placedBlock "entry")
  let result ← Builder.newValue
  Builder.append { opcode := opcode, result := some result, resultType := some ty,
                   operands := values.map .value }
  Builder.ret (some (.value result))

/-- The library that holds the function, whose values have an unknown type. -/
def applyingLibrary (opcode : Opcode) (arity : Nat) : Library :=
  let (ty, types) := ({} : Registry).intern "Unknown" .unknown 1 none
  let shell : Routine := ⟨"Apply", ty, ty, [], [], [], 0⟩
  let (_, builder) := applying opcode arity ty ⟨shell, none⟩
  { id := ⟨0⟩, name := "Single", types := types, routines := [builder.routine] }

def apply (opcode : Opcode) (arguments : List Value) : Except RunError (Option Value) :=
  let l := applyingLibrary opcode arguments.length
  (call l defaultLimit ⟨l.id, 0⟩ arguments {}).1

end Machine

end Shader
