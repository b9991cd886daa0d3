import Shader.Types.Registry

/-!
# Builtin types in a registry

A builtin type is entered under its name, after the types it is made of. Classes are entered where
they are declared.
-/

namespace Shader.Registry

def kindOf : ScalarKind → Kind
  | .boolean => .bool
  | .integer => .int
  | .real => .float

def scalarType (r : Registry) (kind : ScalarKind) : TypeRef × Registry :=
  r.intern kind.name (kindOf kind) 1 none

def vectorType (r : Registry) (kind : ScalarKind) (count : Nat) :
    Except IrError (TypeRef × Registry) :=
  if 2 ≤ count ∧ count ≤ 4 then
    let (lane, r) := r.scalarType kind
    .ok (r.intern (kind.name ++ toString count) .vector count (some lane))
  else .error (.vectorWidth count)

/-- Enters a type that has a builtin name. -/
def enterBuiltin (r : Registry) : TypeSpec → Except IrError (TypeRef × Registry)
  | .void => .ok (r.intern "Void" .void 0 none)
  | .scalar kind => .ok (r.scalarType kind)
  | .vector kind count => r.vectorType kind count
  | .matrix rows columns => do
    let (column, r) ← r.vectorType .real rows
    return r.intern s!"Real{rows}x{columns}" .matrix columns (some column)
  | .array element length =>
    match element.builtinName with
    | none => .error (.notBuiltin (.array element length))
    | some name => do
      let (e, r) ← r.enterBuiltin element
      return r.intern s!"FixedArray[{name}, {length}]" .array length (some e)
  | .ofClass id => .error (.notBuiltin (.ofClass id))
  | .math => .error (.notBuiltin .math)

def lowerBuiltin (spec : TypeSpec) : TypeM TypeRef := do
  match (← get).enterBuiltin spec with
  | .ok (t, r) =>
    set r
    return t
  | .error e => throw e

end Shader.Registry
