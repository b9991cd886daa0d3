import Shader.Types.Registry

/-!
# Types of another registry

`Registry.importType` copies a type of another registry together with everything it is made of. A
type whose name is already known stands for the copy. A struct is entered before its members, so
that it may reach itself through a pointer.
-/

namespace Shader.Registry

def importMembers (copy : TypeRef → TypeM TypeRef) (owner : TypeRef) :
    List (TypeRef × String) → TypeM Unit
  | [] => return ()
  | (member, name) :: rest => do
    let t ← copy member
    let _ ← addMember owner t name
    importMembers copy owner rest

def importWithin (source : Registry) : Nat → TypeRef → TypeM TypeRef
  | 0, t => throw (.endless t)
  | depth + 1, t => do
    let i ← source.info t
    match (← get).find? i.name with
    | some t => return t
    | none =>
      let component ← i.component.mapM (importWithin source depth)
      match i.kind with
      | .pointer =>
        match i.pointee with
        | none => throw (.noPointee i.name)
        | some p => pointerType (← importWithin source depth p)
      | .function =>
        match ← i.parts.mapM (importWithin source depth) with
        | [] => throw (.noReturnType i.name)
        | result :: parameters => functionType result parameters
      | .struct =>
        let owner ← modifyGet (·.internStruct i.name)
        importMembers (importWithin source depth) owner (i.parts.zip i.memberNames)
        return owner
      | kind => modifyGet (·.intern i.name kind i.count component)

/-- Copies a type. On the way down, a type is met again only after a struct has been entered, so the
depth is at most the number of types times one more than the number of structs. -/
def importType (source : Registry) (t : TypeRef) : TypeM TypeRef :=
  importWithin source ((source.size + 1) * (source.size + 1)) t

end Shader.Registry
