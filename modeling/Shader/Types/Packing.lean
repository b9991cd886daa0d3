import Shader.Json.Value
import Shader.TypeName
import Shader.Types.Builtin
import Shader.Types.Layout

/-!
# Layouts of ad-hoc structs

`packMembers` lays out a struct of builtin types that are given by name.
-/

namespace Shader

inductive PackError where
  | unknownType (name : String)
  | ir (error : IrError)
  deriving DecidableEq, Repr

def PackError.message : PackError → String
  | .unknownType name => s!"unknown type '{name}'"
  | .ir e => e.message

structure PackedMember where
  name : String
  typeName : String
  offset : Nat
  layout : Layout
  deriving DecidableEq, Repr

structure PackedStruct where
  members : List PackedMember
  layout : Layout
  deriving DecidableEq, Repr

def PackedMember.toJson (m : PackedMember) : Json :=
  .obj [("name", .str m.name), ("type_name", .str m.typeName), ("offset", .nat m.offset),
    ("size", .nat m.layout.size), ("alignment", .nat m.layout.alignment)]

def PackedStruct.toJson (s : PackedStruct) : Json :=
  .obj [("members", .arr (s.members.map PackedMember.toJson)), ("size", .nat s.layout.size),
    ("alignment", .nat s.layout.alignment)]

namespace PackedStruct

def run {α : Type} (r : Registry) (x : TypeM α) : Except PackError (α × Registry) :=
  match x r with
  | (.ok a, r) => .ok (a, r)
  | (.error e, _) => .error (.ir e)

def enter (owner : TypeRef) : Registry → List (String × String) → Except PackError Registry
  | r, [] => .ok r
  | r, (name, typeName) :: rest =>
    match TypeSpec.ofName? typeName with
    | none => .error (.unknownType typeName)
    | some spec => do
      let (_, r) ← run r do
        let t ← Registry.lowerBuiltin spec
        Registry.addMember owner t name
      enter owner r rest

/-- Asks for the layouts of the members of a struct from number `index` on. -/
def collect (owner : TypeRef) : Nat → List (String × String) → TypeM (List PackedMember)
  | _, [] => return []
  | index, (name, typeName) :: rest => do
    let part ← (← get).partAt owner index
    let layout ← Registry.layout part
    let offset ← Registry.memberOffset owner index
    let rest ← collect owner (index + 1) rest
    return ⟨name, typeName, offset, layout⟩ :: rest

end PackedStruct

/-- Lays out members, given by name and type name, as one struct in declaration order. -/
def packMembers (members : List (String × String)) : Except PackError PackedStruct := do
  let (owner, r) := ({} : Registry).internStruct "Layout"
  let r ← PackedStruct.enter owner r members
  let (packed, _) ← PackedStruct.run r do
    let members ← PackedStruct.collect owner 0 members
    let layout ← Registry.layout owner
    return PackedStruct.mk members layout
  return packed

end Shader
