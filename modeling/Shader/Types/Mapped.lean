import Shader.Types.Import

/-!
# A registry with maps

To find a type or a member by its name, a `Registry` goes through its types or through the members of
a struct. A `MappedRegistry` keeps maps beside the types and looks there: one from names to types, and
two for each struct, from the names of its members, and from these and the names of their types, to the
numbers of the members. Every operation that enters a type or a member has to keep the maps up to date.

A map is a list of entries, the latest first.
-/

namespace Shader

/-- The maps by which the members of a struct are found. -/
structure MemberMaps where
  byName : List (String × Nat) := []
  byNameAndType : List ((String × String) × Nat) := []
  deriving DecidableEq, Repr

structure MappedRegistry extends Registry where
  byName : List (String × TypeRef) := []
  members : List MemberMaps := []
  deriving DecidableEq, Repr

abbrev MappedM := ExceptT IrError (StateM MappedRegistry)

namespace MappedRegistry

def maps (m : MappedRegistry) (t : TypeRef) : MemberMaps := m.members[t.index]?.getD {}

def find? (m : MappedRegistry) (name : String) : Option TypeRef := m.byName.lookup name

/-- Appends a descriptor and enters its name. -/
def enter (m : MappedRegistry) (i : TypeInfo) : MappedRegistry where
  toRegistry := m.push i
  byName := (i.name, ⟨m.size⟩) :: m.byName
  members := m.members ++ [{}]

def intern (m : MappedRegistry) (name : String) (kind : Kind) (count : Nat)
    (component : Option TypeRef) : TypeRef × MappedRegistry :=
  match m.find? name with
  | some t => (t, m)
  | none =>
    (⟨m.size⟩, m.enter { name := name, kind := kind, count := count, component := component })

def internStruct (m : MappedRegistry) (name : String) : TypeRef × MappedRegistry :=
  m.intern name .struct 0 none

def functionType (result : TypeRef) (parameters : List TypeRef) : MappedM TypeRef := do
  let m ← get
  let names ← parameters.mapM fun p => m.nameOf p
  let name := Registry.signatureName (← m.nameOf result) names
  match m.find? name with
  | some t => return t
  | none =>
    set (m.enter { name := name, kind := .function, count := 0, component := none,
                   parts := result :: parameters })
    return ⟨m.size⟩

def pointerType (t : TypeRef) : MappedM TypeRef := do
  let m ← get
  let i ← m.info t
  match i.pointer with
  | some p => return p
  | none =>
    let (p, m) := m.intern (Registry.pointerName i.name) .pointer 0 none
    let r := (m.modify p fun i => { i with pointee := some t }).modify t
      fun i => { i with pointer := some p }
    set { m with toRegistry := r }
    return p

def memberIndex? (m : MappedRegistry) (owner : TypeRef) (name : String) :
    Except IrError (Option Nat) := do
  let _ ← m.info owner
  return (m.maps owner).byName.lookup name

def memberIndexTyped? (m : MappedRegistry) (owner : TypeRef) (name typeName : String) :
    Except IrError (Option Nat) := do
  let _ ← m.info owner
  return (m.maps owner).byNameAndType.lookup (name, typeName)

def addMember (owner member : TypeRef) (name : String) : MappedM Nat := do
  let m ← get
  let i ← m.info owner
  if i.kind ≠ .struct then
    throw (.notStruct name i.name)
  if ((m.maps owner).byName.lookup name).isSome then
    throw (.duplicateMember i.name name)
  let j ← m.info member
  let index := i.parts.length
  let r := m.modify owner fun i =>
    { i with parts := i.parts ++ [member], memberNames := i.memberNames ++ [name], layout := none }
  set { m with
    toRegistry := r
    members := m.members.modify owner.index fun maps =>
      ⟨(name, index) :: maps.byName, ((name, j.name), index) :: maps.byNameAndType⟩ }
  return index

def importMembers (copy : TypeRef → MappedM TypeRef) (owner : TypeRef) :
    List (TypeRef × String) → MappedM Unit
  | [] => return ()
  | (member, name) :: rest => do
    let t ← copy member
    let _ ← addMember owner t name
    importMembers copy owner rest

def importWithin (source : Registry) : Nat → TypeRef → MappedM TypeRef
  | 0, t => throw (.endless t)
  | depth + 1, t => do
    let i ← source.info t
    match (← get).find? i.name with
    | some t => return t
    | none =>
      let component ← i.component.mapM (importWithin source depth)
      match i.kind with
      | .pointer =>
        match i.pointee with
        | none => throw (.noPointee i.name)
        | some p => pointerType (← importWithin source depth p)
      | .function =>
        match ← i.parts.mapM (importWithin source depth) with
        | [] => throw (.noReturnType i.name)
        | result :: parameters => functionType result parameters
      | .struct =>
        let owner ← modifyGet (·.internStruct i.name)
        importMembers (importWithin source depth) owner (i.parts.zip i.memberNames)
        return owner
      | kind => modifyGet (·.intern i.name kind i.count component)

def importType (source : Registry) (t : TypeRef) : MappedM TypeRef :=
  importWithin source ((source.size + 1) * (source.size + 1)) t

end MappedRegistry

end Shader
