import Shader.IR.Error

/-!
# The type registry

A registry is an arena of type descriptors. Types are referred to by their place in it, and a name
belongs to at most one type: asking for a type by name finds the one that is there or appends a new
one.

* `Registry.intern` finds or creates a type of a given shape.
* `Registry.functionType` and `Registry.pointerType` build types out of others.
* `Registry.addMember` extends a struct.
* `Registry.partAt`, `Registry.memberIndex?` and `Registry.memberIndexTyped?` look into a type.

Operations that can be refused run in `TypeM`: a refusal leaves the registry as it was when the
refusal was noticed.
-/

namespace Shader

instance coeWord : Coe UInt32 Nat := ⟨UInt32.toNat⟩

/-- Byte size and alignment, as words of 32 bits. -/
structure Layout where
  size : UInt32
  alignment : UInt32
  deriving DecidableEq, Repr

structure TypeInfo where
  name : String
  kind : Kind
  /-- Lanes of a vector, columns of a matrix, length of an array. -/
  count : Nat
  /-- The type of the lanes, columns or elements. -/
  component : Option TypeRef
  /-- What a pointer points to. -/
  pointee : Option TypeRef := none
  /-- The members of a struct, or the return type of a function followed by its parameters. -/
  parts : List TypeRef := []
  memberNames : List String := []
  /-- The type of pointers to this type, once it has been asked for. -/
  pointer : Option TypeRef := none
  functions : List FunctionRef := []
  /-- The layout, once it has been asked for. -/
  layout : Option Layout := none
  deriving DecidableEq, Repr

/-- An arena of types. -/
structure Registry where
  types : List TypeInfo := []
  deriving DecidableEq, Repr

abbrev TypeM := ExceptT IrError (StateM Registry)

namespace Registry

def size (r : Registry) : Nat := r.types.length

def info? (r : Registry) (t : TypeRef) : Option TypeInfo := r.types[t.index]?

/-- The descriptor of a type, which must exist. -/
def info (r : Registry) (t : TypeRef) : Except IrError TypeInfo :=
  match r.info? t with
  | some i => .ok i
  | none => .error (.dangling t)

def nameOf (r : Registry) (t : TypeRef) : Except IrError String := (r.info t).map TypeInfo.name

def find? (r : Registry) (name : String) : Option TypeRef :=
  (r.types.findIdx? (·.name = name)).map TypeRef.mk

def push (r : Registry) (i : TypeInfo) : Registry := ⟨r.types ++ [i]⟩

def modify (r : Registry) (t : TypeRef) (f : TypeInfo → TypeInfo) : Registry :=
  ⟨r.types.modify t.index f⟩

/-- The type with a given name; it is appended with the given shape if there is none. -/
def intern (r : Registry) (name : String) (kind : Kind) (count : Nat)
    (component : Option TypeRef) : TypeRef × Registry :=
  match r.find? name with
  | some t => (t, r)
  | none =>
    (⟨r.size⟩, r.push { name := name, kind := kind, count := count, component := component })

def internStruct (r : Registry) (name : String) : TypeRef × Registry :=
  r.intern name .struct 0 none

/-- The name of a function type: its parameters between parentheses, then what it returns. -/
def signatureName (result : String) (parameters : List String) : String :=
  "(" ++ String.intercalate ", " parameters ++ ") : " ++ result

def pointerName (pointee : String) : String := "ptr<" ++ pointee ++ ">"

def functionType (result : TypeRef) (parameters : List TypeRef) : TypeM TypeRef := do
  let r ← get
  let names ← parameters.mapM fun p => r.nameOf p
  let name := signatureName (← r.nameOf result) names
  match r.find? name with
  | some t => return t
  | none =>
    set (r.push { name := name, kind := .function, count := 0, component := none,
                  parts := result :: parameters })
    return ⟨r.size⟩

/-- The type of pointers to a type. A type that already bears its name is used as it is. -/
def pointerType (t : TypeRef) : TypeM TypeRef := do
  let r ← get
  let i ← r.info t
  match i.pointer with
  | some p => return p
  | none =>
    let (p, r) := r.intern (pointerName i.name) .pointer 0 none
    set ((r.modify p fun i => { i with pointee := some t }).modify t
      fun i => { i with pointer := some p })
    return p

/-- What a pointer type points to; any other type is its own value type. -/
def valueType (r : Registry) (t : TypeRef) : Except IrError TypeRef := do
  let i ← r.info t
  return i.pointee.getD t

def memberIndex? (r : Registry) (owner : TypeRef) (name : String) :
    Except IrError (Option Nat) := do
  let i ← r.info owner
  return i.memberNames.findIdx? (· = name)

def isNamed (r : Registry) (t : TypeRef) (name : String) : Bool :=
  match r.info? t with
  | some i => i.name = name
  | none => false

/-- The number of a member of a struct, provided that its type has the given name. -/
def memberIndexTyped? (r : Registry) (owner : TypeRef) (name typeName : String) :
    Except IrError (Option Nat) := do
  let i ← r.info owner
  return (i.memberNames.zip i.parts).findIdx? fun (n, t) => n = name ∧ r.isNamed t typeName

/-- Appends a member to a struct and gives its number. A layout that was worked out for the struct
before is dropped. -/
def addMember (owner member : TypeRef) (name : String) : TypeM Nat := do
  let r ← get
  let i ← r.info owner
  if i.kind ≠ .struct then
    throw (.notStruct name i.name)
  if name ∈ i.memberNames then
    throw (.duplicateMember i.name name)
  let _ ← r.info member
  set (r.modify owner fun i =>
    { i with parts := i.parts ++ [member], memberNames := i.memberNames ++ [name], layout := none })
  return i.parts.length

/-- A member type of a struct, or the return type or a parameter type of a function type. -/
def partAt (r : Registry) (owner : TypeRef) (index : Nat) : Except IrError TypeRef := do
  let i ← r.info owner
  match i.kind with
  | .struct | .function =>
    match i.parts[index]? with
    | some t => return t
    | none => throw (.noPart index i.name)
  | kind => throw (.noParts i.name kind)

def partCount (r : Registry) (owner : TypeRef) : Except IrError Nat := do
  let i ← r.info owner
  return i.parts.length

def addFunction (owner : TypeRef) (function : FunctionRef) : TypeM Unit := do
  let r ← get
  let _ ← r.info owner
  set (r.modify owner fun i => { i with functions := i.functions ++ [function] })

end Registry

end Shader
