import Shader.Library.Search
import Shader.Lowering.Error
import Shader.Types.Builtin
import Shader.Types.Import

/-!
# The scope of a library being compiled

While a tree is lowered into a library, its `Scope` knows what classes, stored fields, accessors and
signatures the tree declares. What the tree does not declare is looked up in the dependencies; a
class of a dependency is copied into the library when it is first used.

A step that fails leaves behind what it did before.
-/

namespace Shader

/-- What a class has become. -/
structure ClassShape where
  ty : TypeRef
  /-- The function that initializes a new object, if there is something to initialize. -/
  preConstructor : Option FunctionRef := none
  deriving DecidableEq, Repr

/-- A library being compiled. The lists hold their newest entry first. -/
structure Scope where
  library : Library
  classes : List (ClassId × ClassShape) := []
  fields : List (PropertyId × Nat) := []
  accessors : List (PropertyId × (Option FunctionId × Option FunctionId)) := []
  /-- Whether functions of the tree take the object they belong to. -/
  receivers : List (FunctionId × Bool) := []

abbrev ScopeM := ExceptT LowerError (StateM Scope)

namespace Scope

def refuse {α : Type} (cause : Refusal) (location : Location) : ScopeM α :=
  throw (.refused cause location)

/-- Runs an operation on the types of the library; its failure happens at a place. -/
def onTypes {α : Type} (location : Location) (x : TypeM α) : ScopeM α := fun s =>
  match s.library.onTypes x with
  | (.ok a, l) => (.ok a, { s with library := l })
  | (.error e, l) => (.error (.refused (.ir e) location), { s with library := l })

def constant (ty : TypeRef) (value : Literal) : ScopeM ConstantId :=
  modifyGet fun s =>
    let (c, l) := s.library.addConstant ty value
    (c, { s with library := l })

/-- The first dependency that knows a class, with what it says about it. -/
def foreignClass? (s : Scope) (id : ClassId) : Option (Library × TypeRef × Option FunctionRef) :=
  s.library.dependencies.findSome? fun dependency => do
    let (source, ty) ← dependency.findClassType? id
    return (source, ty, (dependency.findRecord? id).bind ClassRecord.preConstructor)

/-- What a class has become. A class of a dependency is copied on its first use. -/
def classShape (id : ClassId) (location : Location) : ScopeM ClassShape := do
  let s ← get
  match s.classes.lookup id with
  | some shape => return shape
  | none =>
    match s.foreignClass? id with
    | none => throw (.missingType id.text location)
    | some (source, ty, preConstructor) =>
      let ty ← onTypes location (Registry.importType source.types ty)
      let shape : ClassShape := ⟨ty, preConstructor⟩
      modify fun s => { s with classes := (id, shape) :: s.classes }
      return shape

def lowerType (spec : TypeSpec) (location : Location) : ScopeM TypeRef := do
  match spec with
  | .ofClass id => return (← classShape id location).ty
  | spec => onTypes location (Registry.lowerBuiltin spec)

/-- The number of the member that stores a field, here or in a dependency. A dependency answers with
the first property of this identity that it records. -/
def fieldIndex? (s : Scope) (property : PropertyId) : Option Nat :=
  match s.fields.lookup property with
  | some i => some i
  | none => s.library.dependencies.findSome? fun dependency =>
    ((dependency.records.flatMap ClassRecord.fields).find? (·.property = property)).bind
      FieldRecord.member

/-- The getter to call when a member is read, if it is read by one. -/
def getter? (s : Scope) : Accessed → Option FunctionId
  | .accessors get _ => get
  | .property property =>
    match s.fieldIndex? property with
    | some _ => none
    | none => (s.accessors.lookup property).bind Prod.fst
  | _ => none

/-- The setter to call when a member is assigned, if it is assigned by one. -/
def setter? (s : Scope) : Accessed → Option FunctionId
  | .accessors _ set => set
  | .property property =>
    match s.fieldIndex? property with
    | some _ => none
    | none => (s.accessors.lookup property).bind Prod.snd
  | _ => none

def function (id : FunctionId) (location : Location) : ScopeM FunctionRef := do
  match (← get).library.findFunction? id with
  | some f => return f
  | none => refuse (.unknownFunction id) location

/-- Whether a function takes the object it belongs to. A function of a dependency does if that is
its first parameter. -/
def takesObject (s : Scope) (id : FunctionId) (f : FunctionRef) : Bool :=
  match s.receivers.lookup id with
  | some takes => takes
  | none =>
    match s.library.resolveRoutine? f with
    | some routine => (routine.parameters.head?.map Parameter.name) == some "this"
    | none => false

end Scope

end Shader
