import Shader.Ident
import Shader.IR.Routine
import Shader.Library.Rules
import Shader.Machine.Value
import Shader.Types.Registry

/-!
# Libraries

A library is what one compile produces: its types, functions, constants and rules, what it records
of each class, and the libraries it depends on. The identities of the source are mapped to what they
became.

Looking something up tries the library itself first and then its dependencies, each with everything
behind it, in order (`Library.search?`).
-/

namespace Shader

structure Constant where
  ty : TypeRef
  value : Literal
  deriving DecidableEq, Repr

structure FieldRecord where
  name : String
  property : PropertyId
  ty : TypeRef
  /-- The number of the member that stores it; a property with accessors has none. -/
  member : Option Nat
  /-- Its value in a new object. -/
  initial : Option Value := none
  deriving Repr

structure ClassRecord where
  id : ClassId
  name : String
  ty : TypeRef
  /-- The function that runs the initializers of the member variables. -/
  preConstructor : Option FunctionRef := none
  /-- The declared constructor without parameters. -/
  defaultConstructor : Option FunctionRef := none
  fields : List FieldRecord := []
  deriving Repr

structure Library where
  id : LibraryId
  name : String
  types : Registry := {}
  rules : Rules := {}
  routines : List Routine := []
  constants : List Constant := []
  dependencies : List Library := []
  /-- The types of classes, newest first. -/
  classTypes : List (ClassId × TypeRef) := []
  /-- The functions that identities stand for, newest first. -/
  functions : List (FunctionId × FunctionRef) := []
  records : List ClassRecord := []
  /-- Whether it has been compiled in full, so that others may depend on it. -/
  complete : Bool := false

namespace Library

/-! ### What a library itself holds -/

def routineRefs (l : Library) : List FunctionRef :=
  (List.range l.routines.length).map fun i => ⟨l.id, i⟩

/-- The function a reference stands for, if it is one of this library. -/
def routine? (l : Library) (f : FunctionRef) : Option Routine :=
  if f.library = l.id then l.routines[f.index]? else none

def constant? (l : Library) (c : ConstantId) : Option Constant := l.constants[c.index]?

def classType? (l : Library) (c : ClassId) : Option TypeRef := l.classTypes.lookup c

def record? (l : Library) (c : ClassId) : Option ClassRecord := l.records.find? (·.id = c)

/-! ### Adding to a library -/

def onTypes {α : Type} (x : TypeM α) (l : Library) : Except IrError α × Library :=
  let (result, types) := x l.types
  (result, { l with types := types })

/-- Creates a function without a body and enters it with its owner. -/
def createRoutine (l : Library) (owner : TypeRef) (name : String) (functionType : TypeRef) :
    Except IrError FunctionRef × Library :=
  let f : FunctionRef := ⟨l.id, l.routines.length⟩
  match l.onTypes (Registry.addFunction owner f) with
  | (.error e, _) => (.error e, l)
  | (.ok _, l) =>
    (.ok f, { l with routines := l.routines ++ [⟨name, owner, functionType, [], [], [], 0⟩] })

def install? (l : Library) (f : FunctionRef) (body : Routine) : Option Library :=
  match l.routine? f with
  | some _ => some { l with routines := l.routines.set f.index body }
  | none => none

/-- The number of a constant, which is entered if it is new. -/
def addConstant (l : Library) (ty : TypeRef) (value : Literal) : ConstantId × Library :=
  match l.constants.findIdx? (· = ⟨ty, value⟩) with
  | some i => (⟨i⟩, l)
  | none => (⟨l.constants.length⟩, { l with constants := l.constants ++ [⟨ty, value⟩] })

def setClassType (l : Library) (c : ClassId) (ty : TypeRef) : Library :=
  { l with classTypes := (c, ty) :: l.classTypes }

def setFunction (l : Library) (id : FunctionId) (f : FunctionRef) : Library :=
  { l with functions := (id, f) :: l.functions }

def addRecord (l : Library) (r : ClassRecord) : Library := { l with records := l.records ++ [r] }

end Library

end Shader
