import Shader.Library.Basic

/-!
# Look-ups through dependencies

A look-up answers with the first library that has an answer of its own, where the library itself
comes before its dependencies and each dependency before the next one.
-/

namespace Shader

namespace Library

section

variable {α : Type} (own : Library → Option α)

mutual

/-- The answer of a library, or else of the first of its dependencies that has one. -/
def search? : Library → Option α
  | l@⟨_, _, _, _, _, _, dependencies, _, _, _, _⟩ =>
    match own l with
    | some a => some a
    | none => searchAll? dependencies

def searchAll? : List Library → Option α
  | [] => none
  | l :: ls =>
    match search? l with
    | some a => some a
    | none => searchAll? ls

end

end

def findLibrary? (l : Library) (id : LibraryId) : Option Library :=
  l.search? fun m => if m.id = id then some m else none

mutual

/-- The function a reference stands for. The library that it names answers for itself alone. -/
def resolveRoutine? : Library → FunctionRef → Option Routine
  | l@⟨_, _, _, _, _, _, dependencies, _, _, _, _⟩, f =>
    if f.library = l.id then l.routine? f else resolveRoutineAll? dependencies f

def resolveRoutineAll? : List Library → FunctionRef → Option Routine
  | [], _ => none
  | l :: ls, f =>
    match resolveRoutine? l f with
    | some r => some r
    | none => resolveRoutineAll? ls f

end

/-- The type of a class, with the library that defines it. -/
def findClassType? (l : Library) (c : ClassId) : Option (Library × TypeRef) :=
  l.search? fun m => (m.classType? c).map fun ty => (m, ty)

def findFunction? (l : Library) (id : FunctionId) : Option FunctionRef :=
  l.search? fun m => m.functions.lookup id

def findRecord? (l : Library) (c : ClassId) : Option ClassRecord := l.search? fun m => m.record? c

def binaryRule? (l : Library) (key : BinaryKey) : Option BinaryRule :=
  l.search? fun m => m.rules.binary.lookup key

def unaryRule? (l : Library) (key : UnaryKey) : Option UnaryRule :=
  l.search? fun m => m.rules.unary.lookup key

def conversionRule? (l : Library) (key : ConversionKey) : Option ConversionRule :=
  l.search? fun m => m.rules.conversions.lookup key

def intrinsicRule? (l : Library) (key : IntrinsicKey) : Option IntrinsicRule :=
  l.search? fun m => m.rules.intrinsics.lookup key

end Library

end Shader
