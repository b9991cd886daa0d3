/-!
# Identities

The front end that resolves names gives every declaration a number. Classes, functions, properties
and locals are numbered separately, so each has a type of its own.

`Fresh` hands out numbers for trees that are assembled by hand.
-/

namespace Shader

structure ClassId where
  number : Nat
  deriving DecidableEq, Repr

/-- Identity of a function, a constructor, an accessor or a pre-constructor. -/
structure FunctionId where
  number : Nat
  deriving DecidableEq, Repr

structure PropertyId where
  number : Nat
  deriving DecidableEq, Repr

/-- Identity of a parameter or a local variable within one function. -/
structure LocalId where
  number : Nat
  deriving DecidableEq, Repr

def ClassId.text (i : ClassId) : String := s!"type#{i.number}"

def FunctionId.text (i : FunctionId) : String := s!"fn#{i.number}"

def PropertyId.text (i : PropertyId) : String := s!"prop#{i.number}"

def LocalId.text (i : LocalId) : String := s!"local#{i.number}"

/-- The numbers given out last, one for each sort of identity. -/
structure Fresh where
  classes : Nat := 0
  functions : Nat := 0
  properties : Nat := 0
  locals : Nat := 0

namespace Fresh

def classId (f : Fresh) : ClassId × Fresh :=
  (⟨f.classes + 1⟩, { f with classes := f.classes + 1 })

def functionId (f : Fresh) : FunctionId × Fresh :=
  (⟨f.functions + 1⟩, { f with functions := f.functions + 1 })

def propertyId (f : Fresh) : PropertyId × Fresh :=
  (⟨f.properties + 1⟩, { f with properties := f.properties + 1 })

def localId (f : Fresh) : LocalId × Fresh :=
  (⟨f.locals + 1⟩, { f with locals := f.locals + 1 })

end Fresh

end Shader
