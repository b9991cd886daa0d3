/-!
# References of the intermediate representation

Types, constants and functions are referred to by their place in the library that owns them, values
and blocks by their number within one function.

These numbers have no bound here. Where they are words of 32 bits, all that is said about them holds as
long as there are fewer than `2 ^ 32` types, constants and functions in a library, and of values and
blocks in a function.
-/

namespace Shader

/-- A type of a registry. -/
structure TypeRef where
  index : Nat
  deriving DecidableEq, Repr

/-- A result within one function. -/
structure ValueId where
  number : Nat
  deriving DecidableEq, Repr

structure BlockId where
  index : Nat
  deriving DecidableEq, Repr

structure ConstantId where
  index : Nat
  deriving DecidableEq, Repr

structure LibraryId where
  number : Nat
  deriving DecidableEq, Repr

structure FunctionRef where
  library : LibraryId
  index : Nat
  deriving DecidableEq, Repr

def TypeRef.text (t : TypeRef) : String := s!"T{t.index}"

def ValueId.text (v : ValueId) : String := s!"%{v.number}"

def BlockId.text (b : BlockId) : String := s!"bb{b.index}"

def ConstantId.text (c : ConstantId) : String := s!"#{c.index}"

def LibraryId.text (l : LibraryId) : String := s!"lib{l.number}"

def FunctionRef.text (f : FunctionRef) : String := "@" ++ f.library.text ++ s!".{f.index}"

end Shader
