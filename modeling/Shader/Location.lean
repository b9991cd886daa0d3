/-!
# Source locations
-/

namespace Shader

/-- A place in a source file; lines and columns count from one. -/
structure Location where
  file : String
  line : Nat
  column : Nat
  deriving DecidableEq, Repr

namespace Location

/-- Where something is that has no place in a source file. -/
def unknown : Location := ⟨"<unknown>", 0, 0⟩

instance : Inhabited Location := ⟨unknown⟩

def text (l : Location) : String := s!"{l.file}:{l.line}:{l.column}"

end Location

end Shader
