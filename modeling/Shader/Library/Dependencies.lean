import Shader.Library.Basic

/-!
# Flattening dependencies

The libraries behind some roots, each once, nearest first: the roots in order, then what they depend
on directly, and so on. Only complete libraries may be depended on.
-/

namespace Shader

namespace Library

mutual

/-- The number of libraries that a library leads to, counted along every way. -/
def extent : Library → Nat
  | ⟨_, _, _, _, _, _, dependencies, _, _, _, _⟩ => 1 + extents dependencies

def extents : List Library → Nat
  | [] => 0
  | l :: ls => l.extent + extents ls

end

theorem extent_eq (l : Library) : l.extent = 1 + extents l.dependencies := by
  cases l; simp [extent]

@[simp] theorem extents_append (ls ms : List Library) :
    extents (ls ++ ms) = extents ls + extents ms := by
  induction ls with
  | nil => simp [extents]
  | cons l ls ih => simp [extents, ih]; omega

/-- Goes through the libraries that wait, given those that have been taken. A library that is taken
sends its dependencies to the end of the queue. Stops at a library that is not complete. -/
def flattenFrom (taken : List Library) : List Library → Except Library (List Library)
  | [] => .ok taken
  | l :: queue =>
    if taken.any (·.id = l.id) then flattenFrom taken queue
    else if l.complete then flattenFrom (taken ++ [l]) (queue ++ l.dependencies)
    else .error l
termination_by queue => extents queue
decreasing_by
  · have := extent_eq l; simp [extents]; omega
  · have := extent_eq l; simp [extents]; omega

/-- The libraries behind some roots, or the first one met that is not complete. -/
def flatten (roots : List Library) : Except Library (List Library) := flattenFrom [] roots

end Library

end Shader
