import Shader.Library.Core
import Shader.Project

/-!
# Workspaces

A workspace numbers libraries in the order in which they are made and keeps them under names. It
starts with the core library, which has number 0.
-/

namespace Shader

structure Workspace where
  /-- The kept libraries, newest first. -/
  libraries : List (String × Library) := [("Core", Core.library ⟨0⟩)]
  next : Nat := 1

namespace Workspace

def library? (w : Workspace) (name : String) : Option Library := w.libraries.lookup name

def libraries? (w : Workspace) (names : List String) : Option (List Library) :=
  names.mapM w.library?

/-- Keeps a library under a name, in place of an earlier one. -/
def keep (w : Workspace) (name : String) (l : Library) : Workspace :=
  { w with libraries := (name, l) :: w.libraries }

def build (w : Workspace) (p : Project) (dependencies : List Library) (name : String) :
    Build × Workspace :=
  let b := p.build dependencies w.next
  let w := { w with next := b.next }
  match b.result with
  | .ok l => (b, w.keep name l)
  | .error _ => (b, w)

/-- Makes a library with the dependencies of given names and keeps what becomes of it under a name.
If a dependency is not known there is no library, but its number is used up all the same. -/
def make {α : Type} (w : Workspace) (libraryName : String) (dependencies : List String)
    (name : String) (f : Library → Library × α) : Option (Library × α) × Workspace :=
  let rest := { w with next := w.next + 1 }
  match w.libraries? dependencies with
  | none => (none, rest)
  | some dependencies =>
    let (l, a) := f { id := ⟨w.next⟩, name := libraryName, dependencies := dependencies }
    (some (l, a), rest.keep name l)

end Workspace

end Shader
