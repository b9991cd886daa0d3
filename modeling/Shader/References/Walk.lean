import Shader.References.Basic

/-!
# Finding recursion

Shaders have no call stack, so no item may refer to itself, directly or through others. The walk
follows the references of every declaration depth first, expands each symbol once and stops when it
meets a symbol that it is still inside of. It then knows the way from a declaration to that symbol.

Each step inward enters a symbol that it was not inside of, so the walk is never deeper than the
tree has items.

The list of expanded symbols is the set of visited ones as well: a symbol is put into both at the same
place, when it is entered, and it is never taken out.
-/

namespace Shader

/-- A way from a declaration back to something that it is inside of, outermost place first. -/
structure Recursion where
  stack : List Location
  deriving DecidableEq, Repr

def Recursion.location (r : Recursion) : Location := r.stack.head?.getD .unknown

/-- The state of a walk. -/
structure Walk where
  /-- The symbols entered so far, in order. -/
  expanded : List Symbol := []
  /-- The symbols that the walk is inside of, innermost first. -/
  inside : List Symbol := []
  deriving DecidableEq, Repr

abbrev WalkM := ExceptT Recursion (StateM Walk)

namespace Walk

def enter (s : Symbol) (w : Walk) : Walk := ⟨w.expanded ++ [s], s :: w.inside⟩

def leave (s : Symbol) (w : Walk) : Walk := { w with inside := w.inside.erase s }

/-- Visits an item and all that it leads to, at most `depth` symbols deep. -/
def visit (d : Declarations) : Nat → List Location → Item → WalkM Unit
  | 0, _, _ => return
  | depth + 1, trace, item => do
    let trace := trace ++ [item.location]
    let w ← get
    if item.symbol ∈ w.inside then throw ⟨trace⟩
    unless item.symbol ∈ w.expanded do
      modify (enter item.symbol)
      (item.references d).forM fun r => visit d depth (trace ++ r.via) r.item
      modify (leave item.symbol)

end Walk

namespace Tree

def itemCount (t : Tree) : Nat :=
  t.classes.foldl (fun n c => n + 1 + c.constructors.length + c.functions.length +
    c.members.length + (c.members.flatMap VariableDecl.accessors).length) 0

def walk (t : Tree) : WalkM Unit :=
  let d := Declarations.ofTree t
  (t.classes.flatMap ClassDecl.declared).forM fun r => Walk.visit d (t.itemCount + 1) r.via r.item

def recursion? (t : Tree) : Option Recursion :=
  match (t.walk {}).1 with
  | .ok _ => none
  | .error r => some r

end Tree

end Shader
