import Shader.Lowering.Tree
import Shader.Proofs.Lowering.Steps
import Mathlib.Data.Set.Insert

/-!
# Constructs with blocks of their own

A choice, a condition and a loop are emitted by the same few steps. Blocks are allocated, the current
block is left for them, and one after the other they are started, filled and left, until the last one is
started. Here the three constructs are written by means of these steps (`Emit.shortCircuit_eq`,
`Emit.selection_eq_ifThen`, `Emit.selection_eq_ifElse`, `Emit.loop_eq`), so that a fact about them needs
a look at each step only.
-/

namespace Shader

open Outcome

namespace Emit

/-- The last step of the opening of a function: the parameters are copied into variables. -/
def copyParameters (location : Location) (qs : List (ParameterDecl × ValueId × TypeRef)) :
    EmitM Unit :=
  qs.forM fun (p, v, ty) => do
    let pointer ← declareLocal p.id p.name ty location
    store pointer (.value v) location

/-- The current block branches, and its branches meet in another one. -/
def fork (merge : BlockId) (condition : Operand) (ifTrue ifFalse : BlockId) (location : Location) :
    EmitM Unit := do
  build location (Builder.changeCurrent (·.markSelection merge))
  build location (Builder.branchIf condition ifTrue ifFalse)

/-- A block is started, filled and left for another one. -/
def arm (block : BlockId) (fill : EmitM Unit) (exit : BlockId) (location : Location) :
    EmitM Unit := do
  startBlock block location
  fill
  branch exit location

/-- A loop is left or goes on, as its condition says. -/
def loopTest (condition : Option Expr) (inner merge : BlockId) (location : Location) : EmitM Unit :=
  match condition with
  | some condition => do
    let value ← Emit.value condition
    build location (Builder.branchIf value.1 inner merge)
  | none => branch inner location

/-- One thing for `||`, and another for `&&`. -/
def either {α : Type} : ShortCircuit → α → α → α
  | .or, a, _ => a
  | .and, _, b => b

theorem shortCircuit_eq (kind : ShortCircuit) (left : Typed) (right : EmitM Typed)
    (location : Location) : shortCircuit kind left right location = (do
      let temp ← newStorage left.2 (either kind "tempOr" "tempAnd") location
      let keep ← build location (Builder.block "ifTrue")
      let eval ← build location (Builder.block "ifFalse")
      let merge ← build location (Builder.block "mergePoint")
      fork merge left.1 (either kind keep eval) (either kind eval keep) location
      arm keep (store temp left.1 location) merge location
      arm eval (do store temp (← right).1 location) merge location
      startBlock merge location
      return .storage temp left.2) := by
  cases kind <;> simp only [shortCircuit, fork, arm, either, bind_assoc]

section

variable (condition : Expr) (body : EmitM Unit) (location : Location)

theorem selection_eq_ifThen : selection condition body none location = (do
    let test ← Emit.value condition
    let merge ← build location (Builder.block "ifMerge")
    let ifTrue ← build location (Builder.block "ifTrue")
    fork merge test.1 ifTrue merge location
    arm ifTrue body merge location
    startBlock merge location) := by
  simp only [selection, fork, arm, Option.isSome_none, Bool.false_eq_true, if_false, bind_assoc,
    pure_bind]

theorem selection_eq_ifElse (rest : EmitM Unit) :
    selection condition body (some rest) location = (do
      let test ← Emit.value condition
      let merge ← build location (Builder.block "ifMerge")
      let ifTrue ← build location (Builder.block "ifTrue")
      let ifFalse ← build location (Builder.block "ifFalse")
      fork merge test.1 ifTrue ifFalse location
      arm ifTrue body merge location
      arm ifFalse rest merge location
      startBlock merge location) := by
  simp only [selection, fork, arm, Option.isSome_some, if_true, bind_assoc]

end

theorem loop_eq (condition : Option Expr) (body : LoopTargets → EmitM Unit) (step : EmitM Unit)
    (location : Location) : loop condition body step location = (do
      let header ← build location (Builder.block "headerBlock")
      let test ← build location (Builder.block "conditionBlock")
      let inner ← build location (Builder.block "loop-body")
      let next ← build location (Builder.block "continueBlock")
      let merge ← build location (Builder.block "after-loop")
      branch header location
      arm header (build location (Builder.changeCurrent (·.markLoop merge next))) test location
      startBlock test location
      loopTest condition inner merge location
      arm inner (body ⟨merge, next⟩) next location
      arm next step header location
      startBlock merge location) := by
  cases condition <;> simp only [loop, arm, loopTest, bind_assoc]

end Emit

end Shader
