import Shader.Proofs.IR.Growth
import Mathlib.Data.Set.Lattice

/-!
# Code in which everything is at hand

An operation refers to results of other operations, to constants, functions, types and blocks. It can
be run only if all of these are there. Results are the delicate part: one that is computed in a block
is at hand later only on the paths that go through that block.

So code is judged against a `Ground`, which says what there is and, for each block, which results are
at hand whenever the block is entered (`Ground.entry`). A branch has to provide them.

* `Ground.Allows` — a sequence of operations refers only to what is at hand. After a terminator
  everything counts as at hand: what follows is never run.
-/

namespace Shader

namespace Routine

/-- The parameters and variables of a function, which are at hand everywhere. -/
def fixed (f : Routine) : Set ValueId :=
  { v | (∃ p ∈ f.parameters, p.id = v) ∨ ∃ op ∈ f.locals, op.result = some v }

end Routine

/-- **What code may refer to.** -/
structure Ground where
  /-- The functions that can be called. -/
  known : FunctionRef → Prop
  constants : Nat
  types : Nat
  blocks : Nat
  /-- The results that are at hand when a block is entered. -/
  entry : BlockId → Set ValueId
  /-- What is at hand in all blocks. -/
  fixed : Set ValueId

/-- An operand that is there, where the given results are at hand. -/
def Operand.Usable (g : Ground) (S : Set ValueId) : Operand → Prop
  | .value v => v ∈ S ∪ g.fixed
  | .constant c => c.index < g.constants
  | .function f => g.known f
  | .block b => b.index < g.blocks ∧ g.entry b ⊆ S ∪ g.fixed

/-- An operation that refers only to what is there. -/
structure Op.Legal (g : Ground) (S : Set ValueId) (op : Op) : Prop where
  operands : ∀ o ∈ op.operands, o.Usable g S
  type : ∀ ty ∈ op.resultType, ty.index < g.types

/-- The results that are at hand after an operation. What follows a terminator is never run. -/
def Op.after (S : Set ValueId) (op : Op) : Set ValueId :=
  if op.isTerminator then Set.univ else S ∪ { v | op.result = some v }

namespace Ground

/-- **Allowed code.** Each operation refers only to what is at hand after those before it. -/
def Allows (g : Ground) : Set ValueId → List Op → Prop
  | _, [] => True
  | S, op :: ops => op.Legal g S ∧ g.Allows (op.after S) ops

/-- A later state of a ground. -/
structure Le (g g' : Ground) : Prop where
  known : ∀ f, g.known f → g'.known f
  constants : g.constants ≤ g'.constants
  types : g.types ≤ g'.types
  blocks : g.blocks ≤ g'.blocks
  entry : ∀ b : BlockId, b.index < g.blocks → g'.entry b = g.entry b
  fixed : g.fixed ⊆ g'.fixed

theorem Le.refl (g : Ground) : g.Le g :=
  ⟨fun _ h => h, Nat.le_refl _, Nat.le_refl _, Nat.le_refl _, fun _ _ => rfl, subset_rfl⟩

theorem Le.trans {g g' g'' : Ground} (h : g.Le g') (h' : g'.Le g'') : g.Le g'' where
  known f hf := h'.known f (h.known f hf)
  constants := Nat.le_trans h.constants h'.constants
  types := Nat.le_trans h.types h'.types
  blocks := Nat.le_trans h.blocks h'.blocks
  entry b hb := (h'.entry b (Nat.lt_of_lt_of_le hb h.blocks)).trans (h.entry b hb)
  fixed := h.fixed.trans h'.fixed

end Ground

section Mono

variable {g g' : Ground} {S S' : Set ValueId}

theorem Operand.Usable.mono (hg : g.Le g') (hS : S ∪ g.fixed ⊆ S' ∪ g'.fixed) {o : Operand}
    (h : o.Usable g S) : o.Usable g' S' := by
  cases o with
  | value v => exact hS h
  | constant c => exact Nat.lt_of_lt_of_le h hg.constants
  | function f => exact hg.known f h
  | block b =>
    refine ⟨Nat.lt_of_lt_of_le h.1 hg.blocks, ?_⟩
    rw [hg.entry b h.1]
    exact h.2.trans hS

theorem Op.Legal.mono (hg : g.Le g') (hS : S ∪ g.fixed ⊆ S' ∪ g'.fixed) {op : Op}
    (h : op.Legal g S) : op.Legal g' S' :=
  ⟨fun o ho => (h.operands o ho).mono hg hS,
    fun ty hty => Nat.lt_of_lt_of_le (h.type ty hty) hg.types⟩

theorem Op.after_mono (hS : S ⊆ S') (op : Op) : op.after S ⊆ op.after S' := by
  unfold after
  split
  · exact subset_rfl
  · exact Set.union_subset_union_left _ hS

theorem Op.subset_after (S : Set ValueId) (op : Op) : S ⊆ op.after S := by
  unfold after
  split
  · exact Set.subset_univ S
  · exact Set.subset_union_left

theorem Op.subset_foldl_after (S : Set ValueId) (ops : List Op) : S ⊆ ops.foldl Op.after S := by
  induction ops generalizing S with
  | nil => exact subset_rfl
  | cons op ops ih => exact (op.subset_after S).trans (ih _)

namespace Ground

theorem Allows.mono (hg : g.Le g') (hS : S ⊆ S') {ops : List Op} (h : g.Allows S ops) :
    g'.Allows S' ops := by
  induction ops generalizing S S' with
  | nil => exact True.intro
  | cons op ops ih =>
    exact ⟨h.1.mono hg (Set.union_subset_union hS hg.fixed), ih (op.after_mono hS) h.2⟩

theorem allows_append {ops ops' : List Op} :
    g.Allows S (ops ++ ops') ↔ g.Allows S ops ∧ g.Allows (ops.foldl Op.after S) ops' := by
  induction ops generalizing S with
  | nil => exact (true_and _ ▸ Iff.rfl)
  | cons op ops ih => exact (and_congr_right fun _ => ih).trans and_assoc.symm

/-- What remains up to the first terminator is allowed. -/
theorem Allows.throughTerminator {ops : List Op} (h : g.Allows S ops) :
    g.Allows S (Block.throughTerminator ops) := by
  induction ops generalizing S with
  | nil => exact True.intro
  | cons op ops ih =>
    rw [Block.throughTerminator_cons]
    split
    · exact ⟨h.1, True.intro⟩
    · exact ⟨h.1, ih h.2⟩

end Ground

end Mono

/-! ### Finished functions -/

namespace Routine

/-- What a function may refer to in a library with so many constants and types. -/
def ground (f : Routine) (known : FunctionRef → Prop) (constants types : Nat)
    (entry : BlockId → Set ValueId) : Ground :=
  ⟨known, constants, types, f.blocks.length, entry, f.fixed⟩

/-- **A function in which everything is at hand.** It has a first block, every block ends in a
terminator, and every operation before it refers only to what is at hand there. -/
structure Scoped (f : Routine) (known : FunctionRef → Prop) (constants types : Nat)
    (entry : BlockId → Set ValueId) : Prop where
  first : ∃ c x, f.order.head? = some c ∧ f.block? c = some x ∧ x.id = c ∧ entry c ⊆ f.fixed
  locals : ∀ op ∈ f.locals, ∃ id ty, op.result = some id ∧ op.resultType = some ty ∧
    ty.index < types
  code : ∀ c b, f.block? c = some b →
    (f.ground known constants types entry).Allows (entry c) (Block.throughTerminator b.ops) ∧
      (Block.throughTerminator b.ops).any Op.isTerminator = true

theorem Scoped.mono {f : Routine} {known known' : FunctionRef → Prop}
    {constants constants' types types' : Nat} {entry : BlockId → Set ValueId}
    (h : f.Scoped known constants types entry) (hknown : ∀ g, known g → known' g)
    (hconstants : constants ≤ constants') (htypes : types ≤ types') :
    f.Scoped known' constants' types' entry := by
  have hle : (f.ground known constants types entry).Le (f.ground known' constants' types' entry) :=
    ⟨hknown, hconstants, htypes, Nat.le_refl _, fun _ _ => rfl, subset_rfl⟩
  refine ⟨h.first, fun op hop => ?_, fun c b hb => ?_⟩
  · obtain ⟨id, ty, hid, hty, hlt⟩ := h.locals op hop
    exact ⟨id, ty, hid, hty, Nat.lt_of_lt_of_le hlt htypes⟩
  · exact ⟨(h.code c b hb).1.mono hle subset_rfl, (h.code c b hb).2⟩

end Routine

end Shader
