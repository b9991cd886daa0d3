import Shader.Proofs.IR.Growth
import Mathlib.Data.List.Nodup
import Mathlib.Data.Set.Insert

/-!
# Blocks in forward order

Blocks are allocated in one order and placed in another. A branch may name a block that is not
placed yet; it is placed later, and then stands behind the block that branches to it. Only the way
back to the head of a loop leads to a block that stands before.
-/

namespace Shader

open Outcome

/-! ### The order of blocks -/

namespace Routine

/-- The second block is placed, behind the first one. -/
def Later (r : Routine) (c d : BlockId) : Prop := d ∈ r.order ∧ r.order.idxOf c < r.order.idxOf d

/-- A placed block that heads a loop. -/
def HeadsLoop (r : Routine) (c : BlockId) : Prop :=
  c ∈ r.order ∧ ∃ x, r.block? c = some x ∧ x.role = .loop

/-- **Forward order.** Every block is placed once. A block leads to blocks that are placed behind it
or head a loop, and the points that its mark names are placed behind it. -/
structure Forward (r : Routine) : Prop where
  once : ∀ c, c.index < r.blocks.length → r.order.count c = 1
  targets : ∀ c x, r.block? c = some x → ∀ op ∈ x.ops, ∀ d ∈ op.targets,
    r.Later c d ∨ r.HeadsLoop d
  points : ∀ c x, r.block? c = some x → ∀ d, x.merge = some d ∨ x.continuation = some d →
    r.Later c d

/-- Blocks are placed at the end, so that the order of those that are placed stays as it is. -/
theorem Later.mono {r r' : Routine} {c d : BlockId} (h : r.Later c d) (hc : c ∈ r.order)
    (horder : r.order <+: r'.order) : r'.Later c d := by
  obtain ⟨new, hnew⟩ := horder
  obtain ⟨hd, hlt⟩ := h
  unfold Later
  rw [← hnew, List.idxOf_append_of_mem hc, List.idxOf_append_of_mem hd]
  exact ⟨List.mem_append_left _ hd, hlt⟩

theorem Later.congr {r r' : Routine} {c d : BlockId} (h : r.Later c d)
    (horder : r'.order = r.order) :
    r'.Later c d := by
  unfold Later
  rw [horder]
  exact h

end Routine

/-! ### The invariant of construction -/

/-- Nothing has been done with the block. -/
structure Block.Blank (x : Block) : Prop where
  role : x.role = .direct
  merge : x.merge = none
  continuation : x.continuation = none
  ops : x.ops = []

namespace Builder

/-- The blocks that have been allocated and not placed. -/
def waiting (b : Builder) : Set BlockId :=
  { c | c.index < b.routine.blocks.length ∧ c ∉ b.routine.order }

/-- A branch may lead to the block: it waits to be placed, or it heads a loop. -/
def Goes (b : Builder) (c : BlockId) : Prop := c ∈ b.waiting ∨ b.routine.HeadsLoop c

/-- **Laying out blocks.** What a placed block leads to waits to be placed, is placed behind it, or
heads a loop. -/
structure Laid (b : Builder) : Prop where
  within : ∀ c ∈ b.routine.order, c.index < b.routine.blocks.length
  current : ∃ c ∈ b.routine.order, b.current = some c
  blank : ∀ c ∈ b.waiting, ∀ x, b.routine.block? c = some x → x.Blank
  targets : ∀ c ∈ b.routine.order, ∀ x, b.routine.block? c = some x → ∀ op ∈ x.ops,
    ∀ d ∈ op.targets, b.Goes d ∨ b.routine.Later c d
  points : ∀ c ∈ b.routine.order, ∀ x, b.routine.block? c = some x →
    ∀ d, x.merge = some d ∨ x.continuation = some d → d ∈ b.waiting ∨ b.routine.Later c d

/-- **A step of the layout** keeps what heads a loop. -/
structure Lays (b b' : Builder) : Prop where
  laid : b'.Laid
  loops : ∀ c, b.routine.HeadsLoop c → b'.routine.HeadsLoop c

/-- The current block does not head a loop, so that it may be marked. -/
def Open (b : Builder) : Prop :=
  ∀ c x, b.current = some c → b.routine.block? c = some x → x.role ≠ .loop

variable {b b' : Builder} {c : BlockId} {op : Op}

theorem Laid.mem_order (h : b.Laid) (hc : b.current = some c) : c ∈ b.routine.order := by
  obtain ⟨d, hd, hcurrent⟩ := h.current
  exact Option.some.inj (hcurrent.symm.trans hc) ▸ hd

theorem waiting_eq (hlength : b'.routine.blocks.length = b.routine.blocks.length)
    (horder : b'.routine.order = b.routine.order) : b'.waiting = b.waiting := by
  unfold waiting
  rw [hlength, horder]

/-- A change of a placed block that keeps the head of a loop, and leads only where branches may
lead. -/
theorem Laid.modify (h : b.Laid) {f : Block → Block}
    (hblocks : b'.routine.blocks = b.routine.blocks.modify c.index f)
    (horder : b'.routine.order = b.routine.order) (hcurrent : b'.current = b.current)
    (hc : c ∈ b.routine.order)
    (hrole : ∀ x, b.routine.block? c = some x → x.role = .loop → (f x).role = .loop)
    (hops : ∀ x, b.routine.block? c = some x → ∀ op ∈ (f x).ops,
      op ∈ x.ops ∨ ∀ d ∈ op.targets, b.Goes d) (hpoints : ∀ x, b.routine.block? c = some x →
      ∀ d, (f x).merge = some d ∨ (f x).continuation = some d →
        (x.merge = some d ∨ x.continuation = some d) ∨ d ∈ b.waiting) : b.Lays b' := by
  have hlength : b'.routine.blocks.length = b.routine.blocks.length := by
    rw [hblocks, List.length_modify]
  have hwaiting := waiting_eq hlength horder
  have hblock : ∀ d, b'.routine.block? d =
      if d = c then (b.routine.block? d).map f else b.routine.block? d := by
    intro d
    rw [← Routine.block?_modifyBlock, Routine.block?, hblocks]
    rfl
  have hlater : ∀ {d e}, b.routine.Later d e → b'.routine.Later d e := (·.congr horder)
  have hloops : ∀ d, b.routine.HeadsLoop d → b'.routine.HeadsLoop d := by
    rintro d ⟨hd, x, hx, hloop⟩
    refine ⟨horder ▸ hd, ?_⟩
    rw [hblock]
    by_cases hdc : d = c
    · subst hdc
      rw [if_pos rfl, hx]
      exact ⟨_, rfl, hrole x hx hloop⟩
    · rw [if_neg hdc]
      exact ⟨x, hx, hloop⟩
  have hgoes : ∀ {d}, b.Goes d → b'.Goes d := by
    intro d hd
    unfold Goes
    rw [hwaiting]
    exact hd.imp_right (hloops d)
  refine ⟨⟨?_, ?_, fun d hd x hx => ?_, fun d hd x hx op hop e he => ?_, fun d hd x hx e he => ?_⟩,
    hloops⟩
  · rw [horder, hlength]
    exact h.within
  · rw [horder, hcurrent]
    exact h.current
  · -- a block that waits is not placed, so it is not the one that changes
    rw [hwaiting] at hd
    have hne : d ≠ c := by
      rintro rfl
      exact hd.2 hc
    rw [hblock, if_neg hne] at hx
    exact h.blank d hd x hx
  · rw [horder] at hd
    have hold : ∀ y, b.routine.block? d = some y → op ∈ y.ops → b'.Goes e ∨ b'.routine.Later d e :=
      fun y hy hop => (h.targets d hd y hy op hop e he).imp hgoes hlater
    rw [hblock] at hx
    by_cases hdc : d = c
    · rw [if_pos hdc] at hx
      obtain ⟨y, hy, rfl⟩ := Option.map_eq_some_iff.mp hx
      rcases hops y (hdc ▸ hy) op hop with hop | htargets
      · exact hold y hy hop
      · exact .inl (hgoes (htargets e he))
    · rw [if_neg hdc] at hx
      exact hold x hx hop
  · rw [horder] at hd
    rw [hwaiting]
    have hold : ∀ y, b.routine.block? d = some y → y.merge = some e ∨ y.continuation = some e →
        e ∈ b.waiting ∨ b'.routine.Later d e :=
      fun y hy he => (h.points d hd y hy e he).imp_right hlater
    rw [hblock] at hx
    by_cases hdc : d = c
    · rw [if_pos hdc] at hx
      obtain ⟨y, hy, rfl⟩ := Option.map_eq_some_iff.mp hx
      rcases hpoints y (hdc ▸ hy) e he with he | hwaits
      · exact hold y hy he
      · exact .inl hwaits
    · rw [if_neg hdc] at hx
      exact hold x hx he

/-- A change that leaves marks alone keeps a block open. -/
theorem Open.modify (h : b.Open) {f : Block → Block}
    (hblocks : b'.routine.blocks = b.routine.blocks.modify c.index f)
    (hcurrent : b'.current = b.current) (hrole : ∀ x : Block, x.role ≠ .loop → (f x).role ≠ .loop) :
    b'.Open := by
  intro d x hd hx
  have hblock : b'.routine.block? d = (b.routine.modifyBlock c f).block? d := by
    rw [Routine.block?, hblocks]
    rfl
  rw [hblock, Routine.block?_modifyBlock] at hx
  rw [hcurrent] at hd
  split at hx
  · obtain ⟨y, hy, rfl⟩ := Option.map_eq_some_iff.mp hx
    exact hrole y (h d y hd hy)
  · exact h d x hd hx

/-- An operation is appended that leads only where branches may lead. -/
theorem Appends.lays {n : Nat} {x : Block} (h : Appends n op b b' c x) (hb : b.Laid)
    (hop : ∀ d ∈ op.targets, b.Goes d) : b.Lays b' := by
  refine hb.modify (c := c) (f := (·.push op)) (by rw [h.eq]; rfl) (by rw [h.eq]; rfl)
    (h.current'.trans h.current.symm) (hb.mem_order h.current) (fun _ _ hrole => hrole)
    (fun y _ o ho => ?_) fun y _ d hd => .inl hd
  rcases List.mem_append.mp ho with ho | ho
  · exact .inl ho
  · obtain rfl := List.mem_singleton.mp ho
    exact .inr hop

theorem Appends.open {n : Nat} {x : Block} (h : Appends n op b b' c x) (hb : b.Open) :
    b'.Open :=
  hb.modify (c := c) (f := (·.push op)) (by rw [h.eq]; rfl)
    (h.current'.trans h.current.symm) fun _ hrole => hrole

theorem Declares.lays {v : ValueId} (h : Declares op v b b') (hb : b.Laid) :
    b.Lays b' := by
  obtain ⟨c, x, hc, hx, rfl⟩ := h.eq
  exact hb.modify (c := c) (f := (·.pushLocal op)) rfl rfl rfl (List.mem_of_mem_head? hc)
    (fun _ _ hrole => hrole) (fun _ _ _ ho => .inl ho) fun _ _ _ hd => .inl hd

theorem Declares.open {v : ValueId} (h : Declares op v b b') (hb : b.Open) : b'.Open := by
  obtain ⟨c, x, -, -, rfl⟩ := h.eq
  exact hb.modify (c := c) (f := (·.pushLocal op)) rfl rfl fun _ hrole => hrole

/-- The head of a selection. -/
theorem Laid.markSelection (hb : b.Laid) (hopen : b.Open) {merge : BlockId} (hmerge : merge ∈ b.waiting)
    {u : Unit} (h : changeCurrent (·.markSelection merge) b = (.ok u, b')) :
    b.Lays b' ∧ b'.Open := by
  obtain ⟨c, x, hc, hx, rfl⟩ := changeCurrent_ok h
  refine ⟨hb.modify (c := c) (f := (·.markSelection merge)) rfl rfl rfl (hb.mem_order hc)
    (fun y hy hrole => absurd hrole (hopen c y hc hy)) (fun _ _ _ ho => .inl ho) fun y _ d hd => ?_,
    hopen.modify (c := c) (f := (·.markSelection merge)) rfl rfl fun _ _ => nofun⟩
  rcases hd with hd | hd
  · exact .inr (Option.some.inj hd ▸ hmerge)
  · exact .inl (.inr hd)

/-- The head of a loop. From now on branches may lead back to it. -/
theorem Laid.markLoop (hb : b.Laid) {c merge next : BlockId} (hc : b.current = some c)
    (hmerge : merge ∈ b.waiting) (hnext : next ∈ b.waiting) {u : Unit}
    (h : changeCurrent (·.markLoop merge next) b = (.ok u, b')) :
    b.Lays b' ∧ b'.routine.HeadsLoop c := by
  obtain ⟨c', x, hc', hx, rfl⟩ := changeCurrent_ok h
  obtain rfl := Option.some.inj (hc'.symm.trans hc)
  refine ⟨hb.modify (c := c') (f := (·.markLoop merge next)) rfl rfl rfl (hb.mem_order hc)
    (fun _ _ _ => rfl) (fun _ _ _ ho => .inl ho) fun y _ d hd => ?_, hb.mem_order hc,
    x.markLoop merge next, ?_, rfl⟩
  · rcases hd with hd | hd
    · exact .inr (Option.some.inj hd ▸ hmerge)
    · exact .inr (Option.some.inj hd ▸ hnext)
  · rw [Routine.block?_modifyBlock, if_pos rfl, hx]
    rfl

/-- A new block waits. -/
theorem waiting_block (hb : b.Laid) {name : String} (h : block name b = (.ok c, b')) :
    b'.waiting = insert c b.waiting ∧ c ∉ b.waiting := by
  obtain ⟨rfl, rfl⟩ := block_ok h
  refine ⟨?_, fun hc => Nat.lt_irrefl _ hc.1⟩
  ext ⟨i⟩
  simp only [waiting, Set.mem_ofPred_eq, Set.mem_insert_iff, BlockId.mk.injEq, List.length_append,
    List.length_singleton, Nat.lt_succ_iff_lt_or_eq]
  constructor
  · rintro ⟨hi | rfl, hnot⟩
    · exact .inr ⟨hi, hnot⟩
    · exact .inl rfl
  · rintro (rfl | ⟨hi, hnot⟩)
    · exact ⟨.inr rfl, fun hmem => Nat.lt_irrefl _ (hb.within _ hmem)⟩
    · exact ⟨.inl hi, hnot⟩

theorem Laid.block (hb : b.Laid) {name : String} (h : block name b = (.ok c, b')) :
    b.Lays b' ∧ (b.Open → b'.Open) := by
  obtain ⟨hwaiting, -⟩ := waiting_block hb h
  have hold := fun {d x} => block?_block_of_some (d := d) (x := x) h
  have hlength := length_block h
  obtain ⟨hc, heq⟩ := block_ok h
  have horder : b'.routine.order = b.routine.order := by rw [heq]
  have hcurrent : b'.current = b.current := by rw [heq]
  have hnew : b'.routine.block? c = some { id := c, name := name } := by
    rw [heq, hc]
    exact List.getElem?_concat_length
  -- what is said about an older block is said about the same block
  have hsame : ∀ {d x}, d.index < b.routine.blocks.length → b'.routine.block? d = some x →
      b.routine.block? d = some x := by
    intro d x hlt hx
    have hy : b.routine.block? d = some b.routine.blocks[d.index] := List.getElem?_eq_getElem hlt
    rw [hy, Option.some.inj (hx.symm.trans (hold hy))]
  have hlater : ∀ {d e}, b.routine.Later d e → b'.routine.Later d e := (·.congr horder)
  have hloops : ∀ d, b.routine.HeadsLoop d → b'.routine.HeadsLoop d :=
    fun d ⟨hd, x, hx, hrole⟩ => ⟨horder ▸ hd, x, hold hx, hrole⟩
  have hwaits : ∀ {d}, d ∈ b.waiting → d ∈ b'.waiting := fun hd =>
    hwaiting ▸ Set.mem_insert_of_mem c hd
  refine ⟨⟨⟨?_, ?_, fun d hd x hx => ?_, fun d hd x hx op hop e he => ?_, fun d hd x hx e he => ?_⟩,
    hloops⟩, fun hopen d x hd hx => ?_⟩
  · rw [horder, hlength]
    exact fun d hd => Nat.lt_succ_of_lt (hb.within d hd)
  · rw [horder, hcurrent]
    exact hb.current
  · rw [hwaiting] at hd
    rcases Set.mem_insert_iff.mp hd with rfl | hd
    · cases hnew.symm.trans hx
      exact ⟨rfl, rfl, rfl, rfl⟩
    · exact hb.blank d hd x (hsame hd.1 hx)
  · rw [horder] at hd
    exact (hb.targets d hd x (hsame (hb.within d hd) hx) op hop e he).imp
      (Or.imp hwaits (hloops e)) hlater
  · rw [horder] at hd
    exact (hb.points d hd x (hsame (hb.within d hd) hx) e he).imp hwaits hlater
  · rw [hcurrent] at hd
    exact hopen d x hd (hsame (hb.within d (hb.mem_order hd)) hx)

theorem Starts.waiting (h : Starts c b b') : b'.waiting = b.waiting \ {c} := by
  have horder := h.order
  obtain ⟨order, -, rfl⟩ := h.eq
  ext d
  change _ ∧ ¬ d ∈ order ↔ (_ ∧ d ∉ b.routine.order) ∧ ¬ d = c
  rw [show d ∈ order ↔ _ from horder d, not_or]
  tauto

/-- **A block that waits is placed**, behind all others. -/
theorem Starts.lays (h : Starts c b b') (hb : b.Laid) (hc : c ∈ b.waiting) :
    b.Lays b' ∧ b'.Open := by
  have hwaiting := h.waiting
  have hmem := h.order
  obtain ⟨order, ⟨new, hnew⟩, rfl⟩ := h.eq
  have hlater : ∀ {d e}, d ∈ b.routine.order → b.routine.Later d e →
      Routine.Later { b.routine with order } d e := fun hd hde => hde.mono hd ⟨new, hnew⟩
  -- the block itself stands behind all that have been placed before
  have hbehind : ∀ {d}, d ∈ b.routine.order → Routine.Later { b.routine with order } d c := by
    intro d hd
    refine ⟨h.placed, ?_⟩
    change List.idxOf d order < List.idxOf c order
    rw [← hnew, List.idxOf_append_of_mem hd, List.idxOf_append_of_notMem hc.2]
    exact Nat.lt_add_right _ (List.idxOf_lt_length_of_mem hd)
  have hahead : ∀ {d e}, d ∈ b.routine.order → e ∈ b.waiting →
      e ∈ b.waiting \ {c} ∨ Routine.Later { b.routine with order } d e := by
    intro d e hd he
    by_cases hec : e = c
    · exact .inr (hec ▸ hbehind hd)
    · exact .inl ⟨he, hec⟩
  have hloops : ∀ d, b.routine.HeadsLoop d → Routine.HeadsLoop { b.routine with order } d :=
    fun d ⟨hd, x, hx, hrole⟩ => ⟨(hmem d).mpr (.inr hd), x, hx, hrole⟩
  refine ⟨⟨⟨fun d hd => ?_, ⟨c, h.placed, rfl⟩, fun d hd x hx => ?_, fun d hd x hx op hop e he => ?_,
    fun d hd x hx e he => ?_⟩, hloops⟩, fun d x hd hx => ?_⟩
  · rcases (hmem d).mp hd with rfl | hd
    · exact hc.1
    · exact hb.within d hd
  · rw [hwaiting] at hd
    exact hb.blank d hd.1 x hx
  · unfold Goes
    rw [hwaiting]
    rcases (hmem d).mp hd with rfl | hd
    · rw [(hb.blank d hc x hx).ops] at hop
      nomatch hop
    · rcases hb.targets d hd x hx op hop e he with (he | he) | he
      · exact (hahead hd he).imp_left .inl
      · exact .inl (.inr (hloops e he))
      · exact .inr (hlater hd he)
  · rw [hwaiting]
    rcases (hmem d).mp hd with rfl | hd
    · obtain ⟨-, hmerge, hnext, -⟩ := hb.blank d hc x hx
      rw [hmerge, hnext] at he
      rcases he with he | he <;> nomatch he
    · rcases hb.points d hd x hx e he with he | he
      · exact hahead hd he
      · exact .inr (hlater hd he)
  · cases hd
    rw [(hb.blank c hc x hx).role]
    exact nofun

end Builder

theorem Op.exists_of_mem_targets (op : Op) {d : BlockId} (h : d ∈ op.targets) :
    ∃ o ∈ op.operands, o.asBlock = some d := by
  unfold targets at h
  split at h
  · exact List.mem_filterMap.mp h
  · exact List.mem_filterMap.mp h
  · cases h

/-! ### Finished functions -/

/-- **A finished function is in forward order**, if no block waits any more. -/
theorem Builder.Laid.forward {b : Builder} (h : b.Laid) (hnodup : b.routine.order.Nodup)
    (hwaiting : b.waiting = ∅) (returnType : Option TypeRef) :
    (b.routine.repair returnType).Forward := by
  have horder := b.routine.order_repair returnType
  have hlength := b.routine.length_repair returnType
  have hplaced : ∀ c : BlockId, c.index < b.routine.blocks.length → c ∈ b.routine.order := by
    intro c hc
    by_contra hnot
    exact Set.notMem_empty c (hwaiting ▸ ⟨hc, hnot⟩)
  -- every block has been mended, with the same marks and no more targets
  have hmends : ∀ {c x'}, (b.routine.repair returnType).block? c = some x' → ∃ x tail,
      b.routine.block? c = some x ∧ c ∈ b.routine.order ∧ Routine.Fallback returnType tail ∧
        x' = x.mended tail := by
    intro c x' hx'
    obtain ⟨x, hx, hin, -⟩ := Routine.exists_of_block?_repair hx'
    have hc := hplaced c (List.getElem?_eq_some_iff.mp hx).1
    obtain ⟨tail, hfallback, heq⟩ := hin hc
    exact ⟨x, tail, hx, hc, hfallback, heq⟩
  have hlater : ∀ {c d}, b.routine.Later c d → (b.routine.repair returnType).Later c d :=
    (·.congr horder)
  refine ⟨fun c hc => ?_, fun c x' hx' op hop d hd => ?_, fun c x' hx' d hd => ?_⟩
  · rw [horder]
    rw [hlength] at hc
    exact List.count_eq_one_of_mem hnodup (hplaced c hc)
  · obtain ⟨x, tail, hx, hc, hfallback, rfl⟩ := hmends hx'
    rcases List.mem_append.mp ((Block.throughTerminator_prefix _).subset hop) with hop | hop
    · rcases h.targets c hc x hx op hop d hd with (hd | ⟨hd, y, hy, hrole⟩) | hd
      · exact absurd (hwaiting ▸ hd) (Set.notMem_empty d)
      · obtain ⟨_, -, hy'⟩ := (b.routine.block?_repair returnType hy).1 hd
        exact .inr ⟨horder.symm ▸ hd, _, hy', hrole⟩
      · exact .inl (hlater hd)
    · rcases hfallback.opcode hop with hopcode | hopcode | hopcode
      all_goals
        rw [Op.targets, hopcode] at hd
        cases hd
  · obtain ⟨x, tail, hx, hc, -, rfl⟩ := hmends hx'
    rcases h.points c hc x hx d hd with hd | hd
    · exact absurd (hwaiting ▸ hd) (Set.notMem_empty d)
    · exact hlater hd

end Shader
