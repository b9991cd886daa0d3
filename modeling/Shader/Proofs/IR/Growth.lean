import Shader.IR.Builder
import Shader.Proofs.IR.Repair

/-!
# How a function under construction grows

Emission only adds to a function: operations at the end of the current block, variables, new blocks.
So what has been emitted for an expression can be found again in the finished function, at a place
that is known when it is emitted.

* The steps of construction are described one by one (`value_ok`, `build_ok`,
  `localVariable_ok`, `block_ok`, `mark_ok`, `startBlock_ok`), each with what it does to these.
-/

namespace Shader

open Outcome

namespace Routine

/-- The operations of a block. -/
def opsOf (f : Routine) (c : BlockId) : List Op := (f.block? c).elim [] Block.ops

/-- The variables of a function. -/
def locals (f : Routine) : List Op := f.entryBlock?.elim [] Block.locals

end Routine

namespace Builder

/-- A block has been changed, and construction goes on in the same block. -/
structure Changes (b b' : Builder) : Prop where
  parameters : b'.routine.parameters = b.routine.parameters
  length : b'.routine.blocks.length = b.routine.blocks.length
  order : b'.routine.order = b.routine.order
  current : b'.current = b.current

/-- What holds once the first block has been placed. -/
structure WellFormed (b : Builder) : Prop where
  order : b.routine.order.Nodup
  entry : ∃ c x, b.routine.order.head? = some c ∧ b.routine.block? c = some x ∧ x.id = c
  /-- Every variable has a number of its own. -/
  locals : ∀ op ∈ b.routine.locals, ∃ id ty, op.result = some id ∧ op.resultType = some ty ∧
    id.number < b.routine.nextValue
  distinct : (b.routine.locals.map Op.result).Nodup

/-! ### Changing one block -/

variable {c : BlockId}

section Change

variable {f : Routine} {c : BlockId} {x : Block} {change : Block → Block}

theorem opsOf_of_block? {f : Routine} {x : Block} (h : f.block? c = some x) :
    f.opsOf c = x.ops := by
  unfold Routine.opsOf
  rw [h]
  rfl

theorem opsOf_modifyBlock_of_ne (f : Routine) {c d : BlockId} (h : d ≠ c)
    (change : Block → Block) : (f.modifyBlock c change).opsOf d = f.opsOf d := by
  unfold Routine.opsOf
  rw [Routine.block?_modifyBlock, if_neg h]

theorem opsOf_modifyBlock (h : f.block? c = some x) :
    (f.modifyBlock c change).opsOf c = (change x).ops := by
  refine opsOf_of_block? ?_
  rw [Routine.block?_modifyBlock, if_pos rfl, h]
  rfl

theorem length_modifyBlock (f : Routine) (c : BlockId) (change : Block → Block) :
    (f.modifyBlock c change).blocks.length = f.blocks.length := List.length_modify _ _ _

/-- The variables are those of the first block. -/
theorem locals_modifyBlock_of_locals (f : Routine) (c : BlockId)
    (h : ∀ x : Block, (change x).locals = x.locals) : (f.modifyBlock c change).locals = f.locals := by
  unfold Routine.locals Routine.entryBlock? Routine.entry?
  change (f.order.head?.bind (f.modifyBlock c change).block?).elim [] Block.locals = _
  cases f.order.head? with
  | none => rfl
  | some d =>
    dsimp only [Option.bind_some]
    rw [Routine.block?_modifyBlock]
    split
    · cases f.block? d with
      | none => rfl
      | some y => exact h y
    · rfl

theorem entry_modifyBlock {f : Routine} (c : BlockId) (h : ∀ x : Block, (change x).id = x.id)
    (hentry : ∃ d x, f.order.head? = some d ∧ f.block? d = some x ∧ x.id = d) :
    ∃ d x, (f.modifyBlock c change).order.head? = some d ∧
      (f.modifyBlock c change).block? d = some x ∧ x.id = d := by
  obtain ⟨d, x, hd, hx, hid⟩ := hentry
  by_cases heq : d = c
  · refine ⟨d, change x, hd, ?_, (h x).trans hid⟩
    rw [Routine.block?_modifyBlock, if_pos heq, hx]
    rfl
  · refine ⟨d, x, hd, ?_, hid⟩
    rw [Routine.block?_modifyBlock, if_neg heq, hx]

end Change

variable {b b' : Builder} {change : Block → Block} {u : Unit}

theorem changeBlock_ok (h : changeBlock c change b = (.ok u, b')) :
    ∃ x, b.routine.block? c = some x ∧ b' = { b with routine := b.routine.modifyBlock c change } := by
  unfold changeBlock at h
  replace h := after_ok h rfl
  cases hx : b.routine.block? c with
  | none =>
    rw [hx] at h
    exact absurd h error_ne_ok
  | some x =>
    rw [hx] at h
    obtain ⟨-, rfl⟩ := ok_eq_ok.mp h
    exact ⟨x, rfl, rfl⟩

theorem changeCurrent_ok (h : changeCurrent change b = (.ok u, b')) :
    ∃ c x, b.current = some c ∧ b.routine.block? c = some x ∧
      b' = { b with routine := b.routine.modifyBlock c change } := by
  unfold changeCurrent currentBlock at h
  obtain ⟨c, b₁, h₁, h⟩ := bind_ok.mp h
  replace h₁ := after_ok h₁ rfl
  cases hc : b.current with
  | none =>
    rw [hc] at h₁
    exact absurd h₁ error_ne_ok
  | some d =>
    rw [hc] at h₁
    obtain ⟨rfl, rfl⟩ := ok_eq_ok.mp h₁
    obtain ⟨x, hx, heq⟩ := changeBlock_ok h
    rw [hc] at heq
    exact ⟨d, x, rfl, hx, heq⟩

/-! ### Appending operations -/

/-- An operation has been appended to the current block, and `n` results have been numbered. -/
structure Appends (n : Nat) (op : Op) (b b' : Builder) (c : BlockId) (x : Block) : Prop where
  current : b.current = some c
  block : b.routine.block? c = some x
  eq : b' = { b with routine :=
    ({ b.routine with nextValue := b.routine.nextValue + n }).modifyBlock c (·.push op) }

section Appends

variable {n : Nat} {op : Op} {b b' : Builder} {c : BlockId} {x : Block}

section

variable (h : Appends n op b b' c x)
include h

theorem Appends.current' : b'.current = some c := by
  rw [h.eq]
  exact h.current

theorem Appends.opsOf :
    b'.routine.opsOf c = b.routine.opsOf c ++ [op] := by
  rw [h.eq, opsOf_of_block? h.block]
  exact opsOf_modifyBlock (f := { b.routine with nextValue := b.routine.nextValue + n }) h.block

theorem Appends.nextValue :
    b'.routine.nextValue = b.routine.nextValue + n := by
  rw [h.eq]
  rfl

theorem Appends.locals : b'.routine.locals = b.routine.locals := by
  rw [h.eq]
  exact locals_modifyBlock_of_locals { b.routine with nextValue := b.routine.nextValue + n } c
    fun _ => rfl

theorem Appends.changes : b.Changes b' := by
  rw [h.eq]
  exact ⟨rfl, length_modifyBlock _ _ _, rfl, rfl⟩

theorem Appends.wellFormed (hb : b.WellFormed) : b'.WellFormed where
  order := by rw [h.eq]; exact hb.order
  entry := by
    rw [h.eq]
    exact entry_modifyBlock c (fun _ => rfl) hb.entry
  locals := by
    intro o ho
    rw [h.locals] at ho
    obtain ⟨id, ty, h₁, h₂, h₃⟩ := hb.locals o ho
    exact ⟨id, ty, h₁, h₂, by rw [h.nextValue]; omega⟩
  distinct := by rw [h.locals]; exact hb.distinct

end

end Appends

/-- An operation with a result is appended. -/
theorem value_ok {opcode : Opcode} {ty : TypeRef} {operands : List Operand} {v : ValueId}
    (h : value opcode ty operands b = (.ok v, b')) :
    v = ⟨b.routine.nextValue⟩ ∧ ∃ c x, Appends 1
      { opcode := opcode, result := some v, resultType := some ty, operands := operands } b b' c x := by
  unfold value at h
  replace h := after_ok h rfl
  obtain ⟨_, b₂, h₂, rfl, rfl⟩ := return_ok.mp h
  obtain ⟨c, x, hc, hx, rfl⟩ := changeCurrent_ok h₂
  exact ⟨rfl, c, x, hc, hx, rfl⟩

/-- An operation with or without a result is appended. -/
theorem build_ok {opcode : Opcode} {ty : Option TypeRef} {operands : List Operand}
    {v : Option ValueId} (h : build opcode ty operands b = (.ok v, b')) :
    v = ty.map (fun _ => ⟨b.routine.nextValue⟩) ∧ ∃ n c x, Appends n
      { opcode := opcode, result := v, resultType := ty, operands := operands } b b' c x ∧
      n = if ty.isSome then 1 else 0 := by
  unfold build at h
  cases ty with
  | none =>
    replace h := after_ok h rfl
    obtain ⟨_, b₂, h₂, rfl, rfl⟩ := return_ok.mp h
    obtain ⟨c, x, hc, hx, rfl⟩ := changeCurrent_ok h₂
    exact ⟨rfl, 0, c, x, ⟨hc, hx, rfl⟩, rfl⟩
  | some ty =>
    obtain ⟨_, b₁, hmap, h⟩ := bind_ok.mp h
    obtain ⟨v', _, hnew, rfl, rfl⟩ := return_ok.mp hmap
    obtain ⟨rfl, rfl⟩ := ok_eq_ok.mp hnew
    obtain ⟨_, b₂, h₂, rfl, rfl⟩ := return_ok.mp h
    obtain ⟨c, x, hc, hx, rfl⟩ := changeCurrent_ok h₂
    exact ⟨rfl, 1, c, x, ⟨hc, hx, rfl⟩, rfl⟩

/-! ### Variables -/

/-- A variable has been declared. -/
structure Declares (op : Op) (v : ValueId) (b b' : Builder) : Prop where
  id : v = ⟨b.routine.nextValue⟩
  eq : ∃ c x, b.routine.order.head? = some c ∧ b.routine.block? c = some x ∧
    b' = { b with routine :=
      ({ b.routine with nextValue := b.routine.nextValue + 1 }).modifyBlock c (·.pushLocal op) }

/-- Declaring a variable appends to the variables of the function, and to nothing else. -/
theorem localVariable_ok {ty : TypeRef} {name : String} {v : ValueId}
    (h : localVariable ty name b = (.ok v, b')) :
    Declares { opcode := .declare, result := some v, resultType := some ty, name := some name }
      v b b' := by
  unfold localVariable at h
  replace h := after_ok h rfl
  cases hentry : b.routine.entry? with
  | none =>
    rw [hentry] at h
    exact absurd h error_ne_ok
  | some c =>
    rw [hentry] at h
    replace h := after_ok h rfl
    obtain ⟨_, b₂, hchange, rfl, rfl⟩ := return_ok.mp h
    obtain ⟨x, hx, rfl⟩ := changeBlock_ok hchange
    exact ⟨rfl, c, x, hentry, hx, rfl⟩

section Declares

variable {op : Op} {v : ValueId} {b b' : Builder}

section

variable (h : Declares op v b b')
include h

theorem Declares.nextValue :
    b'.routine.nextValue = b.routine.nextValue + 1 := by
  obtain ⟨c, x, -, -, rfl⟩ := h.eq
  rfl

theorem Declares.opsOf (d : BlockId) :
    b'.routine.opsOf d = b.routine.opsOf d := by
  obtain ⟨c, x, -, hx, rfl⟩ := h.eq
  by_cases hd : d = c
  · rw [hd, opsOf_of_block? hx]
    exact opsOf_modifyBlock (f := { b.routine with nextValue := b.routine.nextValue + 1 }) hx
  · exact opsOf_modifyBlock_of_ne _ hd _

theorem Declares.locals :
    b'.routine.locals = b.routine.locals ++ [op] := by
  obtain ⟨c, x, hc, hx, rfl⟩ := h.eq
  unfold Routine.locals Routine.entryBlock? Routine.entry?
  change (b.routine.order.head?.bind (Routine.modifyBlock _ c _).block?).elim [] Block.locals = _
  rw [hc, Option.bind_some, Option.bind_some, Routine.block?_modifyBlock, if_pos rfl, hx]
  change ((b.routine.block? c).map _).elim [] Block.locals = _
  rw [hx]
  rfl

theorem Declares.changes : b.Changes b' := by
  obtain ⟨c, x, -, -, rfl⟩ := h.eq
  exact ⟨rfl, length_modifyBlock _ _ _, rfl, rfl⟩

theorem Declares.wellFormed (hop : op.result = some v) (hty : ∃ ty, op.resultType = some ty)
    (hb : b.WellFormed) : b'.WellFormed where
  order := by obtain ⟨c, x, -, -, rfl⟩ := h.eq; exact hb.order
  entry := by
    obtain ⟨c, x, -, -, rfl⟩ := h.eq
    exact entry_modifyBlock c (fun _ => rfl) hb.entry
  locals := by
    intro o ho
    rw [h.locals] at ho
    rcases List.mem_append.mp ho with ho | ho
    · obtain ⟨id, ty, h₁, h₂, h₃⟩ := hb.locals o ho
      exact ⟨id, ty, h₁, h₂, by rw [h.nextValue]; omega⟩
    · obtain rfl := List.mem_singleton.mp ho
      obtain ⟨ty, hty⟩ := hty
      refine ⟨v, ty, hop, hty, ?_⟩
      rw [h.nextValue, h.id]
      exact Nat.lt_succ_self _
  distinct := by
    rw [h.locals, List.map_append, List.nodup_append]
    refine ⟨hb.distinct, List.pairwise_singleton _ _, fun r hr r' hr' heq => ?_⟩
    -- an earlier variable has a smaller number
    obtain ⟨o, ho, rfl⟩ := List.mem_map.mp hr
    obtain ⟨id, ty, hid, -, hlt⟩ := hb.locals o ho
    obtain rfl := List.mem_singleton.mp hr'
    rw [hid, hop, Option.some.injEq] at heq
    rw [heq, h.id] at hlt
    exact Nat.lt_irrefl _ hlt

end

end Declares

/-! ### Blocks -/

/-- A new block has the next number. -/
theorem block_ok {name : String} (h : block name b = (.ok c, b')) :
    c = ⟨b.routine.blocks.length⟩ ∧ b' = { b with routine := { b.routine with
      blocks := b.routine.blocks ++ [{ id := c, name := name }] } } := by
  obtain ⟨rfl, rfl⟩ := ok_eq_ok.mp h
  exact ⟨rfl, rfl⟩

section Block

variable {name : String} {b b' : Builder} {c : BlockId}

section

variable (h : block name b = (.ok c, b'))
include h

theorem block?_block_of_some {d : BlockId} {x : Block} (hx : b.routine.block? d = some x) :
    b'.routine.block? d = some x := by
  obtain ⟨-, rfl⟩ := block_ok h
  have hlt : d.index < b.routine.blocks.length := (List.getElem?_eq_some_iff.mp hx).1
  exact (List.getElem?_append_left hlt).trans hx

theorem opsOf_block (d : BlockId) :
    b'.routine.opsOf d = b.routine.opsOf d := by
  cases hx : b.routine.block? d with
  | some x => rw [opsOf_of_block? hx, opsOf_of_block? (block?_block_of_some h hx)]
  | none =>
    obtain ⟨rfl, rfl⟩ := block_ok h
    have hle : b.routine.blocks.length ≤ d.index := List.getElem?_eq_none_iff.mp hx
    unfold Routine.opsOf
    rw [hx]
    unfold Routine.block?
    dsimp only
    rw [List.getElem?_append_right hle]
    cases d.index - b.routine.blocks.length with
    | zero => rfl
    | succ n => rfl

/-- A new block is empty. -/
theorem opsOf_new_block : b'.routine.opsOf c = [] := by
  rw [opsOf_block h]
  obtain ⟨rfl, -⟩ := block_ok h
  unfold Routine.opsOf Routine.block?
  rw [List.getElem?_eq_none (Nat.le_refl _)]
  rfl

theorem length_block :
    b'.routine.blocks.length = b.routine.blocks.length + 1 := by
  obtain ⟨-, rfl⟩ := block_ok h
  exact List.length_append

end

theorem locals_block (hb : b.WellFormed) (h : block name b = (.ok c, b')) :
    b'.routine.locals = b.routine.locals := by
  obtain ⟨d, x, hd, hx, -⟩ := hb.entry
  have hx' := block?_block_of_some h hx
  obtain ⟨-, rfl⟩ := block_ok h
  unfold Routine.locals Routine.entryBlock? Routine.entry?
  dsimp only
  rw [hd, Option.bind_some, Option.bind_some, hx, hx']

theorem wellFormed_block (hb : b.WellFormed) (h : block name b = (.ok c, b')) : b'.WellFormed where
  order := by obtain ⟨-, rfl⟩ := block_ok h; exact hb.order
  entry := by
    obtain ⟨d, x, hd, hx, hid⟩ := hb.entry
    refine ⟨d, x, ?_, block?_block_of_some h hx, hid⟩
    obtain ⟨-, rfl⟩ := block_ok h
    exact hd
  locals := by
    rw [locals_block hb h]
    obtain ⟨-, rfl⟩ := block_ok h
    exact hb.locals
  distinct := by rw [locals_block hb h]; exact hb.distinct

end Block

/-- Marking a block leaves what it does alone. -/
structure Marks (b b' : Builder) : Prop where
  opsOf : ∀ d, b'.routine.opsOf d = b.routine.opsOf d
  locals : b'.routine.locals = b.routine.locals
  changes : b.Changes b'
  wellFormed : b.WellFormed → b'.WellFormed

theorem mark_ok (hchange : ∀ x : Block, change x =
      { x with role := (change x).role, merge := (change x).merge,
               continuation := (change x).continuation })
    (h : changeCurrent change b = (.ok u, b')) :
    Marks b b' := by
  obtain ⟨c, x, hc, hx, rfl⟩ := changeCurrent_ok h
  have hops : ∀ y, (change y).ops = y.ops := fun y => by rw [hchange y]
  have hlocals : ∀ y, (change y).locals = y.locals := fun y => by rw [hchange y]
  have hid : ∀ y, (change y).id = y.id := fun y => by rw [hchange y]
  have hopsOf : ∀ d, (b.routine.modifyBlock c change).opsOf d = b.routine.opsOf d := by
    intro d
    by_cases hd : d = c
    · rw [hd, opsOf_modifyBlock hx, hops, opsOf_of_block? hx]
    · exact opsOf_modifyBlock_of_ne _ hd _
  have hsame := locals_modifyBlock_of_locals b.routine c hlocals
  exact ⟨hopsOf, hsame, ⟨rfl, length_modifyBlock _ _ _, rfl, rfl⟩, fun hb =>
    ⟨hb.order, entry_modifyBlock c hid hb.entry, fun o ho => hb.locals o (hsame ▸ ho),
      by rw [hsame]; exact hb.distinct⟩⟩

/-- A block has been placed and made the current one. -/
structure Starts (c : BlockId) (b b' : Builder) : Prop where
  current : b'.current = some c
  placed : c ∈ b'.routine.order
  order : ∀ d, d ∈ b'.routine.order ↔ d = c ∨ d ∈ b.routine.order
  eq : ∃ order, b.routine.order <+: order ∧ b' = ⟨{ b.routine with order := order }, some c⟩
  wellFormed : b.WellFormed → b'.WellFormed

theorem startBlock_ok (h : (do place c; enter c : BuildM Unit) b = (.ok u, b')) :
    Starts c b b' := by
  replace h := after_ok h rfl
  obtain ⟨-, rfl⟩ := ok_eq_ok.mp h
  dsimp only
  unfold Routine.place
  by_cases hc : c ∈ b.routine.order
  · rw [if_pos hc]
    refine ⟨rfl, hc, fun d => (or_iff_right_of_imp ?_).symm, ⟨_, List.prefix_refl _, rfl⟩,
      fun hb => ⟨hb.order, hb.entry, hb.locals, hb.distinct⟩⟩
    rintro rfl
    exact hc
  · rw [if_neg hc]
    refine ⟨rfl, List.mem_append_right _ List.mem_cons_self, fun d => ?_,
      ⟨_, List.prefix_append _ _, rfl⟩, fun hb => ?_⟩
    · rw [List.mem_append, List.mem_singleton]
      exact or_comm
    obtain ⟨d, x, hd, hx, hid⟩ := hb.entry
    have hhead : (b.routine.order ++ [c]).head? = some d := by
      rw [List.head?_append, hd]
      rfl
    have hlocals : ({ b.routine with order := b.routine.order ++ [c] } : Routine).locals =
        b.routine.locals := by
      unfold Routine.locals Routine.entryBlock? Routine.entry?
      rw [hhead, hd]
      rfl
    refine ⟨?_, ⟨d, x, hhead, hx, hid⟩, fun o ho => hb.locals o (hlocals ▸ ho), ?_⟩
    · refine List.nodup_append.mpr ⟨hb.order, List.pairwise_singleton _ _, ?_⟩
      rintro a ha _ hc' rfl
      exact hc (List.mem_singleton.mp hc' ▸ ha)
    · exact hlocals.symm ▸ hb.distinct

theorem Starts.opsOf (h : Starts c b b') (d : BlockId) :
    b'.routine.opsOf d = b.routine.opsOf d := by
  obtain ⟨order, -, rfl⟩ := h.eq
  rfl

theorem Starts.locals (h : Starts c b b') (hb : b.WellFormed) :
    b'.routine.locals = b.routine.locals := by
  obtain ⟨order, ⟨more, rfl⟩, rfl⟩ := h.eq
  obtain ⟨d, x, hd, hx, hid⟩ := hb.entry
  have hhead : (b.routine.order ++ more).head? = some d := by
    rw [List.head?_append, hd]
    rfl
  unfold Routine.locals Routine.entryBlock? Routine.entry?
  rw [hhead, hd]
  rfl

end Builder

end Shader
