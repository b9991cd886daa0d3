import Shader.Proofs.Scoping.Safety

/-!
# Outlines of finished functions

A function is opened with one block, its body is drawn from there, and repair makes every placed block
end in its first terminator, or in a return if it has none. So the blocks of a finished function can
be read off the outline of its body (`Routine.Drawn`).
-/

namespace Shader

open Outcome

/-! ### Marks of finished blocks -/

/-- The last operation of the block is a terminator with the given opcode. -/
def Block.EndsIn (b : Block) (opcode : Opcode) : Prop := b.terminator?.map Op.opcode = some opcode

instance (b : Block) (opcode : Opcode) : Decidable (b.EndsIn opcode) :=
  inferInstanceAs (Decidable (_ = _))

/-- The block is there and is placed. -/
def Routine.Places (r : Routine) (c : BlockId) : Prop := c ∈ r.order ∧ ∃ b, r.block? c = some b

/-- **Marks of a block.** A block that heads nothing names no points, the head of a selection names a
placed block where its branches meet again, and the head of a loop one for that and one for the next
round, and ends in a branch. -/
def Block.Marked (r : Routine) (b : Block) : Prop :=
  match b.role with
  | .direct => b.merge = none ∧ b.continuation = none
  | .selection => ∃ m, b.merge = some m ∧ r.Places m
  | .loop => (∃ m, b.merge = some m ∧ r.Places m) ∧ (∃ c, b.continuation = some c ∧ r.Places c) ∧
      b.EndsIn .branch

/-- If the block heads a selection, it branches. -/
def Block.Forks (b : Block) : Prop := b.role = .selection → b.EndsIn .branchConditional

instance (b : Block) : Decidable b.Forks := inferInstanceAs (Decidable (_ → _))

/-- A block is the finished form of what control flow sees of it. A block that has not been left
returns. -/
structure Block.Finishes (k : Node) (b : Block) : Prop where
  role : b.role = k.role
  merge : b.merge = k.merge
  continuation : b.continuation = k.continuation
  ending : ∃ opcode, (opcode = .ret ∨ opcode = .retValue) ∧
    b.terminator?.map Op.opcode = k.ending.or (some opcode)

/-- **Drawn functions.** The placed blocks of a function are the finished forms of what an outline
draws. -/
structure Routine.Drawn (o : Outline) (r : Routine) : Prop where
  order : r.order = (o.draw .entry).order
  blocks : ∀ c ∈ r.order, ∃ k b, (o.draw .entry).node? c = some k ∧ r.block? c = some b ∧
    b.Finishes k

variable {b : Block}

namespace Block

theorem Finishes.endsIn_iff {k : Node} (h : b.Finishes k) (opcode : Opcode) (hret : opcode ≠ .ret)
    (hretValue : opcode ≠ .retValue) :
    b.EndsIn opcode ↔ k.ending = some opcode := by
  obtain ⟨other, hother, hending⟩ := h.ending
  unfold EndsIn
  rw [hending]
  cases k.ending with
  | some first => rw [Option.some_or]
  | none =>
    rw [Option.none_or]
    constructor
    · intro heq
      cases heq
      exact (hother.elim hret hretValue).elim
    · exact nofun

theorem Finishes.forks_iff {k : Node} (h : b.Finishes k) : b.Forks ↔ k.Forks := by
  unfold Forks Node.Forks
  rw [h.role, h.endsIn_iff .branchConditional nofun nofun]

end Block

namespace Routine

variable {o : Outline} {r : Routine}

theorem Drawn.exists_of_placed (h : r.Drawn o) (hb : b ∈ r.placed) :
    ∃ c k, (o.draw .entry).Placed c k ∧ b.Finishes k := by
  obtain ⟨c, hc, hblock⟩ := List.mem_filterMap.mp hb
  obtain ⟨k, b', hk, hb', hfinishes⟩ := h.blocks c hc
  cases hblock.symm.trans hb'
  exact ⟨c, k, ⟨h.order ▸ hc, hk⟩, hfinishes⟩

/-- **Marks are complete in a drawn function.** -/
theorem Drawn.marked (h : r.Drawn o) (hb : b ∈ r.placed) : b.Marked r := by
  have hplaces : ∀ m, m ∈ (o.draw .entry).order ∨ False → r.Places m := by
    intro m hm
    have hm : m ∈ r.order := h.order ▸ hm.resolve_right id
    obtain ⟨_, b, -, hb, -⟩ := h.blocks m hm
    exact ⟨hm, b, hb⟩
  obtain ⟨c, k, hplaced, hfinishes⟩ := h.exists_of_placed hb
  have hheaded := (Sketch.heads_draw o c k hplaced).mono hplaces
  unfold Block.Marked
  rw [hfinishes.role, hfinishes.merge, hfinishes.continuation,
    hfinishes.endsIn_iff .branch nofun nofun]
  obtain ⟨role, merge, continuation, ending⟩ := k
  cases role with
  | direct => exact hheaded
  | selection => exact hheaded.1
  | loop => exact hheaded

/-- **The heads of selections branch in a drawn function exactly if its outline is live.** -/
theorem Drawn.forks_iff (h : r.Drawn o) : (∀ b ∈ r.placed, b.Forks) ↔ o.live none = true := by
  rw [← Sketch.fine_draw o]
  constructor
  · intro hforks c k ⟨hc, hk⟩
    obtain ⟨k', b, hk', hb, hfinishes⟩ := h.blocks c (h.order ▸ hc)
    cases hk.symm.trans hk'
    exact hfinishes.forks_iff.mp (hforks b (List.mem_filterMap.mpr ⟨c, h.order ▸ hc, hb⟩))
  · intro hfine b hb
    obtain ⟨c, k, hplaced, hfinishes⟩ := h.exists_of_placed hb
    exact hfinishes.forks_iff.mpr (hfine c k hplaced)

end Routine

/-! ### Repair -/

/-- **A repaired block** is the finished form of the block. -/
theorem Block.finishes_mended (b : Block) {returnType : Option TypeRef} {tail : List Op}
    (h : Routine.Fallback returnType tail) : (b.mended tail).Finishes b.node := by
  obtain ⟨before, last, after, hops, hbefore, hlast, hcut⟩ := exists_split (h.any b.ops)
  have hterminator : (b.mended tail).terminator? = some last := by
    rw [terminator?, mended, hcut, List.getLast?_concat, Option.filter_some, if_pos hlast]
  have hfind : (b.ops ++ tail).find? Op.isTerminator = some last :=
    List.find?_eq_some_iff_append.mpr ⟨hlast, before, after, hops, by simpa using hbefore⟩
  rw [List.find?_append] at hfind
  unfold node
  cases hfirst : b.ops.find? Op.isTerminator with
  | some op =>
    rw [hfirst, Option.some_or, Option.some.injEq] at hfind
    exact ⟨rfl, rfl, rfl, .ret, .inl rfl, by rw [hterminator, hfind]; rfl⟩
  | none =>
    rw [hfirst, Option.none_or] at hfind
    refine ⟨rfl, rfl, rfl, last.opcode, ?_, by rw [hterminator]; rfl⟩
    refine (h.opcode (List.mem_of_find?_eq_some hfind)).resolve_left fun hundef => ?_
    rw [Op.isTerminator, hundef] at hlast
    cases hlast

/-- **A repaired function** is drawn by the outline that led to its sketch. -/
theorem Builder.drawn_repair {b : Builder} {o : Outline} (h : b.sketch = o.draw .entry)
    (returnType : Option TypeRef) : (b.routine.repair returnType).Drawn o := by
  have hsound : b.sketch.Sound := h ▸ Sketch.sound_draw o
  have horder := b.routine.order_repair returnType
  refine ⟨horder.trans (congrArg Sketch.order h), fun c hc => ?_⟩
  rw [horder] at hc
  have hlt : c.index < b.routine.blocks.length := by
    simpa [Builder.sketch] using hsound.within c hc
  obtain ⟨tail, hfallback, hb'⟩ := (b.routine.block?_repair returnType
    (List.getElem?_eq_getElem hlt)).1 hc
  refine ⟨_, _, ?_, hb', Block.finishes_mended _ hfallback⟩
  rw [← h]
  unfold Sketch.node? Builder.sketch
  rw [List.getElem?_map, List.getElem?_eq_getElem hlt]
  rfl

/-! ### Opening a function -/

namespace Emit

theorem parameter_draws (name : String) (ty : TypeRef) (location : Location) :
    Draws (build location (Builder.parameter name ty)) id := by
  refine build_draws location fun b v b' h => ?_
  obtain ⟨-, rfl⟩ := ok_eq_ok.mp h
  rfl

theorem parameters_draws (location : Location) (ps : List ParameterDecl) :
    Draws (parameters location ps) id := by
  induction ps with
  | nil => exact .pure _
  | cons p ps ih =>
    unfold parameters
    refine (onScope_draws _).straight fun ty => ?_
    exact (parameter_draws p.name ty location).straight fun v => ih.straight fun _ => .pure _

/-- **Opening a function** places its first block, and nothing else. -/
theorem opening_sketch {object : Option TypeRef} {ps : List ParameterDecl} {location : Location}
    {e e' : Emitter} {u : Unit} (h : opening object ps location e = (.ok u, e'))
    (hempty : e.builder.sketch = {}) : e'.builder.sketch = .entry := by
  have hobject : Draws (object.mapM fun owner => do
      let pointer ← pointerType owner location
      return (← build location (Builder.parameter "this" pointer), owner)) id := by
    cases object with
    | none => exact .pure _
    | some owner =>
      refine Draws.straight ?_ fun _ => .pure _
      refine (onScope_draws _).straight fun pointer => ?_
      exact (parameter_draws "this" pointer location).straight fun _ => .pure _
  unfold opening at h
  obtain ⟨this, e₁, h₁, h⟩ := bind_ok.mp h
  obtain ⟨qs, e₂, h₂, h⟩ := bind_ok.mp h
  have hsketch := (parameters_draws location ps _ _ _ h₂).trans (hobject _ _ _ h₁)
  obtain ⟨hblocks, horder, -⟩ := Sketch.mk.inj (hsketch.trans hempty)
  -- the first block is placed and entered
  obtain ⟨c, e₃, h₃, h⟩ := bind_ok.mp h
  obtain ⟨b, hb, rfl⟩ := build_ok.mp h₃
  obtain ⟨_, e₄, h₄, h⟩ := bind_ok.mp h
  obtain ⟨b', hb', rfl⟩ := build_ok.mp h₄
  obtain rfl := entryBlock_ok (List.map_eq_nil_iff.mp hblocks) horder hb hb'
  replace h := after_ok h rfl
  -- parameters are copied in it
  have hcopies : Draws (copyParameters location qs) id := .forM fun (p, v, ty) _ =>
    (declareLocal_draws p.id p.name ty location).straight fun pointer => plain_draws .store _ location
  exact hcopies _ _ _ h

end Emit

/-- **What a body has become** is drawn by its outline. -/
theorem Draft.Becomes.drawn {s₀ s : Scope} {g : FunctionRef} {d : Draft} {r : Routine}
    {o : Outline} (h : d.Becomes s₀ s g r)
    (hbody : ∀ w, (Emit.tracedStages s₀ (fun _ _ => True) true).Emits w d.body o fun _ _ => True) :
    r.Drawn o := by
  obtain ⟨s₁, p, e, hs₁, hstart, hrun, -, rfl⟩ := h
  obtain ⟨-, r, _, _, -, -, -, rfl⟩ := Emit.start_ok hstart
  obtain ⟨_, e₁, hopening, hrun⟩ := bind_ok.mp hrun
  have htraces := (Emit.opening_traces (C := fun _ _ => True) _ _ _ _ _ _ hopening (.refl hs₁)).1
  have hsketch := (hbody ⟨e₁, hs₁.trans htraces.reaches⟩).draws hrun
  exact Builder.drawn_repair (hsketch.trans (congrArg o.draw (Emit.opening_sketch hopening rfl))) _

end Shader
