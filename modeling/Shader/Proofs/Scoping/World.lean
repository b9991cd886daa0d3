import Shader.Proofs.Lowering.Written
import Shader.Proofs.Scoping.Legal
import Shader.Proofs.Structure.Forward
import Shader.Proofs.Types.Closed

/-!
# Stages of emission

Emission allocates blocks before it fills them, and it leaves code behind that is never reached. So
what is at hand in a block cannot be read off the function under construction. It is followed by hand:
a `World` is a stage of emission together with the results that each block finds at hand. A new block
finds what is at hand where it is allocated, since every branch to it comes later.

* `World.Grows` — the relation between a stage and a later one; `World.Continues` says in addition
  that what was at hand still is, and that the same blocks wait to be placed.
* Each elementary step is described by the stage that it leads to (`World.append`, `World.declare`,
  `World.allocate`, `World.start` and the others).
-/

namespace Shader

open Outcome

/-! ### The scope -/

variable {ty : TypeRef} {v : ValueId}

namespace Scope

/-- What can be found from the scope of a declared tree has the property. -/
structure Anchored (K : FunctionRef → Prop) (s₀ : Scope) : Prop where
  named : ∀ id f, s₀.Names id f → K f
  shaped : ∀ cid shape f, s₀.Shapes cid shape → shape.preConstructor = some f → K f

/-- The types of a scope are closed, and those of its classes are among them. -/
structure Grounded (s : Scope) : Prop where
  types : s.library.types.Closed
  classes : ∀ p ∈ s.classes, p.2.ty.index < s.library.types.size

/-- A later state of a scope. -/
structure Advances (s s' : Scope) : Prop where
  grounded : s'.Grounded
  constants : s.library.constants.length ≤ s'.library.constants.length
  types : s.library.types.size ≤ s'.library.types.size
  routines : s'.library.routines.length = s.library.routines.length

variable {s s' s'' : Scope} {location : Location}

theorem Advances.refl (h : s.Grounded) : s.Advances s := ⟨h, Nat.le_refl _, Nat.le_refl _, rfl⟩

theorem Advances.trans (h : s.Advances s') (h' : s'.Advances s'') : s.Advances s'' :=
  ⟨h'.grounded, Nat.le_trans h.constants h'.constants, Nat.le_trans h.types h'.types,
    h'.routines.trans h.routines⟩

theorem Grounded.onTypes (h : s.Grounded) {x : TypeM TypeRef} (hx : Registry.Enters x)
    {t : TypeRef} (hrun : onTypes location x s = (.ok t, s')) :
    s.Advances s' ∧ t.index < s'.library.types.size := by
  obtain ⟨types, htypes, rfl⟩ := onTypes_ok.mp hrun
  obtain ⟨hreach, hlt⟩ := hx _ _ _ htypes h.types
  exact ⟨⟨⟨hreach.closed, fun p hp => Nat.lt_of_lt_of_le (h.classes p hp) hreach.size⟩,
    Nat.le_refl _, hreach.size, rfl⟩, hlt⟩

theorem Grounded.constant (h : s.Grounded) {value : Literal} {c : ConstantId}
    (hrun : constant ty value s = (.ok c, s')) :
    s.Advances s' ∧ c.index < s'.library.constants.length := by
  unfold Scope.constant at hrun
  obtain ⟨rfl, rfl⟩ := ok_eq_ok.mp hrun
  cases hfind : s.library.constants.findIdx? (· = ⟨ty, value⟩) with
  | some i => exact ⟨.refl h, (List.findIdx?_eq_some_iff_getElem.mp hfind).1⟩
  | none =>
    refine ⟨⟨⟨h.types, h.classes⟩, ?_, Nat.le_refl _, rfl⟩, ?_⟩
    · simp
    · simp

theorem Grounded.classShape (h : s.Grounded) {id : ClassId} {shape : ClassShape}
    (hrun : classShape id location s = (.ok shape, s')) :
    s.Advances s' ∧ shape.ty.index < s'.library.types.size := by
  rcases classShape_ok hrun with ⟨hlookup, rfl⟩ | ⟨-, source, ty, types, -, htypes, rfl⟩
  · exact ⟨.refl h, h.classes _ (mem_of_lookup_eq_some hlookup)⟩
  · have hrun : Scope.onTypes location (Registry.importType source.types ty) s = _ :=
      onTypes_ok.mpr ⟨types, htypes, rfl⟩
    obtain ⟨⟨hgrounded, hconstants, hsize, hroutines⟩, hlt⟩ :=
      h.onTypes (Registry.importType_enters source.types ty) hrun
    exact ⟨⟨⟨hgrounded.types, List.forall_mem_cons.mpr ⟨hlt, hgrounded.classes⟩⟩, hconstants, hsize,
      hroutines⟩, hlt⟩

theorem Grounded.lowerType (h : s.Grounded) {spec : TypeSpec} {t : TypeRef}
    (hrun : lowerType spec location s = (.ok t, s')) :
    s.Advances s' ∧ t.index < s'.library.types.size := by
  rcases lowerType_ok hrun with ⟨id, shape, -, rfl, hshape⟩ | ⟨types, htypes, rfl⟩
  · exact h.classShape hshape
  · have hrun : Scope.onTypes location (Registry.lowerBuiltin spec) s = _ :=
      onTypes_ok.mpr ⟨types, htypes, rfl⟩
    exact h.onTypes (Registry.lowerBuiltin_enters spec) hrun

/-- Emission only adds to the scope. -/
theorem Reaches.advances (h : s.Reaches s') (hs : s.Grounded) : s.Advances s' := by
  induction h with
  | start => exact .refl hs
  | lowerType _ h ih => exact ih.trans (ih.grounded.lowerType h).1
  | pointerType _ h ih => exact ih.trans (ih.grounded.onTypes (Registry.pointerType_enters _) h).1
  | classShape _ h ih => exact ih.trans (ih.grounded.classShape h).1
  | constant _ h ih => exact ih.trans (ih.grounded.constant h).1
  | install _ h ih =>
    obtain ⟨rfl, -⟩ := Library.routine?_of_install? h
    exact ⟨⟨ih.grounded.types, ih.grounded.classes⟩, ih.constants, ih.types,
      List.length_set.trans ih.routines⟩

end Scope

/-! ### Stages -/

/-- What the function under construction may refer to. -/
def Emitter.ground (K : FunctionRef → Prop) (e : Emitter) (entry : BlockId → Set ValueId) : Ground :=
  e.builder.routine.ground K e.scope.library.constants.length e.scope.library.types.size entry

/-- The results that are at hand at the end of the current block. -/
def Builder.here (b : Builder) (entry : BlockId → Set ValueId) : Set ValueId :=
  { v | ∀ c ∈ b.current, v ∈ (b.routine.opsOf c).foldl Op.after (entry c) }

/-- **A stage of emission.** All code so far is allowed, for results that are at hand when the blocks
are entered. -/
structure Emitter.Stage (K : FunctionRef → Prop) (s₀ : Scope) (e : Emitter)
    (entry : BlockId → Set ValueId) : Prop where
  reaches : s₀.Reaches e.scope
  scope : e.scope.Grounded
  built : e.builder.WellFormed
  laid : e.builder.Laid
  code : ∀ c : BlockId, c.index < e.builder.routine.blocks.length →
    (e.ground K entry).Allows (entry c) (e.builder.routine.opsOf c)
  first : ∀ c, e.builder.routine.order.head? = some c → entry c ⊆ e.builder.routine.fixed
  types : ∀ op ∈ e.builder.routine.locals, ∀ ty ∈ op.resultType,
    ty.index < e.scope.library.types.size
  locals : ∀ p ∈ e.locals, p.2.1 ∈ e.builder.routine.fixed ∧
    p.2.2.index < e.scope.library.types.size
  this : ∀ p ∈ e.this, p.1 ∈ e.builder.routine.fixed ∧ p.2.index < e.scope.library.types.size

/-- A stage of emission with the results that each block finds at hand. -/
structure World (K : FunctionRef → Prop) (s₀ : Scope) where
  emitter : Emitter
  entry : BlockId → Set ValueId
  stage : emitter.Stage K s₀ entry

namespace World

variable {K : FunctionRef → Prop} {s₀ : Scope}

/-- What may be referred to. -/
def ground (w : World K s₀) : Ground := w.emitter.ground K w.entry

/-- What is at hand. -/
def hand (w : World K s₀) : Set ValueId :=
  w.emitter.builder.here w.entry ∪ w.emitter.builder.routine.fixed

/-- The blocks that wait to be placed. -/
def waiting (w : World K s₀) : Set BlockId := w.emitter.builder.waiting

/-- The current block may be marked. -/
def Open (w : World K s₀) : Prop := w.emitter.builder.Open

/-- The type is there. -/
def HasType (w : World K s₀) (ty : TypeRef) : Prop := ty.index < w.emitter.scope.library.types.size

/-- The operand may be used. -/
def Usable (w : World K s₀) (o : Operand) : Prop :=
  o.Usable w.ground (w.emitter.builder.here w.entry) ∧ ∀ b ∈ o.asBlock, w.emitter.builder.Goes b

/-- A block that has been allocated and finds the given results at hand. -/
def Aims (w : World K s₀) (b : BlockId) (S : Set ValueId) : Prop :=
  b.index < w.ground.blocks ∧ w.entry b = S

/-- **A later stage.** -/
structure Grows (w w' : World K s₀) : Prop where
  ground : w.ground.Le w'.ground
  loops : ∀ b, w.emitter.builder.routine.HeadsLoop b → w'.emitter.builder.routine.HeadsLoop b
  returnType : w'.emitter.returnType = w.emitter.returnType

/-- **A stage inside of a construct** that begins at another one. -/
structure Within (w w' : World K s₀) : Prop extends Grows w w' where
  hand : w.hand ⊆ w'.hand
  waiting : w.waiting ⊆ w'.waiting

/-- **A stage that continues another one.** What was at hand still is, and the same blocks wait. -/
structure Continues (w w' : World K s₀) : Prop extends Grows w w' where
  hand : w.hand ⊆ w'.hand
  waiting : w'.waiting = w.waiting
  isOpen : w.Open → w'.Open

variable {w w' w'' : World K s₀}

theorem Grows.refl (w : World K s₀) : w.Grows w := ⟨.refl _, fun _ h => h, rfl⟩

theorem Grows.trans (h : w.Grows w') (h' : w'.Grows w'') : w.Grows w'' :=
  ⟨h.ground.trans h'.ground, fun b hb => h'.loops b (h.loops b hb), h'.returnType.trans h.returnType⟩

theorem Continues.refl (w : World K s₀) : w.Continues w := ⟨.refl w, subset_rfl, rfl, fun h => h⟩

theorem Continues.trans (h : w.Continues w') (h' : w'.Continues w'') : w.Continues w'' :=
  ⟨h.toGrows.trans h'.toGrows, h.hand.trans h'.hand, h'.waiting.trans h.waiting,
    fun hw => h'.isOpen (h.isOpen hw)⟩

theorem Continues.within (h : w.Continues w') : w.Within w' := ⟨h.toGrows, h.hand, h.waiting.ge⟩

theorem Within.trans (h : w.Within w') (h' : w'.Within w'') : w.Within w'' :=
  ⟨h.toGrows.trans h'.toGrows, h.hand.trans h'.hand, h.waiting.trans h'.waiting⟩

theorem Within.continues (h : w.Within w') (hwaiting : w'.waiting = w.waiting)
    (hopen : w.Open → w'.Open) : w.Continues w' := ⟨h.toGrows, h.hand, hwaiting, hopen⟩

theorem HasType.mono (h : w.HasType ty) (hw : w.Grows w') : w'.HasType ty :=
  Nat.lt_of_lt_of_le h hw.ground.types

theorem Usable.mono {o : Operand} (h : w.Usable o) (hw : w.Within w') : w'.Usable o :=
  ⟨Operand.Usable.mono hw.ground hw.hand h.1,
    fun b hb => (h.2 b hb).imp (hw.waiting ·) (hw.loops b)⟩

theorem Aims.mono {b : BlockId} {S : Set ValueId} (h : w.Aims b S) (hw : w.Grows w') :
    w'.Aims b S :=
  ⟨Nat.lt_of_lt_of_le h.1 hw.ground.blocks, (hw.ground.entry b h.1).trans h.2⟩

theorem usable_value (h : v ∈ w.hand) : w.Usable (.value v) := ⟨h, nofun⟩

/-- A branch may lead to a block that finds at hand what is at hand. -/
theorem Aims.usable {b : BlockId} {S : Set ValueId} (h : w.Aims b S) (hS : S ⊆ w.hand)
    (hgoes : w.emitter.builder.Goes b) : w.Usable (.block b) :=
  ⟨⟨h.1, h.2.subset.trans hS⟩, fun _ hd => Option.some.inj hd ▸ hgoes⟩

theorem mem_hand_of_fixed (h : v ∈ w.emitter.builder.routine.fixed) : v ∈ w.hand :=
  .inr h

end World

/-! ### Steps on the scope -/

namespace Emit

variable {K : FunctionRef → Prop} {s₀ : Scope} {α : Type} {w : World K s₀}

/-- **Leading on.** If a step gives a value, there is a stage that continues the one it starts from,
where the value has the property. -/
def Leads (w : World K s₀) (x : EmitM α) (Q : α → World K s₀ → Prop) : Prop :=
  ∀ a e, x w.emitter = (.ok a, e) → ∃ w' : World K s₀, w'.emitter = e ∧ w.Continues w' ∧ Q a w'

/-- The scope may advance; the function under construction stays as it is. -/
theorem onScope_leads {x : ScopeM α} {Q : α → Scope → Prop}
    (hx : ∀ a s, x w.emitter.scope = (.ok a, s) → w.emitter.scope.Reaches s ∧ Q a s) :
    Leads w (onScope x) fun a w' => Q a w'.emitter.scope := by
  intro a e he
  obtain ⟨s, hs, rfl⟩ := onScope_ok.mp he
  obtain ⟨hreaches, hq⟩ := hx a s hs
  obtain ⟨hgrounded, hconstants, htypes, -⟩ := hreaches.advances w.stage.scope
  have hle : w.ground.Le ({ w.emitter with scope := s }.ground K w.entry) :=
    ⟨fun _ h => h, hconstants, htypes, Nat.le_refl _, fun _ _ => rfl, subset_rfl⟩
  have htype : ∀ {t : TypeRef}, t.index < w.emitter.scope.library.types.size →
      t.index < s.library.types.size := fun h => Nat.lt_of_lt_of_le h htypes
  exact ⟨⟨{ w.emitter with scope := s }, w.entry, w.stage.reaches.trans hreaches, hgrounded,
    w.stage.built, w.stage.laid, fun c hc => (w.stage.code c hc).mono hle subset_rfl, w.stage.first,
    fun op hop ty hty => htype (w.stage.types op hop ty hty),
    fun p hp => (w.stage.locals p hp).imp_right htype,
    fun p hp => (w.stage.this p hp).imp_right htype⟩, rfl,
    ⟨⟨hle, fun _ h => h, rfl⟩, subset_rfl, rfl, fun h => h⟩, hq⟩

theorem lowerType_leads (spec : TypeSpec) (location : Location) :
    Leads w (lowerType spec location) fun t w' => w'.HasType t :=
  onScope_leads fun _ _ h => ⟨.lowerType .start h, (w.stage.scope.lowerType h).2⟩

theorem pointerType_leads (ty : TypeRef) (location : Location) :
    Leads w (pointerType ty location) fun t w' => w'.HasType t :=
  onScope_leads fun _ _ h =>
    ⟨.pointerType .start h, (w.stage.scope.onTypes (Registry.pointerType_enters ty) h).2⟩

/-- A query on the types leaves everything as it is. -/
theorem query_leads {query : Registry → Except IrError α} {Q : α → Prop} (location : Location)
    (hquery : ∀ a, query w.emitter.scope.library.types = .ok a → Q a) :
    Leads w (onScope (Scope.onTypes location do query (← get))) fun a _ => Q a := by
  refine onScope_leads (Q := fun a _ => Q a) fun a s h => ?_
  obtain ⟨types, hx, rfl⟩ := Scope.onTypes_ok.mp h
  replace hx := after_ok hx rfl
  obtain ⟨hq, rfl⟩ := Registry.lift_ok.mp hx
  rw [Scope.withTypes_self]
  exact ⟨.start, hquery a hq⟩

end Emit

/-! ### Steps of construction -/

namespace World

variable {K : FunctionRef → Prop} {s₀ : Scope} (w : World K s₀)

variable {c : BlockId} {b : Builder}

theorem here_eq {entry : BlockId → Set ValueId} (h : b.current = some c) :
    b.here entry = (b.routine.opsOf c).foldl Op.after (entry c) := by
  ext v
  unfold Builder.here
  rw [h]
  exact ⟨fun hv => hv c rfl, fun hv d hd => Option.some.inj hd ▸ hv⟩

/-- The results that are at hand where a block starts stay at hand in it. -/
theorem entry_subset_here {entry : BlockId → Set ValueId} (h : b.current = some c) :
    entry c ⊆ b.here entry := by
  rw [here_eq h]
  exact Op.subset_foldl_after _ _

theorem open_of_eq {w' : World K s₀} {e : Emitter} (hw' : w'.emitter = { e with builder := b })
    (h : b.Open) : w'.Open := by
  unfold Open
  rw [hw']
  exact h

/-- Construction goes on to another stage. -/
theorem construct (b : Builder) (entry : BlockId → Set ValueId)
    (hle : w.ground.Le ({ w.emitter with builder := b }.ground K entry)) (hbuilt : b.WellFormed)
    (hlays : w.emitter.builder.Lays b)
    (hcode : ∀ c : BlockId, c.index < b.routine.blocks.length →
      ({ w.emitter with builder := b }.ground K entry).Allows (entry c) (b.routine.opsOf c))
    (hfirst : ∀ c, b.routine.order.head? = some c → entry c ⊆ b.routine.fixed)
    (htypes : ∀ op ∈ b.routine.locals, ∀ ty ∈ op.resultType, w.HasType ty) :
    ∃ w' : World K s₀, w'.emitter = { w.emitter with builder := b } ∧ w'.entry = entry ∧
      w.Grows w' :=
  ⟨⟨{ w.emitter with builder := b }, entry, w.stage.reaches, w.stage.scope, hbuilt, hlays.laid, hcode,
    hfirst, htypes, fun p hp => (w.stage.locals p hp).imp_left fun h => hle.fixed h,
    fun p hp => (w.stage.this p hp).imp_left fun h => hle.fixed h⟩, rfl, rfl,
    hle, hlays.loops, rfl⟩

/-- **A block is changed.** It gets at most one operation more, which is allowed at the end of the
current block, and the function may get variables more. -/
theorem change (hchanges : w.emitter.builder.Changes b) (hbuilt : b.WellFormed)
    (hlays : w.emitter.builder.Lays b)
    (hlocals : ∃ new, b.routine.locals = w.emitter.builder.routine.locals ++ new ∧
      ∀ op ∈ new, ∀ ty ∈ op.resultType, w.HasType ty)
    (hops : ∀ d, b.routine.opsOf d = w.emitter.builder.routine.opsOf d ∨
      w.emitter.builder.current = some d ∧ ∃ op, op.Legal w.ground (w.emitter.builder.here w.entry) ∧
        b.routine.opsOf d = w.emitter.builder.routine.opsOf d ++ [op]) :
    ∃ w' : World K s₀, w'.emitter = { w.emitter with builder := b } ∧ w'.entry = w.entry ∧
      w.Within w' ∧ w'.waiting = w.waiting := by
  obtain ⟨new, hlocals, hnew⟩ := hlocals
  obtain ⟨hparameters, hlength, horder, hcurrent⟩ := hchanges
  have hfixed : w.emitter.builder.routine.fixed ⊆ b.routine.fixed := by
    rintro u (⟨p, hp, rfl⟩ | ⟨o, ho, hu⟩)
    · exact .inl ⟨p, hparameters ▸ hp, rfl⟩
    · exact .inr ⟨o, hlocals ▸ List.mem_append_left _ ho, hu⟩
  have hle : w.ground.Le ({ w.emitter with builder := b }.ground K w.entry) :=
    ⟨fun _ h => h, Nat.le_refl _, Nat.le_refl _, Nat.le_of_eq hlength.symm, fun _ _ => rfl, hfixed⟩
  obtain ⟨w', hw', hentry, hgrows⟩ : ∃ w' : World K s₀,
      w'.emitter = { w.emitter with builder := b } ∧ w'.entry = w.entry ∧ w.Grows w' := by
    refine w.construct b w.entry hle hbuilt hlays (fun d hd => ?_) (fun d hd => ?_) ?_
    · have hold := w.stage.code d (hlength ▸ hd)
      refine Ground.Allows.mono hle subset_rfl ?_
      rcases hops d with heq | ⟨hd, op, hop, heq⟩
      · rw [heq]
        exact hold
      · rw [heq, Ground.allows_append, ← here_eq hd]
        exact ⟨hold, hop, True.intro⟩
    · exact (w.stage.first d (horder ▸ hd)).trans hfixed
    · rw [hlocals]
      exact List.forall_mem_append.mpr ⟨w.stage.types, hnew⟩
  have hwaiting : w'.waiting = w.waiting := by
    unfold World.waiting
    rw [hw']
    exact Builder.waiting_eq hlength horder
  refine ⟨w', hw', hentry, ⟨hgrows, ?_, hwaiting.ge⟩, hwaiting⟩
  unfold hand
  rw [hw', hentry]
  refine Set.union_subset_union ?_ hfixed
  obtain ⟨d, -, hd⟩ := w.stage.laid.current
  rw [here_eq hd, here_eq (hcurrent.trans hd)]
  rcases hops d with heq | ⟨-, op, -, heq⟩
  · rw [heq]
  · rw [heq, List.foldl_append]
    exact op.subset_after _

/-- An operation is appended. -/
theorem append {n : Nat} {op : Op} {x : Block} (h : Builder.Appends n op w.emitter.builder b c x)
    (hoperands : ∀ o ∈ op.operands, w.Usable o) (htype : ∀ ty ∈ op.resultType, w.HasType ty) :
    ∃ w' : World K s₀, w'.emitter = { w.emitter with builder := b } ∧ w.Continues w' ∧
      ∀ v, op.result = some v → v ∈ w'.hand := by
  have hop : op.Legal w.ground (w.emitter.builder.here w.entry) :=
    ⟨fun o ho => (hoperands o ho).1, htype⟩
  have htargets : ∀ d ∈ op.targets, w.emitter.builder.Goes d := by
    intro d hd
    obtain ⟨o, ho, hblock⟩ := op.exists_of_mem_targets hd
    exact (hoperands o ho).2 d hblock
  obtain ⟨w', hw', hentry, hwithin, hwaiting⟩ := w.change h.changes (h.wellFormed w.stage.built)
    (h.lays w.stage.laid htargets)
    ⟨[], by rw [h.locals, List.append_nil], List.forall_mem_nil _⟩ fun d => by
      by_cases hd : d = c
      · exact .inr ⟨hd ▸ h.current, op, hop, hd ▸ h.opsOf⟩
      · rw [h.eq]
        exact .inl (Builder.opsOf_modifyBlock_of_ne _ hd _)
  refine ⟨w', hw', hwithin.continues hwaiting fun hopen => open_of_eq hw' (h.open hopen), fun v hv => .inl ?_⟩
  rw [hw', hentry]
  change v ∈ b.here w.entry
  rw [here_eq h.current', h.opsOf, List.foldl_append, List.foldl_cons, List.foldl_nil, Op.after]
  split
  · exact Set.mem_univ v
  · exact .inr hv

/-- A variable is declared. -/
theorem declare {op : Op} (h : Builder.Declares op v w.emitter.builder b) (hop : op.result = some v)
    (hty : op.resultType = some ty) (ht : w.HasType ty) :
    ∃ w' : World K s₀, w'.emitter = { w.emitter with builder := b } ∧ w.Continues w' ∧
      v ∈ w'.emitter.builder.routine.fixed := by
  obtain ⟨w', hw', -, hwithin, hwaiting⟩ := w.change h.changes
    (h.wellFormed hop ⟨ty, hty⟩ w.stage.built) (h.lays w.stage.laid)
    ⟨[op], h.locals, List.forall_mem_singleton.mpr fun ty' hty' =>
      Option.some.inj (hty.symm.trans hty') ▸ ht⟩ fun d => .inl (h.opsOf d)
  refine ⟨w', hw', hwithin.continues hwaiting fun hopen => open_of_eq hw' (h.open hopen), .inr ⟨op, ?_, hop⟩⟩
  rw [hw', show b.routine.locals = _ from h.locals]
  exact List.mem_append_right _ List.mem_cons_self

/-- A block is marked as the head of a construct. -/
theorem mark {change : Block → Block} (hchange : ∀ x : Block, change x =
      { x with role := (change x).role, merge := (change x).merge,
               continuation := (change x).continuation }) {u : Unit}
    (h : Builder.changeCurrent change w.emitter.builder = (.ok u, b))
    (hlays : w.emitter.builder.Lays b) : ∃ w' : World K s₀,
      w'.emitter = { w.emitter with builder := b } ∧ w.Within w' ∧ w'.waiting = w.waiting := by
  have hmarks := Builder.mark_ok hchange h
  obtain ⟨w', hw', -, hwithin⟩ := w.change hmarks.changes (hmarks.wellFormed w.stage.built) hlays
    ⟨[], by rw [hmarks.locals, List.append_nil], List.forall_mem_nil _⟩
    fun d => .inl (hmarks.opsOf d)
  exact ⟨w', hw', hwithin⟩

/-- A block is allocated. It finds at hand what is at hand now. -/
theorem allocate {name : String} (h : Builder.block name w.emitter.builder = (.ok c, b)) :
    ∃ w' : World K s₀, w'.emitter = { w.emitter with builder := b } ∧ w.Grows w' ∧
      w'.Aims c w.hand ∧ w'.hand = w.hand ∧ w'.waiting = insert c w.waiting ∧ c ∉ w.waiting ∧
      (w.Open → w'.Open) := by
  obtain ⟨hlays, hopen⟩ := w.stage.laid.block h
  obtain ⟨hwaiting, hnew⟩ := Builder.waiting_block w.stage.laid h
  obtain ⟨hc, heq⟩ := Builder.block_ok h
  have hlength := Builder.length_block h
  have hopsOf := Builder.opsOf_block h
  have horder : b.routine.order = w.emitter.builder.routine.order := by rw [heq]
  have hcurrent : b.current = w.emitter.builder.current := by rw [heq]
  have hlocals := Builder.locals_block w.stage.built h
  have hfixed : b.routine.fixed = w.emitter.builder.routine.fixed := by
    unfold Routine.fixed
    rw [hlocals, heq]
  -- older blocks find what they found
  have hold : ∀ d : BlockId, d.index < w.emitter.builder.routine.blocks.length →
      Function.update w.entry c w.hand d = w.entry d := by
    intro d hd
    refine Function.update_of_ne (fun heq => ?_) _ _
    rw [heq, hc] at hd
    exact Nat.lt_irrefl _ hd
  have hle : w.ground.Le
      ({ w.emitter with builder := b }.ground K (Function.update w.entry c w.hand)) := by
    refine ⟨fun _ h => h, Nat.le_refl _, Nat.le_refl _, ?_, hold, hfixed.symm.subset⟩
    exact Nat.le_of_lt (Nat.lt_of_lt_of_eq (Nat.lt_succ_self _) hlength.symm)
  obtain ⟨w', hw', hentry, hgrows⟩ : ∃ w' : World K s₀, w'.emitter =
      { w.emitter with builder := b } ∧ w'.entry = Function.update w.entry c w.hand ∧ w.Grows w' := by
    refine w.construct b _ hle (Builder.wellFormed_block w.stage.built h) hlays
      (fun d hd => ?_) (fun d hd => ?_) ?_
    · by_cases hdc : d = c
      · rw [hdc, Builder.opsOf_new_block h]
        exact True.intro
      · have hlt : d.index < w.emitter.builder.routine.blocks.length := by
          have hne : d.index ≠ w.emitter.builder.routine.blocks.length := fun heq =>
            hdc (by rw [hc]; exact congrArg BlockId.mk heq)
          omega
        rw [hopsOf, hold d hlt]
        exact (w.stage.code d hlt).mono hle subset_rfl
    · rw [horder] at hd
      rw [hold d (w.stage.laid.within d (List.mem_of_head? hd)), hfixed]
      exact w.stage.first d hd
    · rw [hlocals]
      exact w.stage.types
  refine ⟨w', hw', hgrows, ⟨?_, ?_⟩, ?_, ?_, hnew, fun h => open_of_eq hw' (hopen h)⟩
  · change c.index < w'.emitter.builder.routine.blocks.length
    rw [hw', hlength, hc]
    exact Nat.lt_succ_self _
  · rw [hentry]
    exact Function.update_self _ _ _
  · unfold hand
    rw [hw', hentry]
    refine congrArg₂ _ ?_ hfixed
    obtain ⟨d, hmem, hd⟩ := w.stage.laid.current
    rw [here_eq (hcurrent.trans hd), here_eq hd, hopsOf, hold d (w.stage.laid.within d hmem)]
  · unfold World.waiting
    rw [hw', hwaiting]

/-- A block is placed and construction goes on in it. -/
theorem start (h : Builder.Starts c w.emitter.builder b) (hc : c ∈ w.waiting) :
    ∃ w' : World K s₀, w'.emitter = { w.emitter with builder := b } ∧ w.Grows w' ∧
      w.entry c ⊆ w'.hand ∧ w'.waiting = w.waiting \ {c} ∧ w'.Open := by
  obtain ⟨hlays, hopen⟩ := h.lays w.stage.laid hc
  have hlocals := h.locals w.stage.built
  obtain ⟨order, ⟨more, hmore⟩, heq⟩ := h.eq
  have hfixed : b.routine.fixed = w.emitter.builder.routine.fixed := by
    unfold Routine.fixed
    rw [hlocals, heq]
  have hground : { w.emitter with builder := b }.ground K w.entry = w.ground := by
    unfold World.ground Emitter.ground Routine.ground
    rw [hfixed, heq]
  obtain ⟨w', hw', hentry, hgrows⟩ : ∃ w' : World K s₀,
      w'.emitter = { w.emitter with builder := b } ∧ w'.entry = w.entry ∧ w.Grows w' := by
    refine w.construct b w.entry (hground ▸ .refl _) (h.wellFormed w.stage.built) hlays
      (fun d hd => ?_) (fun d hd => ?_) ?_
    · rw [hground, h.opsOf]
      rw [heq] at hd
      exact w.stage.code d hd
    · obtain ⟨d', x, hd', -⟩ := w.stage.built.entry
      rw [heq] at hd
      dsimp only at hd
      rw [← hmore, List.head?_append, hd'] at hd
      cases hd
      rw [hfixed]
      exact w.stage.first _ hd'
    · rw [hlocals]
      exact w.stage.types
  refine ⟨w', hw', hgrows, fun v hv => .inl ?_, ?_, open_of_eq hw' hopen⟩
  · rw [hw', hentry]
    exact entry_subset_here h.current hv
  · unfold World.waiting
    rw [hw']
    exact h.waiting

end World

end Shader
