import Shader.Proofs.Scoping.World

/-!
# Code refers to what is at hand

Emission leads from stage to stage (`Emit.stages_sound`), and so the code of every expression and of
every statement refers to what is at hand.

A choice that may leave out its right operand, a condition and a loop move between blocks
(`Emit.stages_blocks`). They allocate all their blocks at once. Each block finds at hand what is at hand
there, whatever path leads to it, and after the construct the same is at hand again; what the right
operand of a choice computes is out of reach after it, except through the temporary. In particular every
block that a construct allocates has been placed when it ends, so that in the end no block waits.
-/

namespace Shader

open Outcome

/-- A stage at which the current block may be marked. -/
structure Site (K : FunctionRef → Prop) (s₀ : Scope) extends World K s₀ where
  isOpen : toWorld.Open

namespace Emit

variable {K : FunctionRef → Prop} {s₀ : Scope} {α : Type} {w : World K s₀}

variable (K s₀) in
/-- The stages along which emission leads. What is called has the property, and nothing else is asked
of the code. -/
def stages : Stages (Site K s₀) where
  emitter w := w.emitter
  scope := s₀
  Follows w w' := w.Continues w'.toWorld
  Within w w' := w.Within w'.toWorld
  Usable w := w.Usable
  HasType w := w.HasType
  Offers w targets := w.Usable (.block targets.merge) ∧ w.Usable (.block targets.continuation)
  Named _ f := K f
  Shaped _ shape := ∀ f ∈ shape.preConstructor, K f
  Callable f _ := K f
  Allowed _ := True
  Granted _ _ := True
  refl w := .refl w.toWorld
  trans := .trans
  within := World.Continues.within
  usable h ho := ho.mono h.within
  hasType h ht := ht.mono h.toGrows
  offers h ht := ⟨ht.1.mono h, ht.2.mono h⟩

theorem Stages.Leads.site {w : Site K s₀} {x : EmitM α} {Q : α → World K s₀ → Prop}
    (hx : Emit.Leads w.toWorld x Q) : (stages K s₀).Leads w x fun a w' => Q a w'.toWorld := by
  intro a e he
  obtain ⟨w', hw', hcontinues, hq⟩ := hx a e he
  exact ⟨⟨w', hcontinues.isOpen w.isOpen⟩, hw', hcontinues, hq⟩

/-! ### Elementary steps -/

variable {location : Location} {operands : List Operand} {opcode : Opcode} {ty : TypeRef}

section

variable (hoperands : ∀ o ∈ operands, w.Usable o)
include hoperands

theorem build_leads {ty : Option TypeRef} (hty : ∀ t ∈ ty, w.HasType t) (location : Location) :
    Leads w (build location (Builder.build opcode ty operands)) fun v w' =>
      ∀ id ∈ v, id ∈ w'.hand := by
  intro v e he
  obtain ⟨b, hb, rfl⟩ := build_ok.mp he
  obtain ⟨-, n, c, x, happends, -⟩ := Builder.build_ok hb
  exact w.append happends hoperands hty

theorem value_leads (hty : w.HasType ty) (location : Location) :
    Leads w (build location (Builder.value opcode ty operands)) fun v w' => v ∈ w'.hand := by
  intro v e he
  obtain ⟨b, hb, rfl⟩ := build_ok.mp he
  obtain ⟨-, c, x, happends⟩ := Builder.value_ok hb
  obtain ⟨w', hw', hcontinues, hresult⟩ :=
    w.append happends hoperands fun ty' hty' => Option.some.inj hty' ▸ hty
  exact ⟨w', hw', hcontinues, hresult v rfl⟩

theorem plain_leads (location : Location) :
    Leads w (build location (do let _ ← Builder.build opcode none operands))
      fun _ _ => True := by
  intro u e he
  obtain ⟨b, hb, rfl⟩ := build_ok.mp he
  obtain ⟨v, b', hbuild, -, rfl⟩ := return_ok.mp hb
  obtain ⟨-, n, c, x, happends, -⟩ := Builder.build_ok hbuild
  obtain ⟨w', hw', hcontinues, -⟩ := w.append happends hoperands (by simp)
  exact ⟨w', hw', hcontinues, True.intro⟩

end

theorem localVariable_leads (hty : w.HasType ty) (name : String) (location : Location) :
    Leads w (build location (Builder.localVariable ty name)) fun v w' =>
      v ∈ w'.emitter.builder.routine.fixed := by
  intro v e he
  obtain ⟨b, hb, rfl⟩ := build_ok.mp he
  exact w.declare (Builder.localVariable_ok hb) rfl rfl hty

theorem branch_leads {b : BlockId} (hb : w.Usable (.block b)) (location : Location) :
    Leads w (branch b location) fun _ _ => True :=
  plain_leads (List.forall_mem_singleton.mpr hb) location

theorem branchIf_leads {condition : Operand} {b b' : BlockId} (hcondition : w.Usable condition)
    (hb : w.Usable (.block b)) (hb' : w.Usable (.block b')) (location : Location) :
    Leads w (build location (Builder.branchIf condition b b')) fun _ _ => True :=
  plain_leads (by simpa using ⟨hcondition, hb, hb'⟩) location

theorem declareLocal_leads {w : Site K s₀} (hty : w.HasType ty) (id : LocalId) (name : String)
    (location : Location) :
    (stages K s₀).Leads w (declareLocal id name ty location) fun pointer w' =>
      pointer ∈ w'.emitter.builder.routine.fixed := by
  unfold declareLocal newStorage
  refine .bind (.bind (.site (pointerType_leads ty location)) fun _ _ _ hpointer =>
    .site (localVariable_leads hpointer name location)) fun pointer w₁ hw₁ hpointer => ?_
  intro p e he
  have hpure := after_ok he rfl
  obtain ⟨rfl, rfl⟩ := ok_eq_ok.mp hpure
  have hlocals : ∀ q ∈ (id, pointer, ty) :: w₁.emitter.locals,
      q.2.1 ∈ w₁.emitter.builder.routine.fixed ∧ w₁.HasType q.2.2 :=
    List.forall_mem_cons.mpr ⟨⟨hpointer, hty.mono hw₁.toGrows⟩, w₁.stage.locals⟩
  exact ⟨⟨⟨{ w₁.emitter with locals := (id, pointer, ty) :: w₁.emitter.locals }, w₁.entry,
    { w₁.stage with locals := hlocals }⟩, w₁.isOpen⟩, rfl,
    ⟨⟨.refl _, fun _ h => h, rfl⟩, subset_rfl, rfl, fun h => h⟩, hpointer⟩

/-! ### Constructs -/

/-- **In the middle of a construct.** Its blocks wait, besides those that wait outside, and like the heads
of its loops they find at hand what is at hand where it begins. -/
structure World.Amid (w : World K s₀) (bs heads : List BlockId) (w' : World K s₀) : Prop where
  grows : w.Grows w'
  waiting : w'.waiting = w.waiting ∪ {b | b ∈ bs}
  nodup : bs.Nodup
  apart : ∀ b ∈ bs, b ∉ w.waiting
  aims : ∀ b, b ∈ bs ∨ b ∈ heads → w'.Aims b w.hand
  loops : ∀ b ∈ heads, w'.emitter.builder.routine.HeadsLoop b

variable {w' w'' : World K s₀} {bs heads : List BlockId} {c : BlockId} {e : Emitter} {u : Unit}

section

variable (h : World.Amid w bs heads w')
include h

theorem World.Amid.keeps (hw : w'.Grows w'') (hwaiting : w''.waiting = w'.waiting) :
    World.Amid w bs heads w'' where
  grows := h.grows.trans hw
  waiting := hwaiting.trans h.waiting
  nodup := h.nodup
  apart := h.apart
  aims b hb := (h.aims b hb).mono hw
  loops b hb := hw.loops b (h.loops b hb)

theorem World.Amid.continues (hw : w'.Continues w'') :
    World.Amid w bs heads w'' := h.keeps hw.toGrows hw.waiting

theorem World.Amid.mem_waiting (hc : c ∈ bs) : c ∈ w'.waiting :=
  h.waiting.symm.subset (.inr hc)

/-- A branch may lead to the blocks of the construct where what was at hand still is. -/
theorem World.Amid.usable (hhand : w.hand ⊆ w'.hand) (hc : c ∈ bs ∨ c ∈ heads) :
    w'.Usable (.block c) :=
  (h.aims c hc).usable hhand (hc.imp h.mem_waiting (h.loops c))

theorem World.Amid.within (hhand : w.hand ⊆ w'.hand) :
    w.Within w' := ⟨h.grows, hhand, h.waiting.symm.subset.trans' Set.subset_union_left⟩

/-- A new block finds at hand what is at hand now. -/
theorem World.Amid.allocate (hhand : w'.hand = w.hand) {name : String}
    (hblock : build location (Builder.block name) w'.emitter = (.ok c, e)) :
    ∃ w'' : World K s₀, w''.emitter = e ∧ World.Amid w (bs ++ [c]) heads w'' ∧
      w''.hand = w.hand ∧ (w'.Open → w''.Open) := by
  obtain ⟨builder, hb, rfl⟩ := build_ok.mp hblock
  obtain ⟨w'', hw'', hgrows, haims, hhand'', hwaiting, hnew, hopen⟩ := w'.allocate hb
  rw [h.waiting] at hwaiting hnew
  obtain ⟨hw, hbs⟩ := not_or.mp hnew
  refine ⟨w'', hw'', ⟨h.grows.trans hgrows, ?_, ?_, ?_, fun b hb => ?_,
    fun b hb => hgrows.loops b (h.loops b hb)⟩, hhand''.trans hhand, hopen⟩
  · rw [hwaiting]
    ext b
    simp [or_comm, or_assoc]
  · exact List.nodup_append.mpr ⟨h.nodup, List.nodup_singleton c, by
      rintro a ha _ hc rfl
      exact hbs (List.mem_singleton.mp hc ▸ ha)⟩
  · exact List.forall_mem_append.mpr ⟨h.apart, List.forall_mem_singleton.mpr hw⟩
  · rw [List.mem_append, List.mem_singleton, or_right_comm] at hb
    rcases hb with hb | rfl
    · exact (h.aims b hb).mono hgrows
    · exact hhand ▸ haims

end

/-- A block that is started has at hand what it finds there. -/
theorem World.Amid.start (h : World.Amid w (c :: bs) heads w')
    (hstart : startBlock c location w'.emitter = (.ok u, e)) :
    ∃ w'' : World K s₀, w''.emitter = e ∧ World.Amid w bs heads w'' ∧ w.hand ⊆ w''.hand ∧
      w''.Open ∧ w''.Aims c w.hand ∧ w''.emitter.builder.current = some c := by
  obtain ⟨builder, hrun, rfl⟩ := build_ok.mp hstart
  have hstarts := Builder.startBlock_ok hrun
  have haims := h.aims c (.inl List.mem_cons_self)
  obtain ⟨w'', hw'', hgrows, hhand, hwaiting, hopen⟩ :=
    w'.start hstarts (h.mem_waiting List.mem_cons_self)
  obtain ⟨hc, hnodup⟩ := List.nodup_cons.mp h.nodup
  obtain ⟨hapart, haparts⟩ := List.forall_mem_cons.mp h.apart
  refine ⟨w'', hw'', ⟨h.grows.trans hgrows, ?_, hnodup, haparts, fun b hb => ?_,
    fun b hb => hgrows.loops b (h.loops b hb)⟩, haims.2 ▸ hhand, hopen, haims.mono hgrows, ?_⟩
  · rw [hwaiting, h.waiting]
    ext b
    simp only [Set.mem_sdiff, Set.mem_union, Set.mem_ofPred_eq, List.mem_cons, Set.mem_singleton_iff]
    grind
  · exact (h.aims b (hb.imp_left (List.mem_cons_of_mem c))).mono hgrows
  · rw [hw'']
    exact hstarts.current

/-- The head of a loop. From now on branches may lead back to it. -/
theorem World.Amid.head {header test merge next : BlockId} (h : World.Amid w (header :: bs) [] w')
    (htest : test ∈ bs) (hmerge : merge ∈ bs) (hnext : next ∈ bs) (hrun : Emit.arm header
      (build location (Builder.changeCurrent (·.markLoop merge next))) test location w'.emitter =
        (.ok u, e)) : ∃ w'' : World K s₀, w''.emitter = e ∧ World.Amid w bs [header] w'' := by
  obtain ⟨_, e₁, h₁, hrun⟩ := bind_ok.mp hrun
  obtain ⟨w₁, rfl, hw₁, hhand, -, haims, hcurrent⟩ := h.start h₁
  obtain ⟨_, e₂, h₂, hbranch⟩ := bind_ok.mp hrun
  obtain ⟨b, hmark, rfl⟩ := build_ok.mp h₂
  obtain ⟨hlays, hloop⟩ := w₁.stage.laid.markLoop hcurrent (hw₁.mem_waiting hmerge)
    (hw₁.mem_waiting hnext) hmark
  obtain ⟨w₂, hw₂, hwithin, hwaiting⟩ := w₁.mark (fun _ => rfl) hmark hlays
  have hamid : World.Amid w bs [header] w₂ :=
    { hw₁.keeps hwithin.toGrows hwaiting with
      aims := fun c hc => by
        rcases hc with hc | hc
        · exact (hw₁.aims c (.inl hc)).mono hwithin.toGrows
        · exact List.mem_singleton.mp hc ▸ haims.mono hwithin.toGrows
      loops := List.forall_mem_singleton.mpr (hw₂ ▸ hloop) }
  rw [← hw₂] at hbranch
  obtain ⟨w₃, hw₃, hcontinues, -⟩ := branch_leads (hamid.usable (hhand.trans hwithin.hand)
    (.inl htest)) location u e hbranch
  exact ⟨w₃, hw₃, hamid.continues hcontinues⟩

/-- The current block forks. -/
theorem World.Amid.fork {merge ifTrue ifFalse : BlockId} {condition : Operand}
    (h : World.Amid w bs [] w') (hhand : w'.hand = w.hand) (hopen : w'.Open) (hmerge : merge ∈ bs)
    (htrue : ifTrue ∈ bs) (hfalse : ifFalse ∈ bs) (hcondition : w.Usable condition)
    (hrun : Emit.fork merge condition ifTrue ifFalse location w'.emitter = (.ok u, e)) :
    ∃ w'' : World K s₀, w''.emitter = e ∧ World.Amid w bs [] w'' := by
  obtain ⟨_, e₁, h₁, hbranch⟩ := bind_ok.mp hrun
  obtain ⟨b, hmark, rfl⟩ := build_ok.mp h₁
  obtain ⟨hlays, -⟩ := w'.stage.laid.markSelection hopen (h.mem_waiting hmerge) hmark
  obtain ⟨w₁, hw₁, hwithin, hwaiting⟩ := w'.mark (fun _ => rfl) hmark hlays
  have hamid := h.keeps hwithin.toGrows hwaiting
  have hhand := hhand.ge.trans hwithin.hand
  rw [← hw₁] at hbranch
  obtain ⟨w₂, hw₂, hcontinues, -⟩ := branchIf_leads (hcondition.mono (hamid.within hhand))
    (hamid.usable hhand (.inl htrue)) (hamid.usable hhand (.inl hfalse)) location u e hbranch
  exact ⟨w₂, hw₂, hamid.continues hcontinues⟩

/-- What leads on in a block does not touch the others. -/
theorem World.Amid.passes (h : World.Amid w bs heads w') {x : EmitM Unit}
    (hx : Leads w' x fun _ _ => True) : Stages.Passes (w'.emitter = ·) x fun _ e =>
      ∃ w'' : World K s₀, w''.emitter = e ∧ World.Amid w bs heads w'' := by
  rintro _ u e he rfl
  obtain ⟨w'', rfl, hw'', -⟩ := hx u e he
  exact ⟨w'', rfl, h.continues hw''⟩

theorem stages_blocks : Nonempty (stages K s₀).Blocks := ⟨{
  Drafts w bs e := ∃ w', World.emitter w' = e ∧ World.Amid w.toWorld bs [] w' ∧
    w'.hand = w.hand ∧ w'.Open
  Amid w bs heads e := ∃ w', World.emitter w' = e ∧ World.Amid w.toWorld bs heads w'
  Inside w bs heads w' := World.Amid w.toWorld bs heads w'.toWorld ∧ w.hand ⊆ w'.hand
  within h := h.1.within h.2
  follows h hw := ⟨h.1.continues hw, h.2.trans hw.hand⟩
  offers h hmerge hnext := ⟨h.1.usable h.2 (.inl hmerge), h.1.usable h.2 (.inl hnext)⟩
  trans := World.Within.trans
  usable h ho := ho.mono h
  begins w := ⟨w.toWorld, rfl, ⟨.refl _, by simp, .nil, by simp, by simp, by simp⟩, rfl, w.isOpen⟩
  block name location := by
    rintro _ c e h ⟨w', rfl, hw', hhand, hopen⟩
    obtain ⟨w'', hw'', hamid, hhand'', hopen''⟩ := hw'.allocate hhand h
    exact ⟨w'', hw'', hamid, hhand'', hopen'' hopen⟩
  rotate := by
    rintro w c bs _ ⟨w', rfl, hw', hhand⟩
    have hperm : (c :: bs).Perm (bs ++ [c]) := (List.perm_append_singleton c bs).symm
    refine ⟨w', rfl, ⟨hw'.grows, ?_, hperm.nodup_iff.mp hw'.nodup, fun b hb => ?_, fun b hb => ?_,
      hw'.loops⟩, hhand⟩
    · rw [hw'.waiting]
      simp only [hperm.mem_iff]
    · exact hw'.apart b (hperm.mem_iff.mpr hb)
    · exact hw'.aims b (hb.imp_left hperm.mem_iff.mpr)
  fork location hmerge htrue hfalse hcondition := by
    rintro _ u e h ⟨w', rfl, hw', hhand, hopen⟩
    exact hw'.fork hhand hopen hmerge htrue hfalse hcondition h
  enter location hc := by
    rintro _ u e h ⟨w', rfl, hw', hhand, -⟩
    exact hw'.passes (branch_leads (hw'.usable hhand.ge (.inl hc)) location) _ u e h rfl
  head location htest hmerge hnext := by
    rintro _ u e h ⟨w', rfl, hw'⟩
    exact hw'.head htest hmerge hnext h
  start location := by
    rintro _ u e h ⟨w', rfl, hw'⟩
    obtain ⟨w'', hw'', hamid, hhand, hopen, -⟩ := hw'.start h
    exact ⟨⟨w'', hopen⟩, hw'', hamid, hhand⟩
  leave location h hc := h.1.passes (branch_leads (h.1.usable h.2 hc) location)
  decide location h htrue hfalse hcondition := h.1.passes (branchIf_leads hcondition
    (h.1.usable h.2 (.inl htrue)) (h.1.usable h.2 (.inl hfalse)) location)
  join location := by
    rintro _ u e h ⟨w', rfl, hw'⟩
    obtain ⟨w'', rfl, hw'', hhand, hopen, -⟩ := hw'.start h
    exact ⟨⟨w'', hopen⟩, rfl, hw''.grows, hhand, by rw [hw''.waiting]; simp, fun _ => hopen⟩ }⟩

/-! ### All of the code -/

theorem partAt_leads (ty : TypeRef) (index : Nat) (location : Location) :
    Leads w (onScope (Scope.onTypes location do (← get).partAt ty index)) fun t w' =>
      w'.HasType t := by
  intro t e h
  obtain ⟨w', rfl, hw', ht⟩ := query_leads (Q := w.HasType) location
    (fun _ h => w.stage.scope.types.partAt h) t e h
  exact ⟨w', rfl, hw', ht.mono hw'.toGrows⟩

theorem fixed_storage {w : Site K s₀} {p : Storage}
    (h : p.1 ∈ w.emitter.builder.routine.fixed ∧ w.HasType p.2) :
    (stages K s₀).HasStorage p w := ⟨World.usable_value (World.mem_hand_of_fixed h.1), h.2⟩

variable {t : Tree} {own : LibraryId} {ds : List Library}

/-- **Emission leads on.** -/
theorem stages_sound (h₀ : s₀.Declaring t own ds) (hK : s₀.Anchored K) :
    (stages K s₀).Sound where
  reads w := (w.stage.reaches.emitting h₀).toReads
  takes {w} _ _ hf := (w.stage.reaches.emitting h₀).takesObject_eq h₀ hf
  lowerType spec location := .site (lowerType_leads spec location)
  pointerType ty location := .site (pointerType_leads ty location)
  classShape {w} id location := by
    refine .site (onScope_leads (Q := fun (shape : ClassShape) s => shape.ty.index < s.library.types.size ∧
      ∀ f ∈ shape.preConstructor, K f) fun shape s h => ?_)
    have hshape := (Scope.classShape_emitting h₀ id location _ _ _ h (w.stage.reaches.emitting h₀)).2
    exact ⟨.classShape .start h, (w.stage.scope.classShape h).2, fun f => hK.shaped id shape f hshape⟩
  function {w} id location := .site <| onScope_leads (Q := fun f _ => K f) fun f s h => by
    obtain ⟨rfl, hf⟩ := Scope.function_ok h
    exact ⟨.start, hK.named id f (((w.stage.reaches.emitting h₀).findFunction?_eq id).symm.trans hf)⟩
  constant {w} ty value := by
    refine .bind (.site <| onScope_leads fun c s h =>
      ⟨.constant .start h, (w.stage.scope.constant h).2⟩) fun c w' _ hc => .pure ⟨hc, nofun⟩
  partAt ty index location := .site (partAt_leads ty index location)
  nameOf _ location := .site (query_leads location fun _ _ => True.intro)
  locals {w} _ _ h := fixed_storage (w.stage.locals _ (mem_of_lookup_eq_some h))
  this {w} _ h := fixed_storage (w.stage.this _ h)
  value location _ hoperands hty :=
    Stages.Leads.imp (.site (value_leads hoperands hty location)) fun _ _ => World.usable_value
  plain location _ hoperands := .site (plain_leads hoperands location)
  called {w f ty operands} location hf hoperands hty := by
    have hcallee : w.Usable (.function f) := ⟨hf, nofun⟩
    exact Stages.Leads.imp
      (.site (build_leads (List.forall_mem_cons.mpr ⟨hcallee, hoperands⟩) hty location))
      fun _ _ h id hid => World.usable_value (h id hid)
  localVariable name location hty := Stages.Leads.imp (.site (localVariable_leads hty name location))
    fun _ _ h => World.usable_value (World.mem_hand_of_fixed h)
  declareLocal id name location hty := Stages.Leads.imp (declareLocal_leads hty id name location)
    fun _ _ h => World.usable_value (World.mem_hand_of_fixed h)
  branch location h := ⟨.site (branch_leads h.1 location), .site (branch_leads h.2 location)⟩
  blocks := stages_blocks
  -- whatever has a name or prepares a class is at hand (`hK`), so nothing has to be granted
  allowed _ _ := True.intro
  binary _ := True.intro
  unary _ := True.intro
  conversion _ := ⟨fun _ _ => True.intro, fun _ _ _ => True.intro⟩
  intrinsic _ := True.intro
  getter _ _ _ hf := hf
  setter _ _ _ hf := hf
  call _ _ hf := hf
  constructor _ hf := hf
  object _ hshape hf := hshape _ hf
  position _ _ := True.intro

end Emit

end Shader
