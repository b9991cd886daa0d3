import Shader.Proofs.Scoping.Statements

/-!
# Finished functions refer to what is at hand

A function is opened, its body is emitted, and it is repaired and installed. Its first block is placed
right after the parameters, and there emission has its first stage (`Emit.opening_ok`). At the end no
block waits, so that every block has been repaired (`World.scoped_repair`).
-/

namespace Shader

open Outcome

/-! ### Repaired functions -/

namespace Routine

theorem allows_fallback {g : Ground} {S : Set ValueId} {returnType : Option TypeRef}
    {tail : List Op} (h : Fallback returnType tail) (hty : ∀ ty ∈ returnType, ty.index < g.types) :
    g.Allows S tail := by
  cases returnType with
  | none =>
    obtain rfl : tail = _ := h
    exact ⟨⟨List.forall_mem_nil _, by simp⟩, True.intro⟩
  | some ty =>
    obtain ⟨v, rfl⟩ := h
    refine ⟨⟨List.forall_mem_nil _, by simpa using hty⟩, ⟨fun o ho => ?_, by simp⟩, True.intro⟩
    obtain rfl := List.mem_singleton.mp ho
    exact .inl (.inr rfl)

end Routine

namespace World

variable {K : FunctionRef → Prop} {s₀ : Scope} (w : World K s₀)

/-- **Everything is at hand in a repaired function** if no block waited. -/
theorem scoped_repair (hwaiting : w.waiting = ∅) {returnType : Option TypeRef}
    (hty : ∀ ty ∈ returnType, w.HasType ty) :
    (w.emitter.builder.routine.repair returnType).Scoped K
      w.emitter.scope.library.constants.length w.emitter.scope.library.types.size w.entry := by
  have horder := w.emitter.builder.routine.order_repair returnType
  have hparameters := w.emitter.builder.routine.parameters_repair returnType
  have hlength := w.emitter.builder.routine.length_repair returnType
  have hblock : ∀ {c : BlockId}, c.index < w.emitter.builder.routine.blocks.length →
      ∃ x tail, w.emitter.builder.routine.block? c = some x ∧
        (w.emitter.builder.routine.repair returnType).block? c = some (x.mended tail) ∧
        Routine.Fallback returnType tail := by
    intro c hc
    have hplaced : c ∈ w.emitter.builder.routine.order := by
      by_contra hnot
      exact Set.notMem_empty c (hwaiting ▸ ⟨hc, hnot⟩)
    obtain ⟨tail, hfallback, hmended⟩ := (w.emitter.builder.routine.block?_repair returnType
      (List.getElem?_eq_getElem hc)).1 hplaced
    exact ⟨_, tail, List.getElem?_eq_getElem hc, hmended, hfallback⟩
  obtain ⟨first, x, hfirst, hx, hid⟩ := w.stage.built.entry
  obtain ⟨y, tail, hy, hy', -⟩ := hblock (w.stage.laid.within first (List.mem_of_head? hfirst))
  obtain rfl : y = x := Option.some.inj (hy.symm.trans hx)
  have hlocals : (w.emitter.builder.routine.repair returnType).locals =
      w.emitter.builder.routine.locals := by
    unfold Routine.locals Routine.entryBlock? Routine.entry?
    rw [horder, hfirst, Option.bind_some, Option.bind_some, hy, hy']
    rfl
  have hfixed : (w.emitter.builder.routine.repair returnType).fixed =
      w.emitter.builder.routine.fixed := by
    unfold Routine.fixed
    rw [hparameters, hlocals]
  have hground : (w.emitter.builder.routine.repair returnType).ground K
      w.emitter.scope.library.constants.length w.emitter.scope.library.types.size w.entry =
        w.ground := by
    unfold World.ground Emitter.ground Routine.ground
    rw [hlength, hfixed]
  refine ⟨⟨first, y.mended tail, horder ▸ hfirst, hy', hid, ?_⟩, fun op hop => ?_,
    fun c b hb => ?_⟩
  · rw [hfixed]
    exact w.stage.first first hfirst
  · rw [hlocals] at hop
    obtain ⟨id, ty, hresult, htype, -⟩ := w.stage.built.locals op hop
    exact ⟨id, ty, hresult, htype, w.stage.types op hop ty htype⟩
  · have hc : c.index < w.emitter.builder.routine.blocks.length :=
      hlength ▸ (List.getElem?_eq_some_iff.mp hb).1
    obtain ⟨z, tail, hz, hz', hfallback⟩ := hblock hc
    cases hz'.symm.trans hb
    obtain ⟨before, last, _, -, hbefore, hlast, hcut⟩ := Block.exists_split (hfallback.any z.ops)
    rw [hground]
    refine ⟨.throughTerminator (.throughTerminator (Ground.allows_append.mpr ⟨?_, ?_⟩)), ?_⟩
    · rw [← Builder.opsOf_of_block? hz]
      exact w.stage.code c hc
    · exact Routine.allows_fallback hfallback hty
    · rw [Block.mended, hcut, Block.throughTerminator_split hbefore hlast, List.any_append,
        List.any_cons, hlast, Bool.true_or, Bool.or_true]

end World

/-! ### The head of a function -/

/-- **Between two steps of the head of a function.** Parameters are added and types are entered. -/
structure Emitter.Heads (e e' : Emitter) : Prop where
  scope : e.scope.Reaches e'.scope
  blocks : e'.builder.routine.blocks = e.builder.routine.blocks
  order : e'.builder.routine.order = e.builder.routine.order
  locals : e'.locals = e.locals
  returnType : e'.returnType = e.returnType
  parameters : e.builder.routine.parameters <+: e'.builder.routine.parameters

/-- A parameter of the function, of a type that is there. -/
def Emitter.HasParameter (e : Emitter) (p : Storage) : Prop :=
  (∃ q ∈ e.builder.routine.parameters, q.id = p.1) ∧ p.2.index < e.scope.library.types.size

namespace Emitter

variable {e e' e'' : Emitter}

theorem Heads.trans (h : e.Heads e') (h' : e'.Heads e'') : e.Heads e'' :=
  ⟨h.scope.trans h'.scope, h'.blocks.trans h.blocks, h'.order.trans h.order,
    h'.locals.trans h.locals, h'.returnType.trans h.returnType, h.parameters.trans h'.parameters⟩

/-- Only the scope has advanced. -/
theorem Heads.of_scope {s : Scope} (h : e.scope.Reaches s) : e.Heads { e with scope := s } :=
  ⟨h, rfl, rfl, rfl, rfl, List.prefix_refl _⟩

theorem HasParameter.mono {p : Storage} (hp : e.HasParameter p) (hs : e.scope.Grounded)
    (h : e.Heads e') : e'.HasParameter p := by
  obtain ⟨⟨q, hq, hid⟩, hlt⟩ := hp
  exact ⟨⟨q, h.parameters.subset hq, hid⟩, Nat.lt_of_lt_of_le hlt (h.scope.advances hs).types⟩

theorem HasParameter.fixed {p : Storage} (hp : e.HasParameter p) :
    p.1 ∈ e.builder.routine.fixed := .inl hp.1

end Emitter

namespace Emit

variable {K : FunctionRef → Prop} {s₀ : Scope} {e e' : Emitter}

variable {location : Location} {name : String}

theorem parameter_heads {ty : TypeRef} (hty : ty.index < e.scope.library.types.size) {v : ValueId}
    (h : build location (Builder.parameter name ty) e = (.ok v, e')) :
    e.Heads e' ∧ e'.HasParameter (v, ty) := by
  obtain ⟨b, hb, rfl⟩ := build_ok.mp h
  obtain ⟨rfl, rfl⟩ := ok_eq_ok.mp hb
  refine ⟨⟨.start, rfl, rfl, rfl, rfl, List.prefix_append _ _⟩,
    ⟨⟨⟨e.builder.routine.nextValue⟩, ty, name⟩, ?_, rfl⟩, hty⟩
  exact List.mem_append_right _ List.mem_cons_self

theorem parameters_heads {ps : List ParameterDecl} {qs : List (ParameterDecl × ValueId × TypeRef)}
    (hs : e.scope.Grounded) (h : parameters location ps e = (.ok qs, e')) :
    e.Heads e' ∧ ∀ q ∈ qs, e'.HasParameter q.2 := by
  induction ps generalizing e qs with
  | nil =>
    obtain ⟨rfl, rfl⟩ := ok_eq_ok.mp h
    exact ⟨.of_scope .start, List.forall_mem_nil _⟩
  | cons p ps ih =>
    unfold parameters at h
    obtain ⟨ty, e₁, htype, h⟩ := bind_ok.mp h
    obtain ⟨s, hscope, rfl⟩ := onScope_ok.mp htype
    obtain ⟨hadvances, hty⟩ := hs.lowerType hscope
    obtain ⟨v, e₂, hparameter, h⟩ := bind_ok.mp h
    obtain ⟨hheads, hv⟩ := parameter_heads hty hparameter
    obtain ⟨qs', e₃, hrest, rfl, rfl⟩ := return_ok.mp h
    have hs₂ := (hheads.scope.advances hadvances.grounded).grounded
    obtain ⟨hrest, hqs⟩ := ih hs₂ hrest
    exact ⟨((Emitter.Heads.of_scope (.lowerType .start hscope)).trans hheads).trans hrest,
      List.forall_mem_cons.mpr ⟨hv.mono hs₂ hrest, hqs⟩⟩

/-- The object comes first. -/
theorem receiver_heads {object : Option TypeRef} {this : Option Storage} (hs : e.scope.Grounded)
    (hobject : ∀ t ∈ object, t.index < e.scope.library.types.size)
    (h : (object.mapM fun owner => do
      let pointer ← pointerType owner location
      return (← build location (Builder.parameter "this" pointer), owner)) e = (.ok this, e')) :
    e.Heads e' ∧ ∀ p ∈ this, p.1 ∈ e'.builder.routine.fixed ∧
      p.2.index < e'.scope.library.types.size := by
  cases object with
  | none =>
    obtain ⟨rfl, rfl⟩ := ok_eq_ok.mp h
    exact ⟨.of_scope .start, by simp⟩
  | some owner =>
    obtain ⟨p, e₁, hmap, rfl, rfl⟩ := return_ok.mp h
    obtain ⟨pointer, e₂, hpointer, hmap⟩ := bind_ok.mp hmap
    obtain ⟨s, hscope, rfl⟩ := onScope_ok.mp hpointer
    obtain ⟨v, e₃, hparameter, rfl, rfl⟩ := return_ok.mp hmap
    obtain ⟨hheads, hv⟩ := parameter_heads
      (hs.onTypes (Registry.pointerType_enters owner) hscope).2 hparameter
    have hheads := (Emitter.Heads.of_scope (.pointerType .start hscope)).trans hheads
    refine ⟨hheads, fun p hp => ?_⟩
    cases hp
    exact ⟨hv.fixed, Nat.lt_of_lt_of_le (hobject owner rfl) (hheads.scope.advances hs).types⟩

/-- The first block is placed and construction goes on in it. -/
theorem entryBlock_ok {b b₁ b₂ : Builder} {c : BlockId} {u : Unit} (hblocks : b.routine.blocks = [])
    (horder : b.routine.order = []) (h₁ : Builder.placedBlock name b = (.ok c, b₁))
    (h₂ : Builder.enter c b₁ = (.ok u, b₂)) :
    b₂ = ⟨{ b.routine with blocks := [{ id := ⟨0⟩, name := name }], order := [⟨0⟩] }, some ⟨0⟩⟩ := by
  obtain ⟨⟨_, _, _, _, blocks, order, _⟩, _⟩ := b
  obtain rfl : blocks = [] := hblocks
  obtain rfl : order = [] := horder
  replace h₁ := after_ok h₁ rfl
  replace h₁ := after_ok h₁ rfl
  obtain ⟨rfl, rfl⟩ := ok_eq_ok.mp h₁
  obtain ⟨-, rfl⟩ := ok_eq_ok.mp h₂
  rfl

/-- **The first stage** is where the first block has been placed. -/
theorem exists_site (hreaches : s₀.Reaches e.scope) (hs : e.scope.Grounded) {f : Routine}
    (hbuilder : e.builder =
      ⟨{ f with blocks := [{ id := ⟨0⟩, name := name }], order := [⟨0⟩] }, some ⟨0⟩⟩)
    (hlocals : e.locals = [])
    (hthis : ∀ p ∈ e.this, p.1 ∈ e.builder.routine.fixed ∧
      p.2.index < e.scope.library.types.size) :
    ∃ w : Site K s₀, w.emitter = e ∧ w.waiting = ∅ := by
  obtain ⟨scope, builder, locals, this, returnType⟩ := e
  obtain rfl : builder = _ := hbuilder
  obtain rfl : locals = [] := hlocals
  have hzero : ∀ c : BlockId, c.index < 1 → c = ⟨0⟩ := by
    rintro ⟨index⟩ hc
    obtain rfl : index = 0 := Nat.lt_one_iff.mp hc
    rfl
  -- the only block is placed and empty
  have hnone : ∀ c : BlockId, c.index < 1 → c ∉ [(⟨0⟩ : BlockId)] → False :=
    fun c hc hnot => hnot (hzero c hc ▸ List.mem_cons_self)
  have honly : ∀ c : BlockId, c ∈ [(⟨0⟩ : BlockId)] → ∀ x,
      [({ id := ⟨0⟩, name := name } : Block)][c.index]? = some x →
        x = { id := ⟨0⟩, name := name } := by
    intro c hc x hx
    obtain rfl := List.mem_singleton.mp hc
    exact (Option.some.inj hx).symm
  refine ⟨⟨⟨_, fun _ => ∅, hreaches, hs, ⟨?_, ?_, ?_, ?_⟩,
    ⟨?_, ⟨⟨0⟩, List.mem_cons_self, rfl⟩, ?_, ?_, ?_⟩, ?_, ?_, ?_, ?_, hthis⟩, ?_⟩, rfl, ?_⟩
  · exact List.nodup_singleton _
  · exact ⟨⟨0⟩, _, rfl, rfl, rfl⟩
  · exact List.forall_mem_nil _
  · exact List.nodup_nil
  · exact List.forall_mem_singleton.mpr Nat.one_pos
  · exact fun c hc => (hnone c hc.1 hc.2).elim
  · intro c hc x hx
    rw [honly c hc x hx]
    exact List.forall_mem_nil _
  · intro c hc x hx
    rw [honly c hc x hx]
    simp
  · intro c hc
    obtain rfl := hzero c hc
    exact True.intro
  · exact fun _ _ => Set.empty_subset _
  · exact List.forall_mem_nil _
  · exact List.forall_mem_nil _
  · intro c x hc hx
    cases hc
    rw [honly _ List.mem_cons_self x hx]
    simp
  · exact Set.eq_empty_of_forall_notMem fun c hc => hnone c hc.1 hc.2

/-- **Opening a function** leads to a stage in which no block waits. -/
theorem opening_ok {object : Option TypeRef} {ps : List ParameterDecl} {u : Unit}
    (hreaches : s₀.Reaches e.scope) (hs : e.scope.Grounded)
    (hblocks : e.builder.routine.blocks = []) (horder : e.builder.routine.order = [])
    (hlocals : e.locals = []) (hobject : ∀ t ∈ object, t.index < e.scope.library.types.size)
    (h : opening object ps location e = (.ok u, e')) :
    ∃ w : Site K s₀, w.emitter = e' ∧ w.waiting = ∅ ∧ e'.returnType = e.returnType := by
  unfold opening at h
  obtain ⟨this, e₁, hreceiver, h⟩ := bind_ok.mp h
  obtain ⟨hheads₁, hthis⟩ := receiver_heads hs hobject hreceiver
  have hs₁ := (hheads₁.scope.advances hs).grounded
  obtain ⟨qs, e₂, hparameters, h⟩ := bind_ok.mp h
  obtain ⟨hheads₂, hqs⟩ := parameters_heads hs₁ hparameters
  have hheads := hheads₁.trans hheads₂
  obtain ⟨c, e₃, hplaced, h⟩ := bind_ok.mp h
  obtain ⟨b, hb, rfl⟩ := build_ok.mp hplaced
  obtain ⟨_, e₄, henter, h⟩ := bind_ok.mp h
  obtain ⟨b', hb', rfl⟩ := build_ok.mp henter
  replace h := after_ok h rfl
  obtain rfl := entryBlock_ok (hheads.blocks.trans hblocks) (hheads.order.trans horder) hb hb'
  have hfixed : ∀ {v : ValueId}, v ∈ e₁.builder.routine.fixed →
      ∃ q ∈ e₂.builder.routine.parameters, q.id = v := by
    rintro v (⟨q, hq, rfl⟩ | ⟨op, hop, -⟩)
    · exact ⟨q, hheads₂.parameters.subset hq, rfl⟩
    · -- there is no block to hold a variable yet
      unfold Routine.locals Routine.entryBlock? Routine.entry? at hop
      rw [hheads₁.order.trans horder] at hop
      cases hop
  obtain ⟨w, hw, hwaiting⟩ : ∃ w : Site K s₀, w.emitter = { e₂ with
      builder := ⟨{ e₂.builder.routine with
        blocks := [{ id := ⟨0⟩, name := "entry" }], order := [⟨0⟩] }, some ⟨0⟩⟩,
      this := this } ∧ w.waiting = ∅ :=
    exists_site (hreaches.trans hheads.scope) (hheads.scope.advances hs).grounded rfl
      (hheads.locals.trans hlocals) fun p hp => ⟨.inl (hfixed (hthis p hp).1),
        Nat.lt_of_lt_of_le (hthis p hp).2 (hheads₂.scope.advances hs₁).types⟩
  have hcopies : (stages K s₀).Leads w (copyParameters location qs) fun _ _ => True := by
    refine .forM fun q hq w' hw' => ?_
    obtain ⟨p, v, ty⟩ := q
    obtain ⟨hv, hty⟩ := hqs _ hq
    have hty : w.HasType ty := by
      unfold World.HasType
      rw [hw]
      exact hty
    have hv : v ∈ w.hand := by
      refine World.mem_hand_of_fixed ?_
      rw [hw]
      exact .inl hv
    refine (declareLocal_leads (hty.mono hw'.toGrows) p.id p.name location).bind
      fun pointer w'' hw'' hpointer => ?_
    have hpointer : w''.Usable (.value pointer) := World.usable_value (World.mem_hand_of_fixed hpointer)
    have hvalue : w''.Usable (.value v) := World.usable_value ((hw'.trans hw'').hand hv)
    exact .site (plain_leads (by simpa using ⟨hpointer, hvalue⟩) location)
  obtain ⟨w', rfl, hw', -⟩ := hcopies u e' (by change copyParameters _ _ w.emitter = _; rw [hw]; exact h)
  refine ⟨w', rfl, hw'.waiting.trans hwaiting, hw'.returnType.trans ?_⟩
  rw [hw]
  exact hheads.returnType

end Emit

/-! ### Finished functions -/

section Finished

variable {K : FunctionRef → Prop} {s₀ s : Scope} {t : Tree} {own : LibraryId} {ds : List Library}
  {c : ClassDecl} {g : FunctionRef} {d : Draft} {r : Routine}

/-- What a class defines leads on. -/
theorem ClassDecl.Defines.leads (hd : c.Defines s₀ g d) (h₀ : s₀.Declaring t own ds)
    (hK : s₀.Anchored K) (w : Site K s₀) :
    (Emit.stages K s₀).Leads w d.body fun _ _ => True := by
  have hsound := Emit.stages_sound h₀ hK
  cases hd with
  | preConstructor =>
    exact (Emit.Stages.initializers_emits hsound fun _ _ =>
      ⟨fun _ _ => True.intro, fun _ _ _ _ _ f _ hshape hf => hshape f hf⟩).leads
  | constructor hshape =>
    exact (Emit.Stages.constructorBody_emits hsound (fun _ _ => True.intro)
      fun f => hK.shaped _ _ f (hshape.shapes h₀)).leads
  | function | accessor =>
    exact (Emit.Stages.stmts_emits hsound _ none w (by simp) fun _ _ => True.intro).leads

/-- The type of the object is the one that the class was declared with. -/
theorem ClassDecl.Defines.object_lt (hd : c.Defines s₀ g d) (h₀ : s₀.Declaring t own ds)
    (hs₀ : s₀.Grounded) {shape : ClassShape} (hshape : s₀.classes.lookup c.id = some shape) :
    ∀ ty ∈ d.object, ty.index < s₀.library.types.size := by
  have hlt : ∀ {shape'}, s₀.Finds c.id shape' → ∀ ty ∈ some shape'.ty,
      ty.index < s₀.library.types.size := by
    intro shape' hfinds ty hty
    rw [← Option.some.inj hty, hfinds.eq h₀ hshape]
    exact hs₀.classes _ (mem_of_lookup_eq_some hshape)
  cases hd with
  | preConstructor hfinds => exact hlt hfinds
  | constructor hfinds => exact hlt hfinds
  | function hfinds =>
    dsimp only
    split
    · simp
    · exact hlt hfinds
  | accessor hfinds => exact hlt hfinds

/-- **What a function has become** refers to what is at hand, and its blocks lead forward. -/
theorem Draft.Becomes.scoped (h : d.Becomes s₀ s g r) (h₀ : s₀.Declaring t own ds)
    (hK : s₀.Anchored K) (hs₀ : s₀.Grounded) (hd : c.Defines s₀ g d)
    (hobject : ∀ ty ∈ d.object, ty.index < s₀.library.types.size) :
    (∃ entry, r.Scoped K s.library.constants.length s.library.types.size entry) ∧ r.Forward := by
  obtain ⟨s₁, p, e, hs₁, hstart, hrun, hend, rfl⟩ := h
  have hreaches := (hd.emit_traces (C := fun _ _ => True) h₀
    (ClassDecl.licenses_of_forall fun _ _ => True.intro) hs₁ hrun).reaches
  have hadvances := hs₁.advances hs₀
  obtain ⟨-, r, result, info, -, -, hresult, rfl⟩ := Emit.start_ok hstart
  obtain ⟨_, e₁, hopening, hrun⟩ := bind_ok.mp hrun
  obtain ⟨w, rfl, hwaiting, hreturn⟩ := Emit.opening_ok (K := K) hs₁ hadvances.grounded rfl rfl rfl
    (fun ty hty => Nat.lt_of_lt_of_le (hobject ty hty) hadvances.types) hopening
  obtain ⟨w', rfl, hw', -⟩ := hd.leads h₀ hK w _ _ hrun
  have hwaiting : w'.waiting = ∅ := hw'.waiting.trans hwaiting
  -- what a function returns was known before it was opened
  have hty : ∀ ty ∈ w'.emitter.returnType, w'.HasType ty := by
    rw [hw'.returnType, hreturn]
    intro ty hty
    have hlt : result.index < s₁.library.types.size :=
      Registry.index_lt_of_info? (Registry.info_ok hresult)
    split at hty
    · cases hty
    · cases hty
      exact Nat.lt_of_lt_of_le hlt (hreaches.advances hadvances.grounded).types
  have hlast := hend.advances w'.stage.scope
  exact ⟨⟨w'.entry, (w'.scoped_repair hwaiting hty).mono (fun _ hg => hg) hlast.constants hlast.types⟩,
    w'.stage.laid.forward w'.stage.built.order hwaiting _⟩

end Finished

end Shader
