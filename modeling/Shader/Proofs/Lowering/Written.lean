import Shader.Proofs.Calls.Bodies

/-!
# The bodies that are written

Emission goes through the classes of a tree and writes one function after the other into the library.
What is written for a function does not depend on what has been written before: it is emitted from a
scope that gives the same answers as the scope of the declared tree. So a property of all functions of
the library follows from a property of what is emitted for each declaration.
-/

namespace Shader

open Outcome

/-! ### Drafts -/

/-- What is emitted into a function. -/
structure Draft where
  object : Option TypeRef
  parameters : List ParameterDecl
  body : EmitM Unit
  location : Location

/-- The shape that emission finds for a class. -/
def Scope.Finds (s₀ : Scope) (cid : ClassId) (shape : ClassShape) : Prop :=
  ∃ s s' location, s₀.Reaches s ∧ Scope.classShape cid location s = (.ok shape, s')

namespace ClassDecl

open Emit

/-- **What a class defines** for a function. -/
inductive Defines (s₀ : Scope) (c : ClassDecl) : FunctionRef → Draft → Prop
  | preConstructor {shape : ClassShape} {g : FunctionRef} (hshape : s₀.Finds c.id shape)
    (hg : shape.preConstructor = some g) :
    Defines s₀ c g ⟨some shape.ty, [], initializers c, c.location⟩
  | constructor {shape : ClassShape} {k : ConstructorDecl} {g : FunctionRef}
    (hshape : s₀.Finds c.id shape) (hk : k ∈ c.constructors) (hg : s₀.Names k.id g) :
    Defines s₀ c g
      ⟨some shape.ty, k.parameters, constructorBody shape.preConstructor k, k.location⟩
  | function {shape : ClassShape} {f : FunctionDecl} {g : FunctionRef} (hshape : s₀.Finds c.id shape)
    (hf : f ∈ c.functions) (hg : s₀.Names f.id g) :
    Defines s₀ c g
      ⟨if f.isStatic then none else some shape.ty, f.parameters, stmts none f.body, f.location⟩
  | accessor {shape : ClassShape} {v : VariableDecl} {f : FunctionDecl} {g : FunctionRef}
    (hshape : s₀.Finds c.id shape) (hv : v ∈ c.members) (hf : f ∈ v.accessors)
    (hg : s₀.Names f.id g) : Defines s₀ c g ⟨some shape.ty, f.parameters, stmts none f.body, f.location⟩

/-- **A licence.** What has to be granted to the bodies that a class defines for a function. -/
structure Licenses (s₀ : Scope) (c : ClassDecl) (g : FunctionRef) (C : FunctionRef → Nat → Prop) :
    Prop where
  preConstructor : ∀ shape, s₀.Shapes c.id shape → shape.preConstructor = some g → ∀ v ∈ c.members,
    PositionsGranted s₀ C (exprPositions? v.initial) ∧
      (v.initial = none → ∀ i, s₀.fieldIndex? v.id = some i → ∀ cid shape' f, v.ty = .ofClass cid →
        s₀.Shapes cid shape' → shape'.preConstructor = some f → C f 1)
  constructor : ∀ k ∈ c.constructors, s₀.Names k.id g →
    PositionsGranted s₀ C (stmtsPositions k.body) ∧
      ∀ shape f, s₀.Shapes c.id shape → shape.preConstructor = some f → C f 1
  function : ∀ f ∈ c.functions, s₀.Names f.id g → PositionsGranted s₀ C (stmtsPositions f.body)
  accessor : ∀ v ∈ c.members, ∀ f ∈ v.accessors, s₀.Names f.id g →
    PositionsGranted s₀ C (stmtsPositions f.body)

/-- The function is one that is emitted with the class. -/
def Emits (s₀ : Scope) (c : ClassDecl) (g : FunctionRef) : Prop :=
  (∃ shape, s₀.classes.lookup c.id = some shape ∧ shape.preConstructor = some g) ∨
    ∃ id ∈ c.bodyIds, s₀.Names id g

end ClassDecl

section Drafts

variable {t : Tree} {own : LibraryId} {ds : List Library} {s₀ : Scope} {c : ClassDecl}
  {g : FunctionRef} {d : Draft} {C : FunctionRef → Nat → Prop} (h₀ : s₀.Declaring t own ds)

/-- Everything is licensed for the property that always holds. -/
theorem ClassDecl.licenses_of_forall (h : ∀ f n, C f n) : c.Licenses s₀ g C where
  preConstructor _ _ _ _ _ :=
    ⟨Emit.positionsGranted_of_forall h _, fun _ _ _ _ _ f _ _ _ => h f 1⟩
  constructor _ _ _ := ⟨Emit.positionsGranted_of_forall h _, fun _ f _ _ => h f 1⟩
  function _ _ _ := Emit.positionsGranted_of_forall h _
  accessor _ _ _ _ _ := Emit.positionsGranted_of_forall h _

include h₀

theorem Scope.Finds.shapes {cid : ClassId} {shape : ClassShape} (h : s₀.Finds cid shape) :
    s₀.Shapes cid shape := by
  obtain ⟨s, s', location, hs, h⟩ := h
  exact (classShape_emitting h₀ cid location _ _ _ h (hs.emitting h₀)).2

/-- The shape of a class of the tree is found. -/
theorem Scope.Finds.eq {cid : ClassId} {shape shape' : ClassShape} (h : s₀.Finds cid shape)
    (hshape : s₀.classes.lookup cid = some shape') : shape = shape' := by
  obtain ⟨s, s', location, hs, h⟩ := h
  exact (classShape_of_lookup ((hs.emitting h₀).shapes _ _ hshape) h).1

/-- **What a class defines** makes calls that it has a licence for. -/
theorem ClassDecl.Defines.traces (hd : c.Defines s₀ g d) (hC : c.Licenses s₀ g C) (head : Bool)
    {e e' : Emitter} {u : Unit} (he : s₀.Reaches e.scope) (h : d.body e = (.ok u, e')) :
    Emit.Traces s₀ C head e e' := by
  cases hd with
  | preConstructor hshape hg =>
    exact Emit.initializers_traces h₀ he (hC.preConstructor _ (hshape.shapes h₀) hg) h
  | constructor hshape hk hg =>
    obtain ⟨hbody, hpre⟩ := hC.constructor _ hk hg
    exact Emit.constructorBody_traces h₀ he hbody (fun f hf => hpre _ f (hshape.shapes h₀) hf) h
  | function _ hf hg => exact Emit.stmts_traces h₀ he (hC.function _ hf hg) h
  | accessor _ hv hf hg => exact Emit.stmts_traces h₀ he (hC.accessor _ hv _ hf hg) h

theorem ClassDecl.Defines.emit_traces (hd : c.Defines s₀ g d) (hC : c.Licenses s₀ g C)
    {e e' : Emitter} {u : Unit} (he : s₀.Reaches e.scope)
    (h : (do Emit.opening d.object d.parameters d.location; d.body : EmitM Unit) e = (.ok u, e')) :
    Emit.Traces s₀ C true e e' := by
  obtain ⟨_, e₁, h₁, h₂⟩ := bind_ok.mp h
  have hopening := (Emit.opening_traces (C := C) _ _ _ _ _ _ h₁ (.refl he)).1
  exact hopening.trans (hd.traces h₀ hC true (he.trans hopening.reaches) h₂)

end Drafts

/-! ### Functions that have been written -/

/-- The draft has become a function, on the way to a scope. -/
def Draft.Becomes (s₀ s : Scope) (g : FunctionRef) (d : Draft) (r : Routine) : Prop :=
  ∃ s₁ p e, s₀.Reaches s₁ ∧ Emit.start g d.location s₁ = (.ok p, s₁) ∧
    (do Emit.opening d.object d.parameters d.location; d.body : EmitM Unit)
      { scope := s₁, builder := p.1, returnType := p.2 } = (.ok (), e) ∧
    e.scope.Reaches s ∧ r = e.builder.routine.repair e.returnType

variable {t : Tree}

/-- What a function has become makes calls that there is a licence for. -/
theorem Draft.Becomes.fits {own : LibraryId} {ds : List Library} {s₀ s : Scope} {c : ClassDecl}
    {g : FunctionRef} {d : Draft} {r : Routine} {C : FunctionRef → Nat → Prop}
    (h : d.Becomes s₀ s g r) (h₀ : s₀.Declaring t own ds) (hd : c.Defines s₀ g d)
    (hC : c.Licenses s₀ g C) : r.Each (Op.Fits C) := by
  obtain ⟨s₁, p, e, hs₁, hstart, hrun, -, rfl⟩ := h
  obtain ⟨-, r, _, _, -, -, -, rfl⟩ := Emit.start_ok hstart
  refine ((hd.emit_traces h₀ hC hs₁ hrun).each (fun _ h => h) ?_).repair fun _ hop h => absurd h hop
  exact List.forall_mem_nil _

/-- Something that the tree defines for a function has become this one. -/
def Tree.Writes (t : Tree) (s₀ s : Scope) (g : FunctionRef) (r : Routine) : Prop :=
  ∃ c ∈ t.classes, ∃ d, c.Defines s₀ g d ∧ d.Becomes s₀ s g r

/-- **The library while it is written.** All functions are as they were declared or have been written,
and those in `W` have been written. -/
structure Scope.Written (t : Tree) (s₀ : Scope) (W : FunctionRef → Prop) (s : Scope) : Prop where
  reaches : s₀.Reaches s
  bodies : ∀ g r, s.library.routine? g = some r →
    s₀.library.routine? g = some r ∨ t.Writes s₀ s g r
  written : ∀ g, W g → ∃ r, s.library.routine? g = some r ∧ t.Writes s₀ s g r

namespace Emit

variable {t : Tree} {own : LibraryId} {ds : List Library} {s₀ s s' : Scope} {c : ClassDecl}
  {f g : FunctionRef} {d : Draft} {r : Routine} {W W' : FunctionRef → Prop} {α : Type}

theorem writes_mono (h : t.Writes s₀ s g r) (hs : s.Reaches s') : t.Writes s₀ s' g r := by
  obtain ⟨c, hc, d, hd, s₁, p, e, hs₁, hstart, hrun, he, rfl⟩ := h
  exact ⟨c, hc, d, hd, s₁, p, e, hs₁, hstart, hrun, he.trans hs, rfl⟩

theorem written_mono (h : s₀.Written t W s) (hW : ∀ g, W' g → W g) : s₀.Written t W' s :=
  { h with written := fun g hg => h.written g (hW g hg) }

/-- Emission goes on without a change of the functions. -/
theorem written_of_reaches (h : s₀.Written t W s) (hs : s.Reaches s')
    (hsame : ∀ g, s'.library.routine? g = s.library.routine? g) : s₀.Written t W s' := by
  refine ⟨h.reaches.trans hs, fun g r hr => ?_, fun g hg => ?_⟩
  · exact (h.bodies g r ((hsame g).symm.trans hr)).imp_right fun hw => writes_mono hw hs
  · obtain ⟨r, hr, hw⟩ := h.written g hg
    exact ⟨r, (hsame g).trans hr, writes_mono hw hs⟩

/-- **Emitting a function** replaces its body and leaves the other functions alone. -/
theorem routine_written (h₀ : s₀.Declaring t own ds) (hc : c ∈ t.classes) (hd : c.Defines s₀ f d) :
    Turns (s₀.Written t W) (s₀.Written t fun g => W g ∨ g = f)
      (routine f d.object d.parameters d.body d.location) := by
  intro s u s' h hs
  obtain ⟨p, e, e', hstart, hrun, hfinish, rfl⟩ := routine_ok h
  have htraces := hd.emit_traces (C := fun _ _ => True) h₀
    (ClassDecl.licenses_of_forall fun _ _ => True.intro) hs.reaches hrun
  obtain ⟨l, hl, rfl⟩ := finish_ok hfinish
  have hreaches : s.Reaches { e.scope with library := l } := htraces.reaches.install hl
  have hroutine : ∀ g, l.routine? g =
      if g = f then some (e.builder.routine.repair e.returnType) else s.library.routine? g := by
    intro g
    rw [(Library.routine?_of_install? hl).2 g, Library.routine?, Library.routine?, htraces.routines,
      ((hs.reaches.trans htraces.reaches).emitting h₀).id, (hs.reaches.emitting h₀).id]
  have hwrites : t.Writes s₀ { e.scope with library := l } f (e.builder.routine.repair e.returnType) :=
    ⟨c, hc, d, hd, s, p, e, hs.reaches, hstart, hrun, .install .start hl, rfl⟩
  refine ⟨hs.reaches.trans hreaches, fun g r hr => ?_, fun g hg => ?_⟩
  · rw [hroutine] at hr
    split at hr
    · next hgf =>
      cases hr
      exact .inr (hgf ▸ hwrites)
    · exact (hs.bodies g r hr).imp_right fun hw => writes_mono hw hreaches
  · dsimp only
    rw [hroutine]
    by_cases hgf : g = f
    · rw [if_pos hgf]
      exact ⟨_, rfl, hgf ▸ hwrites⟩
    · rw [if_neg hgf]
      obtain ⟨r, hr, hw⟩ := hs.written g (hg.resolve_right hgf)
      exact ⟨r, hr, writes_mono hw hreaches⟩

/-- A list of functions is written one by one. -/
theorem forM_written {as : List α} {f : α → ScopeM PUnit} {P : α → FunctionRef → Prop}
    (hf : ∀ a ∈ as, ∀ W, Turns (s₀.Written t W) (s₀.Written t fun g => W g ∨ P a g) (f a)) :
    Turns (s₀.Written t W) (s₀.Written t fun g => W g ∨ ∃ a ∈ as, P a g) (as.forM f) := by
  induction as generalizing W with
  | nil =>
    intro s u s' h hs
    obtain ⟨-, rfl⟩ := ok_eq_ok.mp h
    exact written_mono hs fun g hg => hg.resolve_right fun ⟨_, ha, _⟩ => nomatch ha
  | cons a as ih =>
    intro s u s'' h hs
    rw [forM_cons] at h
    obtain ⟨_, s', h₁, h₂⟩ := bind_ok.mp h
    have hs' := hf a List.mem_cons_self W _ _ _ h₁ hs
    refine written_mono (ih (fun b hb => hf b (List.mem_cons_of_mem a hb)) _ _ _ h₂ hs') ?_
    rintro g (hg | ⟨b, hb, hg⟩)
    · exact .inl (.inl hg)
    · rcases List.mem_cons.mp hb with rfl | hb
      · exact .inl (.inr hg)
      · exact .inr ⟨b, hb, hg⟩

/-- A function that is looked up by its identity. -/
theorem named_written (h₀ : s₀.Declaring t own ds) {id : FunctionId} {location : Location}
    {k : FunctionRef → ScopeM Unit} (hk : ∀ f, s₀.Names id f →
      Turns (s₀.Written t W) (s₀.Written t fun g => W g ∨ g = f) (k f)) :
    Turns (s₀.Written t W) (s₀.Written t fun g => W g ∨ s₀.Names id g)
      (Scope.function id location >>= k) := by
  intro s u s' h hs
  obtain ⟨f, s₁, h₁, h₂⟩ := bind_ok.mp h
  obtain ⟨rfl, hf⟩ := Scope.function_ok h₁
  have hnames : s₀.Names id f := ((hs.reaches.emitting h₀).findFunction?_eq id).symm.trans hf
  refine written_mono (hk f hnames _ _ _ h₂ hs) fun g hg => hg.imp_right fun hg => ?_
  exact Option.some.inj (hg.symm.trans hnames)

/-- **Emitting a class** writes all of its functions. -/
theorem classDecl_written (h₀ : s₀.Declaring t own ds) (hc : c ∈ t.classes) :
    Turns (s₀.Written t W) (s₀.Written t fun g => W g ∨ c.Emits s₀ g) (classDecl c) := by
  intro s u s' h hs
  unfold classDecl at h
  obtain ⟨shape, s₁, h₁, hrun⟩ := bind_ok.mp h
  have hfinds : s₀.Finds c.id shape := ⟨s, s₁, c.location, hs.reaches, h₁⟩
  replace hs : s₀.Written t W s₁ := by
    refine written_of_reaches hs (.classShape .start h₁) fun g => ?_
    obtain ⟨types, classes, rfl⟩ := Scope.classShape_frame h₁
    rfl
  -- the pre-constructor comes first, if there is one; what follows is the same either way
  have hrest : ∀ W : FunctionRef → Prop, Turns (s₀.Written t W)
      (s₀.Written t fun g => W g ∨ ∃ id ∈ c.bodyIds, s₀.Names id g) (do
        c.constructors.forM fun k => do
          let f ← Scope.function k.id k.location
          routine f (some shape.ty) k.parameters (constructorBody shape.preConstructor k) k.location
        c.functions.forM fun f => functionDecl (if f.isStatic then none else some shape.ty) f
        c.members.forM fun v => v.accessors.forM (functionDecl (some shape.ty))) := by
    intro W s u s' h hs
    obtain ⟨_, s₂, h₂, h⟩ := bind_ok.mp h
    have hs₂ := forM_written (fun k hk W => named_written h₀ (W := W) fun g hg =>
      routine_written h₀ hc (.constructor hfinds hk hg)) _ _ _ h₂ hs
    obtain ⟨_, s₃, h₃, h₄⟩ := bind_ok.mp h
    have hs₃ := forM_written (fun f hf W => named_written h₀ (W := W) fun g hg =>
      routine_written h₀ hc (.function hfinds hf hg)) _ _ _ h₃ hs₂
    have hs₄ := forM_written (fun v hv W => forM_written fun f hf W => named_written h₀ (W := W)
      fun g hg => routine_written h₀ hc (.accessor hfinds hv hf hg)) _ _ _ h₄ hs₃
    refine written_mono hs₄ fun g hg => ?_
    simp only [ClassDecl.bodyIds, List.mem_append, List.mem_map, List.mem_flatMap] at hg
    rcases hg with hg | ⟨id, ⟨k, hk, rfl⟩ | ⟨f, hf, rfl⟩ | ⟨v, hv, f, hf, rfl⟩, hid⟩
    · exact .inl (.inl (.inl hg))
    · exact .inl (.inl (.inr ⟨k, hk, hid⟩))
    · exact .inl (.inr ⟨f, hf, hid⟩)
    · exact .inr ⟨v, hv, f, hf, hid⟩
  have hpre : ∀ {V : FunctionRef → Prop} {g}, c.Emits s₀ g →
      (∀ g, shape.preConstructor = some g → V g) → V g ∨ ∃ id ∈ c.bodyIds, s₀.Names id g := by
    rintro V g (⟨shape', hlookup, hg⟩ | hg) hV
    · obtain rfl := hfinds.eq h₀ hlookup
      exact .inl (hV g hg)
    · exact .inr hg
  cases hf : shape.preConstructor with
  | none =>
    rw [hf] at hrun hrest
    refine written_mono (hrest W _ _ _ hrun hs) fun g hg => hg.elim .inl fun hg => hpre hg ?_
    rw [hf]
    intro _ hnone
    cases hnone
  | some f =>
    rw [hf] at hrun hrest
    obtain ⟨_, s₂, h₂, hrun⟩ := bind_ok.mp hrun
    have hs₂ := routine_written h₀ hc (.preConstructor hfinds hf) _ _ _ h₂ hs
    refine written_mono (hrest _ _ _ _ hrun hs₂) fun g hg => hg.elim (fun hg => .inl (.inl hg))
      fun hg => hpre (V := fun g => W g ∨ g = f) hg fun g' hg' => .inr ?_
    exact Option.some.inj (hg'.symm.trans hf)

end Emit

/-- **Emitting all classes** writes all functions that are declared in them. -/
theorem lowerClasses_written {own : LibraryId} {ds : List Library} {s₀ : Scope}
    (h₀ : s₀.Declaring t own ds) {report : Report}
    (h : (lowerClasses t.classes s₀ report).2.failed = false) :
    s₀.Written t (fun g => ∃ c ∈ t.classes, c.Emits s₀ g) (lowerClasses t.classes s₀ report).1 := by
  have hs₀ : s₀.Written t (fun _ => False) s₀ :=
    ⟨.start, fun _ _ hr => .inl hr, fun _ hg => hg.elim⟩
  have hend := Emit.forM_written (fun c hc W => Emit.classDecl_written h₀ hc) _ _ _
    (lowerClasses_ok h) hs₀
  exact Emit.written_mono hend fun g hg => .inr hg

/-- **An accepted tree** was declared, no recursion was found, and all its functions were written. -/
theorem lowerTree_written {id : LibraryId} {name : String} {dependencies : List Library}
    {report : Report} (hforeign : Library.Foreign id dependencies)
    (h : (lowerTree t { id, name, dependencies } report).2.failed = false) :
    ∃ u s₀ s, Scope.declareTree t { library := { id, name, dependencies } } = (.ok u, s₀) ∧
      s₀.Declaring t id dependencies ∧ t.recursion? = none ∧
      (lowerTree t { id, name, dependencies } report).1 = { s.library with complete := true } ∧
      s₀.Written t (fun g => ∃ c ∈ t.classes, c.Emits s₀ g) s := by
  obtain ⟨u, s₀, hdeclare, hrecursion, hclasses, hresult⟩ := lowerTree_accepted h
  have h₀ := (Scope.declareTree_declaring _ _ _ hdeclare (Scope.declaring_empty hforeign)).1
  exact ⟨u, s₀, _, hdeclare, h₀, hrecursion, hresult, lowerClasses_written h₀ hclasses⟩

end Shader
