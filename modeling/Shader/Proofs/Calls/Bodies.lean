import Shader.Proofs.Calls.Emission

/-!
# Emitting functions

A function is started, emitted and finished (`Emit.routine_ok`). The emission of its head leaves a trace
(`Emit.opening_traces`), and so does the emission of its body, as far as what it calls is granted. If no
error is reported, all classes of a tree have been emitted in this way, one after the other
(`lowerTree_accepted`).
-/

namespace Shader

open Outcome

namespace Emit

/-! ### Statements -/

/-- All expressions are granted the property in their positions. -/
def PositionsGranted (s₀ : Scope) (C : FunctionRef → Nat → Prop) (ps : List (IoMode × Expr)) : Prop :=
  ∀ p ∈ ps, p.2.Granted s₀ C p.1

section Statements

variable {t : Tree} {own : LibraryId} {ds : List Library} {s₀ : Scope}
  {C : FunctionRef → Nat → Prop} {head : Bool} {e e' : Emitter} {u : Unit}
  (h₀ : s₀.Declaring t own ds) (he : s₀.Reaches e.scope)

theorem positionsGranted_of_forall (h : ∀ f n, C f n) (ps : List (IoMode × Expr)) :
    PositionsGranted s₀ C ps := fun p _ => p.2.granted_of_forall h p.1

include h₀ he

theorem stmts_traces {xs : List Stmt} (hC : PositionsGranted s₀ C (stmtsPositions xs))
    (h : stmts none xs e = (.ok u, e')) : Traces s₀ C head e e' :=
  traces_of_leads (fun w => (Stages.stmts_emits (tracedStages_sound h₀) xs none w
    (fun _ _ => True.intro) hC).leads) h he

/-- The body of a constructor calls what initializes the object and what its statements call. -/
theorem constructorBody_traces {preConstructor : Option FunctionRef} {k : ConstructorDecl}
    (hbody : PositionsGranted s₀ C (stmtsPositions k.body))
    (hpre : ∀ g, preConstructor = some g → C g 1)
    (h : constructorBody preConstructor k e = (.ok u, e')) : Traces s₀ C head e e' :=
  traces_of_leads
    (fun _ => (Stages.constructorBody_emits (tracedStages_sound h₀) hbody hpre).leads) h he

theorem initializers_traces {c : ClassDecl}
    (hmembers : ∀ v ∈ c.members, PositionsGranted s₀ C (exprPositions? v.initial) ∧
      (v.initial = none → ∀ i, s₀.fieldIndex? v.id = some i → ∀ cid shape g,
        v.ty = .ofClass cid → s₀.Shapes cid shape → shape.preConstructor = some g → C g 1))
    (h : initializers c e = (.ok u, e')) : Traces s₀ C head e e' :=
  traces_of_leads (fun _ => (Stages.initializers_emits (tracedStages_sound h₀) hmembers).leads) h he

end Statements

/-! ### Functions -/

section Functions

variable {s₀ : Scope} {C : FunctionRef → Nat → Prop} {e₀ : Emitter}

theorem parameter_traces (name : String) (ty : TypeRef) (location : Location) :
    Upholds (Traces s₀ C true e₀) (build location (Builder.parameter name ty)) fun _ => True :=
  build_traces (fun _ _ _ h => .single (.parameter rfl h)) location

theorem parameters_traces (location : Location) (ps : List ParameterDecl) :
    Upholds (Traces s₀ C true e₀) (parameters location ps) fun _ => True := by
  induction ps with
  | nil => exact .pure True.intro
  | cons p ps ih =>
    unfold parameters
    refine (lowerType_traces p.ty location).bind fun ty _ => ?_
    refine (parameter_traces p.name ty location).bind fun v _ => ?_
    exact ih.bind fun _ _ => .pure True.intro

/-- Behind its parameters, the head of a function is like any code. -/
theorem enterBody_traces (head : Bool) (this : Option Storage)
    (qs : List (ParameterDecl × ValueId × TypeRef)) (location : Location) :
    Upholds (Traces s₀ C head e₀) (do
      let entry ← build location (Builder.placedBlock "entry")
      build location (Builder.enter entry)
      modify fun e => { e with this := this }
      copyParameters location qs) fun _ => True := by
  refine Upholds.bind (Q := fun _ => True) (build_traces (fun b c b' h => ?_) location) fun c _ => ?_
  · obtain ⟨c, b₁, h₁, h⟩ := bind_ok.mp h
    obtain ⟨_, b₂, h₂, -, rfl⟩ := return_ok.mp h
    obtain ⟨-, rfl⟩ := ok_eq_ok.mp h₂
    refine .head (.block h₁) (.single ?_)
    unfold Routine.place
    split
    · exact .move (List.prefix_refl _) _
    · exact .move (List.prefix_append _ _) _
  refine Upholds.bind (Q := fun _ => True) (build_traces (fun b u b' h => ?_) location)
    fun _ _ => ?_
  · obtain ⟨-, rfl⟩ := ok_eq_ok.mp h
    exact .single (.move (List.prefix_refl _) _)
  refine (Upholds.modify fun e he => ?_).bind fun _ _ => Upholds.forM fun (p, v, ty) _ => ?_
  · exact ⟨he.start, he.reaches, he.routines, he.steps⟩
  · exact (declareLocal_traces p.id p.name ty location).bind fun pointer _ =>
      plain_traces (by decide) location

theorem opening_traces (object : Option TypeRef) (ps : List ParameterDecl) (location : Location) :
    Upholds (Traces s₀ C true e₀) (opening object ps location) fun _ => True := by
  unfold opening
  refine (Upholds.optionMapM (R := fun _ => True) fun owner _ => ?_).bind fun this _ => ?_
  · refine (pointerType_traces owner location).bind fun pointer _ => ?_
    exact (parameter_traces "this" pointer location).bind fun _ _ => .pure True.intro
  exact (parameters_traces location ps).bind fun qs _ => enterBody_traces true this qs location

variable {location : Location} {f : FunctionRef}

/-- Starting a function leaves the scope as it is. -/
theorem start_ok {s s' : Scope} {p : Builder × Option TypeRef}
    (h : start f location s = (.ok p, s')) :
    s' = s ∧ ∃ r result info, s.library.routine? f = some r ∧
      s.library.types.partAt r.functionType 0 = .ok result ∧
      s.library.types.info result = .ok info ∧
      p = (⟨r.shell, none⟩, if info.kind = .void then none else some result) := by
  unfold start at h
  replace h := after_ok h rfl
  cases hr : s.library.routine? f with
  | none =>
    rw [hr] at h
    exact absurd h error_ne_ok
  | some r =>
    rw [hr] at h
    obtain ⟨types, hx, rfl⟩ := Scope.onTypes_ok.mp h
    replace hx := after_ok hx rfl
    obtain ⟨result, _, h₂, hx⟩ := bind_ok.mp hx
    obtain ⟨hresult, rfl⟩ : s.library.types.partAt r.functionType 0 = .ok result ∧ _ :=
      Prod.mk.inj h₂
    obtain ⟨info, _, h₃, hx⟩ := bind_ok.mp hx
    obtain ⟨hinfo, rfl⟩ : s.library.types.info result = .ok info ∧ _ := Prod.mk.inj h₃
    obtain ⟨rfl, rfl⟩ := ok_eq_ok.mp hx
    exact ⟨s.withTypes_self, r, result, info, rfl, hresult, hinfo, rfl⟩

/-- What a function goes through: it is started, emitted and finished. -/
theorem routine_ok {object : Option TypeRef} {ps : List ParameterDecl} {body : EmitM Unit}
    {s s' : Scope} {u : Unit} (h : routine f object ps body location s = (.ok u, s')) :
    ∃ p e e', start f location s = (.ok p, s) ∧
      (do opening object ps location; body : EmitM Unit)
        { scope := s, builder := p.1, returnType := p.2 } = (.ok (), e) ∧
      finish f location e = (.ok (), e') ∧ s' = e'.scope := by
  unfold routine at h
  obtain ⟨⟨builder, returnType⟩, s₁, hstart, hrun⟩ := bind_ok.mp h
  obtain ⟨rfl, -⟩ := start_ok hstart
  dsimp only at hrun
  generalize hr : (do opening object ps location; body; finish f location : EmitM Unit)
    { scope := s₁, builder := builder, returnType := returnType } = r at hrun
  obtain ⟨result, e'⟩ := r
  cases hrun
  obtain ⟨_, e₁, h₁, hr⟩ := bind_ok.mp hr
  obtain ⟨_, e, h₂, h₃⟩ := bind_ok.mp hr
  exact ⟨_, e, e', hstart, bind_ok.mpr ⟨_, _, h₁, h₂⟩, h₃, rfl⟩

/-- A finished function is installed in its repaired form, and nothing else changes. -/
theorem finish_ok {e e' : Emitter} {u : Unit} (h : finish f location e = (.ok u, e')) :
    ∃ l, e.scope.library.install? f (e.builder.routine.repair e.returnType) = some l ∧
      e' = { e with scope := { e.scope with library := l } } := by
  unfold finish at h
  replace h := after_ok h rfl
  dsimp only at h
  split at h
  · cases hl : e.scope.library.install? f (e.builder.routine.repair e.returnType) with
    | some l =>
      rw [hl] at h
      obtain ⟨-, rfl⟩ := ok_eq_ok.mp h
      exact ⟨l, rfl, rfl⟩
    | none =>
      rw [hl] at h
      exact absurd h error_ne_ok
  · obtain ⟨_, _, h₁, -⟩ := bind_ok.mp h
    exact absurd h₁ error_ne_ok

end Functions

end Emit

/-! ### All classes -/

theorem Report.failed_add_diagnostic (report : Report) (e : LowerError) :
    (report.add e.diagnostic).failed = true := by
  have hseverity : e.diagnostic.severity = .error := by cases e <;> rfl
  unfold Report.add
  split
  · simp [Report.failed, Report.errors, Report.count, hseverity]
  · next h =>
    simp only [Report.accepts, hseverity, Bool.or_eq_true, Bool.not_eq_true', not_or,
      Bool.not_eq_false] at h
    exact h.2

/-- Emission does not forget an error. -/
theorem lowerClasses_failed (cs : List ClassDecl) (s : Scope) (report : Report)
    (h : report.failed = true) : (lowerClasses cs s report).2.failed = true := by
  induction cs generalizing s report with
  | nil => exact h
  | cons c cs ih =>
    rw [lowerClasses]
    split
    · exact ih _ _ h
    · next e _ _ =>
      dsimp only
      split
      · exact ih _ _ (report.failed_add_diagnostic e)
      · exact report.failed_add_diagnostic e

variable {report : Report}

/-- If no error is reported, all classes have been emitted, one after the other. -/
theorem lowerClasses_ok {cs : List ClassDecl} {s : Scope}
    (h : (lowerClasses cs s report).2.failed = false) :
    cs.forM Emit.classDecl s = (.ok ⟨⟩, (lowerClasses cs s report).1) := by
  induction cs generalizing s report with
  | nil => rfl
  | cons c cs ih =>
    rw [forM_cons]
    rw [lowerClasses] at h ⊢
    split at h
    · next s' hc => exact bind_ok.mpr ⟨_, s', hc, ih h⟩
    · next e s' hc =>
      dsimp only at h
      split at h
      · rw [lowerClasses_failed _ _ _ (report.failed_add_diagnostic e)] at h
        nomatch h
      · rw [report.failed_add_diagnostic e] at h
        nomatch h

/-! ### Accepted trees -/

/-- What an accepted tree went through: it was declared, no recursion was found, and its classes
were emitted without an error. -/
theorem lowerTree_accepted {t : Tree} {l : Library} (h : (lowerTree t l report).2.failed = false) :
    ∃ u s₀, Scope.declareTree t { library := l } = (.ok u, s₀) ∧ t.recursion? = none ∧
      (lowerClasses t.classes s₀ report).2.failed = false ∧
      (lowerTree t l report).1 =
        { (lowerClasses t.classes s₀ report).1.library with complete := true } := by
  unfold lowerTree at h ⊢
  split at h
  · next e s hs =>
    rw [report.failed_add_diagnostic e] at h
    nomatch h
  · next u s₀ hs =>
    rw [hs]
    cases hr : t.recursion? with
    | some r =>
      simp only [hr] at h
      rw [report.failed_add_diagnostic r.toError] at h
      nomatch h
    | none =>
      simp only [hr] at h ⊢
      by_cases hfailed : (lowerClasses t.classes s₀ report).2.failed = true
      · rw [if_pos hfailed] at h
        rw [hfailed] at h
        nomatch h
      · exact ⟨u, s₀, rfl, True.intro, Bool.not_eq_true _ ▸ hfailed, by rw [if_neg hfailed]⟩

theorem failed_of_accepted {t : Tree} {l : Library}
    (h : (lowerTree t l report).2.failed = false) : report.failed = false := by
  obtain ⟨u, s₀, -, -, hclasses, -⟩ := lowerTree_accepted h
  by_contra hfailed
  rw [lowerClasses_failed _ _ _ (by simpa using hfailed)] at hclasses
  nomatch hclasses

end Shader
