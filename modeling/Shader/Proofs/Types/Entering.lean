import Shader.Proofs.Types.Closed

/-!
# Types that can be entered

What a registry refuses can be foreseen. A builtin type is accepted or not whatever else has been
entered, pointer types and function types can always be made of types that are there, and a member can
be added to a struct that has none of that name. Function types are entered by asking for them, and
by nothing else (`Registry.NoNewFunction`).
-/

namespace Shader

namespace Registry

open Outcome

variable {r r' r'' : Registry}

/-! ### Function types -/

/-- All function types have been there before. -/
def NoNewFunction (r r' : Registry) : Prop :=
  ∀ t i, r'.info? t = some i → i.kind = .function → ∃ j, r.info? t = some j ∧ j.kind = .function

theorem NoNewFunction.refl (r : Registry) : NoNewFunction r r := fun _ i hi hkind => ⟨i, hi, hkind⟩

theorem NoNewFunction.trans (h : NoNewFunction r r') (h' : NoNewFunction r' r'') :
    NoNewFunction r r'' := by
  intro t i hi hkind
  obtain ⟨j, hj, hkind⟩ := h' t i hi hkind
  exact h t j hj hkind

theorem noNewFunction_push {i : TypeInfo} (hkind : i.kind ≠ .function) :
    NoNewFunction r (r.push i) := by
  intro t j hj hfunction
  rcases info?_push_cases hj with ⟨-, rfl⟩ | hold
  · exact absurd hfunction hkind
  · exact ⟨j, hold, hfunction⟩

variable {t owner : TypeRef} {spec : TypeSpec}

theorem noNewFunction_modify {f : TypeInfo → TypeInfo} (hf : ∀ i, (f i).kind = i.kind) :
    NoNewFunction r (r.modify t f) := by
  intro t' j hj hfunction
  rw [info?_modify] at hj
  split at hj
  · obtain ⟨i, hi, rfl⟩ := Option.map_eq_some_iff.mp hj
    exact ⟨i, hi, (hf i).symm.trans hfunction⟩
  · exact ⟨j, hj, hfunction⟩

theorem noNewFunction_intern (r : Registry) (name : String) {kind : Kind} (count : Nat)
    (component : Option TypeRef) (hkind : kind ≠ .function) :
    NoNewFunction r (r.intern name kind count component).2 := by
  rcases r.intern_cases name kind count component with ⟨t, -, heq⟩ | ⟨-, heq⟩
  · rw [heq]
    exact .refl r
  · rw [heq]
    exact noNewFunction_push hkind

theorem noNewFunction_enterBuiltin (h : r.enterBuiltin spec = .ok (t, r')) :
    NoNewFunction r r' := by
  refine (enterBuiltin_rule (P := NoNewFunction r) (fun {_ spec _ _} hr _ _ => ?_) (.refl r) h).1
  refine hr.trans (noNewFunction_intern _ _ _ _ ?_)
  exact (builtinKind_ne spec).2.1

/-! ### Single types -/

/-- **A builtin type can be entered** or not, whatever the registry holds. -/
theorem isOk_enterBuiltin (spec : TypeSpec) (r : Registry) :
    (r.enterBuiltin spec).isOk = true ↔ spec.Lowerable := by
  induction spec with
  | void | scalar => simp [enterBuiltin, TypeSpec.Lowerable, Except.isOk, Except.toBool]
  | vector k n =>
    unfold enterBuiltin vectorType
    split <;> simp_all [TypeSpec.Lowerable, Except.isOk, Except.toBool]
  | matrix m n =>
    rw [enterBuiltin]
    unfold vectorType
    split <;> simp_all [TypeSpec.Lowerable, Except.isOk, Except.toBool, bind, Except.bind, pure,
      Except.pure]
  | array element n ih =>
    rw [enterBuiltin, TypeSpec.Lowerable, ← ih]
    cases helement : r.enterBuiltin element with
    | error e => cases element.builtinName <;> simp [Except.isOk, Except.toBool, bind, Except.bind]
    | ok p =>
      obtain ⟨name, hname, -⟩ := (enterBuiltin_rule (P := fun _ => True)
        (fun _ _ _ => True.intro) True.intro helement).2
      simp [hname, Except.isOk, Except.toBool, bind, Except.bind, pure, Except.pure]
  | ofClass | math => simp [enterBuiltin, TypeSpec.Lowerable, Except.isOk, Except.toBool]

/-- **Builtin types** that are accepted anywhere are accepted here. -/
theorem lowerBuiltin_succeeds (haccepted : (({} : Registry).enterBuiltin spec).isOk = true) :
    Succeeds (lowerBuiltin spec) r fun _ r' => NoNewFunction r r' := by
  rw [isOk_enterBuiltin, ← isOk_enterBuiltin spec r] at haccepted
  cases henter : r.enterBuiltin spec with
  | error e =>
    rw [henter] at haccepted
    nomatch haccepted
  | ok p =>
    refine ⟨p.1, p.2, ?_, noNewFunction_enterBuiltin henter⟩
    rw [lowerBuiltin_apply, henter]
    rfl

/-- **Pointer types** can always be entered. -/
theorem pointerType_succeeds (ht : t.index < r.size) :
    Succeeds (pointerType t) r fun _ r' => NoNewFunction r r' := by
  obtain ⟨i, hi⟩ := exists_info? ht
  obtain ⟨p, r', h⟩ : ∃ p r', pointerType t r = (.ok p, r') := by
    rw [pointerType_apply, hi]
    dsimp only
    cases i.pointer with
    | some p => exact ⟨p, r, rfl⟩
    | none => exact ⟨_, _, rfl⟩
  refine ⟨p, r', h, ?_⟩
  obtain ⟨j, -, ⟨-, rfl⟩ | ⟨-, -, rfl⟩⟩ := pointerType_cases h
  · exact .refl r'
  · have hintern := noNewFunction_intern r (pointerName j.name) 0 none (nofun : Kind.pointer ≠ .function)
    refine hintern.trans fun u k hk hkind => ?_
    rw [info?_link] at hk
    obtain ⟨k₀, hk₀, rfl⟩ := Option.map_eq_some_iff.mp hk
    exact ⟨k₀, hk₀, hkind⟩

theorem exists_names {ps : List TypeRef} (h : ∀ p ∈ ps, p.index < r.size) :
    ∃ names, List.Forall₂ r.Named ps names := by
  induction ps with
  | nil => exact ⟨[], .nil⟩
  | cons p ps ih =>
    obtain ⟨i, hi⟩ := exists_info? (h p List.mem_cons_self)
    obtain ⟨names, hnames⟩ := ih fun q hq => h q (List.mem_cons_of_mem _ hq)
    exact ⟨i.name :: names, .cons ⟨i, hi, rfl⟩ hnames⟩

/-- **Function types** can always be entered. A new one has the given parts. -/
theorem functionType_succeeds {result : TypeRef} {parameters : List TypeRef}
    (hparts : ∀ p ∈ result :: parameters, p.index < r.size) :
    Succeeds (functionType result parameters) r fun t r' =>
      r' = r ∧ (∃ name names, r.find? (signatureName name names) = some t) ∨
      ∃ name, t = ⟨r.size⟩ ∧
        r' = r.push { name := name, kind := .function, count := 0, component := none,
                      parts := result :: parameters } := by
  obtain ⟨hresult, hparameters⟩ := List.forall_mem_cons.mp hparts
  obtain ⟨i, hi⟩ := exists_info? hresult
  obtain ⟨names, hnames⟩ := exists_names hparameters
  rw [Succeeds, functionType_apply, signatureOf_eq_ok.mpr ⟨_, _, ⟨i, hi, rfl⟩, hnames, rfl⟩]
  dsimp only
  cases hfind : r.find? (signatureName i.name names) with
  | some t => exact ⟨t, r, rfl, .inl ⟨rfl, _, _, hfind⟩⟩
  | none => exact ⟨⟨r.size⟩, _, rfl, .inr ⟨_, rfl, rfl⟩⟩

theorem addFunction_succeeds (howner : owner.index < r.size) (f : FunctionRef) :
    Succeeds (addFunction owner f) r fun _ r' => NoNewFunction r r' := by
  obtain ⟨i, hi⟩ := exists_info? howner
  unfold addFunction
  exact ⟨(), _, bind_ok.mpr ⟨r, r, rfl, bind_ok.mpr ⟨i, r, lift_ok.mpr ⟨info_eq hi, rfl⟩, rfl⟩⟩,
    noNewFunction_modify fun _ => rfl⟩

/-- **A member** can be added to a struct that has none of this name. -/
theorem addMember_succeeds {member : TypeRef} {i : TypeInfo} {name : String}
    (hi : r.info? owner = some i) (hkind : i.kind = .struct) (hnew : name ∉ i.memberNames)
    (hmember : member.index < r.size) :
    Succeeds (addMember owner member name) r fun _ r' => NoNewFunction r r' := by
  obtain ⟨j, hj⟩ := exists_info? hmember
  refine ⟨i.parts.length, r.extend owner member name, ?_, noNewFunction_modify fun _ => rfl⟩
  rw [addMember_apply, hi]
  dsimp only
  rw [if_neg (not_not.mpr hkind), if_neg hnew, hj]

end Registry

end Shader
