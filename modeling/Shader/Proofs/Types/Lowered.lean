import Shader.Proofs.Types.Portrait

/-!
# Lowering builtin types

A builtin type is found by its printed name, and the types it is made of are found by theirs. So the
registry tells two types of the language apart exactly if their names differ.

* `Registry.lowerInPlace` — lowering one type after the other. What is wrong with a type is noticed
  before anything has been entered, so it makes no difference (`Registry.lowerInPlace_apply`).
-/

namespace Shader

theorem TypeSpec.Lowerable.component {spec e : TypeSpec} {n : Nat} (h : spec.Lowerable)
    (he : spec.component? = some (e, n)) : e.Lowerable := by
  cases spec with
  | vector k m =>
    obtain ⟨rfl, -⟩ := Prod.mk.inj (Option.some.inj he)
    exact True.intro
  | matrix m k | array e' m =>
    obtain ⟨rfl, -⟩ := Prod.mk.inj (Option.some.inj he)
    exact h
  | _ => nomatch he

namespace Registry

open Outcome

variable {r r' : Registry} {spec : TypeSpec} {i : TypeInfo} {t : TypeRef}

/-! ### Registries that have builtin types in stock -/

/-- The descriptor of a builtin type, as it is entered. -/
def builtinInfo (spec : TypeSpec) (name : String) (component : Option TypeRef) : TypeInfo :=
  { name := name, kind := builtinKind spec, count := builtinCount spec, component := component }

/-- A descriptor that says what a builtin type is, and nothing else. -/
def Describes (r : Registry) (spec : TypeSpec) (i : TypeInfo) : Prop :=
  ∃ name component, spec.builtinName = some name ∧ r.Supplies spec component ∧
    i = builtinInfo spec name component

/-- **What bears a builtin name is that type**, and names are borne once. -/
structure Stocked (r : Registry) : Prop where
  unique : ∀ t t' i i', r.info? t = some i → r.info? t' = some i' → i.name = i'.name → t = t'
  builtin : ∀ t i spec, r.info? t = some i → spec.builtinName = some i.name → r.Describes spec i

theorem stocked_empty : Stocked {} := ⟨fun _ _ _ _ h => (nomatch h), fun _ _ _ h => (nomatch h)⟩

theorem Supplies.mono {component : Option TypeRef} (h : r.Supplies spec component)
    (hnamed : ∀ c name, r.Named c name → r'.Named c name) : r'.Supplies spec component where
  simple := h.simple
  made e n he := by
    obtain ⟨c, name, hc, hname, hn⟩ := h.made e n he
    exact ⟨c, name, hc, hname, hnamed c name hn⟩

theorem Describes.mono (h : r.Describes spec i)
    (hnamed : ∀ c name, r.Named c name → r'.Named c name) : r'.Describes spec i := by
  obtain ⟨name, component, hname, hc, hi⟩ := h
  exact ⟨name, component, hname, hc.mono hnamed, hi⟩

/-- A type may be appended that is what its name says. -/
theorem Stocked.push (h : r.Stocked) (hnew : r.find? i.name = none)
    (hi : ∀ spec, spec.builtinName = some i.name → r.Describes spec i) : (r.push i).Stocked := by
  constructor
  · exact NamesApart.push h.unique hnew
  · intro t j spec hj hspec
    refine Describes.mono ?_ fun c name hc => named_push hc i
    rcases info?_push_cases hj with ⟨-, rfl⟩ | hj
    · exact hi spec hspec
    · exact h.builtin t j spec hj hspec

/-- A registry with more types. -/
def Extends (r r' : Registry) : Prop := r.types <+: r'.types

theorem Extends.info? (h : r.Extends r') (hi : r.info? t = some i) :
    r'.info? t = some i := by
  obtain ⟨more, hmore⟩ := h
  rw [Registry.info?, ← hmore, List.getElem?_append_left (index_lt_of_info? hi)]
  exact hi

theorem Extends.named (h : r.Extends r') {name : String} (ht : r.Named t name) :
    r'.Named t name := by
  obtain ⟨i, hi, hname⟩ := ht
  exact ⟨i, h.info? hi, hname⟩

/-- **Entering a builtin type** appends what is missing. -/
theorem Stocked.of_enterBuiltin (h : r.Stocked) (ht : r.enterBuiltin spec = .ok (t, r')) :
    (r'.Stocked ∧ r.Extends r') ∧ ∃ name, spec.builtinName = some name ∧ r'.Named t name := by
  refine enterBuiltin_rule (P := fun r' => r'.Stocked ∧ r.Extends r') ?_
    ⟨h, List.prefix_refl _⟩ ht
  rintro r₁ spec component name ⟨hr₁, hmore⟩ hname hc
  rcases r₁.intern_cases name (builtinKind spec) (builtinCount spec) component with
    ⟨t, -, heq⟩ | ⟨hnew, heq⟩
  · rw [heq]
    exact ⟨hr₁, hmore⟩
  · rw [heq]
    refine ⟨hr₁.push hnew fun spec' hspec' => ?_, hmore.trans (List.prefix_append _ _)⟩
    obtain rfl := TypeSpec.builtinName_inj hname hspec'
    exact ⟨name, component, hname, hc, rfl⟩

/-! ### Lowering in place -/

/-- Enters a vector after its lanes. -/
def vectorInPlace (kind : ScalarKind) (count : Nat) : TypeM TypeRef :=
  if 2 ≤ count ∧ count ≤ 4 then do
    let lane ← modifyGet (·.scalarType kind)
    modifyGet (·.intern (kind.name ++ toString count) .vector count (some lane))
  else throw (.vectorWidth count)

/-- Lowers a builtin type by entering one type after the other. -/
def lowerInPlace : TypeSpec → TypeM TypeRef
  | .void => modifyGet (·.intern "Void" .void 0 none)
  | .scalar kind => modifyGet (·.scalarType kind)
  | .vector kind count => vectorInPlace kind count
  | .matrix rows columns => do
    let column ← vectorInPlace .real rows
    modifyGet (·.intern s!"Real{rows}x{columns}" .matrix columns (some column))
  | .array element length =>
    match element.builtinName with
    | none => throw (.notBuiltin (.array element length))
    | some name => do
      let e ← lowerInPlace element
      modifyGet (·.intern s!"FixedArray[{name}, {length}]" .array length (some e))
  | .ofClass id => throw (.notBuiltin (.ofClass id))
  | .math => throw (.notBuiltin .math)

theorem vectorInPlace_apply (kind : ScalarKind) (count : Nat) (r : Registry) :
    vectorInPlace kind count r = r.commit (r.vectorType kind count) := by
  unfold vectorInPlace vectorType
  split <;> rfl

/-- **Lowering in place** comes to the same: a type is refused before anything has been entered. -/
theorem lowerInPlace_apply (spec : TypeSpec) (r : Registry) :
    lowerInPlace spec r = r.commit (r.enterBuiltin spec) := by
  induction spec with
  | void | scalar | ofClass | math => rfl
  | vector k n => exact vectorInPlace_apply k n r
  | matrix m n =>
    rw [lowerInPlace, bind_apply, vectorInPlace_apply, enterBuiltin]
    rcases r.vectorType .real m with e | ⟨column, r₁⟩ <;> rfl
  | array element n ih =>
    rw [lowerInPlace, enterBuiltin]
    cases element.builtinName with
    | none => rfl
    | some name =>
      dsimp only
      rw [bind_apply, ih]
      rcases r.enterBuiltin element with e | ⟨t, r₁⟩ <;> rfl

/-! ### Runs of calls -/

/-- The registry after some types were lowered, each of which may be refused. -/
def lowered (specs : List TypeSpec) : Registry :=
  specs.foldl (fun r spec => (lowerBuiltin spec r).2) {}

theorem lowered_concat (specs : List TypeSpec) (spec : TypeSpec) :
    lowered (specs ++ [spec]) = (lowerBuiltin spec (lowered specs)).2 := by
  simp [lowered]

/-- Call number `i` of a run lowers a type, and this is the answer. -/
structure Call (specs : List TypeSpec) (i : Nat) (spec : TypeSpec) (x : Except IrError TypeRef) :
    Prop where
  asked : specs[i]? = some spec
  answer : (lowerBuiltin spec (lowered (specs.take i))).1 = x

/-- A call either is refused and changes nothing, or enters the type. -/
theorem Stocked.lowerBuiltin_cases (h : r.Stocked) (spec : TypeSpec) :
    (∃ e, ¬ spec.Lowerable ∧ lowerBuiltin spec r = (.error e, r)) ∨
    ∃ t r' name, spec.Lowerable ∧ lowerBuiltin spec r = (.ok t, r') ∧ r'.Stocked ∧ r.Extends r' ∧
      spec.builtinName = some name ∧ r'.Named t name := by
  have hiff := isOk_enterBuiltin spec r
  rw [lowerBuiltin_apply]
  cases henter : r.enterBuiltin spec with
  | error e =>
    rw [henter] at hiff
    exact .inl ⟨e, fun hspec => (nomatch hiff.mpr hspec), rfl⟩
  | ok p =>
    rw [henter] at hiff
    obtain ⟨⟨hr', hmore⟩, name, hname, hnamed⟩ := h.of_enterBuiltin henter
    exact .inr ⟨p.1, p.2, name, hiff.mp rfl, rfl, hr', hmore, hname, hnamed⟩

theorem stocked_lowered (specs : List TypeSpec) : (lowered specs).Stocked := by
  induction specs using List.reverseRecOn with
  | nil => exact stocked_empty
  | append_singleton specs spec ih =>
    rw [lowered_concat]
    obtain ⟨e, -, heq⟩ | ⟨t, r', _, -, heq, hr', -⟩ := ih.lowerBuiltin_cases spec
    · rw [heq]
      exact ih
    · rw [heq]
      exact hr'

/-- Along a run the registry grows. -/
theorem extends_lowered (specs more : List TypeSpec) :
    (lowered specs).Extends (lowered (specs ++ more)) := by
  induction more using List.reverseRecOn with
  | nil =>
    rw [List.append_nil]
    exact List.prefix_refl _
  | append_singleton more spec ih =>
    rw [← List.append_assoc, lowered_concat]
    obtain ⟨e, -, heq⟩ | ⟨t, r', _, -, heq, -, hmore, -⟩ :=
      (stocked_lowered (specs ++ more)).lowerBuiltin_cases spec
    · rw [heq]
      exact ih
    · rw [heq]
      exact ih.trans hmore

section Call

variable {specs : List TypeSpec} {spec spec' : TypeSpec} {i j : Nat} {t t' : TypeRef}

theorem Call.take_succ {x : Except IrError TypeRef} (h : Call specs i spec x) :
    lowered (specs.take (i + 1)) = (lowerBuiltin spec (lowered (specs.take i))).2 := by
  rw [List.take_add_one, h.asked]
  exact lowered_concat _ spec

theorem extends_take (specs : List TypeSpec) (hij : i ≤ j) :
    (lowered (specs.take i)).Extends (lowered (specs.take j)) := by
  obtain ⟨more, hmore⟩ := List.take_prefix_take_left hij (l := specs)
  rw [← hmore]
  exact extends_lowered _ more

/-- After a call that was not refused, its answer bears the name of the type. -/
theorem Call.ok (h : Call specs i spec (.ok t)) :
    spec.Lowerable ∧ ∃ name, spec.builtinName = some name ∧
      ∀ j, i < j → (lowered (specs.take j)).Named t name := by
  obtain ⟨e, -, heq⟩ | ⟨t', r', name, hspec, heq, -, -, hname, hnamed⟩ :=
    (stocked_lowered (specs.take i)).lowerBuiltin_cases spec
  · nomatch heq ▸ h.answer
  · obtain rfl : t' = t := Except.ok.inj (heq ▸ h.answer)
    refine ⟨hspec, name, hname, fun j hj => ?_⟩
    refine (extends_take specs (Nat.succ_le_of_lt hj)).named ?_
    rw [h.take_succ, heq]
    exact hnamed

/-- **Same answer, same type.** -/
theorem Call.eq_iff (h : Call specs i spec (.ok t)) (h' : Call specs j spec' (.ok t')) :
    t = t' ↔ spec = spec' := by
  obtain ⟨-, name, hname, hnamed⟩ := h.ok
  obtain ⟨-, name', hname', hnamed'⟩ := h'.ok
  -- both types are there after both calls
  have ht := hnamed (i + j + 1) (by omega)
  have ht' := hnamed' (i + j + 1) (by omega)
  constructor
  · rintro rfl
    obtain ⟨k, hk, rfl⟩ := ht
    obtain ⟨k', hk', rfl⟩ := ht'
    cases hk.symm.trans hk'
    exact TypeSpec.builtinName_inj hname hname'
  · rintro rfl
    cases hname.symm.trans hname'
    exact NamesApart.eq_of_named (stocked_lowered _).unique ht ht'

/-- Lowering a type whose name is borne gives the type that bears it. -/
theorem Stocked.lowerBuiltin_of_named (h : r.Stocked) (hspec : spec.Lowerable) {name : String}
    (hname : spec.builtinName = some name) (ht : r.Named t name) :
    (lowerBuiltin spec r).1 = .ok t := by
  obtain ⟨e, hnot, -⟩ | ⟨t', r', name', -, heq, hr', hmore, hname', hnamed⟩ := h.lowerBuiltin_cases spec
  · exact absurd hspec hnot
  · cases hname.symm.trans hname'
    rw [heq, NamesApart.eq_of_named hr'.unique (hmore.named ht) hnamed]

/-- **The descriptor of an answer** is the one that the type dictates, from the call on. -/
theorem Call.info? (h : Call specs i spec (.ok t)) : ∃ name component,
    spec.builtinName = some name ∧ ∀ j, i < j →
      (lowered (specs.take j)).info? t = some (builtinInfo spec name component) ∧
      (spec.component? = none → component = none) ∧
      ∀ e n, spec.component? = some (e, n) → ∃ c, component = some c ∧
        (lowerBuiltin e (lowered (specs.take j))).1 = .ok c := by
  obtain ⟨hspec, name, hname, hnamed⟩ := h.ok
  obtain ⟨k, hk, rfl⟩ := hnamed (i + 1) (Nat.lt_succ_self i)
  obtain ⟨name, component, hname', hc, rfl⟩ := (stocked_lowered _).builtin t k spec hk hname
  refine ⟨name, component, hname', fun j hj => ?_⟩
  have hmore := extends_take specs (Nat.succ_le_of_lt hj)
  refine ⟨hmore.info? hk, hc.simple, fun e n he => ?_⟩
  obtain ⟨c, cname, hcomponent, hcname, hcnamed⟩ := hc.made e n he
  exact ⟨c, hcomponent, (stocked_lowered _).lowerBuiltin_of_named (hspec.component he) hcname
    (hmore.named hcnamed)⟩

/-- A call that was refused has changed nothing, and would not have in place. -/
theorem Call.error {e : IrError} (h : Call specs i spec (.error e)) :
    lowered (specs.take (i + 1)) = lowered (specs.take i) ∧
      lowerInPlace spec (lowered (specs.take i)) = (.error e, lowered (specs.take i)) := by
  rw [h.take_succ, lowerInPlace_apply, ← lowerBuiltin_apply]
  obtain ⟨e', -, heq⟩ | ⟨t', r', _, -, heq, -⟩ :=
    (stocked_lowered (specs.take i)).lowerBuiltin_cases spec
  · obtain rfl : e' = e := Except.error.inj (heq ▸ h.answer)
    exact ⟨by rw [heq], heq⟩
  · nomatch heq ▸ h.answer

end Call

/-- **Lowering is injective, stable and atomic.** Consider a run of calls that starts without any
types. A call is accepted exactly if the type is made of builtin types and its vectors and the columns
of its matrices have two, three or four lanes. Two accepted calls have the same answer exactly if they
lower the same type. The descriptor of an answer has the kind, the count and the component that the
type dictates, where the component is what lowering it answers, and it stays as it is for the rest of
the run. A refused call changes nothing, also if types are entered one after the other. -/
theorem lowering_injective_stable_atomic (specs : List TypeSpec) :
    (∀ i spec x, Call specs i spec x → ((∃ t, x = .ok t) ↔ spec.Lowerable)) ∧
    (∀ i j spec spec' t t', Call specs i spec (.ok t) → Call specs j spec' (.ok t') →
      (t = t' ↔ spec = spec')) ∧
    (∀ i spec t, Call specs i spec (.ok t) → ∃ name component, spec.builtinName = some name ∧
      ∀ j, i < j →
        (lowered (specs.take j)).info? t = some (builtinInfo spec name component) ∧
        (spec.component? = none → component = none) ∧
        ∀ e n, spec.component? = some (e, n) → ∃ c, component = some c ∧
          (lowerBuiltin e (lowered (specs.take j))).1 = .ok c) ∧
    (∀ i spec e, Call specs i spec (.error e) →
      lowered (specs.take (i + 1)) = lowered (specs.take i) ∧
        lowerInPlace spec (lowered (specs.take i)) = (.error e, lowered (specs.take i))) ∧
    ∀ spec r, lowerInPlace spec r = lowerBuiltin spec r := by
  refine ⟨fun i spec x h => ?_, fun _ _ _ _ _ _ h h' => h.eq_iff h', fun _ _ _ h => h.info?,
    fun _ _ _ h => h.error, fun spec r => ?_⟩
  · obtain ⟨e, hnot, heq⟩ | ⟨t, r', _, hspec, heq, -⟩ :=
      (stocked_lowered (specs.take i)).lowerBuiltin_cases spec
    · rw [← h.answer, heq]
      exact ⟨nofun, fun hspec => absurd hspec hnot⟩
    · rw [← h.answer, heq]
      exact ⟨fun _ => hspec, fun _ => ⟨t, rfl⟩⟩
  · rw [lowerInPlace_apply, lowerBuiltin_apply]

end Registry

end Shader
