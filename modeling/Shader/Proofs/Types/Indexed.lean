import Shader.Proofs.Types.Entering
import Shader.Proofs.Types.Mapped

/-!
# The indexes of a registry

A registry answers questions by name — which type bears a name, which member of a struct does, which
type points to which — from maps and links that six operations keep up to date. Since every operation
is a sequence of steps, the links stay sound along every run (`Indexed`), and since the operations with
maps refine those that search the types, the maps stay in agreement (`agrees_after`). So in every state
that a run reaches, the answers are exactly what the descriptors say (`indexes_agree`).
-/

namespace Shader

namespace Registry

open Outcome Relation

variable {r r' : Registry} {i : TypeInfo} {t p : TypeRef} {name : String}

/-! ### Answers -/

/-- The first place that passes a test is the only one where a list without repetitions has a given
entry. -/
theorem findIdx?_eq_some_iff_of_nodup {names : List String} (h : names.Nodup) {n : String} {k : Nat} :
    names.findIdx? (· = n) = some k ↔ names[k]? = some n := by
  rw [List.findIdx?_eq_some_iff_getElem, List.getElem?_eq_some_iff]
  constructor
  · rintro ⟨hk, hn, -⟩
    exact ⟨hk, of_decide_eq_true hn⟩
  · rintro ⟨hk, hn⟩
    refine ⟨hk, decide_eq_true hn, fun j hj hjn => ?_⟩
    exact hj.ne (h.getElem_inj_iff.mp ((of_decide_eq_true hjn).trans hn.symm))

theorem isNamed_iff : r.isNamed t name = true ↔ r.Named t name := by
  unfold isNamed Named
  cases r.info? t <;> simp

theorem Indexed.memberIndex?_ok (h : r.Indexed) {s : TypeRef} (hi : r.info? s = some i)
    (n : String) :
    ∃ o, r.memberIndex? s n = .ok o ∧ ∀ k, o = some k ↔ i.memberNames[k]? = some n := by
  refine ⟨i.memberNames.findIdx? (· = n), by rw [memberIndex?, info_eq hi]; rfl, fun k => ?_⟩
  exact findIdx?_eq_some_iff_of_nodup (h.distinct s i hi)

/-- Since the names are distinct, the search that looks at the type as well does not run past the
member with the name. -/
theorem Indexed.memberIndexTyped?_ok (h : r.Indexed) {s : TypeRef} (hi : r.info? s = some i)
    (n typeName : String) :
    ∃ o, r.memberIndexTyped? s n typeName = .ok o ∧ ∀ k, o = some k ↔
      i.memberNames[k]? = some n ∧ ∃ t, i.parts[k]? = some t ∧ r.Named t typeName := by
  refine ⟨_, by rw [memberIndexTyped?, info_eq hi]; rfl, fun k => ?_⟩
  rw [List.findIdx?_eq_some_iff_getElem]
  constructor
  · rintro ⟨hk, htest, -⟩
    have hk' := List.length_zip ▸ hk
    simp only [List.getElem_zip, decide_eq_true_eq] at htest
    refine ⟨List.getElem?_eq_some_iff.mpr ⟨by omega, htest.1⟩, i.parts[k], ?_, ?_⟩
    · exact List.getElem?_eq_getElem (by omega)
    · exact isNamed_iff.mp htest.2
  · rintro ⟨hn, t, ht, hnamed⟩
    obtain ⟨hk, hn⟩ := List.getElem?_eq_some_iff.mp hn
    obtain ⟨hk', ht⟩ := List.getElem?_eq_some_iff.mp ht
    refine ⟨by rw [List.length_zip]; omega, ?_, fun j hj htest => ?_⟩
    · simp only [List.getElem_zip, decide_eq_true_eq]
      exact ⟨hn, ht ▸ isNamed_iff.mpr hnamed⟩
    · simp only [List.getElem_zip, decide_eq_true_eq] at htest
      exact hj.ne ((h.distinct s i hi).getElem_inj_iff.mp (htest.1.trans hn.symm))

/-- The type of pointers is linked with what it points to. -/
theorem known_of_pointerType (h : pointerType t r = (.ok p, r')) :
    ∃ i, r'.info? t = some i ∧ i.pointer = some p := by
  obtain ⟨i, hi, ⟨hp, rfl⟩ | ⟨-, -, rfl⟩⟩ := pointerType_cases h
  · exact ⟨i, hi, hp⟩
  · obtain ⟨j, hj⟩ : ∃ j, (r.intern (pointerName i.name) .pointer 0 none).2.info? t = some j :=
      (retained_of_steps (steps_intern r _ _ _ _) hi).imp fun _ hj => hj.1
    have hlinked := info?_link (r.intern (pointerName i.name) .pointer 0 none).2 t p t
    rw [hj] at hlinked
    exact ⟨_, hlinked, if_pos rfl⟩

theorem Indexed.valueType_of_known (h : r.Indexed) (hi : r.info? t = some i)
    (hp : i.pointer = some p) : r.valueType p = .ok t := by
  obtain ⟨j, hj, hpointee⟩ := h.pointer t i p hi hp
  unfold valueType
  rw [info_eq hj]
  change Except.ok (j.pointee.getD p) = _
  rw [hpointee]
  rfl

/-- **Pointer types.** Whatever happens after it was asked for, a pointer type leads back to what it
points to, it is still known, and it is the type of no other pointers. -/
theorem Indexed.pointerType_lasts (h : r.Indexed) (hp : pointerType t r = (.ok p, r'))
    {r'' : Registry} (hs : ReflTransGen Step r' r'') :
    r''.valueType p = .ok t ∧ (∃ i, r''.info? t = some i ∧ i.pointer = some p) ∧
      ∀ u, (pointerType u r'').1 = .ok p → u = t := by
  have h' : r'.Indexed := indexed_of_steps ((moves_pointerType t).steps hp) h
  have h'' := indexed_of_steps hs h'
  obtain ⟨i, hi, hi_pointer⟩ := known_of_pointerType hp
  obtain ⟨i', hi', hretained⟩ := retained_of_steps hs hi
  have hvalue := h''.valueType_of_known hi' (hretained.pointer p hi_pointer)
  refine ⟨hvalue, ⟨i', hi', hretained.pointer p hi_pointer⟩, fun u hu => ?_⟩
  -- Should `p` be the type of pointers to `u`, its pointee would be `u` afterwards.
  obtain ⟨r₃, hr₃⟩ : ∃ r₃, pointerType u r'' = (.ok p, r₃) := ⟨_, Prod.ext hu rfl⟩
  have hmoved := (moves_pointerType u).steps hr₃
  obtain ⟨k, hk, hk_pointer⟩ := known_of_pointerType hr₃
  obtain ⟨i₃, hi₃, hretained₃⟩ := retained_of_steps hmoved hi'
  have h₃ := indexed_of_steps hmoved h''
  have hvalue₃ := h₃.valueType_of_known hi₃ (hretained₃.pointer p (hretained.pointer p hi_pointer))
  exact Except.ok.inj ((h₃.valueType_of_known hk hk_pointer).symm.trans hvalue₃)

/-! ### Runs -/

/-- An operation of a run; types may be copied from any other registry. -/
inductive Operation where
  | change (change : Change)
  | importType (source : Registry) (ty : TypeRef)

/-- Carries out an operation without maps. -/
def Operation.perform : Operation → TypeM Answer
  | .change c => c.perform
  | .importType source ty => .type <$> Registry.importType source ty

theorem Operation.moves (o : Operation) : Moves o.perform := by
  cases o with
  | change c => exact c.moves
  | importType source ty => exact .map (moves_importType source ty)

end Registry

namespace MappedRegistry

open Outcome Relation Registry

variable {m m' : MappedRegistry} {t p : TypeRef} {i : TypeInfo}

/-- Carries out an operation with maps. -/
def perform : Operation → MappedM Answer
  | .change (.create name kind count component) =>
    .type <$> modifyGet (·.intern name kind count component)
  | .change (.createStruct name) => .type <$> modifyGet (·.internStruct name)
  | .change (.functionType result parameters) => .type <$> functionType result parameters
  | .change (.pointerType ty) => .type <$> pointerType ty
  | .change (.addMember owner member name) => .number <$> addMember owner member name
  | .importType source ty => .type <$> importType source ty

theorem refines_perform (o : Operation) : Refines (perform o) o.perform := by
  cases o with
  | change c =>
    cases c with
    | create name kind count component => exact (refines_intern name kind count component).map _
    | createStruct name => exact (refines_intern name .struct 0 none).map _
    | functionType result parameters => exact (refines_functionType result parameters).map _
    | pointerType ty => exact (refines_pointerType ty).map _
    | addMember owner member name => exact (refines_addMember owner member name).map _
  | importType source ty => exact (refines_importType source ty).map _

/-- The registry after a run of operations from an empty one, each of which may be refused. -/
def after (ops : List Operation) : MappedRegistry := ops.foldl (fun m o => (perform o m).2) {}

theorem agrees_foldl {ops : List Operation} (h : m.Agrees) :
    (ops.foldl (fun m o => (perform o m).2) m).Agrees ∧
      (ops.foldl (fun m o => (perform o m).2) m).toRegistry =
        run Operation.perform m.toRegistry ops := by
  induction ops generalizing m with
  | nil => exact ⟨h, rfl⟩
  | cons o ops ih =>
    obtain ⟨heq, hagrees⟩ := refines_perform o m h
    obtain ⟨hrest, hsame⟩ := ih hagrees
    refine ⟨hrest, hsame.trans ?_⟩
    rw [run, run, List.foldl_cons, heq]

/-- **A run with maps** stays in agreement, and its types are those of the run without. -/
theorem agrees_after (ops : List Operation) :
    (after ops).Agrees ∧ (after ops).toRegistry = run Operation.perform {} ops :=
  agrees_foldl agrees_empty

theorem after_append (ops later : List Operation) :
    (after (ops ++ later)).toRegistry = run Operation.perform (after ops).toRegistry later := by
  rw [(agrees_after _).2, (agrees_after ops).2]
  exact List.foldl_append

theorem Agrees.memberIndex?_eq (h : m.Agrees) (s : TypeRef) (n : String) :
    m.memberIndex? s n = m.toRegistry.memberIndex? s n := by
  cases hi : m.info? s with
  | none => simp [memberIndex?, Registry.memberIndex?, info, hi, bind, Except.bind]
  | some i =>
    obtain ⟨o, ho, hiff⟩ := h.indexed.memberIndex?_ok hi n
    rw [ho, memberIndex?, info_eq hi]
    exact congrArg Except.ok (Option.ext fun k => (h.byName hi n k).trans (hiff k).symm)

theorem Agrees.memberIndexTyped?_eq (h : m.Agrees) (s : TypeRef) (n typeName : String) :
    m.memberIndexTyped? s n typeName = m.toRegistry.memberIndexTyped? s n typeName := by
  cases hi : m.info? s with
  | none => simp [memberIndexTyped?, Registry.memberIndexTyped?, info, hi, bind, Except.bind]
  | some i =>
    obtain ⟨o, ho, hiff⟩ := h.indexed.memberIndexTyped?_ok hi n typeName
    rw [ho, memberIndexTyped?, info_eq hi]
    exact congrArg Except.ok (Option.ext fun k => (h.byNameAndType hi n typeName k).trans (hiff k).symm)

/-- Asking for the type of pointers again changes nothing. -/
theorem pointerType_of_known (hi : m.info? t = some i) (hp : i.pointer = some p) :
    pointerType t m = (.ok p, m) := by
  refine bind_ok.mpr ⟨m, m, rfl, bind_ok.mpr ⟨i, m, congrArg (·, m) (info_eq hi), ?_⟩⟩
  rw [hp]
  rfl

/-- A member that is refused leaves types and maps alone. -/
theorem addMember_error {owner member : TypeRef} {name : String} {e : IrError}
    (h : addMember owner member name m = (.error e, m')) : m' = m := by
  change ((liftM (m.info owner) : MappedM TypeInfo) >>= _) m = _ at h
  unfold info at h
  cases hi : m.info? owner <;> rw [hi] at h
  · exact (error_eq_error.mp h).2.symm
  · next i =>
    change (if i.kind ≠ .struct then _ else _ : MappedM Nat) m = _ at h
    split at h
    · exact (error_eq_error.mp h).2.symm
    · split at h
      · exact (error_eq_error.mp h).2.symm
      · cases hj : m.info? member <;> rw [hj] at h
        · exact (error_eq_error.mp h).2.symm
        · exact absurd h ok_ne_error

/-- **The indexes agree with the types.** In every state that operations reach from an empty registry,
refused ones included, the maps say what a search of the types says. A type is found by its name and by
no other; what a type is made of stays; the members of a struct are found by their names; pointer types
and what they point to belong together for good; and a struct grows by one member at a time or not at
all. -/
theorem indexes_agree (ops : List Operation) :
    ((after ops).toRegistry = run Operation.perform {} ops ∧
      (∀ name, (after ops).find? name = (run Operation.perform {} ops).find? name) ∧
      (∀ s n, (after ops).memberIndex? s n = (run Operation.perform {} ops).memberIndex? s n) ∧
      ∀ s n typeName, (after ops).memberIndexTyped? s n typeName =
        (run Operation.perform {} ops).memberIndexTyped? s n typeName) ∧
    (∀ name t, (after ops).find? name = some t ↔ (after ops).Named t name) ∧
    (∀ t i, (after ops).info? t = some i → ∀ later, ∃ i', (after (ops ++ later)).info? t = some i' ∧
      i'.name = i.name ∧ i'.kind = i.kind ∧ i'.count = i.count ∧ i'.component = i.component) ∧
    (∀ s i, (after ops).info? s = some i → i.kind = .struct →
      i.memberNames.length = i.parts.length ∧ i.memberNames.Nodup ∧
      (∀ n, ∃ o, (after ops).memberIndex? s n = .ok o ∧
        ∀ k, o = some k ↔ i.memberNames[k]? = some n) ∧
      ∀ n typeName, ∃ o, (after ops).memberIndexTyped? s n typeName = .ok o ∧
        ∀ k, o = some k ↔ i.memberNames[k]? = some n ∧
          ∃ t, i.parts[k]? = some t ∧ (after ops).Named t typeName) ∧
    (∀ t, t.index < (after ops).size →
      ∃ p, (pointerType t (after ops)).1 = .ok p ∧ ∀ later,
        (after (ops ++ .change (.pointerType t) :: later)).valueType p = .ok t ∧
        pointerType t (after (ops ++ .change (.pointerType t) :: later)) =
          (.ok p, after (ops ++ .change (.pointerType t) :: later)) ∧
        ∀ u, (pointerType u (after (ops ++ .change (.pointerType t) :: later))).1 = .ok p → u = t) ∧
    ∀ owner member name m', (∀ e, addMember owner member name (after ops) = (.error e, m') →
        m' = after ops) ∧
      ∀ n, addMember owner member name (after ops) = (.ok n, m') →
        ∃ i, (after ops).info? owner = some i ∧ n = i.memberNames.length ∧
          m'.info? owner = some { i with parts := i.parts ++ [member],
                                         memberNames := i.memberNames ++ [name],
                                         layout := none } ∧
          ∀ t ≠ owner, m'.info? t = (after ops).info? t := by
  obtain ⟨h, hrun⟩ := agrees_after ops
  refine ⟨⟨hrun, fun name => hrun ▸ h.find?_eq name, fun s n => hrun ▸ h.memberIndex?_eq s n,
    fun s n typeName => hrun ▸ h.memberIndexTyped?_eq s n typeName⟩,
    fun name t => h.find?_eq name ▸ h.indexed.find?_eq_some_iff, ?_, ?_, ?_, ?_⟩
  · intro t i hi later
    rw [after_append]
    obtain ⟨i', hi', hretained⟩ := retained_of_steps (steps_run Operation.moves _ later) hi
    exact ⟨i', hi', hretained.name, hretained.kind, hretained.count, hretained.component⟩
  · intro s i hi hkind
    refine ⟨h.indexed.lengths s i hi hkind, h.indexed.distinct s i hi, fun n => ?_, fun n typeName => ?_⟩
    · exact ⟨_, by rw [memberIndex?, info_eq hi]; rfl, h.byName hi n⟩
    · exact ⟨_, by rw [memberIndexTyped?, info_eq hi]; rfl, h.byNameAndType hi n typeName⟩
  · -- What happens later is a sequence of steps from where the pointer type was asked for.
    intro t ht
    obtain ⟨p, r', hp, -⟩ := pointerType_succeeds ht
    have hfst : ∀ {m : MappedRegistry}, m.Agrees → ∀ u,
        (pointerType u m).1 = (Registry.pointerType u m.toRegistry).1 := by
      intro m hm u
      rw [(refines_pointerType u m hm).1]
    refine ⟨p, (hfst h t).trans (congrArg Prod.fst hp), fun later => ?_⟩
    have hlater : ReflTransGen Step r' (after (ops ++ .change (.pointerType t) :: later)).toRegistry := by
      rw [after_append]
      have hstate : ((Change.pointerType t).perform (after ops).toRegistry).2 = r' := by
        rw [Change.perform, state_map, hp]
      rw [← hstate]
      exact steps_run Operation.moves _ later
    have hagrees := (agrees_after (ops ++ .change (.pointerType t) :: later)).1
    obtain ⟨hvalue, ⟨i, hi, hpointer⟩, hunique⟩ := h.indexed.pointerType_lasts hp hlater
    refine ⟨hvalue, pointerType_of_known hi hpointer, fun u hu => hunique u ?_⟩
    rw [← hfst hagrees]
    exact hu
  · intro owner member name m'
    refine ⟨fun e he => addMember_error he, fun n hn => ?_⟩
    have hrefines := (refines_addMember owner member name (after ops) h).1
    rw [hn] at hrefines
    obtain ⟨i, -, hi, -, hkind, -, rfl, heq⟩ := addMember_cases hrefines
    rw [heq]
    refine ⟨i, hi, (h.indexed.lengths owner i hi hkind).symm, info?_modify_self hi _, fun t ht => ?_⟩
    rw [Registry.extend, info?_modify, if_neg ht]

/-- A struct with a member, a refused second member of the same name, and a struct that has taken
the name of the type of pointers to it. -/
def cells : List Operation :=
  [.change (.createStruct "Cell"), .change (.create "Real" .float 1 none),
   .change (.addMember ⟨0⟩ ⟨1⟩ "value"), .change (.addMember ⟨0⟩ ⟨1⟩ "value"),
   .change (.createStruct "ptr<Cell>")]

/-- The struct that bears the name becomes the pointer type, and nothing else can claim it. -/
theorem indexes_agree_cells :
    (after cells).info? ⟨0⟩ = some { name := "Cell", kind := .struct, count := 0, component := none,
                                     parts := [⟨1⟩], memberNames := ["value"] } ∧
      (after cells).maps ⟨0⟩ = ⟨[("value", 0)], [(("value", "Real"), 0)]⟩ ∧
      (∃ o, (after cells).memberIndexTyped? ⟨0⟩ "value" "Real" = .ok o ∧ ∀ k, o = some k ↔
        ["value"][k]? = some "value" ∧ ∃ t, [(⟨1⟩ : TypeRef)][k]? = some t ∧
          (after cells).Named t "Real") ∧
      (pointerType ⟨0⟩ (after cells)).1 = .ok ⟨2⟩ ∧
      ∃ p, (pointerType ⟨0⟩ (after cells)).1 = .ok p ∧ ∀ later,
        (after (cells ++ .change (.pointerType ⟨0⟩) :: later)).valueType p = .ok ⟨0⟩ := by
  obtain ⟨-, -, -, hstruct, hpointer, -⟩ := indexes_agree cells
  obtain ⟨p, hp, hlater⟩ := hpointer ⟨0⟩ (by decide)
  exact ⟨rfl, rfl, (hstruct ⟨0⟩ _ rfl rfl).2.2.2 "value" "Real", rfl, p, hp, fun later => (hlater later).1⟩

end MappedRegistry

end Shader
