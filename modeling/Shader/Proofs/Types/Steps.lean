import Shader.Proofs.Types.Closed
import Mathlib.Data.List.Nodup
import Mathlib.Logic.Relation

/-!
# What can happen to a registry

The operations on a registry enter types, link them and extend structs, some of them by way of each
other. What they can do is said once, as a relation:

* `Step` — a type with a new name is entered, a type and the type of its pointers are linked, or a
  struct gets a member with a new name. Every operation is a sequence of steps, also where it is
  refused half way (`moves_importType`).
* `Indexed` — names belong to one type, the members of a struct have names of their own, and links
  between types lead both ways. A step keeps this up (`Step.indexed`) and leaves what is known about
  a type alone (`Step.retained`).

The name of a pointer type may have been given to any type before. Such a type is used as it is, and
the links stay sound because `pointerName` is injective.
-/

namespace Shader.Registry

open Outcome Relation

variable {r r' : Registry}

/-! ### Steps -/

/-- **One change to a registry.** -/
inductive Step (r : Registry) : Registry → Prop where
  | enter {i : TypeInfo} (hname : r.find? i.name = none) (hnames : i.memberNames = [])
      (hparts : i.kind = .struct → i.parts = []) (hpointee : i.pointee = none)
      (hpointer : i.pointer = none) : Step r (r.push i)
  | link {t p : TypeRef} {i j : TypeInfo} (hi : r.info? t = some i) (hj : r.info? p = some j)
      (hpointer : i.pointer = none) (hname : j.name = pointerName i.name) : Step r (r.link t p)
  | extend {owner : TypeRef} {i : TypeInfo} {name : String} (member : TypeRef)
      (hi : r.info? owner = some i) (hname : name ∉ i.memberNames) :
      Step r (r.extend owner member name)

theorem Step.apart (hs : Step r r') (h : r.NamesApart) : r'.NamesApart := by
  cases hs with
  | enter hname => exact h.push hname
  | link =>
    intro t t' i i' hi hi' hname
    rw [info?_link] at hi hi'
    obtain ⟨j, hj, rfl⟩ := Option.map_eq_some_iff.mp hi
    obtain ⟨j', hj', rfl⟩ := Option.map_eq_some_iff.mp hi'
    exact h t t' j j' hj hj' hname
  | extend =>
    intro t t' i i' hi hi' hname
    rw [info?_extend] at hi hi'
    obtain ⟨j, hj, rfl⟩ := Option.map_eq_some_iff.mp hi
    obtain ⟨j', hj', rfl⟩ := Option.map_eq_some_iff.mp hi'
    refine h t t' j j' hj hj' ?_
    simpa only [apply_ite TypeInfo.name, ite_self] using hname

theorem apart_of_steps (hs : ReflTransGen Step r r') (h : r.NamesApart) : r'.NamesApart := by
  induction hs with
  | refl => exact h
  | tail _ hstep ih => exact hstep.apart ih

/-! ### The invariant -/

/-- **The indexes agree with the descriptors.** -/
structure Indexed (r : Registry) : Prop where
  unique : ∀ t t' i i', r.info? t = some i → r.info? t' = some i' → i.name = i'.name → t = t'
  lengths : ∀ t i, r.info? t = some i → i.kind = .struct → i.memberNames.length = i.parts.length
  distinct : ∀ t i, r.info? t = some i → i.memberNames.Nodup
  pointer : ∀ t i p, r.info? t = some i → i.pointer = some p →
    ∃ j, r.info? p = some j ∧ j.pointee = some t
  pointee : ∀ p j t, r.info? p = some j → j.pointee = some t →
    ∃ i, r.info? t = some i ∧ j.name = pointerName i.name

theorem indexed_empty : Indexed {} := by
  refine ⟨?_, ?_, ?_, ?_, ?_⟩ <;> intros <;> simp_all [info?]

/-- What stays of a type whatever happens to the registry. -/
structure Retained (i i' : TypeInfo) : Prop where
  name : i'.name = i.name
  kind : i'.kind = i.kind
  count : i'.count = i.count
  component : i'.component = i.component
  pointer : ∀ p, i.pointer = some p → i'.pointer = some p

variable {i : TypeInfo} {t p : TypeRef} {name : String} {e : IrError}

theorem Indexed.find?_eq_some_iff (h : r.Indexed) : r.find? name = some t ↔ r.Named t name := by
  refine ⟨find?_eq_some, ?_⟩
  rintro ⟨i, hi, rfl⟩
  cases hfind : r.find? i.name with
  | none => exact absurd rfl (find?_eq_none hfind hi)
  | some t' =>
    obtain ⟨i', hi', hname⟩ := find?_eq_some hfind
    rw [h.unique t' t i' i hi' hi hname]

theorem Indexed.enter (h : r.Indexed) (hname : r.find? i.name = none) (hnames : i.memberNames = [])
    (hparts : i.kind = .struct → i.parts = []) (hpointee : i.pointee = none)
    (hpointer : i.pointer = none) : (r.push i).Indexed := by
  refine ⟨NamesApart.push h.unique hname, ?_, ?_, ?_, ?_⟩
  · intro t j hj hkind
    rcases info?_push_cases hj with ⟨rfl, rfl⟩ | hj
    · rw [hnames, hparts hkind]
      rfl
    · exact h.lengths t j hj hkind
  · intro t j hj
    rcases info?_push_cases hj with ⟨rfl, rfl⟩ | hj
    · rw [hnames]
      exact List.nodup_nil
    · exact h.distinct t j hj
  · intro t j p hj hp
    rcases info?_push_cases hj with ⟨rfl, rfl⟩ | hj
    · rw [hpointer] at hp
      nomatch hp
    · obtain ⟨k, hk, hback⟩ := h.pointer t j p hj hp
      exact ⟨k, info?_push_of_some hk i, hback⟩
  · intro p j t hj ht
    rcases info?_push_cases hj with ⟨rfl, rfl⟩ | hj
    · rw [hpointee] at ht
      nomatch ht
    · obtain ⟨k, hk, hnamed⟩ := h.pointee p j t hj ht
      exact ⟨k, info?_push_of_some hk i, hnamed⟩

theorem Indexed.link (h : r.Indexed) {j : TypeInfo} (hi : r.info? t = some i)
    (hj : r.info? p = some j) (hpointer : i.pointer = none) (hname : j.name = pointerName i.name) :
    (r.link t p).Indexed := by
  refine ⟨(Step.link hi hj hpointer hname).apart h.unique, ?_, ?_, ?_, ?_⟩ <;>
    simp only [info?_link, Option.map_eq_some_iff]
  · rintro u _ ⟨k, hk, rfl⟩ hkind
    exact h.lengths u k hk hkind
  · rintro u _ ⟨k, hk, rfl⟩
    exact h.distinct u k hk
  · rintro u _ q ⟨k, hk, rfl⟩ hq
    by_cases hu : u = t
    · obtain rfl : p = q := Option.some.inj ((if_pos hu).symm.trans hq)
      exact ⟨_, ⟨j, hj, rfl⟩, (if_pos rfl).trans (congrArg some hu.symm)⟩
    · -- An old link to `p` would come from a type with the name of `t`, which is `t`.
      obtain ⟨j', hj', hback⟩ := h.pointer u k q hk ((if_neg hu).symm.trans hq)
      have hne : q ≠ p := by
        rintro rfl
        cases hj.symm.trans hj'
        obtain ⟨i', hi', hname'⟩ := h.pointee q j u hj hback
        exact hu (h.unique u t i' i hi' hi (pointerName_inj (hname'.symm.trans hname)))
      exact ⟨_, ⟨j', hj', rfl⟩, (if_neg hne).trans hback⟩
  · -- If `p` had a pointee before, it was `t` as well; its name says so.
    rintro q _ u ⟨k, hk, rfl⟩ hu
    by_cases hq : q = p
    · subst hq
      obtain rfl : t = u := Option.some.inj ((if_pos rfl).symm.trans hu)
      cases hj.symm.trans hk
      exact ⟨_, ⟨i, hi, rfl⟩, hname⟩
    · obtain ⟨i', hi', hname'⟩ := h.pointee q k u hk ((if_neg hq).symm.trans hu)
      exact ⟨_, ⟨i', hi', rfl⟩, hname'⟩

theorem Indexed.extend (h : r.Indexed) {owner : TypeRef} (member : TypeRef)
    (hi : r.info? owner = some i) (hname : name ∉ i.memberNames) :
    (r.extend owner member name).Indexed := by
  refine ⟨(Step.extend member hi hname).apart h.unique, ?_, ?_, ?_, ?_⟩ <;>
    simp only [info?_extend, Option.map_eq_some_iff]
  · rintro u _ ⟨k, hk, rfl⟩ hkind
    have hlength := h.lengths u k hk (by simpa only [apply_ite TypeInfo.kind, ite_self] using hkind)
    split <;> simp [hlength]
  · rintro u _ ⟨k, hk, rfl⟩
    split
    · next hu =>
      subst hu
      cases hi.symm.trans hk
      have hconcat := (h.distinct u i hi).concat hname
      rw [List.concat_eq_append] at hconcat
      exact hconcat
    · exact h.distinct u k hk
  · rintro u _ p ⟨k, hk, rfl⟩ hp
    obtain ⟨j, hj, hback⟩ := h.pointer u k p hk
      (by simpa only [apply_ite TypeInfo.pointer, ite_self] using hp)
    refine ⟨_, ⟨j, hj, rfl⟩, ?_⟩
    simpa only [apply_ite TypeInfo.pointee, ite_self] using hback
  · rintro p _ t ⟨k, hk, rfl⟩ ht
    obtain ⟨j, hj, hnamed⟩ := h.pointee p k t hk
      (by simpa only [apply_ite TypeInfo.pointee, ite_self] using ht)
    refine ⟨_, ⟨j, hj, rfl⟩, ?_⟩
    simpa only [apply_ite TypeInfo.name, ite_self] using hnamed

theorem Step.indexed (hs : Step r r') (h : r.Indexed) : r'.Indexed := by
  cases hs with
  | enter hname hnames hparts hpointee hpointer => exact h.enter hname hnames hparts hpointee hpointer
  | link hi hj hpointer hname => exact h.link hi hj hpointer hname
  | extend member hi hname => exact h.extend member hi hname

theorem Step.retained (hs : Step r r') (hi : r.info? t = some i) :
    ∃ i', r'.info? t = some i' ∧ Retained i i' := by
  cases hs with
  | enter => exact ⟨i, info?_push_of_some hi _, rfl, rfl, rfl, rfl, fun _ hp => hp⟩
  | @link u p k j hk hj hpointer =>
    have hlinked := info?_link r u p t
    rw [hi] at hlinked
    refine ⟨_, hlinked, rfl, rfl, rfl, rfl, fun q hq => ?_⟩
    -- The type that is linked had no pointer type before.
    have hne : t ≠ u := by
      rintro rfl
      cases hi.symm.trans hk
      rw [hpointer] at hq
      nomatch hq
    exact (if_neg hne).trans hq
  | @extend owner _ name member =>
    have hextended := info?_extend r owner member name t
    rw [hi] at hextended
    refine ⟨_, hextended, ?_⟩
    split
    · exact ⟨rfl, rfl, rfl, rfl, fun _ hp => hp⟩
    · exact ⟨rfl, rfl, rfl, rfl, fun _ hp => hp⟩

theorem indexed_of_steps (hs : ReflTransGen Step r r') (h : r.Indexed) : r'.Indexed := by
  induction hs with
  | refl => exact h
  | tail _ hstep ih => exact hstep.indexed ih

theorem retained_of_steps (hs : ReflTransGen Step r r') (hi : r.info? t = some i) :
    ∃ i', r'.info? t = some i' ∧ Retained i i' := by
  induction hs with
  | refl => exact ⟨i, hi, rfl, rfl, rfl, rfl, fun _ hp => hp⟩
  | tail _ hstep ih =>
    obtain ⟨j, hj, hij⟩ := ih
    obtain ⟨k, hk, hjk⟩ := hstep.retained hj
    exact ⟨k, hk, hjk.name.trans hij.name, hjk.kind.trans hij.kind, hjk.count.trans hij.count,
      hjk.component.trans hij.component, fun p hp => hjk.pointer p (hij.pointer p hp)⟩

theorem named_of_steps (hs : ReflTransGen Step r r') (h : r.Named t name) : r'.Named t name := by
  obtain ⟨i, hi, rfl⟩ := h
  obtain ⟨i', hi', hretained⟩ := retained_of_steps hs hi
  exact ⟨i', hi', hretained.name⟩

/-! ### Operations are sequences of steps -/

/-! An operation that is refused leaves the registry as it is. -/

theorem functionType_error {result : TypeRef} {parameters : List TypeRef}
    (h : functionType result parameters r = (.error e, r')) : r' = r := by
  rw [functionType_apply] at h
  split at h
  · exact (error_eq_error.mp h).2.symm
  · split at h <;> exact absurd h ok_ne_error

theorem pointerType_error {t : TypeRef} (h : pointerType t r = (.error e, r')) :
    r' = r := by
  rw [pointerType_apply] at h
  split at h
  · exact (error_eq_error.mp h).2.symm
  · split at h <;> exact absurd h ok_ne_error

theorem addMember_error {owner member : TypeRef}
    (h : addMember owner member name r = (.error e, r')) :
    r' = r := by
  rw [addMember_apply] at h
  split at h
  · exact (error_eq_error.mp h).2.symm
  · split at h
    · exact (error_eq_error.mp h).2.symm
    · split at h
      · exact (error_eq_error.mp h).2.symm
      · split at h
        · exact (error_eq_error.mp h).2.symm
        · exact absurd h ok_ne_error

/-- The registry changes in steps, whatever the outcome. -/
def Moves {α : Type} (x : TypeM α) : Prop := ∀ r, ReflTransGen Step r (x r).2

namespace Moves

variable {α β : Type} {x : TypeM α}

theorem steps (hx : Moves x) {o : Except IrError α} (h : x r = (o, r')) :
    ReflTransGen Step r r' := by
  have hsteps := hx r
  rw [h] at hsteps
  exact hsteps

protected theorem pure (a : α) : Moves (pure a : TypeM α) := fun _ => .refl

protected theorem throw (e : IrError) : Moves (throw e : TypeM α) := fun _ => .refl

protected theorem lift (x : Except IrError α) : Moves (liftM x : TypeM α) := fun _ => .refl

protected theorem get : Moves (get : TypeM Registry) := fun _ => .refl

protected theorem bind {f : α → TypeM β} (hx : Moves x) (hf : ∀ a, Moves (f a)) :
    Moves (x >>= f) := by
  intro r
  rw [bind_apply]
  rcases hr : x r with ⟨e | a, r₁⟩
  · exact hx.steps hr
  · exact (hx.steps hr).trans (hf a r₁)

protected theorem mapM {f : α → TypeM β} (hf : ∀ a, Moves (f a)) (as : List α) :
    Moves (as.mapM f) := by
  induction as with
  | nil => exact .pure []
  | cons a as ih =>
    rw [List.mapM_cons]
    exact .bind (hf a) fun b => .bind ih fun bs => .pure (b :: bs)

protected theorem map {f : α → β} (hx : Moves x) : Moves (f <$> x) := by
  rw [map_eq_pure_bind]
  exact hx.bind fun a => .pure (f a)

/-- An operation moves if it does so when it succeeds and changes nothing when it is refused. -/
theorem of_outcomes (hok : ∀ r a r', x r = (.ok a, r') → ReflTransGen Step r r')
    (herror : ∀ r e r', x r = (.error e, r') → r' = r) : Moves x := by
  intro r
  rcases hx : x r with ⟨e | a, r'⟩
  · rw [herror r e r' hx]
  · exact hok r a r' hx

end Moves

theorem steps_intern (r : Registry) (name : String) (kind : Kind) (count : Nat)
    (component : Option TypeRef) :
    ReflTransGen Step r (r.intern name kind count component).2 := by
  rcases r.intern_cases name kind count component with ⟨t, -, heq⟩ | ⟨hname, heq⟩
  · rw [heq]
  · rw [heq]
    exact .single (.enter hname rfl (fun _ => rfl) rfl rfl)

/-- The pointer type is entered first, unless a type has its name, and then linked. -/
theorem moves_pointerType (t : TypeRef) : Moves (pointerType t) := by
  refine .of_outcomes (fun r p r' h => ?_) fun r e r' h => pointerType_error h
  obtain ⟨i, hi, ⟨-, rfl⟩ | ⟨hpointer, rfl, rfl⟩⟩ := pointerType_cases h
  · exact .refl
  · obtain ⟨j, hj, hname⟩ := named_intern r (pointerName i.name) .pointer 0 none
    -- Entering the pointer type does not touch the type it points to.
    exact (steps_intern r _ _ _ _).tail (.link (info?_intern_of_some hi _ _ _ _) hj hpointer hname)

theorem moves_functionType (result : TypeRef) (parameters : List TypeRef) :
    Moves (functionType result parameters) := by
  refine .of_outcomes (fun r t r' h => ?_) fun r e r' h => functionType_error h
  obtain ⟨_, _, ⟨-, rfl⟩ | ⟨hname, -, -, rfl⟩⟩ := functionType_cases h
  · exact .refl
  · exact .single (.enter hname rfl nofun rfl rfl)

theorem moves_addMember (owner member : TypeRef) (name : String) :
    Moves (addMember owner member name) := by
  refine .of_outcomes (fun r n r' h => ?_) fun r e r' h => addMember_error h
  obtain ⟨i, -, hi, -, -, hname, -, rfl⟩ := addMember_cases h
  exact .single (.extend member hi hname)

theorem moves_importMembers {copy : TypeRef → TypeM TypeRef} (hcopy : ∀ t, Moves (copy t))
    (owner : TypeRef) (members : List (TypeRef × String)) :
    Moves (importMembers copy owner members) := by
  induction members with
  | nil => exact .pure ()
  | cons member members ih =>
    exact .bind (hcopy member.1) fun t => .bind (moves_addMember owner t member.2) fun _ => ih

/-- A copy may be given up after some of its parts have been entered: these are there to stay. -/
theorem moves_importWithin (source : Registry) (depth : Nat) (t : TypeRef) :
    Moves (importWithin source depth t) := by
  induction depth generalizing t with
  | zero => exact .throw _
  | succ depth ih =>
    refine .bind (.lift (source.info t)) fun i => .bind .get fun r => ?_
    split
    · -- A type of that name is there already.
      exact .pure _
    · have hcomponent : Moves (i.component.mapM (importWithin source depth)) := by
        cases i.component with
        | none => exact .pure none
        | some c => exact .bind (ih c) fun c' => .pure (some c')
      refine .bind hcomponent fun component => ?_
      split
      · split
        · exact .throw _
        · exact .bind (ih _) moves_pointerType
      · refine .bind (.mapM ih i.parts) fun parts => ?_
        split
        · exact .throw _
        · exact moves_functionType _ _
      · exact .bind (fun r => steps_intern r i.name .struct 0 none) fun owner =>
          .bind (moves_importMembers ih owner _) fun _ => .pure owner
      · exact fun r => steps_intern r i.name _ i.count component

theorem moves_importType (source : Registry) (t : TypeRef) : Moves (importType source t) :=
  moves_importWithin source _ t

theorem moves_lowerBuiltin (spec : TypeSpec) : Moves (lowerBuiltin spec) := by
  intro r
  rw [lowerBuiltin_apply]
  cases henter : r.enterBuiltin spec with
  | error e => exact .refl
  | ok p =>
    refine (enterBuiltin_rule (P := ReflTransGen Step r) (fun hr _ _ => ?_) .refl henter).1
    exact hr.trans (steps_intern _ _ _ _ _)

/-! ### Runs of operations -/

/-- What becomes of the registry does not depend on what is done with the outcome. -/
theorem state_map {α β : Type} (f : α → β) (x : TypeM α) (r : Registry) :
    ((f <$> x) r).2 = (x r).2 := by
  rw [map_eq_pure_bind, bind_apply]
  rcases x r with ⟨_ | _, _⟩ <;> rfl

/-- A change to a registry that can be asked for. Kinds of runs add their own requests to these. -/
inductive Change where
  | create (name : String) (kind : Kind) (count : Nat) (component : Option TypeRef)
  | createStruct (name : String)
  | functionType (result : TypeRef) (parameters : List TypeRef)
  | pointerType (ty : TypeRef)
  | addMember (owner member : TypeRef) (name : String)
  deriving DecidableEq

/-- What a registry answers. -/
inductive Answer where
  | type (ty : TypeRef)
  | number (value : Nat)
  | layout (value : Layout)
  deriving DecidableEq

/-- Carries out a change, which may be refused. -/
def Change.perform : Change → TypeM Answer
  | .create name kind count component =>
    .type <$> modifyGet (·.intern name kind count component)
  | .createStruct name => .type <$> modifyGet (·.internStruct name)
  | .functionType result parameters => .type <$> Registry.functionType result parameters
  | .pointerType ty => .type <$> Registry.pointerType ty
  | .addMember owner member name => .number <$> Registry.addMember owner member name

theorem Change.moves (c : Change) : Moves c.perform := by
  cases c with
  | create name kind count component => exact .map (fun r => steps_intern r name kind count component)
  | createStruct name => exact .map (fun r => steps_intern r name .struct 0 none)
  | functionType result parameters => exact .map (moves_functionType result parameters)
  | pointerType ty => exact .map (moves_pointerType ty)
  | addMember owner member name => exact .map (moves_addMember owner member name)

/-- The registry after a run of requests, each of which may have been refused. -/
def run {ρ : Type} (perform : ρ → TypeM Answer) (r : Registry) (requests : List ρ) : Registry :=
  requests.foldl (fun r q => (perform q r).2) r

theorem steps_run {ρ : Type} {perform : ρ → TypeM Answer} (hmoves : ∀ q, Moves (perform q))
    (r : Registry) (requests : List ρ) : ReflTransGen Step r (run perform r requests) := by
  induction requests generalizing r with
  | nil => exact .refl
  | cons q requests ih => exact (hmoves q r).trans (ih (perform q r).2)

end Shader.Registry
