import Shader.Proofs.Types.Entering
import Shader.Proofs.Types.Steps
import Mathlib.Data.Set.Basic

/-!
# Copies of types

A type of another registry is copied together with all that it refers to, and it may refer to itself
by way of a pointer. So a copy is described while it is only partly there: whatever has been entered
on the way is finished, but for the struct that is being filled at the moment.
-/

namespace Shader.Registry

open Outcome Relation

section Option

variable {α β : Type} {R : α → β → Prop} {a : α} {b : β}

theorem exists_of_rel_some {o : Option β} (h : Option.Rel R (some a) o) : ∃ b, o = some b ∧ R a b := by
  cases h with
  | some hab => exact ⟨_, rfl, hab⟩

theorem exists_of_rel_some_right {o : Option α} (h : Option.Rel R o (some b)) :
    ∃ a, o = some a ∧ R a b := by
  cases h with
  | some hab => exact ⟨_, rfl, hab⟩

theorem eq_none_of_rel {o : Option β} (h : Option.Rel R none o) : o = none := by
  cases h with
  | none => rfl

end Option

/-! ### Types up to names -/

/-- Types of two registries with the same name. -/
def Namesakes (source r : Registry) (s u : TypeRef) : Prop := ∃ name, source.Named s name ∧ r.Named u name

/-- **Descriptors that say the same**, up to the names of types. -/
structure Mirrors (source r : Registry) (j i : TypeInfo) : Prop where
  name : i.name = j.name
  kind : i.kind = j.kind
  count : i.count = j.count
  component : Option.Rel (Namesakes source r) j.component i.component
  pointee : Option.Rel (Namesakes source r) j.pointee i.pointee
  parts : List.Forall₂ (Namesakes source r) j.parts i.parts
  memberNames : i.memberNames = j.memberNames

variable {j : TypeInfo}

theorem Mirrors.mono {source r r' : Registry} {i : TypeInfo} (h : Mirrors source r j i)
    (hr : ReflTransGen Step r r') : Mirrors source r' j i := by
  have hmono : ∀ s u, Namesakes source r s u → Namesakes source r' s u :=
    fun s u ⟨name, hs, hu⟩ => ⟨name, hs, named_of_steps hr hu⟩
  have hoption : ∀ {o o'}, Option.Rel (Namesakes source r) o o' → Option.Rel (Namesakes source r') o o' := by
    rintro _ _ (hsu | _)
    · exact .some (hmono _ _ hsu)
    · exact .none
  exact { h with component := hoption h.component, pointee := hoption h.pointee,
                 parts := h.parts.imp hmono }

theorem Namesakes.index_lt {source r : Registry} {s u : TypeRef} (h : Namesakes source r s u) :
    u.index < r.size := by
  obtain ⟨name, -, hu⟩ := h
  exact hu.index_lt

theorem named_of_namesakes {source r : Registry} {ts us : List TypeRef} {names : List String}
    (h : List.Forall₂ (Namesakes source r) ts us) (hts : List.Forall₂ source.Named ts names) :
    List.Forall₂ r.Named us names :=
  (forall₂_comp h.flip hts).imp fun _ _ ⟨_, ⟨_, ht, hu⟩, ht'⟩ => ht.unique ht' ▸ hu

/-- A struct with these members. -/
def structOf (name : String) (members : List (TypeRef × String)) : TypeInfo :=
  { name, kind := .struct, count := 0, component := none, parts := members.map Prod.fst,
    memberNames := members.map Prod.snd }

/-- What is copied of a type. -/
def blueprint (i : TypeInfo) : TypeInfo :=
  match i.kind with
  | .pointer => { name := i.name, kind := .pointer, count := 0, component := none, pointee := i.pointee }
  | .function => { name := i.name, kind := .function, count := 0, component := none, parts := i.parts }
  | .struct => structOf i.name (i.parts.zip i.memberNames)
  | kind => { name := i.name, kind, count := i.count, component := i.component }

variable {i : TypeInfo}

/-- A blueprint has the name and the kind of the type. -/
theorem Mirrors.same {source r : Registry} (h : Mirrors source r (blueprint j) i) :
    i.name = j.name ∧ i.kind = j.kind := by
  refine ⟨h.name.trans ?_, h.kind.trans ?_⟩ <;> unfold blueprint <;> cases j.kind <;> rfl

theorem blueprint_struct (hkind : i.kind = .struct) :
    blueprint i = structOf i.name (i.parts.zip i.memberNames) := by
  unfold blueprint
  rw [hkind]

/-- Of a type without parts, all is copied. -/
theorem blueprint_plain (hpointer : i.kind ≠ .pointer) (hfunction : i.kind ≠ .function)
    (hstruct : i.kind ≠ .struct) :
    blueprint i = { name := i.name, kind := i.kind, count := i.count, component := i.component } := by
  unfold blueprint
  cases hkind : i.kind with
  | pointer => exact absurd hkind hpointer
  | function => exact absurd hkind hfunction
  | struct => exact absurd hkind hstruct
  | _ => rfl

/-- The references that copying follows. -/
inductive Refers (r : Registry) (t u : TypeRef) : Prop
  | component {i : TypeInfo} (hi : r.info? t = some i) (hu : i.component = some u)
  | pointee {i : TypeInfo} (hi : r.info? t = some i) (hkind : i.kind = .pointer)
    (hu : i.pointee = some u)
  | part {i : TypeInfo} (hi : r.info? t = some i) (hkind : i.kind = .struct ∨ i.kind = .function)
    (hu : u ∈ i.parts)

/-- **A type that can be copied.** Pointer types and function types have the names that they would be
given, and structs have no components. -/
structure Proper (r : Registry) (i : TypeInfo) : Prop where
  pointer : i.kind = .pointer →
    ∃ p name, i.pointee = some p ∧ r.Named p name ∧ i.name = pointerName name
  function : i.kind = .function → ∃ result ps resultName names, i.parts = result :: ps ∧
    r.Named result resultName ∧ List.Forall₂ r.Named ps names ∧ i.name = signatureName resultName names
  struct : i.kind = .struct → i.component = none

/-! ### Copies under way -/

/-- Types that were there are as they were, but pointers to them may have become known. -/
def Stays (r r' : Registry) : Prop :=
  ∀ t i, r.info? t = some i → ∃ pointer, r'.info? t = some { i with pointer := pointer }

/-- **A copy under way.** What is new follows a blueprint, with the exception of the types in `E`. -/
structure Copied (source : Registry) (root : TypeRef) (E : Set TypeRef) (r r' : Registry) : Prop where
  steps : ReflTransGen Step r r'
  stays : Stays r r'
  drawn : ∀ u i, r'.info? u = some i → r.size ≤ u.index → u ∉ E → i.layout = none ∧
    ∃ s j, ReflTransGen source.Refers root s ∧ source.info? s = some j ∧
      Mirrors source r' (blueprint j) i

/-- **What a copy needs.** Names are unique, and links lead both ways if pointers are copied. -/
structure Receives (source : Registry) (root : TypeRef) (r : Registry) : Prop where
  apart : r.NamesApart
  linked : (∃ s i, ReflTransGen source.Refers root s ∧ source.info? s = some i ∧
    i.kind = .pointer) → r.Indexed

section Copied

variable {source r r' r'' : Registry} {root t u : TypeRef} {E : Set TypeRef} {i : TypeInfo}

theorem Receives.steps (h : Receives source root r) (hs : ReflTransGen Step r r') :
    Receives source root r' :=
  ⟨apart_of_steps hs h.apart, fun hpointer => indexed_of_steps hs (h.linked hpointer)⟩

theorem Stays.trans (h : Stays r r') (h' : Stays r' r'') : Stays r r'' := by
  intro t i hi
  obtain ⟨_, hi'⟩ := h t i hi
  obtain ⟨pointer, hi''⟩ := h' t _ hi'
  exact ⟨pointer, hi''⟩

/-- A type that was there is as it was. -/
theorem Stays.info?_back (h : Stays r r') {i' : TypeInfo} (hi' : r'.info? t = some i')
    (ht : t.index < r.size) : ∃ i pointer, r.info? t = some i ∧ i' = { i with pointer := pointer } := by
  obtain ⟨i, hi⟩ := exists_info? ht
  obtain ⟨pointer, heq⟩ := h t i hi
  exact ⟨i, pointer, hi, Option.some.inj (hi'.symm.trans heq)⟩

/-- A name that was not there is that of a new type. -/
theorem Stays.new_of_name (h : Stays r r') {name : String} (hnew : r.find? name = none)
    (hj : r'.info? u = some j) (hname : j.name = name) : r.size ≤ u.index := by
  refine Nat.le_of_not_lt fun hold => ?_
  obtain ⟨k, pointer, hk, rfl⟩ := h.info?_back hj hold
  exact find?_eq_none hnew hk hname

theorem Copied.refl (source : Registry) (root : TypeRef) (E : Set TypeRef) (r : Registry) :
    Copied source root E r r :=
  ⟨.refl, fun _ i hi => ⟨i.pointer, hi⟩,
    fun _ _ hi hnew => absurd (index_lt_of_info? hi) (Nat.not_lt.mpr hnew)⟩

theorem Copied.mono {E' : Set TypeRef} (h : Copied source root E r r') (hE : E ⊆ E') :
    Copied source root E' r r' :=
  ⟨h.steps, h.stays, fun u i hi hnew hu => h.drawn u i hi hnew fun hmem => hu (hE hmem)⟩

theorem Copied.trans (h : Copied source root E r r') (h' : Copied source root E r' r'') :
    Copied source root E r r'' := by
  refine ⟨h.steps.trans h'.steps, h.stays.trans h'.stays, fun u i hi hnew hu => ?_⟩
  by_cases hold : u.index < r'.size
  · -- What follows a blueprint does not change any more.
    obtain ⟨j, pointer, hj, rfl⟩ := h'.stays.info?_back hi hold
    obtain ⟨hlayout, s, k, hs, hk, hmirrors⟩ := h.drawn u j hj hnew hu
    exact ⟨hlayout, s, k, hs, hk, { hmirrors.mono h'.steps with }⟩
  · exact h'.drawn u i hi (Nat.le_of_not_lt hold) hu

/-- **A new type** follows a blueprint, or it is an exception. -/
theorem copied_push (hstep : Step r (r.push i)) (hdrawn : ⟨r.size⟩ ∉ E → i.layout = none ∧
      ∃ s j, ReflTransGen source.Refers root s ∧ source.info? s = some j ∧
        Mirrors source r (blueprint j) i) : Copied source root E r (r.push i) := by
  refine ⟨.single hstep, fun _ j hj => ⟨j.pointer, info?_push_of_some hj i⟩, fun u j hj hnew hu => ?_⟩
  rcases info?_push_cases hj with ⟨rfl, rfl⟩ | hold
  · obtain ⟨hlayout, s, k, hs, hk, hmirrors⟩ := hdrawn hu
    exact ⟨hlayout, s, k, hs, hk, hmirrors.mono (.single hstep)⟩
  · exact absurd (index_lt_of_info? hold) (Nat.not_lt.mpr hnew)

/-- A new type mirrors the type of its name. -/
theorem Copied.mirrors (hsource : source.NamesApart) (h : Copied source root ∅ r r')
    (hi : source.info? t = some i) (hj : r'.info? u = some j) (hu : r.size ≤ u.index)
    (hname : j.name = i.name) : Mirrors source r' (blueprint i) j := by
  obtain ⟨-, s, k, -, hk, hmirrors⟩ := h.drawn u j hj hu (Set.notMem_empty u)
  have hname' : j.name = k.name := hmirrors.same.1
  obtain rfl := hsource s t k i hk hi (hname'.symm.trans hname)
  cases hk.symm.trans hi
  exact hmirrors

/-- **A type was there before, or it is a copy.** -/
theorem Copied.cases (h : Copied source root ∅ r r') (hi : r'.info? u = some i) :
    (∃ j pointer, r.info? u = some j ∧ i = { j with pointer := pointer }) ∨
      ∃ s j, ReflTransGen source.Refers root s ∧ source.info? s = some j ∧
        Mirrors source r' (blueprint j) i := by
  by_cases hold : u.index < r.size
  · exact .inl (h.stays.info?_back hi hold)
  · exact .inr (h.drawn u i hi (Nat.le_of_not_lt hold) (Set.notMem_empty u)).2

/-! ### One type -/

section Single

variable (ht : ReflTransGen source.Refers root t) (hi : source.info? t = some i)
include ht hi

/-- Entering a type of a kind that has no parts. -/
theorem intern_copied (hpointer : i.kind ≠ .pointer) (hfunction : i.kind ≠ .function)
    (hstruct : i.kind ≠ .struct) {component : Option TypeRef}
    (hcomponent : Option.Rel (Namesakes source r) i.component component) :
    Copied source root ∅ r (r.intern i.name i.kind i.count component).2 := by
  rcases r.intern_cases i.name i.kind i.count component with ⟨u, -, heq⟩ | ⟨hnew, heq⟩
  · rw [heq]
    exact .refl source root ∅ r
  · rw [heq]
    refine copied_push (.enter hnew rfl (fun _ => rfl) rfl rfl) fun _ => ⟨rfl, t, i, ht, hi, ?_⟩
    rw [blueprint_plain hpointer hfunction hstruct]
    exact ⟨rfl, rfl, rfl, hcomponent, .none, .nil, rfl⟩

theorem functionType_copied (hproper : source.Proper i) (hkind : i.kind = .function) {result v : TypeRef}
    {parameters : List TypeRef} (hparts : List.Forall₂ (Namesakes source r) i.parts (result :: parameters))
    (h : functionType result parameters r = (.ok v, r')) :
    Copied source root ∅ r r' ∧ r'.Named v i.name := by
  obtain ⟨_, _, resultName, names, hparts₀, hresult₀, hps₀, hname⟩ := hproper.function hkind
  have hparts₀ : List.Forall₂ source.Named i.parts (resultName :: names) :=
    hparts₀ ▸ .cons hresult₀ hps₀
  obtain ⟨hresult, hps⟩ := List.forall₂_cons.mp (named_of_namesakes hparts hparts₀)
  rw [functionType_apply, signatureOf_eq_ok.mpr ⟨resultName, names, hresult, hps, rfl⟩, ← hname] at h
  dsimp only at h
  split at h
  · next u hfind =>
    obtain ⟨rfl, rfl⟩ := ok_eq_ok.mp h
    exact ⟨.refl source root ∅ r, find?_eq_some hfind⟩
  · next hnew =>
    obtain ⟨rfl, rfl⟩ := ok_eq_ok.mp h
    refine ⟨copied_push (.enter hnew rfl nofun rfl rfl) fun _ => ⟨rfl, t, i, ht, hi, ?_⟩,
      _, (info?_push ..).trans (if_pos rfl), rfl⟩
    unfold blueprint
    simp only [hkind]
    exact ⟨rfl, rfl, rfl, .none, .none, hparts, rfl⟩

/-- The pointer type is known, or there is one of its name, which points to the right type, or it is
entered. -/
theorem pointerType_copied (hproper : source.Proper i) (hkind : i.kind = .pointer) (hr : r.Indexed)
    {p q v : TypeRef} (hp : i.pointee = some p) (hq : Namesakes source r p q)
    (hfound : ∀ v j, r.info? v = some j → j.name = i.name → Mirrors source r (blueprint i) j)
    (h : pointerType q r = (.ok v, r')) : Copied source root ∅ r r' ∧ r'.Named v i.name := by
  have hblue : blueprint i =
      { name := i.name, kind := .pointer, count := 0, component := none, pointee := some p } := by
    unfold blueprint
    simp only [hkind, hp]
  have hsteps := (moves_pointerType q).steps h
  obtain ⟨_, _, hp', hnamed, hname⟩ := hproper.pointer hkind
  cases hp.symm.trans hp'
  obtain ⟨k, hk, hcases⟩ := pointerType_cases h
  obtain ⟨_, hpname, hqname⟩ := hq
  obtain rfl := hnamed.unique hpname
  obtain rfl := hqname.unique ⟨k, hk, rfl⟩
  rcases hcases with ⟨hpointer, rfl⟩ | ⟨-, hv, hr'⟩
  · obtain ⟨j, hj, hback⟩ := hr.pointer q k v hk hpointer
    obtain ⟨k', hk', hjname⟩ := hr.pointee v j q hj hback
    cases hk.symm.trans hk'
    exact ⟨.refl source root ∅ r', j, hj, hjname.trans hname.symm⟩
  rw [← hname] at hv hr'
  rcases r.intern_cases i.name .pointer 0 none with ⟨u, hfind, heq⟩ | ⟨hnew, heq⟩
  · rw [heq] at hv hr'
    obtain rfl : v = u := hv
    subst hr'
    refine ⟨⟨hsteps, fun u j hj => ⟨if u = q then some v else j.pointer, ?_⟩, fun u j hj hnew => ?_⟩,
      named_of_steps hsteps (find?_eq_some hfind)⟩
    · rw [info?_link, hj, Option.map_some]
      by_cases hu : u = v
      · -- Its pointee bears the name of `q`, so it is `q`.
        subst hu
        obtain ⟨j', hj', hjname⟩ := find?_eq_some hfind
        cases hj.symm.trans hj'
        obtain ⟨q', hq', name, hname, hname'⟩ := exists_of_rel_some (hblue ▸ hfound u j hj hjname).pointee
        obtain rfl := hnamed.unique hname
        rw [if_pos rfl, hq', NamesApart.eq_of_named hr.unique hqname hname']
      · rw [if_neg hu]
    · rw [info?_link] at hj
      obtain ⟨j', hj', -⟩ := Option.map_eq_some_iff.mp hj
      exact absurd (index_lt_of_info? hj') (Nat.not_lt.mpr hnew)
  · rw [heq] at hv hr'
    obtain rfl : v = ⟨r.size⟩ := hv
    obtain rfl : r' = (r.push { name := i.name, kind := .pointer, count := 0, component := none }).link
      q ⟨r.size⟩ := hr'
    have hlast := info?_link (r.push { name := i.name, kind := .pointer, count := 0, component := none })
      q ⟨r.size⟩ ⟨r.size⟩
    rw [info?_push, if_pos rfl, Option.map_some, if_pos rfl, if_neg (ne_size_of_info? hk).symm] at hlast
    refine ⟨⟨hsteps, fun u j hj => ⟨if u = q then some ⟨r.size⟩ else j.pointer, ?_⟩,
      fun u j hj hnew _ => ?_⟩, _, hlast, rfl⟩
    · rw [info?_link, info?_push_of_some hj, Option.map_some, if_neg (ne_size_of_info? hj)]
    · obtain rfl : u = ⟨r.size⟩ := by
        rw [info?_link] at hj
        obtain ⟨j', hj', -⟩ := Option.map_eq_some_iff.mp hj
        rcases info?_push_cases hj' with ⟨hu, -⟩ | hold
        · exact hu
        · exact absurd (index_lt_of_info? hold) (Nat.not_lt.mpr hnew)
      cases hlast.symm.trans hj
      refine ⟨rfl, t, i, ht, hi, ?_⟩
      rw [hblue]
      exact ⟨rfl, rfl, rfl, .none, .some ⟨_, hnamed, named_of_steps hsteps hqname⟩, .nil, rfl⟩

end Single

/-! ### Structs -/

/-- **A struct that is being filled** with copies of these members. It is the only exception. -/
structure Filling (source : Registry) (root : TypeRef) (r₀ : Registry) (owner : TypeRef) (name : String)
    (done : List (TypeRef × String)) (r : Registry) : Prop where
  receives : Receives source root r
  copied : Copied source root {owner} r₀ r
  new : r₀.size ≤ owner.index
  filled : ∃ i, r.info? owner = some i ∧ i.layout = none ∧ Mirrors source r (structOf name done) i

variable {r₀ : Registry} {owner : TypeRef} {name : String} {done rest : List (TypeRef × String)}

/-- The struct has just been entered. -/
theorem filling_start (hr : Receives source root r) (hnew : r.find? name = none) :
    Filling source root r (r.internStruct name).1 name [] (r.internStruct name).2 := by
  rcases r.intern_cases name .struct 0 none with ⟨_, hfind, -⟩ | ⟨-, heq⟩
  · cases hnew.symm.trans hfind
  · rw [internStruct, heq]
    have hstep : Step r (r.push { name := name, kind := .struct, count := 0, component := none }) :=
      .enter hnew rfl (fun _ => rfl) rfl rfl
    exact ⟨hr.steps (.single hstep), copied_push hstep fun hne => absurd rfl hne, Nat.le_refl _,
      _, (info?_push ..).trans (if_pos rfl), rfl, rfl, rfl, rfl, .none, .none, .nil, rfl⟩

/-- Another type is copied meanwhile. -/
theorem Filling.copy (h : Filling source root r₀ owner name done r)
    (hr' : Copied source root ∅ r r') :
    Filling source root r₀ owner name done r' := by
  obtain ⟨i, hi, hlayout, hmirrors⟩ := h.filled
  obtain ⟨pointer, hi'⟩ := hr'.stays owner i hi
  exact ⟨h.receives.steps hr'.steps, h.copied.trans (hr'.mono (Set.empty_subset _)), h.new, _, hi',
    hlayout, { hmirrors.mono hr'.steps with }⟩

/-- The copy of a member is added. -/
theorem Filling.add (h : Filling source root r₀ owner name done r) {m : TypeRef × String}
    {member : TypeRef} (hm : Namesakes source r m.1 member) {n : Nat}
    (hadd : addMember owner member m.2 r = (.ok n, r')) :
    Filling source root r₀ owner name (done ++ [m]) r' := by
  have hsteps := (moves_addMember owner member m.2).steps hadd
  obtain ⟨_, _, -, -, -, -, -, rfl⟩ := addMember_cases hadd
  refine ⟨h.receives.steps hsteps, ⟨h.copied.steps.trans hsteps, fun t i hi => ?_,
    fun u i hi hnew hu => ?_⟩, h.new, ?_⟩
  · have hne : t ≠ owner := by
      rintro rfl
      exact absurd (index_lt_of_info? hi) (Nat.not_lt.mpr h.new)
    obtain ⟨pointer, hi'⟩ := h.copied.stays t i hi
    exact ⟨pointer, by rw [info?_extend, hi', Option.map_some, if_neg hne]⟩
  · rw [info?_extend, Option.map_eq_some_iff] at hi
    obtain ⟨j, hj, rfl⟩ := hi
    obtain ⟨hlayout, s, k, hs, hk, hmirrors⟩ := h.copied.drawn u j hj hnew hu
    rw [if_neg (show u ≠ owner from hu)]
    exact ⟨hlayout, s, k, hs, hk, hmirrors.mono hsteps⟩
  · obtain ⟨i, hi, -, hmirrors⟩ := h.filled
    have hi' := info?_extend r owner member m.2 owner
    rw [hi, Option.map_some, if_pos rfl] at hi'
    refine ⟨_, hi', rfl, Mirrors.mono (r := r) { hmirrors with parts := ?_, memberNames := ?_ } hsteps⟩
    · rw [structOf, List.map_append]
      exact List.rel_append hmirrors.parts (.cons hm .nil)
    · rw [structOf, List.map_append (f := Prod.snd)]
      exact congrArg (· ++ [m.2]) hmirrors.memberNames

/-- **A struct is finished** once all members have been added. -/
theorem Filling.close (ht : ReflTransGen source.Refers root t) (hi : source.info? t = some i)
    (hkind : i.kind = .struct)
    (h : Filling source root r₀ owner i.name (i.parts.zip i.memberNames) r) :
    Copied source root ∅ r₀ r ∧ r.Named owner i.name := by
  obtain ⟨j, hj, hlayout, hmirrors⟩ := h.filled
  refine ⟨⟨h.copied.steps, h.copied.stays, fun u k hk hnew _ => ?_⟩, j, hj, hmirrors.name⟩
  by_cases hu : u = owner
  · subst hu
    cases hj.symm.trans hk
    exact ⟨hlayout, t, i, ht, hi, blueprint_struct hkind ▸ hmirrors⟩
  · exact h.copied.drawn u k hk hnew hu

/-! ### What copying comes to -/

/-- Copying a type leaves a copy of it. -/
def Copies (source : Registry) (root : TypeRef) (copy : TypeRef → TypeM TypeRef) (t : TypeRef) : Prop :=
  ∀ r u r', Receives source root r → copy t r = (.ok u, r') →
    Copied source root ∅ r r' ∧ Namesakes source r' t u

variable {copy : TypeRef → TypeM TypeRef}

theorem importMembers_copied (hcopy : ∀ m ∈ rest, Copies source root copy m.1)
    (hr : Filling source root r₀ owner name done r) {a : Unit}
    (h : importMembers copy owner rest r = (.ok a, r')) :
    Filling source root r₀ owner name (done ++ rest) r' := by
  induction rest generalizing r done with
  | nil =>
    obtain ⟨-, rfl⟩ := ok_eq_ok.mp h
    rwa [List.append_nil]
  | cons m rest ih =>
    obtain ⟨member, r₁, h₁, h⟩ := bind_ok.mp h
    obtain ⟨n, r₂, h₂, h⟩ := bind_ok.mp h
    obtain ⟨hcopy₁, hcopy⟩ := List.forall_mem_cons.mp hcopy
    obtain ⟨hcopied, hm⟩ := hcopy₁ r member r₁ hr.receives h₁
    have hfilling := ih hcopy ((hr.copy hcopied).add hm h₂) h
    rwa [List.append_assoc] at hfilling

theorem mapM_copied {ts us : List TypeRef} (hcopy : ∀ t ∈ ts, Copies source root copy t)
    (hr : Receives source root r) (h : ts.mapM copy r = (.ok us, r')) :
    Copied source root ∅ r r' ∧ List.Forall₂ (Namesakes source r') ts us := by
  induction ts generalizing r us with
  | nil =>
    obtain ⟨rfl, rfl⟩ := ok_eq_ok.mp h
    exact ⟨.refl source root ∅ r, .nil⟩
  | cons t ts ih =>
    rw [List.mapM_cons] at h
    obtain ⟨u, r₁, h₁, h⟩ := bind_ok.mp h
    obtain ⟨us, r₂, h₂, rfl, rfl⟩ := return_ok.mp h
    obtain ⟨hcopy₁, hcopy⟩ := List.forall_mem_cons.mp hcopy
    obtain ⟨hcopied₁, name, ht, hu⟩ := hcopy₁ r u r₁ hr h₁
    obtain ⟨hcopied₂, hus⟩ := ih hcopy (hr.steps hcopied₁.steps) h₂
    exact ⟨hcopied₁.trans hcopied₂, .cons ⟨name, ht, named_of_steps hcopied₂.steps hu⟩ hus⟩

section Root

variable (hsource : source.NamesApart)
  (hproper : ∀ s i, ReflTransGen source.Refers root s → source.info? s = some i → source.Proper i)
include hsource hproper

/-- **Copying a type**, by induction on the depth. -/
theorem importWithin_copied (depth : Nat) (ht : ReflTransGen source.Refers root t) :
    Copies source root (importWithin source depth) t := by
  induction depth generalizing t with
  | zero => exact fun r u r' _ h => absurd h error_ne_ok
  | succ depth ih =>
    intro r u r' hr h
    obtain ⟨i, hi, hcases⟩ := importWithin_ok.mp h
    suffices hcopied : Copied source root ∅ r r' ∧ r'.Named u i.name from
      ⟨hcopied.1, i.name, ⟨i, hi, rfl⟩, hcopied.2⟩
    rcases hcases with ⟨hfind, rfl⟩ | ⟨hnew, component, r₁, hrun, hremakes⟩
    · exact ⟨.refl source root ∅ r', find?_eq_some hfind⟩
    obtain ⟨hcopied₁, hcomponent⟩ : Copied source root ∅ r r₁ ∧
        Option.Rel (Namesakes source r₁) i.component component := by
      cases hc : i.component with
      | none =>
        rw [hc] at hrun
        obtain ⟨rfl, rfl⟩ := ok_eq_ok.mp hrun
        exact ⟨.refl source root ∅ r, .none⟩
      | some c =>
        rw [hc] at hrun
        obtain ⟨c', r₂, hcopy, rfl, rfl⟩ := return_ok.mp hrun
        obtain ⟨hcopied, hnames⟩ := ih (ht.tail (.component hi hc)) r c' r₂ hr hcopy
        exact ⟨hcopied, .some hnames⟩
    have hr₁ := hr.steps hcopied₁.steps
    cases hremakes with
    | pointer hkind hpointee hcopy h =>
      obtain ⟨hcopied₂, hq⟩ := ih (ht.tail (.pointee hi hkind hpointee)) _ _ _ hr₁ hcopy
      have hcopied := hcopied₁.trans hcopied₂
      have hindexed := (hr.steps hcopied.steps).linked ⟨t, i, ht, hi, hkind⟩
      obtain ⟨hcopied₃, hnamed⟩ := pointerType_copied ht hi (hproper t i ht hi) hkind hindexed hpointee hq
        (fun v j hj hname => hcopied.mirrors hsource hi hj (hcopied.stays.new_of_name hnew hj hname) hname) h
      exact ⟨hcopied.trans hcopied₃, hnamed⟩
    | function hkind hcopy h =>
      obtain ⟨hcopied₂, hparts⟩ := mapM_copied
        (fun p hp => ih (ht.tail (.part hi (.inr hkind) hp))) hr₁ hcopy
      obtain ⟨hcopied₃, hnamed⟩ := functionType_copied ht hi (hproper t i ht hi) hkind hparts h
      exact ⟨(hcopied₁.trans hcopied₂).trans hcopied₃, hnamed⟩
    | struct hkind h =>
      -- A struct has no component, so that nothing has happened before it is entered.
      rw [(hproper t i ht hi).struct hkind] at hrun
      obtain ⟨-, rfl⟩ := ok_eq_ok.mp hrun
      exact (importMembers_copied (fun m hm => ih (ht.tail (.part hi (.inl hkind) (List.of_mem_zip hm).1)))
        (filling_start hr hnew) h).close ht hi hkind
    | plain hpointer hfunction hstruct =>
      exact ⟨hcopied₁.trans (intern_copied ht hi hpointer hfunction hstruct hcomponent),
        named_intern ..⟩

end Root

/-- **Types with values.** They do not lead to pointers or functions. -/
def Plain (source : Registry) (root : TypeRef) : Prop :=
  ∀ s i, ReflTransGen source.Refers root s → source.info? s = some i →
    i.kind ≠ .pointer ∧ i.kind ≠ .function ∧ (i.kind = .struct → i.component = none)

theorem Plain.proper (h : source.Plain root) {s : TypeRef} (hs : ReflTransGen source.Refers root s)
    (hi : source.info? s = some i) : source.Proper i := by
  obtain ⟨hpointer, hfunction, hstruct⟩ := h s i hs hi
  exact ⟨fun hkind => absurd hkind hpointer, fun hkind => absurd hkind hfunction, hstruct⟩

theorem Plain.receives (h : source.Plain root) (hr : r.NamesApart) : Receives source root r :=
  ⟨hr, fun ⟨s, i, hs, hi, hkind⟩ => absurd hkind (h s i hs hi).1⟩

/-- **Copying a type with values.** -/
theorem Plain.importType_copied (h : source.Plain root) (hsource : source.NamesApart) (hr : r.NamesApart)
    (hrun : importType source root r = (.ok u, r')) :
    Copied source root ∅ r r' ∧ Namesakes source r' root u :=
  importWithin_copied hsource (fun _ _ => h.proper) _ .refl r u r' (h.receives hr) hrun

/-! ### Copying comes to an end -/

/-- References that do not lead through a struct. -/
def Nests (r : Registry) (t u : TypeRef) : Prop :=
  r.Refers t u ∧ ∀ i, r.info? t = some i → i.kind ≠ .struct

/-- The names in the list are all that a registry lacks of another one. -/
def Lacks (source : Registry) (names : List String) (r : Registry) : Prop :=
  ∀ s i, source.info? s = some i → r.find? i.name = none → i.name ∈ names

variable {names : List String}

theorem Lacks.steps (h : Lacks source names r) (hs : ReflTransGen Step r r') : Lacks source names r' := by
  intro s i hi hnone
  refine h s i hi ?_
  cases hfind : r.find? i.name with
  | none => rfl
  | some u =>
    obtain ⟨j, hj, hname⟩ := named_of_steps hs (find?_eq_some hfind)
    exact absurd hname (find?_eq_none hnone hj)

/-- A name that is borne is not lacking. -/
theorem Lacks.erase (h : Lacks source names r) (hname : r.Named u name) :
    Lacks source (names.erase name) r := by
  intro s i hi hnone
  obtain ⟨j, hj, rfl⟩ := hname
  exact (List.mem_erase_of_ne (find?_eq_none hnone hj).symm).mpr (h s i hi hnone)

/-- **Members can be copied** if their types can and their names are distinct. -/
theorem importMembers_succeeds (hcopy : ∀ m ∈ rest, Copies source root copy m.1)
    (htotal : ∀ m ∈ rest, ∀ r, Receives source root r → Lacks source names r →
      Succeeds (copy m.1) r fun _ _ => True)
    (hnodup : ((done ++ rest).map Prod.snd).Nodup) (hr : Filling source root r₀ owner name done r)
    (hlacks : Lacks source names r) :
    Succeeds (importMembers copy owner rest) r fun _ _ => True := by
  induction rest generalizing r done with
  | nil => exact .pure True.intro
  | cons m rest ih =>
    obtain ⟨hcopy₁, hcopy⟩ := List.forall_mem_cons.mp hcopy
    obtain ⟨htotal₁, htotal⟩ := List.forall_mem_cons.mp htotal
    obtain ⟨member, r₁, h₁, -⟩ := htotal₁ r hr.receives hlacks
    obtain ⟨hcopied, hm⟩ := hcopy₁ r member r₁ hr.receives h₁
    have hr₁ := hr.copy hcopied
    obtain ⟨i, hi, -, hmirrors⟩ := hr₁.filled
    have hnew : m.2 ∉ i.memberNames := by
      rw [hmirrors.memberNames]
      rw [List.map_append] at hnodup
      exact fun hmem => (List.nodup_append.mp hnodup).2.2 _ hmem _ List.mem_cons_self rfl
    obtain ⟨n, r₂, h₂, -⟩ := addMember_succeeds hi hmirrors.kind hnew hm.index_lt
    have hr₂ := hr₁.add hm h₂
    obtain ⟨a, r₃, h₃, -⟩ := ih hcopy htotal (by rwa [List.append_assoc]) hr₂
      (hlacks.steps (hcopied.steps.trans ((moves_addMember owner member m.2).steps h₂)))
    exact ⟨a, r₃, bind_ok.mpr ⟨member, r₁, h₁, bind_ok.mpr ⟨n, r₂, h₂, h₃⟩⟩, True.intro⟩

section Ends

variable (hsource : source.NamesApart)
  (hproper : ∀ s i, ReflTransGen source.Refers root s → source.info? s = some i → source.Proper i)
  (hfound : ∀ s, ReflTransGen source.Refers root s → s.index < source.size)
  (hnodup : ∀ s i, ReflTransGen source.Refers root s → source.info? s = some i → i.kind = .struct →
    ((i.parts.zip i.memberNames).map Prod.snd).Nodup)
  (hnests : ∀ s, ReflTransGen source.Refers root s → Shallow source.Nests (source.size + 1) s)
include hsource hproper hfound hnodup hnests

/-- **A type can be copied.** The depth is enough for the structs that are lacking, one within the
other, and for what is nested in between. -/
theorem importWithin_succeeds {depth k : Nat} (ht : ReflTransGen source.Refers root t)
    (hk : Shallow source.Nests k t) (hr : Receives source root r) (hlacks : Lacks source names r)
    (hdepth : names.length * (source.size + 1) + k ≤ depth) :
    Succeeds (importWithin source depth t) r fun _ _ => True := by
  induction depth generalizing t r k names with
  | zero =>
    obtain rfl : k = 0 := by omega
    exact hk.elim
  | succ depth ih =>
    obtain ⟨i, hi⟩ := exists_info? (hfound t ht)
    suffices hmade : r.find? i.name = none → ∃ component r₁ u r',
        i.component.mapM (importWithin source depth) r = (.ok component, r₁) ∧
          Remakes (importWithin source depth) i component r₁ u r' by
      cases hfind : r.find? i.name with
      | some u => exact ⟨u, r, importWithin_ok.mpr ⟨i, hi, .inl ⟨hfind, rfl⟩⟩, True.intro⟩
      | none =>
        obtain ⟨component, r₁, u, r', hrun, hremakes⟩ := hmade hfind
        exact ⟨u, r', importWithin_ok.mpr ⟨i, hi, .inr ⟨hfind, component, r₁, hrun, hremakes⟩⟩, True.intro⟩
    intro hnew
    have hcopy := fun u (hu : source.Refers t u) =>
      importWithin_copied hsource hproper depth (ht.tail hu)
    by_cases hstruct : i.kind = .struct
    · -- A name less is lacking while the members are copied.
      have hrefers : ∀ m ∈ i.parts.zip i.memberNames, source.Refers t m.1 := fun m hm =>
        .part hi (.inl hstruct) (List.of_mem_zip hm).1
      have hfilling := filling_start hr hnew
      have hmem := hlacks t i hi hnew
      have hlacks' := (hlacks.steps hfilling.copied.steps).erase (named_intern r i.name .struct 0 none)
      have hlength : (names.erase i.name).length * (source.size + 1) + (source.size + 1) ≤ depth := by
        rw [List.length_erase_of_mem hmem, ← Nat.succ_mul, Nat.succ_eq_add_one,
          Nat.sub_add_cancel (List.length_pos_of_mem hmem)]
        cases k with
        | zero => exact hk.elim
        | succ k => omega
      obtain ⟨a, r', h, -⟩ := importMembers_succeeds (fun m hm => hcopy m.1 (hrefers m hm))
        (fun m hm r hr hlacks => ih (ht.tail (hrefers m hm)) (hnests _ (ht.tail (hrefers m hm))) hr hlacks
          hlength) (hnodup t i ht hi hstruct) hfilling hlacks'
      refine ⟨none, r, _, r', ?_, .struct hstruct h⟩
      rw [(hproper t i ht hi).struct hstruct]
      rfl
    have hnested : ∀ u, source.Refers t u → ∀ r, Receives source root r ∧ Lacks source names r →
        Succeeds (importWithin source depth u) r fun v r' =>
          (Receives source root r' ∧ Lacks source names r') ∧ Namesakes source r' u v := by
      intro u hu r hr
      obtain ⟨k, rfl⟩ : ∃ k', k = k' + 1 := Nat.exists_eq_succ_of_ne_zero fun hzero => (hzero ▸ hk).elim
      obtain ⟨v, r', h, -⟩ := ih (ht.tail hu) (hk u ⟨hu, fun j hj =>
        Option.some.inj (hi.symm.trans hj) ▸ hstruct⟩) hr.1 hr.2 (by omega)
      have hsteps := (moves_importWithin source depth u).steps h
      exact ⟨v, r', h, ⟨hr.1.steps hsteps, hr.2.steps hsteps⟩, (hcopy u hu r v r' hr.1 h).2⟩
    obtain ⟨component, r₁, hrun, hr₁⟩ : Succeeds (i.component.mapM (importWithin source depth)) r
        fun _ r' => Receives source root r' ∧ Lacks source names r' := by
      cases hc : i.component with
      | none => exact .pure ⟨hr, hlacks⟩
      | some c =>
        obtain ⟨c', r₁, h₁, hr₁, -⟩ := hnested c (.component hi hc) r ⟨hr, hlacks⟩
        exact ⟨some c', r₁, bind_ok.mpr ⟨c', r₁, h₁, rfl⟩, hr₁⟩
    by_cases hpointer : i.kind = .pointer
    · obtain ⟨p, -, hp, -⟩ := (hproper t i ht hi).pointer hpointer
      obtain ⟨q, r₂, h₂, -, hq⟩ := hnested p (.pointee hi hpointer hp) r₁ hr₁
      obtain ⟨v, r', h, -⟩ := pointerType_succeeds hq.index_lt
      exact ⟨component, r₁, v, r', hrun, .pointer hpointer hp h₂ h⟩
    by_cases hfunction : i.kind = .function
    · obtain ⟨us, r₂, h₂, hr₂⟩ := Succeeds.mapM (fun p hp r hr =>
        (hnested p (.part hi (.inr hfunction) hp) r hr).mono fun _ _ h => h.1) hr₁
      obtain ⟨-, hus⟩ := mapM_copied (fun p hp => hcopy p (.part hi (.inr hfunction) hp)) hr₁.1 h₂
      obtain ⟨_, _, _, _, hparts, -⟩ := (hproper t i ht hi).function hfunction
      rw [hparts] at hus
      obtain ⟨result, parameters, -, -, rfl⟩ := List.forall₂_cons_left_iff.mp hus
      have hlt : ∀ u ∈ result :: parameters, u.index < r₂.size := by
        intro u hu
        obtain ⟨_, -, hsu⟩ := forall₂_exists_of_mem hus.flip hu
        exact Namesakes.index_lt hsu
      obtain ⟨v, r', h, -⟩ := functionType_succeeds hlt
      exact ⟨component, r₁, v, r', hrun, .function hfunction h₂ h⟩
    exact ⟨component, r₁, _, _, hrun, .plain hpointer hfunction hstruct⟩

/-- **Copying comes to an end**, since the depth is enough for all structs. -/
theorem importType_succeeds (hr : Receives source root r) :
    Succeeds (importType source root) r fun _ _ => True := by
  have hlacks : Lacks source (source.types.map TypeInfo.name) r :=
    fun s i hi _ => List.mem_map.mpr ⟨i, List.mem_of_getElem? hi, rfl⟩
  refine importWithin_succeeds hsource hproper hfound hnodup hnests .refl (hnests root .refl) hr hlacks ?_
  rw [List.length_map, ← Nat.succ_mul]
  exact Nat.le_refl _

end Ends

end Copied

end Shader.Registry
