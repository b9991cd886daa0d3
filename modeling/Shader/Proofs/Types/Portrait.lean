import Shader.Proofs.Types.Layers
import Shader.Proofs.Types.Spelling
import Shader.Tree.Basic

/-!
# Structs that portray classes

A registry tells types apart by their names, a tree tells classes apart by their identities. If no two
classes in sight have the same name, a struct can be told from the other structs by the class that it
was made of, and it says what the class says: it has the stored fields of the class as its members, in
their order, each with a type that is called like the type of the field.

* `Registry.importType_later` — copies of types keep this up. They may go in circles: a struct that
  is met again while its members are being copied is found by its name, and it is left alone.
-/

namespace Shader

open Outcome Relation

/-- The stored fields of a class, in their order. -/
def ClassDecl.fields (c : ClassDecl) : List VariableDecl := c.members.filter VariableDecl.isField

/-- What a type is called, given the classes in sight. -/
def TypeSpec.Called (W : Set ClassDecl) (spec : TypeSpec) (name : String) : Prop :=
  spec.builtinName = some name ∨ ∃ c ∈ W, spec = .ofClass c.id ∧ c.name = name

/-- **Classes apart.** Classes in sight have names that no other type has, and no two of them share a
name or an identity. -/
structure ClassesApart (W : Set ClassDecl) : Prop where
  className : ∀ c ∈ W, Registry.ClassName c.name
  eq_of_name : ∀ c ∈ W, ∀ c' ∈ W, c.name = c'.name → c = c'
  eq_of_id : ∀ c ∈ W, ∀ c' ∈ W, c.id = c'.id → c = c'

variable {name : String} {spec : TypeSpec}

theorem TypeSpec.Called.valueName {W : Set ClassDecl} (hW : ClassesApart W)
    (h : spec.Called W name) :
    Registry.ValueName name := by
  rcases h with h | ⟨c, hc, -, rfl⟩
  · exact .inl ⟨spec, h⟩
  · exact .inr (hW.className c hc)

namespace Registry

/-! ### Exact registries -/

/-- **A type is made like a builtin type**: it has the kind, and the components. -/
structure Models (r : Registry) (i : TypeInfo) (spec : TypeSpec) : Prop where
  kind : i.kind = builtinKind spec
  component : ∀ e n, spec.component? = some (e, n) → i.count = n ∧
    ∃ c name, i.component = some c ∧ e.builtinName = some name ∧ r.Named c name
  simple : spec.component? = none → i.component = none

/-- **A struct portrays fields.** Its members are called like them, and the types of its members are
called like their types. -/
structure Portrays (W : Set ClassDecl) (r : Registry) (i : TypeInfo) (vs : List VariableDecl) :
    Prop where
  names : i.memberNames = vs.map VariableDecl.name
  types : List.Forall₂ (fun p v => ∃ name, r.Named p name ∧ v.ty.Called W name) i.parts vs

/-- **Exact registries.** The name of a type shows what kind of type it is and belongs to it alone,
and a builtin name says what the type is made of. Every struct is called like a class, and it portrays
the fields of the class if its name is not in `N`. -/
structure Exact (W : Set ClassDecl) (N : Set String) (r : Registry) : Prop where
  unique : ∀ t t' i i', r.info? t = some i → r.info? t' = some i' → i.name = i'.name → t = t'
  suits : ∀ t i, r.info? t = some i → Suits i.kind i.name
  builtin : ∀ t i spec, r.info? t = some i → spec.builtinName = some i.name → r.Models i spec
  struct : ∀ t i, r.info? t = some i → i.kind = .struct → ∃ c ∈ W, c.name = i.name
  component : ∀ t i, r.info? t = some i → i.kind = .struct → i.component = none
  whole : ∀ t i, ∀ c ∈ W, r.info? t = some i → i.name = c.name → c.name ∉ N →
    r.Portrays W i c.fields

/-- A later state of a registry, which is still exact. No struct has got new members. -/
structure Later (W : Set ClassDecl) (N : Set String) (r₀ r : Registry) : Prop where
  exact : r.Exact W N
  keeps : Keeps ∅ r₀ r

variable {W : Set ClassDecl} {N M : Set String} {r r' r₀ source : Registry}

theorem exact_empty (W : Set ClassDecl) (N : Set String) : Exact W N {} :=
  ⟨fun _ _ _ _ h => (nomatch h), nofun, fun _ _ _ h => (nomatch h), nofun, nofun,
    fun _ _ _ _ h => (nomatch h)⟩

theorem Exact.later (h : r.Exact W N) : Later W N r r := ⟨h, .refl ∅ r⟩

theorem Later.trans (h : Later W N r₀ r) (h' : Later W N r r') : Later W N r₀ r' :=
  ⟨h'.exact, h.keeps.trans h'.keeps⟩

variable {t u : TypeRef} {i : TypeInfo} {vs : List VariableDecl}

/-- Nothing but a function type has the name of one. -/
theorem Exact.kind_of_signatureName (h : r.Exact W N) (hi : r.info? t = some i) {result : String}
    {parameters : List String} (hname : i.name = signatureName result parameters) :
    i.kind = .function := by
  have hsuits := h.suits t i hi
  rw [hname] at hsuits
  cases hkind : i.kind with
  | function => rfl
  | struct =>
    rw [hkind] at hsuits
    exact absurd rfl (hsuits.signature result parameters)
  | pointer =>
    rw [hkind] at hsuits
    obtain ⟨pointee, heq⟩ := hsuits
    have hhead := congrArg (fun s => (String.toList s).head?) heq
    rw [toList_signatureName, toList_pointerName] at hhead
    exact absurd hhead (by simp)
  | _ =>
    rw [hkind] at hsuits
    exact absurd (.inl hsuits) (not_valueName_signatureName result parameters)

theorem Models.keeps (hk : Keeps M r r') {i' : TypeInfo} (h : r.Models i spec) (ha : Alike M i i') :
    r'.Models i' spec where
  kind := ha.kind.trans h.kind
  component e n he := by
    obtain ⟨hn, c, name, hc, hname, hnamed⟩ := h.component e n he
    exact ⟨ha.count.trans hn, c, name, ha.component.trans hc, hname, hk.named hnamed⟩
  simple hnone := ha.component.trans (h.simple hnone)

theorem Portrays.keeps (hk : Keeps M r r') {i' : TypeInfo} (h : r.Portrays W i vs)
    (ha : Alike M i i') (hM : i.name ∉ M) : r'.Portrays W i' vs where
  names := (ha.memberNames hM).trans h.names
  types := by
    rw [ha.parts hM]
    exact h.types.imp fun p v ⟨name, hn, hcalled⟩ => ⟨name, hk.named hn, hcalled⟩

/-! ### Appending and changing types -/

/-- What suits a class name is a struct. -/
theorem eq_struct_of_suits {kind : Kind} (h : Suits kind name) (hname : ClassName name) :
    kind = .struct := by
  cases kind with
  | struct => rfl
  | pointer =>
    obtain ⟨pointee, heq⟩ := h
    exact absurd heq (hname.pointer pointee)
  | function =>
    obtain ⟨result, parameters, heq⟩ := h
    exact absurd heq (hname.signature result parameters)
  | _ => exact absurd h hname.builtin

/-- **Appending a type.** A struct is appended without members, so its name has to be in `N`. -/
theorem Exact.push (hW : ClassesApart W) (h : r.Exact W N) (hnew : r.find? i.name = none)
    (hsuits : Suits i.kind i.name)
    (hmodels : ∀ spec, spec.builtinName = some i.name → r.Models i spec)
    (hstruct : i.kind = .struct → i.component = none ∧ i.name ∈ N ∧ ∃ c ∈ W, c.name = i.name) :
    Later W N r (r.push i) := by
  have hkeeps := keeps_push ∅ r i
  refine ⟨⟨NamesApart.push h.unique hnew, fun t j hj => ?_, fun t j spec hj hname => ?_,
    fun t j hj hkind => ?_, fun t j hj hkind => ?_, fun t j c hc hj hname hN => ?_⟩, hkeeps⟩
  · rcases info?_push_cases hj with ⟨-, rfl⟩ | hold
    · exact hsuits
    · exact h.suits t j hold
  · rcases info?_push_cases hj with ⟨-, rfl⟩ | hold
    · exact (hmodels spec hname).keeps hkeeps (.refl ∅ _)
    · exact (h.builtin t j spec hold hname).keeps hkeeps (.refl ∅ _)
  · rcases info?_push_cases hj with ⟨-, rfl⟩ | hold
    · exact (hstruct hkind).2.2
    · exact h.struct t j hold hkind
  · rcases info?_push_cases hj with ⟨-, rfl⟩ | hold
    · exact (hstruct hkind).1
    · exact h.component t j hold hkind
  · rcases info?_push_cases hj with ⟨-, rfl⟩ | hold
    · have hkind := eq_struct_of_suits hsuits (hname ▸ hW.className c hc)
      exact absurd (hname ▸ (hstruct hkind).2.1) hN
    · exact (h.whole t j c hc hold hname hN).keeps hkeeps (.refl ∅ _) (Set.notMem_empty _)

/-- **Altering types** whose names are in `M`. -/
theorem Exact.alters (h : r.Exact W N) (hM : M ⊆ N) (ha : Alters M r r') : r'.Exact W N := by
  have hkeeps := ha.keeps
  refine ⟨fun t₁ t₂ j₁ j₂ h₁ h₂ hname => ?_, fun t' j hj => ?_, fun t' j spec hj hname => ?_,
    fun t' j hj hkind => ?_, fun t' j hj hkind => ?_, fun t' j c hc hj hname hN => ?_⟩
  · obtain ⟨i₁, hi₁, ha₁⟩ := ha.back h₁
    obtain ⟨i₂, hi₂, ha₂⟩ := ha.back h₂
    exact h.unique t₁ t₂ i₁ i₂ hi₁ hi₂ (ha₁.name ▸ ha₂.name ▸ hname)
  · obtain ⟨i, hi, ha⟩ := ha.back hj
    rw [ha.kind, ha.name]
    exact h.suits t' i hi
  · obtain ⟨i, hi, ha⟩ := ha.back hj
    exact (h.builtin t' i spec hi (ha.name ▸ hname)).keeps hkeeps ha
  · obtain ⟨i, hi, ha⟩ := ha.back hj
    rw [ha.name]
    exact h.struct t' i hi (ha.kind ▸ hkind)
  · obtain ⟨i, hi, ha⟩ := ha.back hj
    exact ha.component.trans (h.component t' i hi (ha.kind ▸ hkind))
  · obtain ⟨i, hi, ha⟩ := ha.back hj
    have hne : i.name ∉ M := fun hmem => hN (hname ▸ ha.name ▸ hM hmem)
    exact (h.whole t' i c hc hi (ha.name ▸ hname) hN).keeps hkeeps ha hne

/-- Altering what has nothing to do with members. -/
theorem Exact.relinks (h : r.Exact W N) (ha : Alters ∅ r r') : Later W N r r' :=
  ⟨h.alters (Set.empty_subset N) ha, ha.keeps⟩

/-! ### The operations -/

section Operations

variable (hW : ClassesApart W)
include hW

/-- Entering a type that is no struct. -/
theorem intern_later (h : r.Exact W N) {kind : Kind} (count : Nat) (component : Option TypeRef)
    (hsuits : Suits kind name) (hkind : kind ≠ .struct)
    (hmodels : ∀ spec, spec.builtinName = some name →
      r.Models { name := name, kind := kind, count := count, component := component } spec) :
    Later W N r (r.intern name kind count component).2 ∧
      (r.intern name kind count component).2.Named (r.intern name kind count component).1 name := by
  rcases r.intern_cases name kind count component with ⟨t, ht, heq⟩ | ⟨hnew, heq⟩
  · rw [heq]
    exact ⟨h.later, find?_eq_some ht⟩
  · rw [heq]
    refine ⟨h.push hW hnew hsuits hmodels fun hstruct => absurd hstruct hkind,
      { name, kind, count, component }, ?_, rfl⟩
    rw [info?_push, if_pos rfl]

/-- **Entering a builtin type.** -/
theorem enterBuiltin_later (h : r.Exact W N) {t : TypeRef}
    (ht : r.enterBuiltin spec = .ok (t, r')) :
    Later W N r r' ∧ ∃ name, spec.builtinName = some name ∧ r'.Named t name := by
  refine enterBuiltin_rule (P := Later W N r) (fun {r₁ spec component name} hr hname hc => ?_)
    h.later ht
  refine hr.trans (intern_later hW hr.exact _ component (suits_builtinKind hname)
    (builtinKind_ne spec).2.2 fun spec' hname' => ?_).1
  obtain rfl := TypeSpec.builtinName_inj hname hname'
  refine ⟨rfl, fun e n he => ⟨?_, hc.made e n he⟩, hc.simple⟩
  cases spec with
  | vector | matrix | array => exact (Prod.mk.inj (Option.some.inj he)).2
  | _ => nomatch he

theorem pointerType_later (h : r.Exact W N) {t p : TypeRef} (hp : pointerType t r = (.ok p, r')) :
    Later W N r r' := by
  obtain ⟨i, -, ⟨-, rfl⟩ | ⟨-, -, rfl⟩⟩ := pointerType_cases hp
  · exact h.later
  · obtain ⟨hintern, -⟩ : Later W N r (r.intern (pointerName i.name) .pointer 0 none).2 ∧ _ :=
      intern_later hW h 0 none ⟨i.name, rfl⟩ nofun fun spec hspec =>
        absurd (.inl ⟨spec, hspec⟩) (not_valueName_pointerName i.name)
    exact hintern.trans (hintern.exact.relinks (alters_link _ t p))

theorem functionType_later (h : r.Exact W N) {result t : TypeRef} {parameters : List TypeRef}
    (ht : functionType result parameters r = (.ok t, r')) : Later W N r r' := by
  obtain ⟨resultName, names, ⟨-, rfl⟩ | ⟨hnew, -, -, rfl⟩⟩ := functionType_cases ht
  · exact h.later
  · exact h.push hW hnew ⟨resultName, names, rfl⟩ (fun spec hspec =>
      absurd (.inl ⟨spec, hspec⟩) (not_valueName_signatureName resultName names)) nofun

omit hW in
theorem addFunction_later (h : r.Exact W N) {owner : TypeRef} {f : FunctionRef} {u : Unit}
    (hadd : addFunction owner f r = (.ok u, r')) : Later W N r r' :=
  h.relinks (alters_addFunction hadd)

/-- **The struct of a class** is entered without members. -/
theorem internStruct_later (h : r.Exact W N) {c : ClassDecl} (hc : c ∈ W) (hN : c.name ∈ N) :
    Later W N r (r.internStruct c.name).2 ∧
      (r.internStruct c.name).2.Named (r.internStruct c.name).1 c.name := by
  rcases r.intern_cases c.name .struct 0 none with ⟨t, ht, heq⟩ | ⟨hnew, heq⟩
  · rw [internStruct, heq]
    exact ⟨h.later, find?_eq_some ht⟩
  · rw [internStruct, heq]
    refine ⟨h.push hW hnew (hW.className c hc)
      (fun spec hspec => absurd ⟨spec, hspec⟩ (hW.className c hc).builtin)
      fun _ => ⟨rfl, hN, c, hc, rfl⟩,
      { name := c.name, kind := .struct, count := 0, component := none }, ?_, rfl⟩
    rw [info?_push, if_pos rfl]

omit hW in
/-- **A field becomes a member** of a struct that may lack some. -/
theorem addMember_exact (h : r.Exact W N) {owner member : TypeRef} {i : TypeInfo} {n : Nat}
    (hi : r.info? owner = some i) (hN : i.name ∈ N) {v : VariableDecl} (hvs : r.Portrays W i vs)
    (hmember : r.Named member name) (hcalled : v.ty.Called W name)
    (hadd : addMember owner member v.name r = (.ok n, r')) :
    r'.Exact W N ∧ Keeps {i.name} r r' ∧ n = vs.length ∧
      ∃ i', r'.info? owner = some i' ∧ i'.name = i.name ∧ r'.Portrays W i' (vs ++ [v]) := by
  obtain ⟨j, _, hj, -, -, -, rfl, rfl⟩ := addMember_cases hadd
  cases hi.symm.trans hj
  have ha := alters_extend hi member v.name
  have hkeeps := ha.keeps
  refine ⟨h.alters (Set.singleton_subset_iff.mpr hN) ha, hkeeps, hvs.types.length_eq, _,
    info?_modify_self hi _, rfl, ?_, ?_⟩
  · rw [List.map_append, hvs.names]
    rfl
  · exact List.rel_append
      (hvs.types.imp fun p v ⟨name, hn, hcalled⟩ => ⟨name, hkeeps.named hn, hcalled⟩)
      (.cons ⟨name, hkeeps.named hmember, hcalled⟩ .nil)

end Operations

/-! ### Copies of types -/

/-- **Finishing a struct.** Once it portrays all fields of its class, its name needs no exception. -/
theorem Exact.close (hW : ClassesApart W) {c : ClassDecl} (hc : c ∈ W)
    (h : r.Exact W (insert c.name N)) {owner : TypeRef} (hi : r.info? owner = some i)
    (hname : i.name = c.name) (hwhole : r.Portrays W i c.fields) : r.Exact W N := by
  refine ⟨h.unique, h.suits, h.builtin, h.struct, h.component, fun t j c' hc' hj hname' hN => ?_⟩
  by_cases heq : c'.name = c.name
  · obtain rfl := hW.eq_of_name c' hc' c hc heq
    obtain rfl := h.unique t owner j i hj hi (hname'.trans hname.symm)
    cases hi.symm.trans hj
    exact hwhole
  · exact h.whole t j c' hc' hj hname' fun hmem => hN ((Set.mem_insert_iff.mp hmem).resolve_left heq)

/-- Which builtin types are made of others is seen from their kinds. -/
theorem repeats_builtinKind :
    Repeats (builtinKind spec) ↔ ∃ e n, spec.component? = some (e, n) := by
  cases spec with
  | scalar k => cases k <;> simp [Repeats, builtinKind, kindOf, TypeSpec.component?]
  | _ => simp [Repeats, builtinKind, TypeSpec.component?]

/-- **What a finished type holds.** A builtin type holds another one, and a struct holds types of
fields. -/
theorem Exact.holds_cases (h : r.Exact W ∅) (hu : r.Holds t u) :
    (∃ (spec e : TypeSpec) (name ename : String) (n : Nat), r.Named t name ∧ spec.builtinName = some name ∧
      spec.component? = some (e, n) ∧ e.builtinName = some ename ∧ r.Named u ename) ∨
    ∃ c ∈ W, r.Named t c.name ∧ ∃ v ∈ c.fields, ∃ name, r.Named u name ∧ v.ty.Called W name := by
  cases hu with
  | @component i hi hkind hc =>
    left
    obtain ⟨spec, hspec⟩ : BuiltinName i.name := by
      have hsuits := h.suits t i hi
      rcases hkind with hkind | hkind | hkind <;> rw [hkind] at hsuits <;> exact hsuits
    have hmodels := h.builtin t i spec hi hspec
    obtain ⟨e, n, he⟩ := repeats_builtinKind.mp (hmodels.kind ▸ hkind)
    obtain ⟨-, c, ename, hc', hename, hnamed⟩ := hmodels.component e n he
    cases hc.symm.trans hc'
    exact ⟨spec, e, i.name, ename, n, ⟨i, hi, rfl⟩, hspec, he, hename, hnamed⟩
  | @member i hi hkind hp =>
    right
    obtain ⟨c, hc, hname⟩ := h.struct t i hi hkind
    have hwhole := h.whole t i c hc hi hname.symm (Set.notMem_empty _)
    obtain ⟨v, hv, name, hnamed, hcalled⟩ := forall₂_exists_of_mem hwhole.types hp
    exact ⟨c, hc, ⟨i, hi, hname.symm⟩, v, hv, name, hnamed, hcalled⟩

/-- What is held has values. -/
theorem Exact.exists_valueName (hW : ClassesApart W) (h : r.Exact W ∅) (hu : r.Holds t u) :
    ∃ name, r.Named u name ∧ ValueName name := by
  rcases h.holds_cases hu with ⟨_, e, _, ename, _, _, _, _, hename, hnamed⟩ |
    ⟨_, _, _, v, _, name, hnamed, hcalled⟩
  · exact ⟨ename, hnamed, .inl ⟨e, hename⟩⟩
  · exact ⟨name, hnamed, hcalled.valueName hW⟩

/-- Only types with values are met on the way. -/
theorem Exact.holds_of_refers (h : r.Exact W ∅) (hnamed : r.Named t name) (hvalue : ValueName name)
    (hu : r.Refers t u) : r.Holds t u := by
  obtain ⟨i, hi, rfl⟩ := hnamed
  obtain ⟨hpointer, hfunction⟩ := (h.suits t i hi).ne_of_valueName hvalue
  cases hu with
  | component hi' hc =>
    cases hi.symm.trans hi'
    obtain ⟨spec, hspec⟩ : BuiltinName i.name := hvalue.resolve_right fun hclass => by
      cases hc.symm.trans (h.component t i hi (eq_struct_of_suits (h.suits t i hi) hclass))
    have hmodels := h.builtin t i spec hi hspec
    refine .component hi ?_ hc
    show Repeats i.kind
    rw [hmodels.kind, repeats_builtinKind]
    cases he : spec.component? with
    | none => cases hc.symm.trans (hmodels.simple he)
    | some p => exact ⟨p.1, p.2, rfl⟩
  | pointee hi' hkind =>
    cases hi.symm.trans hi'
    exact absurd hkind hpointer
  | part hi' hkind hp =>
    cases hi.symm.trans hi'
    exact .member hi (hkind.resolve_right hfunction) hp

section Copies

variable (hW : ClassesApart W) (hs : source.Exact W ∅) {name : String} (hnamed : source.Named t name)
  (hvalue : ValueName name)
include hW hs hnamed hvalue

theorem Exact.values {s : TypeRef} (h : ReflTransGen source.Refers t s) :
    ∃ name, source.Named s name ∧ ValueName name := by
  induction h with
  | refl => exact ⟨name, hnamed, hvalue⟩
  | tail _ hu ih =>
    obtain ⟨name, hnamed, hvalue⟩ := ih
    exact hs.exists_valueName hW (hs.holds_of_refers hnamed hvalue hu)

theorem Exact.plain : source.Plain t := by
  intro s i h hi
  obtain ⟨name, ⟨j, hj, rfl⟩, hvalue⟩ := hs.values hW hnamed hvalue h
  cases hi.symm.trans hj
  obtain ⟨hpointer, hfunction⟩ := (hs.suits s i hi).ne_of_valueName hvalue
  exact ⟨hpointer, hfunction, hs.component s i hi⟩

omit hW hs hnamed hvalue in
/-- A copy of a builtin type is made like it. -/
theorem Models.copied {j i : TypeInfo} (h : source.Models j spec)
    (hmirrors : Mirrors source r (blueprint j) i) : r.Models i spec := by
  have hbuiltin := builtinKind_ne spec
  rw [← h.kind] at hbuiltin
  rw [blueprint_plain hbuiltin.1 hbuiltin.2.1 hbuiltin.2.2] at hmirrors
  have hcomponent := hmirrors.component
  refine ⟨hmirrors.kind.trans h.kind, fun e n he => ?_, fun hnone => ?_⟩
  · obtain ⟨hcount, c, name, hc, hname, hnamed⟩ := h.component e n he
    obtain ⟨c', hc', name', hn, hn'⟩ := exists_of_rel_some (hc ▸ hcomponent)
    exact ⟨hmirrors.count.trans hcount, c', name, hc', hname, hnamed.unique hn ▸ hn'⟩
  · exact eq_none_of_rel (h.simple hnone ▸ hcomponent)

omit hW hs hnamed hvalue in
/-- A copy of a struct portrays what the struct does. -/
theorem Portrays.copied {j i : TypeInfo} (h : source.Portrays W j vs) (hkind : j.kind = .struct)
    (hmirrors : Mirrors source r (blueprint j) i) : r.Portrays W i vs := by
  rw [blueprint_struct hkind] at hmirrors
  have hlength : j.memberNames.length = j.parts.length := by
    rw [h.names, List.length_map, h.types.length_eq]
  have hnames := hmirrors.memberNames
  have hparts := hmirrors.parts
  simp only [structOf, List.map_snd_zip (Nat.le_of_eq hlength), List.map_fst_zip (Nat.le_of_eq hlength.symm)]
    at hnames hparts
  refine ⟨hnames.trans h.names, (forall₂_comp hparts.flip h.types).imp ?_⟩
  rintro _ _ ⟨_, ⟨_, hp, hu⟩, name, hn, hcalled⟩
  exact ⟨name, hp.unique hn ▸ hu, hcalled⟩

/-- **Copying a type** keeps a registry exact. -/
theorem importType_later (hr : r.Exact W N) (h : importType source t r = (.ok u, r')) :
    Later W N r r' ∧ NoNewFunction r r' ∧ r'.Named u name := by
  have hplain := hs.plain hW hnamed hvalue
  obtain ⟨hcopied, name', ht', hu⟩ := hplain.importType_copied hs.unique hr.unique h
  have hkeeps := hcopied.stays.keeps ∅
  refine ⟨⟨⟨apart_of_steps hcopied.steps hr.unique, fun v i hi => ?_, fun v i spec hi hspec => ?_,
    fun v i hi hkind => ?_, fun v i hi hkind => ?_, fun v i c hc hi hname hN => ?_⟩, hkeeps⟩,
    fun v i hi hkind => ?_, hnamed.unique ht' ▸ hu⟩ <;>
    rcases hcopied.cases hi with ⟨i, _, hi₀, rfl⟩ | ⟨s, j, hreach, hj, hmirrors⟩
  · exact hr.suits v i hi₀
  · rw [hmirrors.same.2, hmirrors.same.1]
    exact hs.suits s j hj
  · exact (hr.builtin v i spec hi₀ hspec).keeps hkeeps ⟨rfl, rfl, rfl, rfl, fun _ => rfl, fun _ => rfl⟩
  · rw [hmirrors.same.1] at hspec
    exact (hs.builtin s j spec hj hspec).copied hmirrors
  · exact hr.struct v i hi₀ hkind
  · rw [hmirrors.same.1]
    exact hs.struct s j hj (hmirrors.same.2.symm.trans hkind)
  · exact hr.component v i hi₀ hkind
  · have hcomponent := hmirrors.component
    rw [blueprint_struct (hmirrors.same.2.symm.trans hkind)] at hcomponent
    exact eq_none_of_rel hcomponent
  · exact (hr.whole v i c hc hi₀ hname hN).keeps hkeeps ⟨rfl, rfl, rfl, rfl, fun _ => rfl, fun _ => rfl⟩
      (Set.notMem_empty _)
  · rw [hmirrors.same.1] at hname
    exact (hs.whole s j c hc hj hname (Set.notMem_empty _)).copied
      (eq_struct_of_suits (hs.suits s j hj) (hname ▸ hW.className c hc)) hmirrors
  · exact ⟨i, hi₀, hkind⟩
  · exact absurd (hmirrors.same.2.symm.trans hkind)
      (hplain s j hreach hj).2.1

/-- **A type can be copied** if what it holds comes to an end. -/
theorem Exact.importType_succeeds (hnodup : ∀ c ∈ W, (c.fields.map VariableDecl.name).Nodup)
    (hacyclic : ∀ u, ¬ TransGen source.Holds u u) (hr : r.Exact W N) :
    Succeeds (importType source t) r fun _ _ => True := by
  have hplain := hs.plain hW hnamed hvalue
  refine Registry.importType_succeeds hs.unique (fun _ _ => hplain.proper) (fun s hreach => ?_)
    (fun s i hreach hi hkind => ?_) (fun s hreach => ?_) (hplain.receives hr.unique)
  · obtain ⟨_, hs, -⟩ := hs.values hW hnamed hvalue hreach
    exact hs.index_lt
  · obtain ⟨c, hc, hname⟩ := hs.struct s i hi hkind
    have hwhole := hs.whole s i c hc hi hname.symm (Set.notMem_empty _)
    rw [List.map_snd_zip (by rw [hwhole.names, List.length_map, hwhole.types.length_eq]), hwhole.names]
    exact hnodup c hc
  · have hdepth : Shallow source.Holds (source.size + 1) s :=
      shallow_of_forall Holds.index_lt (fun u _ => hacyclic u) (Nat.le_refl _)
    generalize source.size + 1 = depth at hdepth ⊢
    induction depth generalizing s with
    | zero => exact hdepth
    | succ depth ih =>
      intro u hu
      obtain ⟨_, hname, hvalue⟩ := hs.values hW hnamed hvalue hreach
      exact ih u (hreach.tail hu.1) (hdepth u (hs.holds_of_refers hname hvalue hu.1))

end Copies

end Registry

end Shader
