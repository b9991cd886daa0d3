import Shader.Proofs.Types.Copied
import Mathlib.Data.Set.Insert

/-!
# Types in layers

A value of a type is composed of values of the types that it holds, so no type may hold itself.
Entering a type cannot bring about such a circle, with one exception: a struct is entered before its
members are known. `Solid N r t` says that the type `t` is finished in this sense. What it holds,
directly or not, comes to an end, and none of it bears one of the names `N` of structs to which
members may still be added.

* `importType_builds` — a type of another registry can be copied, if nothing in it has a name in `N`.
  While the members of a struct are copied, the name of the struct is added to `N`.
-/

namespace Shader

namespace Registry

open Outcome Relation

/-! ### Names of types with values -/

/-- The name of a builtin type. -/
def BuiltinName (name : String) : Prop := ∃ spec : TypeSpec, spec.builtinName = some name

/-- **A name for a class.** No other type is called so. -/
structure ClassName (name : String) : Prop where
  builtin : ¬ BuiltinName name
  pointer : ∀ pointee, name ≠ pointerName pointee
  signature : ∀ result parameters, name ≠ signatureName result parameters

/-- The name of a type that has values. -/
def ValueName (name : String) : Prop := BuiltinName name ∨ ClassName name

variable {name : String} {f : TypeInfo → TypeInfo} {t u : TypeRef}

/-- The first letter of a builtin name. -/
theorem BuiltinName.head (h : BuiltinName name) :
    ∃ c ∈ ['V', 'B', 'I', 'R', 'F'], name.toList.head? = some c := by
  obtain ⟨spec, hspec⟩ := h
  rcases TypeSpec.head_of_builtinName hspec with ⟨-, rfl⟩ | ⟨c, hc, hhead⟩
  · exact ⟨'V', by decide, by decide⟩
  · exact ⟨c, List.mem_cons_of_mem _ hc, hhead⟩

theorem not_builtinName_of_head {c : Char} (h : name.toList.head? = some c)
    (hc : c ∉ ['V', 'B', 'I', 'R', 'F']) : ¬ BuiltinName name := by
  intro hname
  obtain ⟨c', hc', hhead⟩ := hname.head
  obtain rfl : c = c' := Option.some.inj (h.symm.trans hhead)
  exact hc hc'

theorem not_valueName_pointerName (pointee : String) : ¬ ValueName (pointerName pointee) := by
  rintro (h | h)
  · refine not_builtinName_of_head (c := 'p') ?_ (by decide) h
    rw [toList_pointerName]
    rfl
  · exact h.pointer pointee rfl

theorem not_valueName_signatureName (result : String) (parameters : List String) :
    ¬ ValueName (signatureName result parameters) := by
  rintro (h | h)
  · refine not_builtinName_of_head (c := '(') ?_ (by decide) h
    rw [toList_signatureName]
    rfl
  · exact h.signature result parameters rfl

/-- It is enough to look at the first letter. -/
theorem className_of_head {c : Char} (h : name.toList.head? = some c)
    (hc : c ∉ ['V', 'B', 'I', 'R', 'F', 'p', '(']) : ClassName name := by
  simp only [List.mem_cons, List.not_mem_nil, or_false, not_or] at hc
  refine ⟨not_builtinName_of_head h (by simp [hc]), ?_, ?_⟩
  · rintro pointee rfl
    rw [toList_pointerName] at h
    exact hc.2.2.2.2.2.1 (Option.some.inj h).symm
  · rintro result parameters rfl
    rw [toList_signatureName] at h
    exact hc.2.2.2.2.2.2 (Option.some.inj h).symm

/-- The names that types of a kind have. -/
def Suits : Kind → String → Prop
  | .struct, name => ClassName name
  | .pointer, name => ∃ pointee, name = pointerName pointee
  | .function, name => ∃ result parameters, name = signatureName result parameters
  | _, name => BuiltinName name

theorem suits_builtinKind {spec : TypeSpec} (h : spec.builtinName = some name) :
    Suits (builtinKind spec) name := by
  have hbuiltin : BuiltinName name := ⟨spec, h⟩
  cases spec with
  | scalar k => cases k <;> exact hbuiltin
  | _ => exact hbuiltin

/-- Pointers and functions are not named like types with values. -/
theorem Suits.ne_of_valueName {kind : Kind} (h : Suits kind name) (hname : ValueName name) :
    kind ≠ .pointer ∧ kind ≠ .function := by
  constructor <;> rintro rfl
  · obtain ⟨pointee, rfl⟩ := h
    exact not_valueName_pointerName pointee hname
  · obtain ⟨result, parameters, rfl⟩ := h
    exact not_valueName_signatureName result parameters hname

/-- Types of this kind are made of components. -/
def Repeats (kind : Kind) : Prop := kind = .vector ∨ kind = .matrix ∨ kind = .array

/-! ### Orderly registries -/

/-- **An orderly registry.** The name of a type shows what kind of type it is, and the types that are
held by others have values. -/
structure Orderly (r : Registry) : Prop where
  closed : r.Closed
  unique : ∀ t t' i i', r.info? t = some i → r.info? t' = some i' → i.name = i'.name → t = t'
  suits : ∀ t i, r.info? t = some i → Suits i.kind i.name
  component : ∀ t i c, r.info? t = some i → i.component = some c → Repeats i.kind
  held : ∀ t u name, r.Holds t u → r.Named u name → ValueName name

theorem orderly_empty : Orderly {} := by
  refine ⟨closed_empty, fun _ _ _ _ h => (nomatch h), nofun, nofun, fun t u _ h => ?_⟩
  cases h with
  | component hi => nomatch hi
  | member hi => nomatch hi

/-! ### What stays -/

/-- What stays of a type that may get new members only if its name is in `M`. -/
structure Alike (M : Set String) (i i' : TypeInfo) : Prop where
  name : i'.name = i.name
  kind : i'.kind = i.kind
  count : i'.count = i.count
  component : i'.component = i.component
  parts : i.name ∉ M → i'.parts = i.parts
  memberNames : i.name ∉ M → i'.memberNames = i.memberNames

/-- All types are still there, and at most those with names in `M` have got new members. -/
def Keeps (M : Set String) (r r' : Registry) : Prop :=
  ∀ t i, r.info? t = some i → ∃ i', r'.info? t = some i' ∧ Alike M i i'

section Keeps

variable {M M' : Set String} {r r' r'' : Registry}

theorem Alike.refl (M : Set String) (i : TypeInfo) : Alike M i i :=
  ⟨rfl, rfl, rfl, rfl, fun _ => rfl, fun _ => rfl⟩

theorem Keeps.refl (M : Set String) (r : Registry) : Keeps M r r := fun _ i h => ⟨i, h, .refl M i⟩

section

variable (h : Keeps M r r')
include h

theorem Keeps.trans (h' : Keeps M r' r'') : Keeps M r r'' := by
  intro t i hi
  obtain ⟨i', hi', ha⟩ := h t i hi
  obtain ⟨i'', hi'', ha'⟩ := h' t i' hi'
  exact ⟨i'', hi'', ha'.name.trans ha.name, ha'.kind.trans ha.kind, ha'.count.trans ha.count,
    ha'.component.trans ha.component,
    fun hM => (ha'.parts (ha.name ▸ hM)).trans (ha.parts hM),
    fun hM => (ha'.memberNames (ha.name ▸ hM)).trans (ha.memberNames hM)⟩

/-- It is enough to look at names that are there. -/
theorem Keeps.mono (hM : ∀ t name, r.Named t name → name ∈ M → name ∈ M') :
    Keeps M' r r' := by
  intro t i hi
  obtain ⟨i', hi', ha⟩ := h t i hi
  have hback : i.name ∉ M' → i.name ∉ M := fun hne hmem => hne (hM t i.name ⟨i, hi, rfl⟩ hmem)
  exact ⟨i', hi', ha.name, ha.kind, ha.count, ha.component, fun hne => ha.parts (hback hne),
    fun hne => ha.memberNames (hback hne)⟩

theorem Keeps.named (hn : r.Named t name) :
    r'.Named t name := by
  obtain ⟨i, hi, rfl⟩ := hn
  obtain ⟨i', hi', ha⟩ := h t i hi
  exact ⟨i', hi', ha.name⟩

/-- A type that was there had the same name. -/
theorem Keeps.named_back (ht : t.index < r.size) (hn : r'.Named t name) :
    r.Named t name := by
  obtain ⟨name', hn'⟩ := exists_named ht
  exact (h.named hn').unique hn ▸ hn'

/-- A type that gets no new members held what it holds now. -/
theorem Keeps.holds_back (ht : t.index < r.size) (hM : ∀ name, r.Named t name → name ∉ M)
    (hu : r'.Holds t u) : r.Holds t u := by
  obtain ⟨i, hi⟩ := exists_info? ht
  obtain ⟨i', hi', ha⟩ := h t i hi
  cases hu with
  | component hj hkind hc =>
    cases hi'.symm.trans hj
    exact .component hi (ha.kind ▸ hkind) (ha.component ▸ hc)
  | member hj hkind hp =>
    cases hi'.symm.trans hj
    exact .member hi (ha.kind ▸ hkind) (ha.parts (hM _ ⟨i, hi, rfl⟩) ▸ hp)

end

theorem keeps_push (M : Set String) (r : Registry) (i : TypeInfo) : Keeps M r (r.push i) :=
  fun _ j hj => ⟨j, info?_push_of_some hj i, .refl M j⟩

/-- The same types, altered in place. -/
def Alters (M : Set String) (r r' : Registry) : Prop :=
  ∀ t, Option.Rel (Alike M) (r.info? t) (r'.info? t)

theorem Alters.keeps (h : Alters M r r') : Keeps M r r' :=
  fun t _ hi => exists_of_rel_some (hi ▸ h t)

theorem Alters.back (h : Alters M r r') {j : TypeInfo} (hj : r'.info? t = some j) :
    ∃ i, r.info? t = some i ∧ Alike M i j := exists_of_rel_some_right (hj ▸ h t)

theorem alters_of_map {g : TypeRef → TypeInfo → TypeInfo}
    (h : ∀ u, r'.info? u = (r.info? u).map (g u))
    (halike : ∀ u i, r.info? u = some i → Alike M i (g u i)) : Alters M r r' := by
  intro u
  rw [h u]
  cases hi : r.info? u with
  | none => exact .none
  | some i => exact .some (halike u i hi)

theorem alters_link (r : Registry) (t p : TypeRef) : Alters ∅ r (r.link t p) :=
  alters_of_map (r.info?_link t p) fun _ _ _ => ⟨rfl, rfl, rfl, rfl, fun _ => rfl, fun _ => rfl⟩

/-- A struct whose name is in `M` gets a member. -/
theorem alters_extend {owner : TypeRef} {i : TypeInfo} (hi : r.info? owner = some i)
    (member : TypeRef) (name : String) : Alters {i.name} r (r.extend owner member name) := by
  refine alters_of_map (r.info?_extend owner member name) fun u j hj => ?_
  split
  · next hu =>
    obtain rfl := Option.some.inj ((hu ▸ hi).symm.trans hj)
    exact ⟨rfl, rfl, rfl, rfl, fun hne => absurd rfl hne, fun hne => absurd rfl hne⟩
  · exact .refl _ j

theorem alters_addFunction {owner : TypeRef} {f : FunctionRef} {u : Unit}
    (h : addFunction owner f r = (.ok u, r')) : Alters ∅ r r' := by
  rw [addFunction_cases h]
  intro t
  rw [info?_modify]
  cases r.info? t with
  | none => split <;> exact .none
  | some i => split <;> exact .some ⟨rfl, rfl, rfl, rfl, fun _ => rfl, fun _ => rfl⟩

end Keeps

/-! ### Solid types -/

/-- **Solid types.** What the type holds, directly or not, comes to an end, and no name in `N` is
among it. -/
inductive Solid (N : Set String) (r : Registry) : TypeRef → Prop
  | intro {t : TypeRef} (ht : ∀ name, r.Named t name → name ∉ N)
    (h : ∀ u, r.Holds t u → Solid N r u) :
    Solid N r t

/-- All types are solid but those with a name in `N`. -/
def Firm (N : Set String) (r : Registry) : Prop :=
  ∀ t, t.index < r.size → (∀ name, r.Named t name → name ∉ N) → Solid N r t

section Solid

variable {N N' M : Set String} {r r' : Registry} {t : TypeRef}

/-- A solid type does not hold itself. -/
theorem Solid.not_cycle (h : Solid N r t) : ¬ TransGen r.Holds t t := by
  induction h with
  | intro _ _ ih =>
    intro hcycle
    obtain ⟨u, hu, hback⟩ := TransGen.head'_iff.mp hcycle
    exact ih u hu (TransGen.tail' hback hu)

theorem Solid.mono (hN : N' ⊆ N) (h : Solid N r t) : Solid N' r t := by
  induction h with
  | intro ht _ ih => exact .intro (fun name hn hmem => ht name hn (hN hmem)) ih

/-- What is solid stays so while members are added to other types only. -/
theorem Solid.keeps (hk : Keeps M r r') (hc : r.Closed) (hM : M ⊆ N) (h : Solid N r t)
    (ht : t.index < r.size) : Solid N r' t := by
  induction h with
  | intro hN _ ih =>
    refine .intro (fun name hn => hN name (hk.named_back ht hn)) fun u hu => ?_
    have hold := hk.holds_back ht (fun name hn hmem => hN name hn (hM hmem)) hu
    exact ih u hold (hc.index_lt_of_holds hold)

theorem Firm.keeps (h : r.Firm N) (hk : Keeps M r r') (hc : r.Closed) (hM : M ⊆ N)
    (ht : t.index < r.size) (hN : ∀ name, r'.Named t name → name ∉ N) : Solid N r' t :=
  (h t ht fun name hn => hN name (hk.named hn)).keeps hk hc hM ht

end Solid

/-! ### Growing registries -/

/-- **A later state of a registry.** Only structs with names in `M` have got new members, and the
types without a name in `N` are solid. -/
structure Builds (N M : Set String) (r r' : Registry) : Prop where
  orderly : r'.Orderly
  firm : r'.Firm N
  keeps : Keeps M r r'

section Builds

variable {N M : Set String} {r r' r'' : Registry}

theorem Builds.refl (h : r.Orderly) (hf : r.Firm N) : Builds N M r r := ⟨h, hf, .refl M r⟩

theorem Builds.trans (h : Builds N M r r') (h' : Builds N M r' r'') : Builds N M r r'' :=
  ⟨h'.orderly, h'.firm, h.keeps.trans h'.keeps⟩

/-- Fewer structs have got new members. -/
theorem Builds.weaken {L : Set String} (h : Builds N M r r')
    (hM : ∀ t name, r.Named t name → name ∈ M → name ∈ L) : Builds N L r r' :=
  ⟨h.orderly, h.firm, h.keeps.mono hM⟩

/-- What is held after a type without members has been appended. -/
theorem holds_push {i : TypeInfo} (hparts : i.kind = .struct → i.parts = [])
    (h : (r.push i).Holds t u) :
    r.Holds t u ∨ t = ⟨r.size⟩ ∧ i.component = some u := by
  cases h with
  | component hj hkind hc =>
    rcases info?_push_cases hj with ⟨rfl, rfl⟩ | hold
    · exact .inr ⟨rfl, hc⟩
    · exact .inl (.component hold hkind hc)
  | member hj hkind hp =>
    rcases info?_push_cases hj with ⟨rfl, rfl⟩ | hold
    · rw [hparts hkind] at hp
      nomatch hp
    · exact .inl (.member hold hkind hp)

/-- **Appending a type.** Its name is new, and it is made of a type that is solid. -/
theorem push_builds (h : r.Orderly) (hf : r.Firm N) {i : TypeInfo} (hnew : r.find? i.name = none)
    (hsuits : Suits i.kind i.name) (hparts : i.kind = .struct → i.parts = [])
    (hmentions : ∀ u ∈ mentions i, u.index < r.size)
    (hcomponent : ∀ c, i.component = some c → Repeats i.kind ∧
      ∃ name, r.Named c name ∧ ValueName name ∧ name ∉ N) : Builds N M r (r.push i) := by
  have hkeeps : Keeps ∅ r (r.push i) := keeps_push ∅ r i
  refine ⟨⟨(h.closed.push hmentions).closed, NamesApart.push h.unique hnew, ?_, ?_, ?_⟩, ?_,
    keeps_push M r i⟩
  · intro t j hj
    rcases info?_push_cases hj with ⟨rfl, rfl⟩ | hold
    · exact hsuits
    · exact h.suits t j hold
  · intro t j c hj hc
    rcases info?_push_cases hj with ⟨rfl, rfl⟩ | hold
    · exact (hcomponent c hc).1
    · exact h.component t j c hold hc
  · intro t u name hu hn
    rcases holds_push hparts hu with hold | ⟨rfl, hc⟩
    · exact h.held t u name hold (hkeeps.named_back (h.closed.index_lt_of_holds hold) hn)
    · obtain ⟨-, name', hn', hvalue, -⟩ := hcomponent u hc
      exact (hkeeps.named hn').unique hn ▸ hvalue
  · intro t ht hN
    rw [size_push] at ht
    rcases Nat.lt_succ_iff_lt_or_eq.mp ht with hlt | heq
    · exact hf.keeps hkeeps h.closed (Set.empty_subset N) hlt hN
    · -- the new type holds at most its component
      refine .intro hN fun u hu => ?_
      rcases holds_push hparts hu with hold | ⟨-, hc⟩
      · have hlt : t.index < r.size := by
          cases hold with
          | component hi => exact index_lt_of_info? hi
          | member hi => exact index_lt_of_info? hi
        omega
      · obtain ⟨-, name, hn, -, hmem⟩ := hcomponent u hc
        refine hf.keeps hkeeps h.closed (Set.empty_subset N) hn.index_lt fun name' hn' => ?_
        rw [← (hkeeps.named hn).unique hn']
        exact hmem

section

variable (h : r.Orderly) (hf : r.Firm N)
include h hf

/-- **Altering types.** They stay the same types, and what they hold besides has values. -/
theorem alters_builds (ha : Alters M r r') (hM : M ⊆ N) (hsize : r'.size = r.size)
    (hclosed : r'.Closed)
    (hparts : ∀ t i j, r.info? t = some i → r'.info? t = some j → i.kind = .struct → ∀ u ∈ j.parts,
      u ∈ i.parts ∨ ∃ name, r.Named u name ∧ ValueName name) : Builds N M r r' := by
  have hkeeps := ha.keeps
  refine ⟨⟨hclosed, ?_, ?_, ?_, ?_⟩, fun t' ht' hN => ?_, hkeeps⟩
  · intro t₁ t₂ j₁ j₂ h₁ h₂ hname
    obtain ⟨i₁, hi₁, ha₁⟩ := ha.back h₁
    obtain ⟨i₂, hi₂, ha₂⟩ := ha.back h₂
    exact h.unique t₁ t₂ i₁ i₂ hi₁ hi₂ (ha₁.name ▸ ha₂.name ▸ hname)
  · intro t' j hj
    obtain ⟨i, hi, ha⟩ := ha.back hj
    rw [ha.kind, ha.name]
    exact h.suits t' i hi
  · intro t' j c hj hc
    obtain ⟨i, hi, ha⟩ := ha.back hj
    rw [ha.kind]
    exact h.component t' i c hi (ha.component ▸ hc)
  · intro t' u name hu hn
    have hold : r.Holds t' u → ValueName name := fun hold =>
      h.held t' u name hold (hkeeps.named_back (h.closed.index_lt_of_holds hold) hn)
    cases hu with
    | component hj hkind hc =>
      obtain ⟨i, hi, ha⟩ := ha.back hj
      exact hold (.component hi (ha.kind ▸ hkind) (ha.component ▸ hc))
    | member hj hkind hp =>
      obtain ⟨i, hi, ha⟩ := ha.back hj
      rcases hparts t' i _ hi hj (ha.kind ▸ hkind) u hp with hp | ⟨name', hn', hvalue⟩
      · exact hold (.member hi (ha.kind ▸ hkind) hp)
      · exact (hkeeps.named hn').unique hn ▸ hvalue
  · exact hf.keeps hkeeps h.closed hM (hsize ▸ ht') hN

/-- Altering what has nothing to do with what types hold. -/
theorem relinks_builds (ha : Alters ∅ r r') (hsize : r'.size = r.size) (hclosed : r'.Closed) :
    Builds N M r r' := by
  refine (alters_builds h hf ha (Set.empty_subset N) hsize hclosed fun t i j hi hj _ u hu =>
    .inl ?_).weaken fun _ _ _ => False.elim
  obtain ⟨i', hi', ha⟩ := ha.back hj
  cases hi.symm.trans hi'
  exact ha.parts (Set.notMem_empty _) ▸ hu

/-! ### The operations -/

theorem intern_builds {k : Kind} (count : Nat) (component : Option TypeRef) (hsuits : Suits k name)
    (hcomponent : ∀ c, component = some c → Repeats k ∧ ∃ n, r.Named c n ∧ ValueName n ∧ n ∉ N) :
    Builds N M r (r.intern name k count component).2 ∧
      (r.intern name k count component).2.Named (r.intern name k count component).1 name := by
  obtain ⟨t, ht, heq⟩ | ⟨hnew, heq⟩ := r.intern_cases name k count component
  · rw [heq]
    exact ⟨.refl h hf, find?_eq_some ht⟩
  · rw [heq]
    refine ⟨push_builds h hf hnew hsuits (fun _ => rfl) (fun u hu => ?_) hcomponent,
      { name, kind := k, count, component }, ?_, rfl⟩
    · have hu : component = some u := by simpa [mentions] using hu
      obtain ⟨-, n, hn, -⟩ := hcomponent u hu
      exact hn.index_lt
    · rw [info?_push, if_pos rfl]

/-- **Entering a builtin type.** -/
theorem enterBuiltin_builds (hN : ∀ name ∈ N, ClassName name) {spec : TypeSpec}
    (ht : r.enterBuiltin spec = .ok (t, r')) :
    Builds N M r r' ∧ ∃ name, spec.builtinName = some name ∧ r'.Named t name := by
  refine enterBuiltin_rule (P := Builds N M r) (fun {r₁ spec component name} hr hname hc => ?_)
    (.refl h hf) ht
  refine hr.trans (intern_builds hr.orderly hr.firm _ component ?_ fun c hmem => ?_).1
  · exact suits_builtinKind hname
  · obtain ⟨e, n, ename, hspec, hename, hnamed⟩ := hc.of_some hmem
    refine ⟨?_, ename, hnamed, .inl ⟨e, hename⟩, fun hmem => (hN ename hmem).builtin ⟨e, hename⟩⟩
    cases spec with
    | vector => exact .inl rfl
    | matrix => exact .inr (.inl rfl)
    | array => exact .inr (.inr rfl)
    | _ => nomatch hspec

theorem addFunction_builds {owner : TypeRef} {f : FunctionRef} {u : Unit}
    (hadd : addFunction owner f r = (.ok u, r')) : Builds N M r r' := by
  have hsize : r'.size = r.size := by rw [addFunction_cases hadd, size_modify]
  exact relinks_builds h hf (alters_addFunction hadd) hsize (addFunction_reaches hadd h.closed).closed

theorem pointerType_builds {t p : TypeRef} (hp : pointerType t r = (.ok p, r')) :
    Builds N M r r' := by
  obtain ⟨i, hi, ⟨-, rfl⟩ | ⟨-, hq, hr'⟩⟩ := pointerType_cases hp
  · exact .refl h hf
  · obtain ⟨hintern, hnamed⟩ := intern_builds (M := M) (k := .pointer) h hf 0 none ⟨i.name, rfl⟩ nofun
    generalize r.intern (pointerName i.name) .pointer 0 none = interned at *
    obtain ⟨q, r₁⟩ := interned
    obtain rfl : p = q := hq
    obtain rfl : r' = _ := hr'
    have ht : t.index < r₁.size := (hintern.keeps.named ⟨i, hi, rfl⟩).index_lt
    exact hintern.trans (relinks_builds hintern.orderly hintern.firm (alters_link _ t p) (size_link ..)
      (hintern.orderly.closed.link ht hnamed.index_lt).closed)

theorem functionType_builds {result t : TypeRef} {parameters : List TypeRef}
    (ht : functionType result parameters r = (.ok t, r')) :
    Builds N M r r' := by
  obtain ⟨resultName, names, ⟨-, rfl⟩ | ⟨hnew, hparts, rfl, rfl⟩⟩ := functionType_cases ht
  · exact .refl h hf
  · refine push_builds h hf hnew ⟨resultName, names, rfl⟩ nofun (fun u hu => hparts u ?_) nofun
    simpa [mentions] using hu

/-- **Adding a member** to a struct that is not finished. -/
theorem addMember_builds {owner member : TypeRef} {n : Nat} {ownerName memberName : String}
    (howner : r.Named owner ownerName) (hmem : ownerName ∈ N) (hmember : r.Named member memberName)
    (hvalue : ValueName memberName) (hadd : addMember owner member name r = (.ok n, r')) :
    Builds N {ownerName} r r' := by
  have hclosed := (addMember_reaches hadd h.closed).closed
  obtain ⟨_, _, -, -, -, -, -, rfl⟩ := addMember_cases hadd
  obtain ⟨i, hi, rfl⟩ := howner
  refine alters_builds h hf (alters_extend hi member name) (Set.singleton_subset_iff.mpr hmem)
    (size_modify ..) hclosed fun t j k hj hk _ u hu => ?_
  rw [info?_extend, hj] at hk
  cases hk
  split at hu
  · rcases List.mem_append.mp hu with hu | hu
    · exact .inl hu
    · obtain rfl := List.mem_singleton.mp hu
      exact .inr ⟨memberName, hmember, hvalue⟩
  · exact .inl hu

end

end Builds

/-! ### Copies of types -/

section Import

variable {source : Registry} {N M : Set String} {r r' : Registry} {t u owner : TypeRef}

/-- What is held after a member has been added. -/
theorem holds_addMember {member u : TypeRef} {n : Nat}
    (hadd : addMember owner member name r = (.ok n, r')) (h : r'.Holds t u) :
    r.Holds t u ∨ t = owner ∧ u = member := by
  obtain ⟨_, _, -, -, -, -, -, rfl⟩ := addMember_cases hadd
  cases h with
  | component hj hkind hc =>
    rw [info?_extend] at hj
    obtain ⟨i, hi, rfl⟩ := Option.map_eq_some_iff.mp hj
    simp only [apply_ite TypeInfo.kind, apply_ite TypeInfo.component, ite_self] at hkind hc
    exact .inl (.component hi hkind hc)
  | member hj hkind hp =>
    rw [info?_extend] at hj
    obtain ⟨i, hi, rfl⟩ := Option.map_eq_some_iff.mp hj
    simp only [apply_ite TypeInfo.kind, ite_self] at hkind
    split at hp
    · next heq =>
      rcases List.mem_append.mp hp with hp | hp
      · exact .inl (.member hi hkind hp)
      · exact .inr ⟨heq, List.mem_singleton.mp hp⟩
    · exact .inl (.member hi hkind hp)

/-- A type with values such that nothing in it has a name in `N`. -/
structure Importable (source : Registry) (N : Set String) (t : TypeRef) : Prop where
  value : ∀ name, source.Named t name → ValueName name
  apart : ∀ u name, ReflTransGen source.Holds t u → source.Named u name → name ∉ N

theorem Importable.held (h : source.Importable N t) (hs : source.Orderly) (hu : source.Holds t u) :
    source.Importable N u where
  value name := hs.held t u name hu
  apart v name hv := h.apart v name (.head hu hv)

/-- Only types with values are met on the way. -/
theorem Importable.refers (h : source.Importable N t) (hs : source.Orderly)
    (hu : source.Refers t u) :
    source.Holds t u := by
  cases hu with
  | component hi hc => exact .component hi (hs.component t _ _ hi hc) hc
  | pointee hi hkind =>
    exact absurd hkind ((hs.suits t _ hi).ne_of_valueName (h.value _ ⟨_, hi, rfl⟩)).1
  | part hi hkind hp =>
    rcases hkind with hkind | hkind
    · exact .member hi hkind hp
    · exact absurd hkind ((hs.suits t _ hi).ne_of_valueName (h.value _ ⟨_, hi, rfl⟩)).2

theorem Importable.reached (h : source.Importable N t) (hs : source.Orderly)
    (hu : ReflTransGen source.Refers t u) : source.Importable N u := by
  induction hu with
  | refl => exact h
  | tail _ hu ih => exact ih.held hs (ih.refers hs hu)

/-- **What a copy holds** are copies of what the type holds. -/
theorem Mirrors.holds {j i : TypeInfo} {s v w : TypeRef} (h : Mirrors source r (blueprint j) i)
    (hj : source.info? s = some j) (hi : r.info? v = some i) (hw : r.Holds v w) :
    ∃ w₀, source.Holds s w₀ ∧ source.Refers s w₀ ∧ Namesakes source r w₀ w := by
  have hkind : i.kind = j.kind := h.same.2
  cases hw with
  | component hi' hrepeats hc =>
    cases hi.symm.trans hi'
    rw [hkind] at hrepeats
    have hplain : j.kind ≠ .pointer ∧ j.kind ≠ .function ∧ j.kind ≠ .struct := by
      rcases hrepeats with h | h | h <;> simp [h]
    have hrel := h.component
    rw [blueprint_plain hplain.1 hplain.2.1 hplain.2.2, hc] at hrel
    obtain ⟨w₀, hc₀, hnames⟩ := exists_of_rel_some_right hrel
    exact ⟨w₀, .component hj hrepeats hc₀, .component hj hc₀, hnames⟩
  | member hi' hstruct hp =>
    cases hi.symm.trans hi'
    rw [hkind] at hstruct
    obtain ⟨w₀, hw₀, hnames⟩ := forall₂_exists_of_mem (blueprint_struct hstruct ▸ h.parts).flip hp
    obtain ⟨m, hm, rfl⟩ := List.mem_map.mp hw₀
    have hpart := (List.of_mem_zip hm).1
    exact ⟨m.1, .member hj hstruct hpart, .part hj (.inl hstruct) hpart, hnames⟩

theorem Stays.keeps (h : Stays r r') (M : Set String) : Keeps M r r' := by
  intro t i hi
  obtain ⟨pointer, hi'⟩ := h t i hi
  exact ⟨_, hi', rfl, rfl, rfl, rfl, fun _ => rfl, fun _ => rfl⟩

/-- **Copying a type.** Nothing in it may have the name of a struct that is not finished. -/
theorem importType_builds (hs : source.Orderly) (hacyclic : ∀ u, ¬ TransGen source.Holds u u)
    (ht : source.Importable N t) (ho : r.Orderly) (hf : r.Firm N)
    (h : importType source t r = (.ok u, r')) :
    Builds N ∅ r r' ∧ ∃ name, r'.Named u name ∧ ValueName name ∧ name ∉ N := by
  have hplain : source.Plain t := by
    intro s i hreach hi
    obtain ⟨hpointer, hfunction⟩ :=
      (hs.suits s i hi).ne_of_valueName ((ht.reached hs hreach).value _ ⟨i, hi, rfl⟩)
    refine ⟨hpointer, hfunction, fun hkind => Option.eq_none_iff_forall_ne_some.mpr fun c hc => ?_⟩
    have hrepeats := hs.component s i c hi hc
    rw [hkind] at hrepeats
    simp [Repeats] at hrepeats
  obtain ⟨hcopied, name, htname, huname⟩ := hplain.importType_copied hs.unique ho.unique h
  have hclosed := (importType_enters source t r u r' h ho.closed).1.closed
  have hkeeps := hcopied.stays.keeps ∅
  -- A type is solid because what it is a copy of holds less and less.
  have hsolid : ∀ depth s v, Shallow source.Holds depth s → ReflTransGen source.Refers t s →
      Namesakes source r' s v → Solid N r' v := by
    intro depth
    induction depth with
    | zero => exact fun _ _ hdepth => hdepth.elim
    | succ depth ih =>
      rintro s v hdepth hreach ⟨name, ⟨j, hj, rfl⟩, i, hi, hname⟩
      have hN : ∀ name, r'.Named v name → name ∉ N := fun name hv =>
        (ht.reached hs hreach).apart s name .refl ⟨j, hj, hname.symm.trans (Named.unique ⟨i, hi, rfl⟩ hv)⟩
      by_cases hold : v.index < r.size
      · exact hf.keeps hkeeps ho.closed (Set.empty_subset N) hold hN
      · refine .intro hN fun w hw => ?_
        obtain ⟨w₀, hw₀, hrefers, hnames⟩ :=
          (hcopied.mirrors hs.unique hj hi (Nat.le_of_not_lt hold) hname).holds hj hi hw
        exact ih w₀ w (hdepth w₀ hw₀) (hreach.tail hrefers) hnames
  refine ⟨⟨⟨hclosed, apart_of_steps hcopied.steps ho.unique, fun v i hi => ?_, fun v i c hi hc => ?_,
    fun v w name hw hn => ?_⟩, fun v hv hN => ?_, hkeeps⟩, name, huname, ht.value name htname,
    ht.apart t name .refl htname⟩
  · rcases hcopied.cases hi with ⟨i, _, hi₀, rfl⟩ | ⟨s, j, -, hj, hmirrors⟩
    · exact ho.suits v i hi₀
    · rw [hmirrors.same.2, hmirrors.same.1]
      exact hs.suits s j hj
  · rcases hcopied.cases hi with ⟨i, _, hi₀, rfl⟩ | ⟨s, j, hreach, hj, hmirrors⟩
    · exact ho.component v i c hi₀ hc
    · have hcomponent := hmirrors.component
      rw [hc] at hcomponent
      rw [hmirrors.same.2]
      obtain ⟨hpointer, hfunction, -⟩ := hplain s j hreach hj
      by_cases hstruct : j.kind = .struct
      · exact absurd (blueprint_struct hstruct ▸ hcomponent) Option.not_rel_none_some
      · rw [blueprint_plain hpointer hfunction hstruct] at hcomponent
        obtain ⟨c₀, hc₀, -⟩ := exists_of_rel_some_right hcomponent
        exact hs.component s j c₀ hj hc₀
  · obtain ⟨i, hi⟩ := exists_info? hw.index_lt
    rcases hcopied.cases hi with ⟨_, _, hi₀, -⟩ | ⟨s, j, -, hj, hmirrors⟩
    · have hw₀ := hkeeps.holds_back (index_lt_of_info? hi₀) (fun _ _ => Set.notMem_empty _) hw
      exact ho.held v w name hw₀ (hkeeps.named_back (ho.closed.index_lt_of_holds hw₀) hn)
    · obtain ⟨w₀, hw₀, -, name', hw₀', hn'⟩ := hmirrors.holds hj hi hw
      exact hs.held s w₀ name hw₀ (hn'.unique hn ▸ hw₀')
  · obtain ⟨i, hi⟩ := exists_info? hv
    rcases hcopied.cases hi with ⟨_, _, hi₀, -⟩ | ⟨s, j, hreach, hj, hmirrors⟩
    · exact hf.keeps hkeeps ho.closed (Set.empty_subset N) (index_lt_of_info? hi₀) hN
    · exact hsolid _ s v (shallow_of_forall Holds.index_lt (fun u _ => hacyclic u) (Nat.le_refl _)) hreach
        ⟨j.name, ⟨j, hj, rfl⟩, i, hi, hmirrors.same.1⟩

end Import

end Registry

end Shader
 
