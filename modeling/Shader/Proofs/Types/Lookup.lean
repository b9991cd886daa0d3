import Shader.Machine.Zero
import Shader.Proofs.Outcome
import Shader.Proofs.Types.Names
import Shader.Types.Builtin

/-!
# Looking into registries

What a registry answers after a type was appended (`info?_push`) or changed (`info?_modify`), and
what it means to find a type by its name (`find?_eq_some`, `find?_eq_none`). All reasoning about
registries starts from here.
-/

namespace Shader

/-- What a builtin type is made of, and how often. -/
def TypeSpec.component? : TypeSpec → Option (TypeSpec × Nat)
  | .vector k n => some (.scalar k, n)
  | .matrix m n => some (.vector .real m, n)
  | .array e n => some (e, n)
  | _ => none

/-- Types of the language that are made of builtin types only, with two, three or four lanes in every
vector and in every column of a matrix. -/
def TypeSpec.Lowerable : TypeSpec → Prop
  | .void | .scalar _ => True
  | .vector _ n | .matrix n _ => 2 ≤ n ∧ n ≤ 4
  | .array e _ => e.Lowerable
  | .ofClass _ | .math => False

namespace Registry

/-! ### Appending and changing types -/

theorem info?_push (r : Registry) (i : TypeInfo) (t : TypeRef) :
    (r.push i).info? t = if t.index = r.size then some i else r.info? t := by
  unfold info? push size
  dsimp only
  rw [List.getElem?_append]
  by_cases hlt : t.index < r.types.length
  · rw [if_pos hlt, if_neg (by omega)]
  · rw [if_neg hlt]
    by_cases heq : t.index = r.types.length
    · rw [if_pos heq, heq, Nat.sub_self]
      rfl
    · have hnew : [i][t.index - r.types.length]? = none := by
        refine List.getElem?_eq_none ?_
        rw [List.length_singleton]
        omega
      rw [if_neg heq, hnew]
      exact (List.getElem?_eq_none (by omega)).symm

variable {r : Registry} {t : TypeRef} {i : TypeInfo} {name : String} {spec : TypeSpec}

theorem index_lt_of_info? (h : r.info? t = some i) :
    t.index < r.size := (List.getElem?_eq_some_iff.mp h).1

theorem info?_push_of_some (h : r.info? t = some i) (j : TypeInfo) :
    (r.push j).info? t = some i := by
  have hlt := index_lt_of_info? h
  rw [info?_push, if_neg (by omega), h]

theorem ne_size_of_info? (h : r.info? t = some i) : t ≠ ⟨r.size⟩ := fun ht =>
  absurd (congrArg TypeRef.index ht) (Nat.ne_of_lt (index_lt_of_info? h))

/-- A type is the one that has been appended, or it was there before. -/
theorem info?_push_cases {j : TypeInfo} (h : (r.push i).info? t = some j) :
    t = ⟨r.size⟩ ∧ j = i ∨ r.info? t = some j := by
  rw [info?_push] at h
  split at h
  · next hindex =>
    obtain ⟨index⟩ := t
    obtain rfl : index = r.size := hindex
    exact .inl ⟨rfl, (Option.some.inj h).symm⟩
  · exact .inr h

theorem info?_modify (r : Registry) (t t' : TypeRef) (f : TypeInfo → TypeInfo) :
    (r.modify t f).info? t' = if t' = t then (r.info? t').map f else r.info? t' :=
  Outcome.getElem?_modify_of_injective (fun ⟨_⟩ ⟨_⟩ => congrArg TypeRef.mk) r.types f t t'

theorem info?_modify_self (h : r.info? t = some i) (f : TypeInfo → TypeInfo) :
    (r.modify t f).info? t = some (f i) := by
  rw [info?_modify, if_pos rfl, h]
  rfl

/-! ### Finding types -/

theorem find?_eq_some (h : r.find? name = some t) : ∃ i, r.info? t = some i ∧ i.name = name := by
  obtain ⟨index, hindex, rfl⟩ := Option.map_eq_some_iff.mp h
  obtain ⟨hlt, hname, -⟩ := List.findIdx?_eq_some_iff_getElem.mp hindex
  exact ⟨r.types[index], List.getElem?_eq_getElem hlt, of_decide_eq_true hname⟩

theorem find?_eq_none (h : r.find? name = none) (hi : r.info? t = some i) : i.name ≠ name := by
  have hnone := List.findIdx?_eq_none_iff.mp (Option.map_eq_none_iff.mp h) i
    (List.mem_of_getElem? hi)
  exact of_decide_eq_false hnone

/-- No two types bear the same name. -/
def NamesApart (r : Registry) : Prop :=
  ∀ t t' i i', r.info? t = some i → r.info? t' = some i' → i.name = i'.name → t = t'

/-- A new name is borne by nothing else. -/
theorem NamesApart.push (h : r.NamesApart) (hnew : r.find? i.name = none) :
    (r.push i).NamesApart := by
  intro t t' j j' hj hj' hname
  rcases info?_push_cases hj with ⟨rfl, rfl⟩ | hold <;>
    rcases info?_push_cases hj' with ⟨rfl, rfl⟩ | hold'
  · rfl
  · exact absurd hname.symm (find?_eq_none hnew hold')
  · exact absurd hname (find?_eq_none hnew hold)
  · exact h t t' j j' hold hold' hname

/-- The type is there, under the name. -/
def Named (r : Registry) (t : TypeRef) (name : String) : Prop :=
  ∃ i, r.info? t = some i ∧ i.name = name

theorem NamesApart.eq_of_named (h : r.NamesApart) {t' : TypeRef} (ht : r.Named t name)
    (ht' : r.Named t' name) : t = t' := by
  obtain ⟨i, hi, hname⟩ := ht
  obtain ⟨i', hi', hname'⟩ := ht'
  exact h t t' i i' hi hi' (hname.trans hname'.symm)

theorem Named.unique {name' : String} (h : r.Named t name) (h' : r.Named t name') : name = name' := by
  obtain ⟨i, hi, rfl⟩ := h
  obtain ⟨i', hi', rfl⟩ := h'
  exact congrArg TypeInfo.name (Option.some.inj (hi.symm.trans hi'))

theorem Named.index_lt (h : r.Named t name) : t.index < r.size := by
  obtain ⟨i, hi, -⟩ := h
  exact index_lt_of_info? hi

theorem named_push (h : r.Named t name) (i : TypeInfo) : (r.push i).Named t name := by
  obtain ⟨j, hj, hname⟩ := h
  exact ⟨j, info?_push_of_some hj i, hname⟩

/-- The kind of a builtin type. -/
def builtinKind : TypeSpec → Kind
  | .void => .void
  | .scalar k => kindOf k
  | .vector _ _ => .vector
  | .matrix _ _ => .matrix
  | .array _ _ => .array
  | .ofClass _ => .unknown
  | .math => .unknown

theorem builtinKind_ne (spec : TypeSpec) :
    builtinKind spec ≠ .pointer ∧ builtinKind spec ≠ .function ∧ builtinKind spec ≠ .struct := by
  cases spec with
  | scalar k => cases k <;> exact ⟨nofun, nofun, nofun⟩
  | _ => exact ⟨nofun, nofun, nofun⟩

/-- How often a builtin type has its component. -/
def builtinCount : TypeSpec → Nat
  | .scalar _ => 1
  | .vector _ n | .matrix _ n | .array _ n => n
  | _ => 0

/-- The type that a builtin type is made of, if any, is there. -/
structure Supplies (r : Registry) (spec : TypeSpec) (component : Option TypeRef) : Prop where
  simple : spec.component? = none → component = none
  made : ∀ e n, spec.component? = some (e, n) →
    ∃ c name, component = some c ∧ e.builtinName = some name ∧ r.Named c name

theorem Supplies.of_some {component : Option TypeRef} {c : TypeRef} (h : r.Supplies spec component)
    (hc : component = some c) :
    ∃ e n name, spec.component? = some (e, n) ∧ e.builtinName = some name ∧ r.Named c name := by
  cases hspec : spec.component? with
  | none => nomatch (h.simple hspec).symm.trans hc
  | some p =>
    obtain ⟨c', name, hc', hname, hnamed⟩ := h.made p.1 p.2 hspec
    exact ⟨p.1, p.2, name, rfl, hname, Option.some.inj (hc'.symm.trans hc) ▸ hnamed⟩

theorem supplies_none (h : spec.component? = none) : r.Supplies spec none :=
  ⟨fun _ => rfl, fun _ _ he => nomatch h.symm.trans he⟩

theorem supplies_some {e : TypeSpec} {n : Nat} {c : TypeRef} (h : spec.component? = some (e, n))
    (hc : ∃ name, e.builtinName = some name ∧ r.Named c name) : r.Supplies spec (some c) := by
  refine ⟨fun hnone => (nomatch h.symm.trans hnone), fun e' n' he => ?_⟩
  obtain ⟨rfl, rfl⟩ := Prod.mk.inj (Option.some.inj (h.symm.trans he))
  obtain ⟨name, hname, hnamed⟩ := hc
  exact ⟨c, name, rfl, hname, hnamed⟩

theorem info_ok (h : r.info t = .ok i) : r.info? t = some i := by
  unfold info at h
  split at h
  · next hi => exact hi.trans (congrArg some (Except.ok.inj h))
  · nomatch h

theorem info_eq (h : r.info? t = some i) : r.info t = .ok i := by
  rw [info, h]

/-- The parts of structs and function types can be looked up. -/
theorem partAt_eq_ok {owner : TypeRef} {index : Nat} :
    r.partAt owner index = .ok t ↔ ∃ i, r.info? owner = some i ∧
      (i.kind = .struct ∨ i.kind = .function) ∧ i.parts[index]? = some t := by
  unfold partAt info
  cases r.info? owner with
  | none => simp [bind, Except.bind]
  | some i =>
    simp only [bind, Except.bind, Option.some.injEq, exists_eq_left']
    cases i.kind <;> simp [pure, Except.pure, throw, throwThe, MonadExceptOf.throw] <;>
      cases i.parts[index]? <;> simp

theorem nameOf_ok (h : r.nameOf t = .ok name) : r.Named t name := by
  obtain ⟨i, hi, hname⟩ := Outcome.map_eq_ok.mp h
  exact ⟨i, info_ok hi, hname⟩

end Registry

end Shader
