import Shader.Proofs.Types.Lowered
import Shader.Proofs.Types.Remembered
import Mathlib.Algebra.Group.Nat.Defs
import Mathlib.Order.Bounds.Basic

/-!
# Builtin types in uniform buffers

The layout of a builtin type is worked out from what its name stands for in the registry. It depends
on the type alone:

* `roundUp` — the rounding of sizes without a bound; on words it is the same as long as the result fits
  (`toNat_alignUp`).
* `TypeSpec.uniform` — the layout rules, by recursion on the type. `TypeSpec.bytes` is the size without
  a bound, which the size as a word agrees with if it fits (`TypeSpec.uniform_size`).
-/

namespace Shader

/-! ### Rounding up -/

/-- The least multiple of `alignment` that is not below `size`, however large. -/
def roundUp (size alignment : Nat) : Nat :=
  if alignment = 0 then size else size + (alignment - size % alignment) % alignment

theorem le_roundUp (size alignment : Nat) : size ≤ roundUp size alignment := by
  unfold roundUp
  split
  · exact Nat.le_refl size
  · exact Nat.le_add_right size _

theorem roundUp_lt (size alignment : Nat) : roundUp size alignment < size + max alignment 1 := by
  unfold roundUp
  split
  · omega
  · next h =>
    have hlt := Nat.mod_lt (alignment - size % alignment) (Nat.pos_of_ne_zero h)
    omega

theorem dvd_roundUp {alignment : Nat} (h : alignment ≠ 0) (size : Nat) :
    alignment ∣ roundUp size alignment := by
  rw [roundUp, if_neg h]
  have hlt := Nat.mod_lt size (Nat.pos_of_ne_zero h)
  have hsum : size + (alignment - size % alignment) = (size / alignment + 1) * alignment := by
    have hdiv := Nat.div_add_mod size alignment
    rw [Nat.add_mul, Nat.mul_comm (size / alignment)]
    omega
  refine Nat.dvd_of_mod_eq_zero ?_
  rw [Nat.add_mod_mod, hsum, Nat.mul_mod_left]

/-- No multiple in between is missed. -/
theorem isLeast_roundUp {alignment : Nat} (h : alignment ≠ 0) (size : Nat) :
    IsLeast {m | alignment ∣ m ∧ size ≤ m} (roundUp size alignment) := by
  refine ⟨⟨dvd_roundUp h size, le_roundUp size alignment⟩, fun m ⟨hdvd, hle⟩ => ?_⟩
  obtain ⟨a, ha⟩ := dvd_roundUp h size
  obtain ⟨b, rfl⟩ := hdvd
  have hlt := roundUp_lt size alignment
  rw [ha] at hlt ⊢
  refine Nat.mul_le_mul_left alignment (Nat.le_of_lt_succ ?_)
  have hstep : alignment * a < alignment * (b + 1) := by
    rw [Nat.mul_succ]
    omega
  exact Nat.lt_of_mul_lt_mul_left hstep

/-- **Rounding up words.** The remainders are below the alignment, so only the sum can wrap around. -/
theorem toNat_alignUp (size alignment : UInt32) :
    (alignUp size alignment : Nat) = roundUp size alignment % 2 ^ 32 := by
  unfold alignUp roundUp
  by_cases h : alignment = 0
  · subst h
    exact (Nat.mod_eq_of_lt size.toNat_lt).symm
  · have hne : (alignment : Nat) ≠ 0 := fun hzero => h (UInt32.toNat_inj.mp hzero)
    have hle : size % alignment ≤ alignment :=
      Nat.le_of_lt (Nat.mod_lt _ (Nat.pos_of_ne_zero hne))
    rw [if_neg h, if_neg hne, UInt32.toNat_add, UInt32.toNat_mod, UInt32.toNat_sub_of_le _ _ hle,
      UInt32.toNat_mod]

/-! ### The rules for types of the language -/

variable {e : TypeSpec} {l : Layout}

namespace TypeSpec

/-- The type without values, and arrays of it. -/
def OfVoid : TypeSpec → Prop
  | .void => True
  | .array e _ => e.OfVoid
  | _ => False

/-- The layout of a builtin type in a uniform buffer. -/
def uniform : TypeSpec → Option Layout
  | .scalar _ => some ⟨4, 4⟩
  | .vector _ n => some ⟨4 * n.toUInt32, if n = 3 then 16 else 4 * n.toUInt32⟩
  | .matrix _ n => some ⟨16 * n.toUInt32, 16⟩
  | .array e n => e.uniform.map fun l => ⟨alignUp l.size 16 * n.toUInt32, 16⟩
  | _ => none

/-- The size of a builtin type in a uniform buffer, however large. -/
def bytes : TypeSpec → Nat
  | .scalar _ => 4
  | .vector _ n => 4 * n
  | .matrix _ n => 16 * n
  | .array e n => roundUp e.bytes 16 * n
  | _ => 0

/-- The type whose layout decides on the layout of a type. -/
def unit? : TypeSpec → Option TypeSpec
  | .vector k _ => some (.scalar k)
  | .matrix _ _ => some (.scalar .real)
  | .array e _ => some e
  | _ => none

/-- How many types are met on the way down. -/
def depth : TypeSpec → Nat
  | .vector _ _ | .matrix _ _ => 2
  | .array e _ => e.depth + 1
  | _ => 1

variable {spec : TypeSpec}

theorem uniform_eq_none_iff (h : spec.Lowerable) :
    spec.uniform = none ↔ spec.OfVoid := by
  induction spec with
  | array e n ih => simpa [uniform, OfVoid] using ih h
  | ofClass | math => exact h.elim
  | _ => simp [uniform, OfVoid]

/-- Sizes are right up to multiples of the size of a word. Since that is a multiple of sixteen, rounding
up does not notice it. -/
theorem uniform_size (hl : spec.uniform = some l) :
    (l.size : Nat) = spec.bytes % 2 ^ 32 := by
  induction spec generalizing l with
  | scalar k =>
    cases hl
    rfl
  | vector k n | matrix m n =>
    cases hl
    rw [UInt32.toNat_mul, Nat.toUInt32, UInt32.toNat_ofNat', Nat.mul_mod_mod]
    rfl
  | array e n ih =>
    obtain ⟨le, hle, rfl⟩ := Option.map_eq_some_iff.mp hl
    have hround : roundUp (e.bytes % 2 ^ 32) 16 % 2 ^ 32 = roundUp e.bytes 16 % 2 ^ 32 := by
      simp only [roundUp, if_neg (by decide : 16 ≠ 0)]
      omega
    have hstride : (alignUp le.size 16 : Nat) = roundUp e.bytes 16 % 2 ^ 32 := by
      rw [toNat_alignUp, ih hle]
      exact hround
    rw [UInt32.toNat_mul, Nat.toUInt32, UInt32.toNat_ofNat', hstride, ← Nat.mul_mod]
    rfl
  | _ => nomatch hl

/-- What the rules give in general. -/
theorem uniform_rules (h : spec.Lowerable) (hl : spec.uniform = some l) :
    (l.alignment = 4 ∨ l.alignment = 8 ∨ l.alignment = 16) ∧ 4 ∣ (l.size : Nat) ∧
      ((∀ k, spec ≠ .vector k 3) → (l.alignment : Nat) ∣ l.size) := by
  have hsize := uniform_size hl
  cases spec with
  | scalar k =>
    cases hl
    exact ⟨.inl rfl, Nat.dvd_refl 4, fun _ => Nat.dvd_refl 4⟩
  | vector k n =>
    cases hl
    obtain ⟨hlow, hhigh⟩ := h
    obtain rfl | rfl | rfl : n = 2 ∨ n = 3 ∨ n = 4 := by omega
    · exact ⟨.inr (.inl rfl), by decide, fun _ => by decide⟩
    · exact ⟨.inr (.inr rfl), by decide, fun hne => absurd rfl (hne k)⟩
    · exact ⟨.inr (.inr rfl), by decide, fun _ => by decide⟩
  | matrix m n =>
    cases hl
    have hdvd : 16 ∣ ((16 * n.toUInt32 : UInt32) : Nat) := by
      dsimp only [bytes] at hsize
      omega
    exact ⟨.inr (.inr rfl), Nat.dvd_trans (by decide) hdvd, fun _ => hdvd⟩
  | array e n =>
    obtain ⟨le, -, rfl⟩ := Option.map_eq_some_iff.mp hl
    have hstride : 16 ∣ (TypeSpec.array e n).bytes :=
      Nat.dvd_mul_right_of_dvd (dvd_roundUp (by decide) _) n
    have hdvd : 16 ∣ ((alignUp le.size 16 * n.toUInt32 : UInt32) : Nat) := by
      dsimp only at hsize
      omega
    exact ⟨.inr (.inr rfl), Nat.dvd_trans (by decide) hdvd, fun _ => hdvd⟩
  | _ => nomatch hl

/-- The alignment of elements is sixteen, for whatever reason. -/
theorem alignment_element (hl : e.uniform = some l) :
    (if (Registry.builtinKind e).isScalar || Registry.builtinKind e = .vector then 16
      else l.alignment) = 16 := by
  cases e with
  | scalar k => cases k <;> rfl
  | vector => rfl
  | matrix m n => exact congrArg Layout.alignment (Option.some.inj hl).symm
  | array e n =>
    obtain ⟨le, -, rfl⟩ := Option.map_eq_some_iff.mp hl
    rfl
  | _ => nomatch hl

end TypeSpec

namespace Registry

open Outcome Relation

/-! ### The rules in a registry -/

section Stocked

variable {r : Registry} {spec : TypeSpec} {name : String} {t : TypeRef}

section

variable (h : r.Stocked)
include h

/-- The types that are asked for the layout of a builtin type. -/
theorem Stocked.asked_eq {i : TypeInfo} (hi : r.info? t = some i)
    (hspec : spec.builtinName = some i.name) : i.kind = builtinKind spec ∧
      i.count = builtinCount spec ∧ i.layout = none ∧
      ∀ e, spec.unit? = some e →
        ∃ u ename, r.asked i = .ok [u] ∧ e.builtinName = some ename ∧ r.Named u ename := by
  obtain ⟨name, component, hname, hc, rfl⟩ := h.builtin t i spec hi hspec
  refine ⟨rfl, rfl, rfl, fun e he => ?_⟩
  cases spec with
  | vector k n | array _ n =>
    cases he
    obtain ⟨c, cname, rfl, hcname, hcnamed⟩ := hc.made _ n rfl
    exact ⟨c, cname, rfl, hcname, hcnamed⟩
  | matrix m n =>
    cases he
    obtain ⟨column, cname, rfl, hcname, j, hj, rfl⟩ := hc.made _ n rfl
    -- the column is a vector, which has lanes
    obtain ⟨_, _, -, hlane, rfl⟩ := h.builtin column j _ hj hcname
    obtain ⟨lane, lname, rfl, hlname, hlnamed⟩ := hlane.made _ m rfl
    refine ⟨lane, lname, ?_, hlname, hlnamed⟩
    change (do return [← r.info column >>= componentOf] : Except IrError (List TypeRef)) = _
    rw [info_eq hj]
    rfl
  | _ => nomatch he

/-- **What a builtin type rests on** is a builtin type. -/
theorem Stocked.restsOn (hname : spec.builtinName = some name) (ht : r.Named t name) {u : TypeRef}
    (hu : r.RestsOn t u) :
    ∃ e ename, spec.unit? = some e ∧ e.builtinName = some ename ∧ r.Named u ename := by
  obtain ⟨i, hi, rfl⟩ := ht
  obtain ⟨j, ts, hj, hts, hmem⟩ := hu
  cases hi.symm.trans hj
  obtain ⟨hkind, -, -, hunit⟩ := h.asked_eq hi hname
  cases he : spec.unit? with
  | some e =>
    obtain ⟨v, ename, hv, hename, hnamed⟩ := hunit e he
    cases hts.symm.trans hv
    obtain rfl := List.mem_singleton.mp hmem
    exact ⟨e, ename, rfl, hename, hnamed⟩
  | none =>
    -- scalars ask for nothing, and what is left has no layout
    unfold asked at hts
    rw [hkind] at hts
    cases spec with
    | scalar k =>
      cases k <;> exact absurd (Except.ok.inj hts ▸ hmem) List.not_mem_nil
    | vector | matrix | array => nomatch he
    | _ => nomatch hts

theorem Stocked.shallow (hname : spec.builtinName = some name) (ht : r.Named t name) :
    Shallow r.RestsOn spec.depth t := by
  induction spec generalizing t name with
  | array e n ih =>
    intro u hu
    obtain ⟨e', ename, he, hename, hnamed⟩ := h.restsOn hname ht hu
    cases he
    exact ih hename hnamed
  | vector k n | matrix m n =>
    intro u hu v hv
    obtain ⟨e, ename, he, hename, hnamed⟩ := h.restsOn hname ht hu
    cases he
    obtain ⟨_, _, he, -⟩ := h.restsOn hename hnamed hv
    nomatch he
  | _ =>
    intro u hu
    obtain ⟨_, _, he, -⟩ := h.restsOn hname ht hu
    nomatch he

theorem Stocked.shapeLayout_scalar {k : ScalarKind} (ht : r.Named t k.name) :
    r.shapeLayout t = .ok ⟨4, 4⟩ := by
  have hspec : (TypeSpec.scalar k).builtinName = some k.name := rfl
  have hshallow := h.shallow hspec ht
  obtain ⟨i, hi, hname⟩ := ht
  have hkind := (h.asked_eq hi (hname ▸ hspec)).1
  rw [Registry.shapeLayout_eq hshallow, info_eq hi]
  cases k <;> simp [bind, Except.bind, asked, compose, hkind, builtinKind, kindOf, pure, Except.pure]

/-- The layout of a type that rests on one type. -/
theorem Stocked.shapeLayout_unit {i : TypeInfo} (hi : r.info? t = some i)
    (hspec : spec.builtinName = some i.name) (he : spec.unit? = some e) :
    ∃ u ename, r.asked i = .ok [u] ∧ e.builtinName = some ename ∧ r.Named u ename ∧
      r.shapeLayout t = (r.shapeLayout u >>= fun l => r.compose i [l]) := by
  obtain ⟨u, ename, hasked, hename, hnamed⟩ := (h.asked_eq hi hspec).2.2.2 e he
  refine ⟨u, ename, hasked, hename, hnamed, ?_⟩
  rw [Registry.shapeLayout_eq (h.shallow hspec ⟨i, hi, rfl⟩), info_eq hi]
  change (do let ls ← (← r.asked i).mapM r.shapeLayout; r.compose i ls) = _
  rw [hasked]
  change ([u].mapM r.shapeLayout >>= _) = _
  rw [List.mapM_cons, List.mapM_nil]
  cases r.shapeLayout u <;> rfl

/-- **The layout of a builtin type** by the rules of the registry. -/
theorem Stocked.shapeLayout_eq (hname : spec.builtinName = some name) (ht : r.Named t name) :
    (r.shapeLayout t).toOption = spec.uniform := by
  induction spec generalizing t name with
  | void =>
    have hshallow := h.shallow hname ht
    obtain ⟨i, hi, rfl⟩ := ht
    rw [Registry.shapeLayout_eq hshallow, info_eq hi]
    simp [bind, Except.bind, asked, (h.asked_eq hi hname).1, builtinKind, Except.toOption,
      TypeSpec.uniform]
  | scalar k =>
    cases hname
    rw [h.shapeLayout_scalar ht]
    rfl
  | vector k n =>
    obtain ⟨i, hi, rfl⟩ := ht
    obtain ⟨hkind, hcount, -⟩ := h.asked_eq hi hname
    obtain ⟨u, ename, -, hename, hnamed, heq⟩ := h.shapeLayout_unit hi hname rfl
    cases hename
    rw [heq, h.shapeLayout_scalar hnamed]
    by_cases hn : n = 3 <;>
      simp [bind, Except.bind, compose, hkind, hcount, builtinKind, builtinCount, Except.toOption,
        TypeSpec.uniform, hn]
  | matrix m n =>
    obtain ⟨i, hi, rfl⟩ := ht
    obtain ⟨hkind, hcount, -⟩ := h.asked_eq hi hname
    obtain ⟨u, ename, -, hename, hnamed, heq⟩ := h.shapeLayout_unit hi hname rfl
    cases hename
    rw [heq, h.shapeLayout_scalar hnamed]
    simp [bind, Except.bind, compose, hkind, hcount, builtinKind, builtinCount, Except.toOption,
      TypeSpec.uniform]
  | array e n ih =>
    obtain ⟨i, hi, rfl⟩ := ht
    obtain ⟨hkind, hcount, -⟩ := h.asked_eq hi hname
    obtain ⟨u, ename, hasked, hename, hnamed, heq⟩ := h.shapeLayout_unit hi hname rfl
    have hlayout := ih hename hnamed
    rw [heq, TypeSpec.uniform, ← hlayout]
    cases hu : r.shapeLayout u with
    | error _ => rfl
    | ok l =>
      rw [hu] at hlayout
      -- the rule looks at the kind of the elements
      have hc : componentOf i = .ok u := by
        rw [asked, hkind] at hasked
        obtain ⟨c, hc, hcu⟩ := bind_eq_ok.mp hasked
        rw [hc, (List.cons.inj (Except.ok.inj hcu)).1]
      obtain ⟨j, hj, rfl⟩ := hnamed
      have halign := TypeSpec.alignment_element hlayout.symm
      rw [← (h.asked_eq hj hename).1] at halign
      simp only [bind, Except.bind, compose, hkind, hcount, hc, info_eq hj, List.headD_cons, halign,
        builtinKind, builtinCount, Except.toOption, pure, Except.pure, Option.map_some]
  | ofClass | math => cases hname

/-- **Asking for the layout of a builtin type.** -/
theorem Stocked.layout_eq (hname : spec.builtinName = some name) (ht : r.Named t name) :
    (layout t r).1.toOption = spec.uniform := by
  -- nothing is remembered of builtin types, and they rest on builtin types only
  let S : TypeRef → Prop := fun u => ∃ (e : TypeSpec) (ename : String),
    e.builtinName = some ename ∧ r.Named u ename
  have hS : ∀ u v, S u → r.RestsOn u v → S v := by
    rintro u v ⟨e, ename, hename, hnamed⟩ huv
    obtain ⟨e', ename', -, hv⟩ := h.restsOn hename hnamed huv
    exact ⟨e', ename', hv⟩
  have hrecalls : Recalls S r r := by
    refine .refl ?_
    rintro u l ⟨e, ename, hename, j, hj, rfl⟩ ⟨k, hk, hl⟩
    cases hj.symm.trans hk
    nomatch (h.asked_eq hj hename).2.2.1.symm.trans hl
  obtain ⟨r', heq, -⟩ :=
    layout_answers hS (h.shallow hname ht) ⟨spec, name, hname, ht⟩ r hrecalls
  rw [heq]
  exact h.shapeLayout_eq hname ht

end

end Stocked

/-! ### Uniform buffers -/

/-- **What uniform buffers ask of the layout of a type.** Element `k` of an array starts at `k` times
the stride; there it is aligned, and it ends before the next one starts. -/
structure UniformRules (r : Registry) (spec : TypeSpec) (l : Layout) : Prop where
  alignment : l.alignment = 4 ∨ l.alignment = 8 ∨ l.alignment = 16
  size : 4 ∣ (l.size : Nat)
  padded : (∀ k, spec ≠ .vector k 3) → (l.alignment : Nat) ∣ l.size
  matrix : ∀ rows columns, spec = .matrix rows columns → (l.size : Nat) = 16 * columns ∧ l.alignment = 16
  array : ∀ element n, spec = .array element n → ∃ c le stride,
    (lowerBuiltin element r).1 = .ok c ∧ (layout c r).1 = .ok le ∧
    IsLeast {m : Nat | 16 ∣ m ∧ le.size ≤ m} stride ∧ (l.size : Nat) = n * stride ∧ l.alignment = 16 ∧
    ∀ k < n, (le.alignment : Nat) ∣ k * stride ∧ k * stride + le.size ≤ (k + 1) * stride ∧
      (k + 1) * stride ≤ l.size

/-- The elements of an array, in a registry that has it in stock. -/
theorem Stocked.elements {r : Registry} {n : Nat} {name : String} {t : TypeRef} (h : r.Stocked)
    (he : e.Lowerable) (hname : (TypeSpec.array e n).builtinName = some name) (ht : r.Named t name)
    (hl : (TypeSpec.array e n).uniform = some l) (hfits : (TypeSpec.array e n).bytes < 2 ^ 32) :
    ∃ c le stride, (lowerBuiltin e r).1 = .ok c ∧ (layout c r).1 = .ok le ∧
      IsLeast {m : Nat | 16 ∣ m ∧ le.size ≤ m} stride ∧ (l.size : Nat) = n * stride ∧ l.alignment = 16 ∧
      ∀ k < n, (le.alignment : Nat) ∣ k * stride ∧ k * stride + le.size ≤ (k + 1) * stride ∧
        (k + 1) * stride ≤ l.size := by
  have hsize : (l.size : Nat) = roundUp e.bytes 16 * n :=
    (TypeSpec.uniform_size hl).trans (Nat.mod_eq_of_lt hfits)
  obtain ⟨le, hle, rfl⟩ := Option.map_eq_some_iff.mp hl
  obtain ⟨i, hi, rfl⟩ := ht
  obtain ⟨_, _, -, hc, -⟩ := h.builtin t i _ hi hname
  obtain ⟨c, cname, -, hcname, hcnamed⟩ := hc.made e n rfl
  -- if there are elements, one of them is not larger than all
  have hstride : roundUp e.bytes 16 * n = n * roundUp le.size 16 := by
    rcases Nat.eq_zero_or_pos n with rfl | hn
    · rw [Nat.mul_zero, Nat.zero_mul]
    · have hone := Nat.le_trans (le_roundUp e.bytes 16) (Nat.le_mul_of_pos_right _ hn)
      rw [TypeSpec.uniform_size hle, Nat.mod_eq_of_lt (Nat.lt_of_le_of_lt hone hfits), Nat.mul_comm]
  refine ⟨c, le, roundUp le.size 16, h.lowerBuiltin_of_named he hcname hcnamed,
    ok_of_toOption ((h.layout_eq hcname hcnamed).trans hle), isLeast_roundUp (by decide) le.size,
    hsize.trans hstride, rfl, fun k hk => ⟨?_, ?_, ?_⟩⟩
  · -- four, eight and sixteen all divide the stride
    have halign : (le.alignment : Nat) ∣ 16 := by
      rcases (TypeSpec.uniform_rules he hle).1 with h | h | h <;> rw [h] <;> decide
    exact Nat.dvd_mul_left_of_dvd (Nat.dvd_trans halign (dvd_roundUp (by decide) _)) k
  · have hle := le_roundUp le.size 16
    rw [Nat.add_mul, Nat.one_mul]
    omega
  · calc (k + 1) * roundUp le.size 16 ≤ n * roundUp le.size 16 := Nat.mul_le_mul_right _ hk
      _ = _ := (hsize.trans hstride).symm

/-- **Builtin types follow the rules of uniform buffers.** Let a type be lowered in a run of calls,
and ask for its layout at the end of the run. There is none exactly if the type has no values or is an
array of such elements, at any depth. Otherwise the alignment is four, eight or sixteen, and it divides
the size unless the type is a vector of three lanes. A matrix takes sixteen bytes a column. An array is
aligned to sixteen bytes, and its elements lie side by side at multiples of a stride, which is the least
multiple of sixteen that an element fits in. All of this is said of types whose size is a word. -/
theorem layout_follows_uniformRules {specs : List TypeSpec} {i : Nat} {spec : TypeSpec} {t : TypeRef}
    (h : Call specs i spec (.ok t)) :
    ((∃ e, (layout t (lowered specs)).1 = .error e) ↔ spec.OfVoid) ∧
      ∀ l, (layout t (lowered specs)).1 = .ok l → spec.bytes < 2 ^ 32 →
        (lowered specs).UniformRules spec l := by
  obtain ⟨hspec, name, hname, hnamed⟩ := h.ok
  have hlt : i < specs.length := (List.getElem?_eq_some_iff.mp h.asked).1
  have hr := stocked_lowered specs
  have ht : (lowered specs).Named t name := by
    have hend := hnamed specs.length hlt
    rwa [List.take_length] at hend
  have hlayout := hr.layout_eq hname ht
  rw [← TypeSpec.uniform_eq_none_iff hspec, ← hlayout]
  cases hl : (layout t (lowered specs)).1 with
  | error e => exact ⟨⟨fun _ => rfl, fun _ => ⟨e, rfl⟩⟩, nofun⟩
  | ok l =>
    refine ⟨⟨nofun, nofun⟩, fun l' hl' hfits => ?_⟩
    cases hl'
    rw [hl] at hlayout
    obtain ⟨halign, hsize, hpadded⟩ := TypeSpec.uniform_rules hspec hlayout.symm
    refine ⟨halign, hsize, hpadded, ?_, ?_⟩
    · rintro rows columns rfl
      refine ⟨(TypeSpec.uniform_size hlayout.symm).trans (Nat.mod_eq_of_lt hfits), ?_⟩
      exact congrArg Layout.alignment (Option.some.inj hlayout)
    · rintro element n rfl
      exact hr.elements (e := element) hspec hname ht hlayout.symm hfits

/-- Seven arrays of two vectors of three lanes each. A vector takes twelve bytes and an array of two of
them thirty-two, so that the whole is seven times thirty-two bytes long. -/
theorem layout_follows_uniformRules_nested :
    let specs : List TypeSpec := [.math, .array (.array (.vector .real 3) 2) 7, .matrix 4 4]
    Call specs 1 (.array (.array (.vector .real 3) 2) 7) (.ok ⟨3⟩) ∧
      (layout ⟨3⟩ (lowered specs)).1 = .ok ⟨224, 16⟩ ∧
      (lowered specs).UniformRules (.array (.array (.vector .real 3) 2) 7) ⟨224, 16⟩ := by
  intro specs
  have hcall : Call specs 1 (.array (.array (.vector .real 3) 2) 7) (.ok ⟨3⟩) :=
    ⟨rfl, by decide +kernel⟩
  have hlayout : (layout ⟨3⟩ (lowered specs)).1 = .ok ⟨224, 16⟩ := by decide +kernel
  exact ⟨hcall, hlayout, (layout_follows_uniformRules hcall).2 _ hlayout (by decide)⟩

end Registry

end Shader
