import Shader.Proofs.Types.Spelling

/-!
# The grammar of type names

A type name that is written by hand is read by cutting it into pieces. What is accepted is described
here by rules, without any cutting.
-/

namespace Shader

/-- Some digits, for a number below `UInt32.size`. -/
def Digits (ds : List Char) (n : Nat) : Prop :=
  ds ≠ [] ∧ (∀ d ∈ ds, d.isDigit = true) ∧ Nat.ofDigitChars 10 ds 0 = n ∧ n < UInt32.size

/-- **Numerals.** Digits, with or without a plus sign. -/
def Numeral (cs : List Char) (n : Nat) : Prop := Digits cs n ∨ ∃ ds, cs = '+' :: ds ∧ Digits ds n

namespace TypeSpec

/-- **Base names.** A scalar, a vector of two to four lanes, or a matrix. -/
inductive BaseName : List Char → TypeSpec → Prop
  | scalar (k : ScalarKind) : BaseName k.name.toList (.scalar k)
  | vector (k : ScalarKind) {ds : List Char} {n : Nat} (hn : Numeral ds n) (h₂ : 2 ≤ n)
    (h₄ : n ≤ 4) :
    BaseName (k.name.toList ++ ds) (.vector k n)
  | matrix {ds es : List Char} {m n : Nat} (hm : Numeral ds m) (hn : Numeral es n) :
    BaseName ("Real".toList ++ (ds ++ 'x' :: es)) (.matrix m n)

/-- **Type names.** A base name, or one that is followed by a length in square brackets. -/
inductive Name : List Char → TypeSpec → Prop
  | base {cs : List Char} {spec : TypeSpec} (h : BaseName cs spec) : Name cs spec
  | array {cs ds : List Char} {e : TypeSpec} {n : Nat} (he : BaseName cs e) (hn : Numeral ds n) :
    Name (cs ++ '[' :: (ds ++ [']'])) (.array e n)

/-- The types that have base names. -/
def Basic : TypeSpec → Prop
  | .scalar _ => True
  | .vector _ n => 2 ≤ n ∧ n ≤ 4
  | .matrix m n => m < UInt32.size ∧ n < UInt32.size
  | _ => False

end TypeSpec

/-! ### Pieces -/

variable {cs : List Char} {c : Char} {n : Nat}

theorem dropFront_eq_some {front rest : List Char} :
    dropFront front cs = some rest ↔ cs = front ++ rest := by
  fun_induction dropFront front cs with
  | case1 cs => simp [eq_comm]
  | case2 a front => simp
  | case3 a front cs ih => simp [ih]
  | case4 a front c cs hne => simp [Ne.symm hne]

theorem cutAt_eq_none : cutAt c cs = none ↔ c ∉ cs := by
  simp [cutAt]

theorem cutAt_eq_some {before after : List Char} :
    cutAt c cs = some (before, after) ↔ c ∉ before ∧ cs = before ++ c :: after := by
  refine ⟨fun h => ?_, fun ⟨hbefore, hcs⟩ => hcs ▸ cutAt_append hbefore after⟩
  by_cases hmem : c ∈ cs
  · obtain ⟨xs, ys, rfl, hxs⟩ := List.eq_append_cons_of_mem hmem
    obtain ⟨rfl, rfl⟩ := Prod.mk.inj (Option.some.inj ((cutAt_append hxs ys).symm.trans h))
    exact ⟨hxs, rfl⟩
  · cases (cutAt_eq_none.mpr hmem).symm.trans h

/-! ### Numerals -/

theorem readNumeral_eq_some : readNumeral cs = some n ↔ Numeral cs n := by
  have hdigits : ∀ ds : List Char, (if ds ≠ [] ∧ ds.all Char.isDigit = true then
      if ds.foldl (fun n d => n * 10 + (d.toNat - '0'.toNat)) 0 < UInt32.size then
        some (ds.foldl (fun n d => n * 10 + (d.toNat - '0'.toNat)) 0) else none
      else none) = some n ↔ Digits ds n := by
    intro ds
    have hvalue : ds.foldl (fun n d => n * 10 + (d.toNat - '0'.toNat)) 0 =
        Nat.ofDigitChars 10 ds 0 := by
      simp only [Nat.ofDigitChars, Nat.mul_comm 10]
    rw [hvalue, Option.ite_none_right_eq_some, Option.ite_none_right_eq_some, Option.some.injEq,
      List.all_eq_true, Digits, and_assoc]
    refine and_congr_right fun _ => and_congr_right fun _ => ?_
    exact ⟨fun ⟨hlt, heq⟩ => ⟨heq, heq ▸ hlt⟩, fun ⟨heq, hlt⟩ => ⟨heq ▸ hlt, heq⟩⟩
  unfold Numeral readNumeral
  split
  · next ds =>
    refine (hdigits ds).trans ⟨fun h => .inr ⟨ds, rfl, h⟩, ?_⟩
    rintro (⟨-, hds, -⟩ | ⟨ds', heq, h⟩)
    · cases hds '+' List.mem_cons_self
    · exact (List.cons.inj heq).2 ▸ h
  · next hne =>
    refine (hdigits cs).trans ⟨.inl, ?_⟩
    rintro (h | ⟨ds, rfl, -⟩)
    · exact h
    · exact absurd rfl (hne ds)

theorem numeral_toDigits (h : n < UInt32.size) : Numeral (Nat.toDigits 10 n) n :=
  .inl ⟨List.ne_nil_of_length_pos Nat.length_toDigits_pos,
    fun _ hd => Nat.isDigit_of_mem_toDigits (by decide) (by decide) hd,
    Nat.ofDigitChars_ten_toDigits, h⟩

/-- What is no digit and no sign is in no numeral. -/
theorem Numeral.notMem (h : Numeral cs n) (hc : c.isDigit = false) (hplus : c ≠ '+') :
    c ∉ cs := by
  have hdigits : ∀ {ds : List Char}, Digits ds n → c ∉ ds := by
    intro ds hds hmem
    cases (hds.2.1 c hmem).symm.trans hc
  obtain h | ⟨ds, rfl, h⟩ := h
  · exact hdigits h
  · exact List.not_mem_cons_of_ne_of_not_mem hplus (hdigits h)

theorem Numeral.ne_nil (h : Numeral cs n) : cs ≠ [] := by
  obtain h | ⟨ds, rfl, -⟩ := h
  · exact h.1
  · exact List.cons_ne_nil _ _

/-! ### Names -/

namespace TypeSpec

variable {spec : TypeSpec} {cs : List Char}

/-- What follows the name of a scalar family. -/
theorem ofSuffix?_eq_some {k : ScalarKind} :
    ofSuffix? k cs = some spec ↔ cs = [] ∧ spec = .scalar k ∨
      (∃ n, Numeral cs n ∧ (2 ≤ n ∧ n ≤ 4) ∧ spec = .vector k n) ∨
      ∃ ds es m n, cs = ds ++ 'x' :: es ∧ k = .real ∧ Numeral ds m ∧ Numeral es n ∧
        spec = .matrix m n := by
  have hx : ∀ {cs : List Char} {n : Nat}, Numeral cs n → 'x' ∉ cs := fun h =>
    h.notMem (by decide) (by decide)
  unfold ofSuffix?
  split
  · constructor
    · exact fun h => .inl ⟨rfl, (Option.some.inj h).symm⟩
    · rintro (⟨-, rfl⟩ | ⟨n, hn, -⟩ | ⟨ds, es, _, _, hcs, -⟩)
      · rfl
      · exact absurd rfl hn.ne_nil
      · exact absurd hcs.symm (by simp)
  next hne =>
  split
  · next ds es hcut =>
    obtain ⟨hds, rfl⟩ := cutAt_eq_some.mp hcut
    constructor
    · intro h
      obtain ⟨hk, h⟩ := Option.ite_none_right_eq_some.mp h
      obtain ⟨m, hm, h⟩ := Option.bind_eq_some_iff.mp h
      obtain ⟨n, hn, h⟩ := Option.bind_eq_some_iff.mp h
      exact .inr (.inr ⟨ds, es, m, n, rfl, hk, readNumeral_eq_some.mp hm, readNumeral_eq_some.mp hn,
        (Option.some.inj h).symm⟩)
    · rintro (⟨hnil, -⟩ | ⟨n, hn, -⟩ | ⟨ds', es', m, n, heq, rfl, hm, hn, rfl⟩)
      · exact absurd hnil (by simp)
      · exact absurd (by simp) (hx hn)
      · obtain ⟨rfl, rfl⟩ := append_cons_inj_of_notMem hds (hx hm) heq
        rw [if_pos rfl, readNumeral_eq_some.mpr hm, readNumeral_eq_some.mpr hn]
        rfl
  · next hcut =>
    rw [cutAt_eq_none] at hcut
    constructor
    · intro h
      obtain ⟨n, hn, h⟩ := Option.bind_eq_some_iff.mp h
      obtain ⟨hrange, h⟩ := Option.ite_none_right_eq_some.mp h
      exact .inr (.inl ⟨n, readNumeral_eq_some.mp hn, hrange, (Option.some.inj h).symm⟩)
    · rintro (⟨hnil, -⟩ | ⟨n, hn, hrange, rfl⟩ | ⟨ds, es, _, _, rfl, -⟩)
      · exact absurd hnil hne
      · rw [readNumeral_eq_some.mpr hn]
        exact if_pos hrange
      · exact absurd (by simp) hcut

theorem ofBaseName?_append (k : ScalarKind) (rest : List Char) :
    ofBaseName? (k.name.toList ++ rest) = ofSuffix? k rest := by
  cases k <;> simp [ofBaseName?, ScalarKind.all, dropFront, ScalarKind.name]

/-- **Base names** are read by the rules. -/
theorem ofBaseName?_eq_some : ofBaseName? cs = some spec ↔ BaseName cs spec := by
  constructor
  · intro h
    obtain ⟨_, hfind, -⟩ := Option.bind_eq_some_iff.mp h
    obtain ⟨k, -, hk⟩ := List.exists_of_findSome?_eq_some hfind
    obtain ⟨rest, hrest, -⟩ := Option.map_eq_some_iff.mp hk
    obtain rfl := dropFront_eq_some.mp hrest
    rw [ofBaseName?_append] at h
    rcases ofSuffix?_eq_some.mp h with ⟨rfl, rfl⟩ | ⟨n, hn, hrange, rfl⟩ |
      ⟨ds, es, m, n, rfl, rfl, hm, hn, rfl⟩
    · rw [List.append_nil]
      exact .scalar k
    · exact .vector k hn hrange.1 hrange.2
    · exact .matrix hm hn
  · intro h
    cases h with
    | scalar k =>
      rw [← List.append_nil k.name.toList, ofBaseName?_append, ofSuffix?_eq_some]
      exact .inl ⟨rfl, rfl⟩
    | vector k hn h₂ h₄ =>
      rw [ofBaseName?_append, ofSuffix?_eq_some]
      exact .inr (.inl ⟨_, hn, ⟨h₂, h₄⟩, rfl⟩)
    | matrix hm hn =>
      rw [show "Real" = ScalarKind.real.name from rfl, ofBaseName?_append, ofSuffix?_eq_some]
      exact .inr (.inr ⟨_, _, _, _, rfl, rfl, hm, hn, rfl⟩)

theorem BaseName.notMem (h : BaseName cs spec) : '[' ∉ cs := by
  have hname : ∀ k : ScalarKind, '[' ∉ k.name.toList := by
    intro k
    cases k <;> decide
  have hnumeral : ∀ {cs : List Char} {n : Nat}, Numeral cs n → '[' ∉ cs := fun h =>
    h.notMem (by decide) (by decide)
  cases h with
  | scalar k => exact hname k
  | vector k hn => exact List.not_mem_append (hname k) (hnumeral hn)
  | matrix hm hn =>
    exact List.not_mem_append (hname .real) (List.not_mem_append (hnumeral hm)
      (List.not_mem_cons_of_ne_of_not_mem (by decide) (hnumeral hn)))

/-- **Type names** are read by the rules. -/
theorem ofChars?_eq_some : ofChars? cs = some spec ↔ Name cs spec := by
  unfold ofChars?
  constructor
  · intro h
    split at h
    · exact .base (ofBaseName?_eq_some.mp h)
    next element rest hcut =>
    obtain ⟨-, rfl⟩ := cutAt_eq_some.mp hcut
    split at h
    · next digits hrest =>
      obtain ⟨n, hn, h⟩ := Option.bind_eq_some_iff.mp h
      obtain ⟨e, he, h⟩ := Option.bind_eq_some_iff.mp h
      cases h
      rw [← List.reverse_reverse rest, hrest, List.reverse_cons]
      exact .array (ofBaseName?_eq_some.mp he) (readNumeral_eq_some.mp hn)
    · cases h
  · intro h
    cases h with
    | base h =>
      rw [cutAt_eq_none.mpr h.notMem]
      exact ofBaseName?_eq_some.mpr h
    | @array cs ds e n he hn =>
      rw [cutAt_append he.notMem]
      simp only [List.reverse_append, List.reverse_singleton, List.singleton_append,
        List.reverse_reverse]
      rw [ readNumeral_eq_some.mpr hn, ofBaseName?_eq_some.mpr he]
      rfl

/-- The name of a basic type is a base name of it. -/
theorem Basic.baseName (h : spec.Basic) :
    ∃ name, spec.builtinName = some name ∧ BaseName name.toList spec := by
  cases spec with
  | scalar k => exact ⟨_, rfl, .scalar k⟩
  | vector k n =>
    refine ⟨_, rfl, ?_⟩
    rw [toList_builtinName_vector]
    exact .vector k (numeral_toDigits (Nat.lt_of_le_of_lt h.2 (by decide))) h.1 h.2
  | matrix m n =>
    refine ⟨_, rfl, ?_⟩
    rw [toList_builtinName_matrix, List.append_assoc, List.append_assoc]
    exact .matrix (numeral_toDigits h.1) (numeral_toDigits h.2)
  | void | array | ofClass | math => cases h

/-- **Type names are read exactly.** What is accepted is what the rules describe, as the type that they
describe. In particular the name of a scalar, a vector or a matrix is read as that type, and followed by
a length in brackets as an array of it. -/
theorem ofName?_exact :
    (∀ (s : String) (spec : TypeSpec), ofName? s = some spec ↔ Name s.toList spec) ∧
    ∀ e : TypeSpec, e.Basic → ∃ name, e.builtinName = some name ∧ ofName? name = some e ∧
      ∀ n < UInt32.size, ofName? (name ++ "[" ++ toString n ++ "]") = some (.array e n) := by
  refine ⟨fun s spec => ofChars?_eq_some, fun e he => ?_⟩
  obtain ⟨name, hname, hbase⟩ := he.baseName
  refine ⟨name, hname, ofChars?_eq_some.mpr (.base hbase), fun n hn => ofChars?_eq_some.mpr ?_⟩
  rw [String.toList_append, String.toList_append, String.toList_append, toList_toString_nat,
    List.append_assoc, List.append_assoc]
  exact .array hbase (numeral_toDigits hn)

theorem ofName?_exact_matrices : Basic (.matrix 4 3) ∧ 8 < UInt32.size ∧
    ofName? "Real4x3[8]" = some (.array (.matrix 4 3) 8) := by
  have hbasic : Basic (.matrix 4 3) := ⟨by decide, by decide⟩
  refine ⟨hbasic, by decide, ?_⟩
  obtain ⟨name, hname, -, h⟩ := ofName?_exact.2 (.matrix 4 3) hbasic
  obtain rfl : "Real4x3" = name := Option.some.inj hname
  exact h 8 (by decide)

end TypeSpec

end Shader
