import Shader.Proofs.Machine.Move
import Mathlib.Data.Int.Basic
import Mathlib.Tactic.Tauto

/-!
# Integer division, lane by lane

Division of the machine on all pairs of 32-bit integers, its limits included. The quotient is
truncated and the remainder floored, so the two make up the dividend only where truncation and
flooring agree.

Two integers have **one sign** if both or neither of them is negative; what is said of signs is only
about integers other than zero.
-/

namespace Shader

namespace Value

/-! ### Remainders -/

/-- `r` is what is left of `x` after whole multiples of `y`, and has the sign of `y`. -/
def Floored (x y r : Int) : Prop :=
  y ∣ x - r ∧ r.natAbs < y.natAbs ∧ (r = 0 ∨ (r < 0 ↔ y < 0))

/-- There is one floored remainder: two of them are less than a divisor apart. -/
theorem Floored.eq {x y r s : Int} (hr : Floored x y r) (hs : Floored x y s) : r = s := by
  obtain ⟨hdr, hlr, hsr⟩ := hr
  obtain ⟨hds, hls, hss⟩ := hs
  have hdvd : y ∣ r - s := by
    have hsub : r - s = x - s - (x - r) := by omega
    exact hsub ▸ Int.dvd_sub hds hdr
  have hlt : (r - s).natAbs < y.natAbs := by omega
  have hzero := Int.eq_zero_of_dvd_of_natAbs_lt_natAbs hdvd hlt
  omega

theorem natAbs_tmod_lt (x : Int) {y : Int} (hy : y ≠ 0) : (x.tmod y).natAbs < y.natAbs := by
  rw [Int.natAbs_tmod]
  exact Nat.mod_lt _ (Int.natAbs_pos.mpr hy)

/-- A truncated remainder has the sign of the dividend. -/
theorem tmod_neg_iff {x y : Int} (h : x.tmod y ≠ 0) : x.tmod y < 0 ↔ x < 0 := by
  have hnonneg := Int.tmod_nonneg (a := x) y
  have hnonpos := Int.tmod_nonneg (a := -x) y
  rw [Int.neg_tmod] at hnonpos
  omega

/-- The truncated remainder, moved by one divisor if it does not have the sign of the divisor. -/
theorem floored_tmod (x : Int) {y : Int} (hy : y ≠ 0) :
    Floored x y (if x.tmod y = 0 ∨ (x.tmod y < 0 ↔ y < 0) then x.tmod y else x.tmod y + y) := by
  have hlt := natAbs_tmod_lt x hy
  have hdvd : y ∣ x - x.tmod y := ⟨x.tdiv y, by have := Int.mul_tdiv_add_tmod x y; omega⟩
  split
  · next h => exact ⟨hdvd, hlt, h⟩
  · next h =>
    refine ⟨?_, by omega, .inr (by omega)⟩
    have hsub : x - (x.tmod y + y) = x - x.tmod y - y := by omega
    exact hsub ▸ Int.dvd_sub hdvd (Int.dvd_refl y)

/-! ### Scalars -/

section Scalars

variable {x y : Int32}

theorem toInt_ne_zero (hy : y ≠ 0) : y.toInt ≠ 0 := by
  rw [← Int32.toInt_zero]
  exact fun h => hy (Int32.toInt_inj.mp h)

theorem neg_iff_toInt (x : Int32) : x < 0 ↔ x.toInt < 0 := by
  rw [Int32.lt_iff_toInt_lt, Int32.toInt_zero]

/-- A remainder and a divisor of different signs add up to something between them. -/
theorem mod_add_in_range (x : Int32) (hsign : ¬ (x % y < 0 ↔ y < 0)) :
    Int32.minValue.toInt ≤ (x % y).toInt + y.toInt ∧
      (x % y).toInt + y.toInt ≤ Int32.maxValue.toInt := by
  rw [neg_iff_toInt, neg_iff_toInt] at hsign
  have := (x % y).minValue_le_toInt
  have := (x % y).toInt_le
  have := y.minValue_le_toInt
  have := y.toInt_le
  omega

/-- **The remainder** is computed without wrapping. -/
theorem toInt_flooredMod (x y : Int32) :
    (flooredMod x y).toInt = if x.toInt.tmod y.toInt = 0 ∨ (x.toInt.tmod y.toInt < 0 ↔ y.toInt < 0)
      then x.toInt.tmod y.toInt else x.toInt.tmod y.toInt + y.toInt := by
  have hzero : x % y = 0 ↔ x.toInt.tmod y.toInt = 0 := by
    rw [← Int32.toInt_inj, Int32.toInt_mod, Int32.toInt_zero]
  have hneg : x % y < 0 ↔ x.toInt.tmod y.toInt < 0 := by rw [neg_iff_toInt, Int32.toInt_mod]
  unfold flooredMod
  dsimp only
  by_cases h : x % y = 0 ∨ (x % y < 0 ↔ y < 0)
  · rw [if_neg (by rw [ne_eq, ne_eq, eq_iff_iff]; tauto), if_pos, Int32.toInt_mod]
    rwa [hzero, hneg, neg_iff_toInt] at h
  · obtain ⟨hlow, hhigh⟩ := mod_add_in_range x fun hsign => h (.inr hsign)
    change -2147483648 ≤ _ at hlow
    change _ ≤ 2147483647 at hhigh
    have hwrap : ((x % y).toInt + y.toInt).bmod (2 ^ 32) = (x % y).toInt + y.toInt :=
      Int.bmod_eq_of_le (by omega) (by omega)
    rw [if_pos (by rw [ne_eq, ne_eq, eq_iff_iff]; tauto), if_neg, Int32.toInt_add, hwrap,
      Int32.toInt_mod]
    rwa [hzero, hneg, neg_iff_toInt] at h

theorem floored_flooredMod (x : Int32) (hy : y ≠ 0) :
    Floored x.toInt y.toInt (flooredMod x y).toInt := by
  rw [toInt_flooredMod]
  exact floored_tmod x.toInt (toInt_ne_zero hy)

/-- **The quotient** wraps only where the least integer is divided by -1. -/
theorem toInt_div_ne_iff (x y : Int32) :
    (x / y).toInt ≠ x.toInt.tdiv y.toInt ↔ x = Int32.minValue ∧ y = -1 := by
  constructor
  · intro h
    refine ⟨?_, ?_⟩
    · by_contra hx
      exact h (Int32.toInt_div_of_ne_left x y hx)
    · by_contra hy
      exact h (Int32.toInt_div_of_ne_right x y hy)
  · rintro ⟨rfl, rfl⟩
    decide

/-- The quotient and the truncated remainder always make up the dividend. -/
theorem mul_div_add_mod (x y : Int32) : y * (x / y) + x % y = x := by
  refine Int32.toInt_inj.mp ?_
  rw [Int32.toInt_add, Int32.toInt_mul, Int32.toInt_div, Int32.toInt_mod, Int.mul_bmod_bmod,
    Int.bmod_add_bmod, Int.mul_tdiv_add_tmod]
  exact Int32.toInt_bmod x

/-- The remainder of the machine is the truncated one exactly where the signs agree. -/
theorem mul_div_add_flooredMod_eq_iff (x : Int32) (hy : y ≠ 0) :
    x = y * (x / y) + flooredMod x y ↔ flooredMod x y = 0 ∨ (x < 0 ↔ y < 0) := by
  have hy' := toInt_ne_zero hy
  have hlt := natAbs_tmod_lt x.toInt hy'
  have hcongr : x = y * (x / y) + flooredMod x y ↔ flooredMod x y = x % y := by
    constructor
    · intro h
      exact (Int32.add_right_inj _).mp (h.symm.trans (mul_div_add_mod x y).symm)
    · intro h
      rw [h, mul_div_add_mod]
  rw [hcongr, ← Int32.toInt_inj, ← Int32.toInt_inj, toInt_flooredMod, Int32.toInt_mod,
    Int32.toInt_zero, neg_iff_toInt, neg_iff_toInt]
  by_cases hzero : x.toInt.tmod y.toInt = 0
  · simp [hzero]
  · have hneg := tmod_neg_iff hzero
    split <;> omega

/-- Division of scalars. -/
theorem binary_division {opcode : Opcode} {f : Int32 → Int32 → Int32}
    (hf : intDivision? opcode = some f) (x y : Int32) :
    binary opcode (.int x) (.int y) =
      if y = 0 then .error .divisionByZero else .ok (.int (f x y)) := by
  have harithmetic : intArithmetic? opcode = none := by
    unfold intDivision? at hf
    split at hf
    · rfl
    · rfl
    · cases hf
  rw [binary, intBinary, harithmetic, hf]

end Scalars

/-! ### Lanes -/

mutual

/-- The pairs of lanes of two values of one shape that hold nothing but integers. -/
def pairs? : Value → Value → Option (List (Int32 × Int32))
  | .int x, .int y => some [(x, y)]
  | .composite vs, .composite ws => allPairs? vs ws
  | _, _ => none

/-- The pairs of lanes of several such values. -/
def allPairs? : List Value → List Value → Option (List (Int32 × Int32))
  | [], [] => some []
  | v :: vs, w :: ws =>
    match pairs? v w, allPairs? vs ws with
    | some ps, some qs => some (ps ++ qs)
    | _, _ => none
  | _, _ => none

end

theorem length_eq_of_allPairs? {vs ws : List Value} {ps : List (Int32 × Int32)}
    (h : allPairs? vs ws = some ps) : vs.length = ws.length := by
  induction vs generalizing ws ps with
  | nil =>
    cases ws with
    | nil => rfl
    | cons w ws => cases h
  | cons v vs ih =>
    cases ws with
    | nil => cases h
    | cons w ws =>
      rw [allPairs?] at h
      split at h
      · next hrest => exact congrArg (· + 1) (ih hrest)
      · cases h

/-- What division makes of pairs of lanes: an error if some divisor is zero, and otherwise the
quotient or remainder of each pair, in the shape of the divisors. -/
def Divided {α : Type} (f : Int32 → Int32 → Int32) (pairs : α → Option (List (Int32 × Int32)))
    (ps : List (Int32 × Int32)) : Except RunError α → Prop
  | .ok c => (∀ p ∈ ps, p.2 ≠ 0) ∧ pairs c = some (ps.map fun p => (f p.1 p.2, p.2))
  | .error e => e = .divisionByZero ∧ ∃ p ∈ ps, p.2 = 0

section Lanes

variable {opcode : Opcode} {f : Int32 → Int32 → Int32}

mutual

/-- **Composites are divided lane by lane.** -/
theorem liftBinary_division (hf : intDivision? opcode = some f) : ∀ (v w : Value)
    {ps : List (Int32 × Int32)}, pairs? v w = some ps →
      Divided f (pairs? · w) ps (liftBinary opcode v w)
  | .int x, .int y, ps, h => by
    obtain rfl : [(x, y)] = ps := Option.some.inj h
    change Divided f _ _ (binary opcode (.int x) (.int y))
    rw [binary_division hf]
    split
    · next hy => exact ⟨rfl, (x, y), List.mem_singleton_self _, hy⟩
    · next hy => exact ⟨List.forall_mem_singleton.mpr hy, rfl⟩
  | .composite vs, .composite ws, ps, h => by
    have hall := liftBinaryAll_division hf vs ws h
    rw [liftBinary, if_pos (length_eq_of_allPairs? h)]
    cases hlift : liftBinaryAll opcode vs ws with
    | ok cs => rw [hlift] at hall; exact hall
    | error e => rw [hlift] at hall; exact hall

theorem liftBinaryAll_division (hf : intDivision? opcode = some f) : ∀ (vs ws : List Value)
    {ps : List (Int32 × Int32)}, allPairs? vs ws = some ps →
      Divided f (allPairs? · ws) ps (liftBinaryAll opcode vs ws)
  | [], [], ps, h => by
    obtain rfl : [] = ps := Option.some.inj h
    exact ⟨nofun, rfl⟩
  | v :: vs, w :: ws, ps, h => by
    rw [allPairs?] at h
    split at h
    · next qs rs hfirst hrest =>
      cases h
      have hone := liftBinary_division hf v w hfirst
      have hall := liftBinaryAll_division hf vs ws hrest
      rw [liftBinaryAll]
      -- the first lane that fails decides, and its divisor is zero
      cases hlift : liftBinary opcode v w with
      | error e =>
        rw [hlift] at hone
        obtain ⟨rfl, p, hp, hzero⟩ := hone
        exact ⟨rfl, p, List.mem_append_left _ hp, hzero⟩
      | ok c =>
        rw [hlift] at hone
        cases hlifts : liftBinaryAll opcode vs ws with
        | error e =>
          rw [hlifts] at hall
          obtain ⟨rfl, p, hp, hzero⟩ := hall
          exact ⟨rfl, p, List.mem_append_right _ hp, hzero⟩
        | ok cs =>
          rw [hlifts] at hall
          obtain ⟨hnonzero, hpairs⟩ : _ ∧ pairs? c w = _ := hone
          obtain ⟨hnonzeros, hallPairs⟩ : _ ∧ allPairs? cs ws = _ := hall
          refine ⟨List.forall_mem_append.mpr ⟨hnonzero, hnonzeros⟩, ?_⟩
          change allPairs? (c :: cs) (w :: ws) = _
          rw [allPairs?, hpairs, hallPairs, List.map_append]
    · cases h

end

end Lanes

/-- **Integer division is exact at the limits.** The remainder of two integers is the one floored
remainder, and where a divisor is added for it the sum is in range. The quotient is the truncated one,
wrapped only where the least integer is divided by -1. The two make up the dividend exactly where the
remainder is zero or dividend and divisor have one sign. A divisor of zero is an error. Composites of
one shape are divided lane by lane, with an error exactly where some divisor is zero. -/
theorem division_exact :
    (∀ x y : Int32, y ≠ 0 → ∃ q r : Int32,
      binary .sDiv (.int x) (.int y) = .ok (.int q) ∧ binary .sMod (.int x) (.int y) = .ok (.int r) ∧
      (∀ z : Int, Floored x.toInt y.toInt z ↔ z = r.toInt) ∧
      (x % y ≠ 0 → ¬ (x % y < 0 ↔ y < 0) → r = x % y + y ∧
        Int32.minValue.toInt ≤ (x % y).toInt + y.toInt ∧
        (x % y).toInt + y.toInt ≤ Int32.maxValue.toInt) ∧
      q.toInt = (x.toInt.tdiv y.toInt).bmod Int32.size ∧
      (q.toInt ≠ x.toInt.tdiv y.toInt ↔ x = Int32.minValue ∧ y = -1) ∧
      (x = y * q + r ↔ r = 0 ∨ (x < 0 ↔ y < 0))) ∧
    ∀ opcode ∈ [Opcode.sDiv, Opcode.sMod],
      (∀ x, binary opcode (.int x) (.int 0) = .error .divisionByZero) ∧
      ∀ v w ps, pairs? v w = some ps →
        (liftBinary opcode v w = .error .divisionByZero ↔ ∃ p ∈ ps, p.2 = 0) ∧
        ((∀ p ∈ ps, p.2 ≠ 0) → ∃ c, ∃ f : Int32 × Int32 → Int32, liftBinary opcode v w = .ok c ∧
          pairs? c w = some (ps.map fun p => (f p, p.2)) ∧
          ∀ p ∈ ps, binary opcode (.int p.1) (.int p.2) = .ok (.int (f p))) := by
  refine ⟨fun x y hy => ⟨x / y, flooredMod x y, ?_, ?_, fun z => ?_, fun hne hsign => ⟨?_, ?_⟩,
    Int32.toInt_div x y, toInt_div_ne_iff x y, mul_div_add_flooredMod_eq_iff x hy⟩,
    fun opcode hopcode => ?_⟩
  · rw [binary_division (f := (· / ·)) rfl, if_neg hy]
  · rw [binary_division (f := flooredMod) rfl, if_neg hy]
  · constructor
    · exact fun hz => hz.eq (floored_flooredMod x hy)
    · exact fun hz => hz ▸ floored_flooredMod x hy
  · unfold flooredMod
    rw [if_pos ⟨hne, by rwa [ne_eq, eq_iff_iff]⟩]
  · exact mod_add_in_range x hsign
  · obtain ⟨f, hf⟩ : ∃ f, intDivision? opcode = some f := by
      rcases List.mem_cons.mp hopcode with rfl | hopcode
      · exact ⟨_, rfl⟩
      · obtain rfl := List.mem_singleton.mp hopcode
        exact ⟨_, rfl⟩
    refine ⟨fun x => by rw [binary_division hf, if_pos rfl], fun v w ps hps => ?_⟩
    have hdivided := liftBinary_division hf v w hps
    cases hlift : liftBinary opcode v w with
    | error e =>
      rw [hlift] at hdivided
      obtain ⟨rfl, p, hp, hzero⟩ := hdivided
      exact ⟨⟨fun _ => ⟨p, hp, hzero⟩, fun _ => rfl⟩, fun h => absurd hzero (h p hp)⟩
    | ok c =>
      rw [hlift] at hdivided
      obtain ⟨hnonzero, hpairs⟩ : _ ∧ pairs? c w = _ := hdivided
      refine ⟨⟨nofun, fun ⟨p, hp, hzero⟩ => absurd hzero (hnonzero p hp)⟩, fun _ => ?_⟩
      refine ⟨c, fun p => f p.1 p.2, rfl, hpairs, fun p hp => ?_⟩
      rw [binary_division hf, if_neg (hnonzero p hp)]

/-- The least integer by -1, and a nested composite with divisors of both signs. -/
theorem division_exact_limits :
    (∃ q r : Int32, binary .sDiv (.int Int32.minValue) (.int (-1)) = .ok (.int q) ∧
      binary .sMod (.int Int32.minValue) (.int (-1)) = .ok (.int r) ∧ r = 0 ∧
      q.toInt ≠ Int32.minValue.toInt.tdiv (-1)) ∧
    ∃ c, liftBinary .sMod (.composite [.int (-7), .composite [.int 7]])
        (.composite [.int 3, .composite [.int (-3)]]) = .ok c ∧
      pairs? c (.composite [.int 3, .composite [.int (-3)]]) = some [(2, 3), (-2, -3)] := by
  obtain ⟨hscalars, hlanes⟩ := division_exact
  constructor
  · obtain ⟨q, r, hq, hr, -, -, -, hwrap, -⟩ := hscalars Int32.minValue (-1) (by decide)
    refine ⟨q, r, hq, hr, ?_, hwrap.mpr ⟨rfl, rfl⟩⟩
    have hzero : binary .sMod (.int Int32.minValue) (.int (-1)) = .ok (.int 0) := rfl
    exact (Value.int.inj (Except.ok.inj (hr.symm.trans hzero)))
  · obtain ⟨-, hlanes⟩ := hlanes .sMod (by decide)
    obtain ⟨-, hok⟩ := hlanes (.composite [.int (-7), .composite [.int 7]])
      (.composite [.int 3, .composite [.int (-3)]]) [(-7, 3), (7, -3)] rfl
    obtain ⟨c, f, hc, hpairs, hf⟩ := hok
      (List.forall_mem_cons.mpr ⟨by decide, List.forall_mem_singleton.mpr (by decide)⟩)
    have hfirst : binary .sMod (.int (-7)) (.int 3) = .ok (.int 2) := rfl
    have hsecond : binary .sMod (.int 7) (.int (-3)) = .ok (.int (-2)) := rfl
    have h₁ := Value.int.inj (Except.ok.inj ((hf (-7, 3) (by decide)).symm.trans hfirst))
    have h₂ := Value.int.inj (Except.ok.inj ((hf (7, -3) (by decide)).symm.trans hsecond))
    rw [List.map_cons, List.map_cons, h₁, h₂] at hpairs
    exact ⟨c, hc, hpairs⟩

end Value

end Shader
