/-!
# The shortest decimal of a binary number

A finite binary floating point number `m · 2 ^ q` is the nearest number of its format for a whole
interval of reals. This module picks the decimal `d · 10 ^ e` with the fewest digits inside that
interval, and among those of that length the one nearest to the number itself.

* `Binary` is the number together with what decides its interval.
* `Binary.readsBack` says that a decimal reads back as the number, in exact arithmetic.
* `Binary.shortest` tries the two neighbours of the number on ever finer decimal grids and takes
  the first grid with a hit.

Where two neighbours are equally near the caller decides: `HalfWay` names the two habits in use.
-/

namespace Shader.Decimal

/-- A decimal `digits · 10 ^ exponent`. -/
structure Scientific where
  digits : Nat
  exponent : Int
  deriving DecidableEq, Repr

/-- Which of two equally near decimals is taken. -/
inductive HalfWay where
  | up
  | even
  deriving DecidableEq, Repr

/-- A positive binary number `mantissa · 2 ^ exponent`. `narrow` marks a number whose lower
neighbour is only half as far away as its upper one, that is a power of two. -/
structure Binary where
  mantissa : Nat
  exponent : Int
  narrow : Bool
  deriving DecidableEq, Repr

/-- A fraction whose value is `n · 2 ^ b · 10 ^ d`, as numerator and denominator. -/
def scaled (n : Nat) (b d : Int) : Nat × Nat :=
  (n * Nat.pow 2 b.toNat * Nat.pow 10 d.toNat, Nat.pow 2 (-b).toNat * Nat.pow 10 (-d).toNat)

namespace Binary

/-- The numbers below are measured in quarters of the last place, so that both ends of the interval
are whole. -/
def quarter (x : Binary) : Int := x.exponent - 2

/-- The number itself, in quarters of its last place. -/
def centre (x : Binary) : Nat := 4 * x.mantissa

/-- The lower end of the interval that rounds to the number. -/
def low (x : Binary) : Nat := x.centre - (if x.narrow then 1 else 2)

/-- The upper end of the interval that rounds to the number. -/
def high (x : Binary) : Nat := x.centre + 2

/-- Whether `d · 10 ^ e` reads back as the number: it lies in the interval, whose ends belong to it
when the mantissa is even. -/
def readsBack (x : Binary) (d : Nat) (e : Int) : Bool :=
  let (num, den) := scaled d (-x.quarter) e
  if x.mantissa % 2 = 0 then
    x.low * den ≤ num && num ≤ x.high * den
  else
    x.low * den < num && num < x.high * den

/-- The largest multiple of `10 ^ e` that does not exceed the number, as a count of `10 ^ e`. -/
def below (x : Binary) (e : Int) : Nat :=
  let (num, den) := scaled x.centre x.quarter (-e)
  num / den

/-- How the number lies between `d · 10 ^ e` and the next multiple of `10 ^ e`: compared with the
middle of the two. -/
def side (x : Binary) (d : Nat) (e : Int) : Ordering :=
  let (num, den) := scaled x.centre x.quarter (-e)
  compare (2 * num) ((2 * d + 1) * den)

/-- The exponent of the leading decimal digit, found by counting digits: `10 ^ k ≤ x < 10 ^ (k+1)`.
The first summand counts the digits of the whole part, the second the zeros after the point. -/
def magnitude (x : Binary) : Int :=
  let (num, den) := scaled x.centre x.quarter 0
  if den ≤ num then
    ((toString (num / den)).length : Int) - 1
  else
    -- `den / num` has `k` digits exactly when `10 ^ (k-1) ≤ den / num < 10 ^ k`
    let k := (toString (den / num)).length
    if num * Nat.pow 10 (k - 1) = den then -((k : Int) - 1) else -(k : Int)

/-- Tries the grids `10 ^ e`, `10 ^ (e-1)`, … . The last grid answers in any case. -/
def search (x : Binary) (half : HalfWay) : Nat → Int → Scientific
  | 0, e => ⟨x.below e, e⟩
  | tries + 1, e =>
    let d := x.below e
    match x.readsBack d e, x.readsBack (d + 1) e with
    | true, false => ⟨d, e⟩
    | false, true => ⟨d + 1, e⟩
    | true, true =>
      match x.side d e with
      | .lt => ⟨d, e⟩
      | .gt => ⟨d + 1, e⟩
      | .eq =>
        match half with
        | .up => ⟨d + 1, e⟩
        | .even => if d % 2 = 0 then ⟨d, e⟩ else ⟨d + 1, e⟩
    | false, false => search x half tries (e - 1)

end Binary

/-- Drops trailing zeros of the digits; `fuel` bounds their number. -/
def Scientific.trim : Nat → Scientific → Scientific
  | 0, d => d
  | fuel + 1, d =>
    if d.digits ≠ 0 ∧ d.digits % 10 = 0 then trim fuel ⟨d.digits / 10, d.exponent + 1⟩ else d

/-- The shortest decimal that reads back as `x`. Seventeen digits always suffice for a binary number
of at most 53 digits. -/
def Binary.shortest (x : Binary) (half : HalfWay) : Scientific :=
  (x.search half 18 x.magnitude).trim 20

end Shader.Decimal
