import Shader.Decimal.Shortest

/-!
# Writing binary floating point numbers

A `Style` says how the shortest decimal of a number is laid out: which exponents are written
positionally, which of two equally near decimals is taken, and how an exponent is signed. Both
written forms keep at least one digit after the point in positional notation and none that is not
needed in the exponent form.

* `Format.negative` and `Format.magnitude` split an IEEE word into sign and magnitude.
* `Style.write` is the text of a word of the given format.
* `Style.real` is how the language writes its 32-bit reals; `Style.number` is how a JSON text
  writes a 64-bit number.
-/

namespace Shader.Decimal

/-- The widths of an IEEE format: explicit mantissa bits and exponent bits. -/
structure Format where
  mantissaBits : Nat
  exponentBits : Nat

def Format.single : Format := ⟨23, 8⟩

def Format.double : Format := ⟨52, 11⟩

/-- What an IEEE word stands for, its sign apart. -/
inductive Magnitude where
  | zero
  | finite (value : Binary)
  | infinite
  | nan

def Format.magnitude (f : Format) (w : Nat) : Magnitude :=
  let m := w % Nat.pow 2 f.mantissaBits
  let e := w / Nat.pow 2 f.mantissaBits % Nat.pow 2 f.exponentBits
  let bias : Int := Nat.pow 2 (f.exponentBits - 1) - 1 + f.mantissaBits
  if e = Nat.pow 2 f.exponentBits - 1 then
    if m = 0 then .infinite else .nan
  else if e = 0 then
    if m = 0 then .zero else .finite ⟨m, 1 - bias, false⟩
  else
    -- the smallest normal number has the same spacing on both sides
    .finite ⟨Nat.pow 2 f.mantissaBits + m, e - bias, m = 0 && 1 < e⟩

def Format.negative (f : Format) (w : Nat) : Bool :=
  w / Nat.pow 2 (f.mantissaBits + f.exponentBits) % 2 = 1

/-- How decimals are laid out: positional notation is used when the exponent of the leading digit is
at least `least` and below `most`. Otherwise the exponent is written out, with a plus sign before a
positive one if `plus` is set. -/
structure Style where
  least : Int
  most : Int
  half : HalfWay
  plus : Bool

/-- Reals of the language are positional from `0.0001` up to, and without, `1e16`, and a half goes
up. -/
def Style.real : Style := ⟨-4, 16, .up, false⟩

/-- Numbers in JSON text are positional from `0.00001` up to, and without, `1e+16`, and a half goes
to the even neighbour. -/
def Style.number : Style := ⟨-5, 16, .even, true⟩

def zeros (n : Nat) : String := String.ofList (List.replicate n '0')

def Style.layOut (s : Style) (d : Scientific) : String :=
  let digits := (toString d.digits).toList
  let lead : Int := d.exponent + digits.length - 1
  if s.least ≤ lead ∧ lead < s.most then
    if 0 ≤ d.exponent then
      String.ofList digits ++ zeros d.exponent.toNat ++ ".0"
    else if 0 ≤ lead then
      let whole := lead.toNat + 1
      String.ofList (digits.take whole) ++ "." ++ String.ofList (digits.drop whole)
    else
      "0." ++ zeros ((-lead).toNat - 1) ++ String.ofList digits
  else
    let rest := if digits.length ≤ 1 then "" else "." ++ String.ofList (digits.drop 1)
    let mark := if s.plus && 0 < lead then "e+" else "e"
    String.ofList (digits.take 1) ++ rest ++ mark ++ toString lead

/-- The text of the word `w` of format `f`. A NaN has no sign. -/
def Style.write (s : Style) (f : Format) (w : Nat) : String :=
  let sign := if f.negative w then "-" else ""
  match f.magnitude w with
  | .zero => sign ++ "0.0"
  | .finite x => sign ++ s.layOut (x.shortest s.half)
  | .infinite => sign ++ "inf"
  | .nan => "NaN"

end Shader.Decimal
