import Shader.Json.Fault

/-!
# Numerals

A numeral is scanned into its digits (`Numeral.scan`) and then given a value (`Numeral.value`).
Scanning can stop in two ways that differ only in the fault they give, depending on whether the
number is wanted or passed over, so a failed scan reports both.

The value of a numeral is exact when it is whole and fits 64 bits. Otherwise it is a binary64 made
from the leading digits that fit 64 bits and one power of ten, with one rounding for each.
-/

namespace Shader.Json

/-- The parts of a numeral: its sign, its whole digits, the digits after the point and the exponent
with its sign. -/
structure Numeral where
  negative : Bool
  whole : List Char
  fraction : Option (List Char)
  exponent : Option (Bool × List Char)

namespace Numeral

/-- The faults of a broken numeral: when it is read and when it is passed over. -/
structure Broken where
  onRead : Fault
  onSkip : Fault

/-- The numeral ends with the text. -/
def Broken.atEnd (line : Nat) : Broken := ⟨⟨.endInValue, line⟩, ⟨.badNumber, line⟩⟩

/-- Another character than a digit stands in the numeral. -/
def Broken.at (line : Nat) (c : Char) : Broken :=
  ⟨⟨.badNumber, line + lineBreaks c⟩, ⟨.badNumber, line + lineBreaks c⟩⟩

def digits (line : Nat) (cs : List Char) : Except Broken (List Char × List Char) :=
  match cs with
  | [] => .error (.atEnd line)
  | c :: _ =>
    if c.isDigit then .ok (cs.takeWhile Char.isDigit, cs.dropWhile Char.isDigit)
    else .error (.at line c)

/-- The whole digits: a leading zero stands alone. -/
def wholeDigits (line : Nat) (cs : List Char) : Except Broken (List Char × List Char) := do
  let (ds, rest) ← digits line cs
  match ds with
  | '0' :: d :: _ => .error (.at line d)
  | _ => .ok (ds, rest)

def fractionDigits (line : Nat) :
    List Char → Except Broken (Option (List Char) × List Char)
  | '.' :: cs => do
    let (ds, rest) ← digits line cs
    .ok (some ds, rest)
  | cs => .ok (none, cs)

/-- The exponent, if there is one; the flag says that it is negative. -/
def exponentDigits (line : Nat) (cs : List Char) :
    Except Broken (Option (Bool × List Char) × List Char) :=
  let signed (cs : List Char) : Except Broken (Option (Bool × List Char) × List Char) := do
    let (negative, cs) := match cs with
      | '+' :: cs => (false, cs)
      | '-' :: cs => (true, cs)
      | cs => (false, cs)
    let (ds, rest) ← digits line cs
    .ok (some (negative, ds), rest)
  match cs with
  | 'e' :: cs => signed cs
  | 'E' :: cs => signed cs
  | cs => .ok (none, cs)

def scan (line : Nat) (cs : List Char) : Except Broken (Numeral × List Char) := do
  let (negative, cs) := match cs with
    | '-' :: cs => (true, cs)
    | cs => (false, cs)
  let (whole, cs) ← wholeDigits line cs
  let (fraction, cs) ← fractionDigits line cs
  let (exponent, cs) ← exponentDigits line cs
  .ok (⟨negative, whole, fraction, exponent⟩, cs)

/-! ### The value of a numeral -/

def digit (c : Char) : Nat := c.toNat - '0'.toNat

/-- Appends digits to `start` as long as the number stays below `2 ^ 64`; gives the number and how
many digits were left over. -/
def accumulate (start : Nat) : List Char → Nat × Nat
  | [] => (start, 0)
  | c :: cs =>
    let next := start * 10 + digit c
    if next < UInt64.size then accumulate next cs else (start, (c :: cs).length)

/-- A correctly rounded power of ten. -/
def powerOfTen (e : Nat) : Float := Float.ofScientific 1 false e

/-- Scales a significand by a power of ten. An exponent below `-308` is taken in steps of that size,
three of which bring every significand to zero. -/
def scale : Nat → Float → Int → Except Cause Float
  | 0, f, _ => .ok f
  | steps + 1, f, e =>
    if 0 ≤ e then
      if f == 0.0 then .ok f
      else if 308 < e then .error .hugeNumber
      else
        let g := f * powerOfTen e.toNat
        if g.isInf then .error .hugeNumber else .ok g
    else if -308 ≤ e then .ok (f / powerOfTen (-e).toNat)
    else if f == 0.0 then .ok f
    else scale steps (f / powerOfTen 308) (e + 308)

/-- The exponent as a number, unless it does not fit 31 bits. -/
def exponentValue (ds : List Char) : Option Nat :=
  let n := ds.foldl (fun n c => if n < 0x80000000 then n * 10 + digit c else n) 0
  if n < 0x80000000 then some n else none

def value (n : Numeral) : Except Cause Number := do
  let (lead, dropped) := accumulate 0 n.whole
  let plain := n.fraction.isNone && n.exponent.isNone && dropped = 0
  if plain && !n.negative then
    return .whole lead
  else if plain && 0 < lead && lead ≤ 0x8000000000000000 then
    return .whole (-(lead : Int))
  else
    let fraction := n.fraction.getD []
    let (significand, unused) := accumulate lead fraction
    let places : Int := (dropped : Int) - ((fraction.length - unused : Nat) : Int)
    let f := significand.toUInt64.toFloat
    let magnitude ← match n.exponent with
      | none => scale 4 f places
      | some (negative, ds) =>
        match exponentValue ds with
        | some e => scale 4 f (if negative then places - e else places + e)
        | none => if !negative && significand ≠ 0 then .error .hugeNumber else .ok 0.0
    return .real (if n.negative then -magnitude else magnitude)

end Numeral

end Shader.Json
