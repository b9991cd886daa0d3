import Shader.Decimal.Style

/-!
# 32-bit reals

The language's reals are IEEE binary32 words. They are kept as words, because a program can look at
the bits of a real (`toInt32Bits`) and so can tell one NaN from another, and because two reals are
the same constant only if their words agree.

Arithmetic is that of binary32 with rounding to nearest. What it does with NaNs is fixed by two
rules:

* an operation on a NaN passes it on, the left operand's first, with its quiet bit set;
* an operation on numbers that has no numeric result gives `indefinite`.
-/

namespace Shader

/-- A binary32 word. -/
structure Real32 where
  bits : UInt32
  deriving DecidableEq, Repr

namespace Real32

instance : Inhabited Real32 := ⟨⟨0⟩⟩

def ofFloat32 (x : Float32) : Real32 := ⟨x.toBits⟩

/-- The core float of a word. All NaNs become one. -/
def toFloat32 (x : Real32) : Float32 := Float32.ofBits x.bits

def zero : Real32 := ⟨0⟩

def one : Real32 := ⟨0x3f800000⟩

/-- The NaN that an operation without a numeric result gives. -/
def indefinite : Real32 := ⟨0xffc00000⟩

/-- Whether the word is a NaN: the exponent is full and the mantissa is not zero. -/
def isNaN (x : Real32) : Bool := x.bits &&& 0x7fffffff > 0x7f800000

def quiet (x : Real32) : Real32 := ⟨x.bits ||| 0x00400000⟩

/-- The result of an operation on numbers. -/
def result (x : Float32) : Real32 := if x.isNaN then indefinite else ofFloat32 x

def lift₂ (f : Float32 → Float32 → Float32) (x y : Real32) : Real32 :=
  if x.isNaN then x.quiet
  else if y.isNaN then y.quiet
  else result (f x.toFloat32 y.toFloat32)

def add : Real32 → Real32 → Real32 := lift₂ (· + ·)

def sub : Real32 → Real32 → Real32 := lift₂ (· - ·)

def mul : Real32 → Real32 → Real32 := lift₂ (· * ·)

def div : Real32 → Real32 → Real32 := lift₂ (· / ·)

def floor (x : Real32) : Real32 :=
  if x.isNaN then x.quiet else ofFloat32 x.toFloat32.floor

/-- Flips the sign bit, also of a NaN. -/
def neg (x : Real32) : Real32 := ⟨x.bits ^^^ 0x80000000⟩

instance : Add Real32 := ⟨add⟩
instance : Sub Real32 := ⟨sub⟩
instance : Mul Real32 := ⟨mul⟩
instance : Div Real32 := ⟨div⟩
instance : Neg Real32 := ⟨neg⟩

/-- The remainder that takes the sign of the divisor. -/
def mod (x y : Real32) : Real32 := x - y * (x / y).floor

instance : Mod Real32 := ⟨mod⟩

/-- Equality of numbers: the two zeros are equal and a NaN is equal to nothing. -/
def eq (x y : Real32) : Bool := x.toFloat32 == y.toFloat32

/-- Strict order of numbers; a NaN is in no order. -/
def lt (x y : Real32) : Bool := x.toFloat32 < y.toFloat32

/-- Order of numbers; a NaN is in no order. -/
def le (x y : Real32) : Bool := x.toFloat32 ≤ y.toFloat32

/-- The number with its fraction dropped, kept within 32 bits; a NaN gives zero. -/
def toInt32 (x : Real32) : Int32 := if x.isNaN then 0 else x.toFloat32.toInt32

def ofInt32 (i : Int32) : Real32 := ofFloat32 i.toFloat32

def toInt32Bits (x : Real32) : Int32 := x.bits.toInt32

def ofInt32Bits (i : Int32) : Real32 := ⟨i.toUInt32⟩

/-- The text of a real: the fewest digits that read back. -/
def text (x : Real32) : String := Decimal.Style.real.write .single x.bits.toNat

end Real32

end Shader
