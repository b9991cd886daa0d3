import Shader.Machine.Error
import Shader.Machine.Value

/-!
# Arithmetic, lane by lane

The operations of the machine on scalars, and their extension to composites of equal shape: each
lane is computed on its own. Integers wrap; the remainder takes the sign of the divisor.
-/

namespace Shader

namespace Value

def refuse {α : Type} (opcode : Opcode) (v : Value) : Except RunError α :=
  .error (.misfit opcode (.sort v.sort))

/-- The remainder with the sign of the divisor. -/
def flooredMod (x y : Int32) : Int32 :=
  let r := x % y
  if r ≠ 0 ∧ (r < 0) ≠ (y < 0) then r + y else r

def unary (opcode : Opcode) (v : Value) : Except RunError Value :=
  match opcode, v with
  | .fNegate, .real x => .ok (.real (-x))
  | .sNegate, .int x => .ok (.int (-x))
  | .logicalNot, .bool x => .ok (.bool (!x))
  | .convertFToS, .real x => .ok (.int x.toInt32)
  | .convertSToF, .int x => .ok (.real (.ofInt32 x))
  | .bitcast, .real x => .ok (.int x.toInt32Bits)
  | .bitcast, .int x => .ok (.real (.ofInt32Bits x))
  | _, _ => refuse opcode v

def realArithmetic? : Opcode → Option (Real32 → Real32 → Real32)
  | .fAdd => some (· + ·)
  | .fSub => some (· - ·)
  | .fMul => some (· * ·)
  | .fDiv => some (· / ·)
  | .fMod => some Real32.mod
  | _ => none

/-- Comparisons of reals. None of them holds of a value that is not a number. -/
def realComparison? : Opcode → Option (Real32 → Real32 → Bool)
  | .fOrdEqual => some Real32.eq
  | .fOrdNotEqual => some fun x y => !x.eq y && !x.isNaN && !y.isNaN
  | .fOrdLessThan => some Real32.lt
  | .fOrdLessThanEqual => some Real32.le
  | .fOrdGreaterThan => some fun x y => y.lt x
  | .fOrdGreaterThanEqual => some fun x y => y.le x
  | _ => none

/-- Integer arithmetic that is always defined. -/
def intArithmetic? : Opcode → Option (Int32 → Int32 → Int32)
  | .iAdd => some (· + ·)
  | .iSub => some (· - ·)
  | .iMul => some (· * ·)
  | _ => none

def intDivision? : Opcode → Option (Int32 → Int32 → Int32)
  | .sDiv => some (· / ·)
  | .sMod => some flooredMod
  | _ => none

def intComparison? : Opcode → Option (Int32 → Int32 → Bool)
  | .iEqual => some (· == ·)
  | .iNotEqual => some (· != ·)
  | .sLessThan => some fun x y => x < y
  | .sLessThanEqual => some fun x y => x ≤ y
  | .sGreaterThan => some fun x y => y < x
  | .sGreaterThanEqual => some fun x y => y ≤ x
  | _ => none

def boolComparison? : Opcode → Option (Bool → Bool → Bool)
  | .logicalEqual => some (· == ·)
  | .logicalNotEqual => some (· != ·)
  | _ => none

def realBinary (opcode : Opcode) (x y : Real32) : Except RunError Value :=
  match realArithmetic? opcode, realComparison? opcode with
  | some f, _ => .ok (.real (f x y))
  | none, some f => .ok (.bool (f x y))
  | none, none => refuse opcode (.real x)

def intBinary (opcode : Opcode) (x y : Int32) : Except RunError Value :=
  match intArithmetic? opcode, intDivision? opcode, intComparison? opcode with
  | some f, _, _ => .ok (.int (f x y))
  | none, some f, _ => if y = 0 then .error .divisionByZero else .ok (.int (f x y))
  | none, none, some f => .ok (.bool (f x y))
  | none, none, none => refuse opcode (.int x)

def boolBinary (opcode : Opcode) (x y : Bool) : Except RunError Value :=
  match boolComparison? opcode with
  | some f => .ok (.bool (f x y))
  | none => refuse opcode (.bool x)

def binary (opcode : Opcode) (a b : Value) : Except RunError Value :=
  match a, b with
  | .real x, .real y => realBinary opcode x y
  | .int x, .int y => intBinary opcode x y
  | .bool x, .bool y => boolBinary opcode x y
  | _, _ => refuse opcode a

mutual

def liftUnary (opcode : Opcode) : Value → Except RunError Value
  | .composite vs => do return .composite (← liftUnaryAll opcode vs)
  | v => unary opcode v

def liftUnaryAll (opcode : Opcode) : List Value → Except RunError (List Value)
  | [] => .ok []
  | v :: vs => do
    let w ← liftUnary opcode v
    return w :: (← liftUnaryAll opcode vs)

end

mutual

/-- An operation on each pair of lanes of two values of one shape. -/
def liftBinary (opcode : Opcode) : Value → Value → Except RunError Value
  | .composite vs, .composite ws =>
    if vs.length = ws.length then do return .composite (← liftBinaryAll opcode vs ws)
    else binary opcode (.composite vs) (.composite ws)
  | v, w => binary opcode v w

def liftBinaryAll (opcode : Opcode) : List Value → List Value → Except RunError (List Value)
  | v :: vs, w :: ws => do
    let u ← liftBinary opcode v w
    return u :: (← liftBinaryAll opcode vs ws)
  | _, _ => .ok []

end

mutual

/-- A choice between two values: by one truth value, or lane by lane. -/
def select : Value → Value → Value → Except RunError Value
  | .bool c, v, w => .ok (if c then v else w)
  | .composite cs, .composite vs, .composite ws =>
    if cs.length = vs.length ∧ vs.length = ws.length then do
      return .composite (← selectAll cs vs ws)
    else refuse .select (.composite cs)
  | c, _, _ => refuse .select c

def selectAll : List Value → List Value → List Value → Except RunError (List Value)
  | c :: cs, v :: vs, w :: ws => do
    let u ← select c v w
    return u :: (← selectAll cs vs ws)
  | _, _, _ => .ok []

end

def timesScalar (v scalar : Value) : Except RunError Value :=
  match v with
  | .composite lanes => do return .composite (← lanes.mapM fun lane => binary .fMul lane scalar)
  | v => refuse .vectorTimesScalar v

/-- The sum of the products of pairs of reals, added to `sum`. -/
def dotFrom (sum : Real32) : List Value → List Value → Except RunError Real32
  | .real x :: vs, .real y :: ws => dotFrom (sum + x * y) vs ws
  | v :: _, _ :: _ => refuse .dot v
  | _, _ => .ok sum

def dot (v w : Value) : Except RunError Value :=
  match v, w with
  | .composite vs, .composite ws =>
    if vs.length = ws.length then do return .real (← dotFrom .zero vs ws) else refuse .dot v
  | _, _ => refuse .dot v

def truths (opcode : Opcode) (v : Value) : Except RunError (List Bool) :=
  match v with
  | .composite vs => vs.mapM fun lane =>
    match lane with
    | .bool b => .ok b
    | lane => refuse opcode lane
  | v => refuse opcode v

end Value

end Shader
