import Shader.IR.Error
import Shader.IR.Opcode
import Shader.Literal

/-!
# Rules for operators, conversions and builtin functions

What an operator, a conversion or a call of a builtin function becomes is looked up by the types it
is applied to. Keys are made of language types, so the rules of one library serve every library that
depends on it. A key has at most one rule in a table.
-/

namespace Shader

structure BinaryKey where
  left : TypeSpec
  right : TypeSpec
  op : BinaryOperator
  deriving DecidableEq, Repr

def BinaryKey.text (k : BinaryKey) : String := s!"{k.left.text} {k.op.symbol} {k.right.text}"

structure UnaryKey where
  operand : TypeSpec
  op : UnaryOperator
  deriving DecidableEq, Repr

def UnaryKey.text (k : UnaryKey) : String := k.op.symbol ++ k.operand.text

structure ConversionKey where
  source : TypeSpec
  target : TypeSpec
  deriving DecidableEq, Repr

def ConversionKey.text (k : ConversionKey) : String := s!"{k.source.text} as {k.target.text}"

/-- A builtin function of a type, with the types of its arguments. -/
structure IntrinsicKey where
  owner : TypeSpec
  name : String
  parameters : List TypeSpec
  deriving DecidableEq, Repr

def IntrinsicKey.text (k : IntrinsicKey) : String :=
  let parameters := ", ".intercalate (k.parameters.map TypeSpec.text)
  s!"{k.owner.text}.{k.name}({parameters})"

/-- Operators that may leave out their right operand. -/
inductive ShortCircuit where
  | or
  | and
  deriving DecidableEq, Repr

/-- What an operator between two operands becomes. -/
inductive BinaryRule where
  | instruction (opcode : Opcode)
  /-- A branch around the right operand. -/
  | shortCircuit (kind : ShortCircuit)
  deriving DecidableEq, Repr

inductive UnaryRule where
  | instruction (opcode : Opcode)
  deriving DecidableEq, Repr

inductive ConversionRule where
  | instruction (opcode : Opcode)
  /-- A choice between two literals. -/
  | ofBool (zero one : Literal)
  /-- A comparison with a literal. -/
  | toBool (compare : Opcode) (zero : Literal)
  deriving DecidableEq, Repr

inductive IntrinsicRule where
  | instruction (opcode : Opcode)
  /-- Its only argument, unchanged. -/
  | identity
  deriving DecidableEq, Repr

def Literal.shown (l : Literal) : String :=
  match l with
  | .bool _ => s!"Bool({l.text})"
  | .int _ => s!"Int({l.text})"
  | .real _ => s!"Real({l.text})"

def Opcode.shown (o : Opcode) : String := s!"Instruction({o.name})"

def BinaryRule.text : BinaryRule → String
  | .instruction o => o.shown
  | .shortCircuit .or => "ShortCircuit(Or)"
  | .shortCircuit .and => "ShortCircuit(And)"

def UnaryRule.text : UnaryRule → String
  | .instruction o => o.shown

def ConversionRule.text : ConversionRule → String
  | .instruction o => o.shown
  | .ofBool zero one => s!"FromBool \x7b zero: {zero.shown}, one: {one.shown} \x7d"
  | .toBool compare zero => s!"ToBool \x7b compare: {compare.name}, zero: {zero.shown} \x7d"

def IntrinsicRule.text : IntrinsicRule → String
  | .instruction o => o.shown
  | .identity => "Identity"

structure Rules where
  binary : List (BinaryKey × BinaryRule) := []
  unary : List (UnaryKey × UnaryRule) := []
  conversions : List (ConversionKey × ConversionRule) := []
  intrinsics : List (IntrinsicKey × IntrinsicRule) := []
  deriving DecidableEq, Repr

namespace Rules

def size (r : Rules) : Nat :=
  r.binary.length + r.unary.length + r.conversions.length + r.intrinsics.length

section

variable {κ α : Type} [BEq κ]

/-- Enters a rule into a table, unless its key has one. -/
def enter (text : κ → String) (table : List (κ × α)) (key : κ) (rule : α) :
    Except IrError (List (κ × α)) :=
  match table.lookup key with
  | some _ => .error (.duplicateResolver (text key))
  | none => .ok ((key, rule) :: table)

end

def addBinary (r : Rules) (key : BinaryKey) (rule : BinaryRule) : Except IrError Rules := do
  return { r with binary := ← enter BinaryKey.text r.binary key rule }

def addUnary (r : Rules) (key : UnaryKey) (rule : UnaryRule) : Except IrError Rules := do
  return { r with unary := ← enter UnaryKey.text r.unary key rule }

def addConversion (r : Rules) (key : ConversionKey) (rule : ConversionRule) :
    Except IrError Rules := do
  return { r with conversions := ← enter ConversionKey.text r.conversions key rule }

def addIntrinsic (r : Rules) (key : IntrinsicKey) (rule : IntrinsicRule) :
    Except IrError Rules := do
  return { r with intrinsics := ← enter IntrinsicKey.text r.intrinsics key rule }

end Rules

end Shader
