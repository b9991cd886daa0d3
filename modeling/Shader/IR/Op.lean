import Shader.IR.Ident
import Shader.IR.Opcode

/-!
# Operations

An operation applies an opcode to operands. It may have a result, which has a type, and a name that
only serves the reader.
-/

namespace Shader

inductive Operand where
  | value (id : ValueId)
  | constant (id : ConstantId)
  | block (id : BlockId)
  | function (ref : FunctionRef)
  deriving DecidableEq, Repr

namespace Operand

def asBlock : Operand → Option BlockId
  | .block id => some id
  | _ => none

def text : Operand → String
  | .value id => id.text
  | .constant id => id.text
  | .block id => id.text
  | .function ref => ref.text

end Operand

structure Op where
  opcode : Opcode
  result : Option ValueId := none
  resultType : Option TypeRef := none
  operands : List Operand := []
  name : Option String := none
  deriving DecidableEq, Repr

namespace Op

def isTerminator (op : Op) : Bool := op.opcode.isTerminator

def targets (op : Op) : List BlockId :=
  match op.opcode with
  | .branch | .branchConditional => op.operands.filterMap Operand.asBlock
  | _ => []

/-- How the result of an operation is introduced. -/
def lead (op : Op) : String :=
  match op.result with
  | some v => v.text ++ " = "
  | none => ""

def operandTexts (op : Op) : String := String.join (op.operands.map fun o => " " ++ o.text)

def text (op : Op) : String :=
  op.lead ++ op.opcode.text ++
    (match op.resultType with
      | some t => " " ++ t.text
      | none => "") ++
    op.operandTexts ++
    (match op.name with
      | some n => " ; " ++ n
      | none => "")

end Op

end Shader
