import Shader.IR.Error
import Shader.IR.Op

/-!
# Why a run stops

A run either returns or stops with a `RunError`.
-/

namespace Shader

inductive Misfit where
  | sort (name : String)
  /-- An operand that is missing or no value. -/
  | operand (index : Nat)
  | noCallee
  deriving DecidableEq, Repr

def Misfit.text : Misfit → String
  | .sort name => name
  | .operand index => s!"operand {index}"
  | .noCallee => "missing callee"

inductive RunError where
  | unknownFunction (function : FunctionRef)
  | noBody (name : String)
  | unknownBlock (block : BlockId)
  | undefinedValue (value : ValueId)
  | unknownConstant (constant : ConstantId)
  | misfit (opcode : Opcode) (found : Misfit)
  | argumentCount (expected found : Nat)
  | noTerminator (block : BlockId)
  | divisionByZero
  | stepLimit (limit : Nat)
  | invalidPointer
  /-- A type that does not exist or has no end. -/
  | ir (error : IrError)
  deriving DecidableEq, Repr

def RunError.message : RunError → String
  | .unknownFunction f => s!"Unknown function {f.text}"
  | .noBody name => s!"Function '{name}' has no body"
  | .unknownBlock b => s!"Unknown block {b.text}"
  | .undefinedValue v => s!"Value {v.text} used before it was defined"
  | .unknownConstant c => s!"Unknown constant {c.text}"
  | .misfit opcode found => s!"{opcode.text} cannot operate on {found.text}"
  | .argumentCount expected found => s!"Expected {expected} arguments, found {found}"
  | .noTerminator b => s!"Block {b.text} ended without a terminator"
  | .divisionByZero => "Integer division by zero"
  | .stepLimit limit => s!"Step limit of {limit} blocks exceeded"
  | .invalidPointer => "Pointer does not refer to a live value"
  | .ir e => e.message

end Shader
