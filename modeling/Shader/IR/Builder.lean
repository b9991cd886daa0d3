import Shader.IR.Error
import Shader.IR.Routine

/-!
# Building functions

A builder appends operations to a current block. Blocks may be allocated ahead of time and placed
later, so that a branch can name its target before anything is put there.

An operation that is refused may already have used up a result number.
-/

namespace Shader

structure Builder where
  routine : Routine
  current : Option BlockId := none
  deriving DecidableEq, Repr

abbrev BuildM := ExceptT IrError (StateM Builder)

namespace Builder

def onRoutine {α : Type} (change : Routine → α × Routine) : BuildM α :=
  modifyGet fun b => let (a, f) := change b.routine; (a, { b with routine := f })

def parameter (name : String) (ty : TypeRef) : BuildM ValueId := onRoutine (·.addParameter name ty)

def newValue : BuildM ValueId := onRoutine Routine.newValue

/-- A new block, not placed yet. -/
def block (name : String) : BuildM BlockId := onRoutine (·.allocateBlock name)

def place (id : BlockId) : BuildM Unit := onRoutine fun f => ((), f.place id)

def placedBlock (name : String) : BuildM BlockId := do
  let id ← block name
  place id
  return id

def enter (id : BlockId) : BuildM Unit := modify fun b => { b with current := some id }

def currentBlock : BuildM BlockId := do
  match (← get).current with
  | some id => return id
  | none => throw .noCurrentBlock

def changeBlock (id : BlockId) (change : Block → Block) : BuildM Unit := do
  match (← get).routine.block? id with
  | some _ => onRoutine fun f => ((), f.modifyBlock id change)
  | none => throw (.unknownBlock id)

def changeCurrent (change : Block → Block) : BuildM Unit := do
  changeBlock (← currentBlock) change

def currentHasTerminator (b : Builder) : Bool :=
  match b.current.bind b.routine.block? with
  | some block => block.hasTerminator
  | none => false

def append (op : Op) : BuildM Unit := changeCurrent (·.push op)

/-- Appends an operation that has a result if it has a result type. -/
def build (opcode : Opcode) (resultType : Option TypeRef) (operands : List Operand) :
    BuildM (Option ValueId) := do
  let result ← resultType.mapM fun _ => newValue
  append { opcode := opcode, result := result, resultType := resultType, operands := operands }
  return result

def value (opcode : Opcode) (resultType : TypeRef) (operands : List Operand) : BuildM ValueId := do
  let result ← newValue
  append { opcode := opcode, result := some result, resultType := some resultType,
           operands := operands }
  return result

/-- Declares a variable of the function. Variables belong to the first placed block. -/
def localVariable (pointerType : TypeRef) (name : String) : BuildM ValueId := do
  match (← get).routine.entry? with
  | none => throw .noCurrentBlock
  | some entry =>
    let result ← newValue
    changeBlock entry (·.pushLocal { opcode := .declare, result := some result,
                                     resultType := some pointerType, name := some name })
    return result

def load (ty : TypeRef) (pointer : Operand) : BuildM ValueId := value .load ty [pointer]

def store (pointer value : Operand) : BuildM Unit := do
  let _ ← build .store none [pointer, value]

def branch (target : BlockId) : BuildM Unit := do
  let _ ← build .branch none [.block target]

def branchIf (condition : Operand) (ifTrue ifFalse : BlockId) : BuildM Unit := do
  let _ ← build .branchConditional none [condition, .block ifTrue, .block ifFalse]

def ret (result : Option Operand) : BuildM Unit := do
  let _ ← match result with
    | some v => build .retValue none [v]
    | none => build .ret none []

end Builder

end Shader
