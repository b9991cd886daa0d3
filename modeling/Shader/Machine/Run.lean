import Shader.Library.Search
import Shader.Machine.Lanes
import Shader.Machine.Memory
import Shader.Machine.Zero

/-!
# Running functions

The machine runs a function block by block. It records every block it enters and every function it
calls. A run may enter only so many blocks, counted over all calls since the machine was made; this
limit also bounds the depth of the recursion that defines a run, since each nested call and each
jump enters a block.

What a run did before it stopped stays done, so the state survives an error.

There is no counter of its own for the limit: the blocks that have been entered are recorded, and as
many as are recorded have been counted. An attempt that hits the limit enters no block, so it does not
count. A counter that is raised before it is compared with the limit would be one ahead from then on,
which shows only if the machine is given a larger limit afterwards.
-/

namespace Shader

/-- The state of a machine. -/
structure Machine where
  memory : Memory := #[]
  /-- The blocks entered so far. -/
  executed : Array (FunctionRef × BlockId) := #[]
  /-- The functions called so far. -/
  calls : Array FunctionRef := #[]

abbrev RunM := ExceptT RunError (StateM Machine)

/-- The values of the results computed so far in a call. -/
abbrev Frame := List (ValueId × Value)

namespace Frame

/-- Enters a result, in place of an earlier one. -/
def set (id : ValueId) (v : Value) : Frame → Frame
  | [] => [(id, v)]
  | (i, w) :: rest => if i = id then (id, v) :: rest else (i, w) :: set id v rest

end Frame

structure Activation where
  /-- The library that holds the function. -/
  library : Library
  function : FunctionRef
  routine : Routine

inductive Flow where
  | jump (block : BlockId)
  | leave (result : Option Value)

namespace Machine

/-- The number of blocks a run may enter if nothing else is said. -/
def defaultLimit : Nat := 100000

/-! ### Memory -/

def allocate (v : Value) : RunM Value :=
  modifyGet fun s => (.pointer ⟨s.memory.size, []⟩, { s with memory := s.memory.push v })

def read (s : Machine) : Value → Except RunError Value
  | .pointer p =>
    match s.memory.read? p with
    | some v => .ok v
    | none => .error .invalidPointer
  | _ => .error .invalidPointer

def write (target new : Value) : RunM Unit :=
  match target with
  | .pointer p => fun s =>
    match s.memory.write? p new with
    | some memory => (.ok (), { s with memory := memory })
    | none => (.error .invalidPointer, s)
  | _ => throw .invalidPointer

/-! ### Operands -/

def operand (l : Library) (frame : Frame) (op : Op) (index : Nat) : Except RunError Value :=
  match op.operands[index]? with
  | some (.value id) =>
    match frame.lookup id with
    | some v => .ok v
    | none => .error (.undefinedValue id)
  | some (.constant id) =>
    match l.constant? id with
    | some c => .ok (.ofLiteral c.value)
    | none => .error (.unknownConstant id)
  | _ => .error (.misfit op.opcode (.operand index))

def operandsFrom (l : Library) (frame : Frame) (op : Op) (start : Nat) :
    Except RunError (List Value) :=
  (List.range' start (op.operands.length - start)).mapM (operand l frame op)

def blockOperand (op : Op) (index : Nat) : Except RunError BlockId :=
  match op.operands[index]?.bind Operand.asBlock with
  | some b => .ok b
  | none => .error (.misfit op.opcode (.operand index))

/-! ### Operations -/

/-- The integers that lead from a pointer to a component. An index is taken as an unsigned word. -/
def indices (l : Library) (frame : Frame) (op : Op) (start : Nat) : Except RunError (List Nat) :=
  (List.range' start (op.operands.length - start)).mapM fun i => do
    match ← operand l frame op i with
    | .int n => return n.toUInt32.toNat
    | v => Value.refuse op.opcode v

/-- The zero value of what a variable of a given type holds. -/
def initialValue (l : Library) (ty : TypeRef) : Except RunError Value :=
  match l.types.valueType ty >>= l.types.zeroValue with
  | .ok v => .ok v
  | .error e => .error (.ir e)

/-- The operations that compute a value from their operands alone. -/
def compute (l : Library) (frame : Frame) (op : Op) : Except RunError Value := do
  let arg := operand l frame op
  match op.opcode with
  | .undef => return .undefined
  | .accessChain =>
    match ← arg 0 with
    | .pointer p => return .pointer ⟨p.slot, p.path ++ (← indices l frame op 1)⟩
    | v => Value.refuse op.opcode v
  | .compositeConstruct => return .composite (← operandsFrom l frame op 0)
  | .select =>
    let condition ← arg 0
    let ifTrue ← arg 1
    let ifFalse ← arg 2
    condition.select ifTrue ifFalse
  | .vectorTimesScalar =>
    let v ← arg 0
    v.timesScalar (← arg 1)
  | .dot =>
    let v ← arg 0
    v.dot (← arg 1)
  | .any => return .bool ((← (← arg 0).truths .any).any id)
  | .all => return .bool ((← (← arg 0).truths .all).all id)
  | .fNegate | .sNegate | .logicalNot | .convertFToS | .convertSToF | .bitcast =>
    (← arg 0).liftUnary op.opcode
  | opcode =>
    let v ← arg 0
    v.liftBinary opcode (← arg 1)

/-- One operation that is no terminator. Calls are left to `call`. -/
def perform (call : FunctionRef → List Value → RunM (Option Value)) (l : Library) (frame : Frame)
    (op : Op) : RunM Value := do
  match op.opcode with
  | .declare =>
    match op.resultType with
    | some ty => allocate (← initialValue l ty)
    | none => allocate .undefined
  | .load =>
    let p ← operand l frame op 0
    (← get).read p
  | .store =>
    let p ← operand l frame op 0
    let v ← operand l frame op 1
    write p v
    return .undefined
  | .functionCall =>
    match op.operands with
    | .function callee :: _ =>
      let arguments ← operandsFrom l frame op 1
      return (← call callee arguments).getD .undefined
    | _ => throw (.misfit op.opcode .noCallee)
  | _ => compute l frame op

/-- Where a terminator leads; none for other operations. -/
def terminate? (l : Library) (frame : Frame) (op : Op) : Option (Except RunError Flow) :=
  match op.opcode with
  | .ret => some (.ok (.leave none))
  | .retValue => some do return .leave (some (← operand l frame op 0))
  | .branch => some do return .jump (← blockOperand op 0)
  | .branchConditional => some do
    match ← operand l frame op 0 with
    | .bool taken => return .jump (← blockOperand op (if taken then 1 else 2))
    | v => Value.refuse op.opcode v
  | _ => none

def runOps (call : FunctionRef → List Value → RunM (Option Value)) (l : Library) (block : BlockId) :
    Frame → List Op → RunM (Flow × Frame)
  | _, [] => throw (.noTerminator block)
  | frame, op :: ops =>
    match terminate? l frame op with
    | some flow => do return (← flow, frame)
    | none => do
      let v ← perform call l frame op
      match op.result with
      | some id => runOps call l block (frame.set id v) ops
      | none => runOps call l block frame ops

/-! ### Calls -/

def allocateLocals (l : Library) : Frame → List Op → RunM Frame
  | frame, [] => return frame
  | frame, op :: ops =>
    match op.result, op.resultType with
    | some id, some ty => do
      let p ← allocate (← initialValue l ty)
      allocateLocals l (frame.set id p) ops
    | _, _ => allocateLocals l frame ops

/-- Prepares a call: finds the function, records the call, checks the number of arguments and
allocates the variables. -/
def enter (root : Library) (f : FunctionRef) (arguments : List Value) :
    RunM (Activation × Frame × BlockId) := do
  match root.findLibrary? f.library with
  | none => throw (.unknownFunction f)
  | some l =>
    match l.routine? f with
    | none => throw (.unknownFunction f)
    | some routine =>
      modify fun s => { s with calls := s.calls.push f }
      unless routine.parameters.length = arguments.length do
        throw (.argumentCount routine.parameters.length arguments.length)
      let frame := (routine.parameters.zip arguments).foldl
        (fun (frame : Frame) (p, v) => frame.set p.id v) []
      match routine.entryBlock? with
      | none => throw (.noBody routine.name)
      | some entry =>
        let frame ← allocateLocals l frame entry.locals
        return (⟨l, f, routine⟩, frame, entry.id)

/-- Records that a block is entered, if the limit allows it. -/
def tick (limit : Nat) (f : FunctionRef) (block : BlockId) : RunM Unit := do
  if limit ≤ (← get).executed.size then throw (.stepLimit limit)
  modify fun s => { s with executed := s.executed.push (f, block) }

/-- Runs a call from a given block on. The number bounds how many more blocks can be entered. -/
def runFrom (root : Library) (limit : Nat) : Nat → Activation → Frame → BlockId →
    RunM (Option Value)
  | 0, _, _, _ => throw (.stepLimit limit)
  | n + 1, a, frame, block => do
    tick limit a.function block
    match a.routine.block? block with
    | none => throw (.unknownBlock block)
    | some b =>
      let call := fun f arguments => do
        let (a, frame, entry) ← enter root f arguments
        runFrom root limit n a frame entry
      let (flow, frame) ← runOps call a.library block frame b.ops
      match flow with
      | .leave result => return result
      | .jump next => runFrom root limit n a frame next

def call (root : Library) (limit : Nat) (f : FunctionRef) (arguments : List Value) :
    RunM (Option Value) := do
  let (a, frame, entry) ← enter root f arguments
  runFrom root limit (limit - (← get).executed.size) a frame entry

/-- The names of the blocks entered so far, as far as they can be found. -/
def executedNames (root : Library) (s : Machine) : List String :=
  s.executed.toList.filterMap fun (f, block) => do
    let l ← root.findLibrary? f.library
    let routine ← l.routine? f
    let b ← routine.block? block
    return b.name

end Machine

end Shader
