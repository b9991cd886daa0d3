import Shader.Lowering.Expression

/-!
# Emitting statements

Every condition gets a block that heads a selection and every loop a block that heads a loop, marked
with the blocks where they meet again and where the next round starts, so that the nesting of the
source can be read off the blocks.

What follows a terminator in a block is emitted all the same; it is dropped when the function is
finished.
-/

namespace Shader

namespace Emit

/-- `target op= value` as an operator applied to the value that the target holds. -/
def compoundValue (op : BinaryOperator) (current : Typed) (target value : Expr)
    (location : Location) : EmitM Typed := do
  let rule ← binaryRule ⟨target.ty, value.ty, op⟩ location
  load (← applyBinary rule current (Emit.value value) target.ty location) location

/-- The setter to call when an expression is assigned, with what is accessed. -/
def assignedMember? (target : Expr) (s : Scope) : Option (Access × FunctionId) :=
  match target.kind with
  | .member access => (s.setter? access.accessed).map fun setter => (access, setter)
  | _ => none

/-- `target = value`. The value is emitted before the target. -/
def assign (target value : Expr) (location : Location) : EmitM Unit := do
  match assignedMember? target (← get).scope with
  | some (access, setter) =>
    let v ← Emit.value value
    let _ ← callAccessor setter (receiver location access) [v.1] none location
  | none =>
    let v ← Emit.value value
    match ← expr target with
    | .storage pointer _ => store pointer v.1 location
    | _ => refuse .assignToValue location

/-- `target op= value`. What the target belongs to is emitted once, and both the read and the write
go through it. -/
def compoundAssign (target : Expr) (op : BinaryOperator) (value : Expr) (location : Location) :
    EmitM Unit := do
  let s := (← get).scope
  match assignedMember? target s with
  | some (access, setter) =>
    match s.getter? access.accessed with
    | none => refuse (.noGetter access.name) location
    | some getter =>
      let object ← receiver location access
      let ty ← lowerType target.ty location
      let getter ← function getter location
      let current ← load (← call getter (some ty) [.value object.1] location) location
      let result ← compoundValue op current target value location
      let setter ← function setter location
      let _ ← call setter none [.value object.1, result.1] location
  | none =>
    match ← expr target with
    | .storage pointer ty =>
      let current ← load (.storage pointer ty) location
      let result ← compoundValue op current target value location
      store pointer result.1 location
    | _ => refuse .assignToValue location

def ret (result : Option Expr) (location : Location) : EmitM Unit := do
  let operand ← result.mapM fun e => do return (← Emit.value e).1
  if operand.isSome ≠ (← get).returnType.isSome then refuse .returnMismatch location
  build location (Builder.ret operand)

/-- A condition with its branches. Without a second branch the first one is skipped. -/
def selection (condition : Expr) (body : EmitM Unit) (otherwise : Option (EmitM Unit))
    (location : Location) : EmitM Unit := do
  let test ← Emit.value condition
  let merge ← build location (Builder.block "ifMerge")
  let ifTrue ← build location (Builder.block "ifTrue")
  let ifFalse ← if otherwise.isSome then build location (Builder.block "ifFalse") else pure merge
  build location (Builder.changeCurrent (·.markSelection merge))
  build location (Builder.branchIf test.1 ifTrue ifFalse)
  startBlock ifTrue location
  body
  branch merge location
  match otherwise with
  | some rest =>
    startBlock ifFalse location
    rest
    branch merge location
  | none => pure ()
  startBlock merge location

/-- A loop. The body is told where `break` and `continue` lead. -/
def loop (condition : Option Expr) (body : LoopTargets → EmitM Unit) (step : EmitM Unit)
    (location : Location) : EmitM Unit := do
  let header ← build location (Builder.block "headerBlock")
  let test ← build location (Builder.block "conditionBlock")
  let inner ← build location (Builder.block "loop-body")
  let next ← build location (Builder.block "continueBlock")
  let merge ← build location (Builder.block "after-loop")
  branch header location
  startBlock header location
  build location (Builder.changeCurrent (·.markLoop merge next))
  branch test location
  startBlock test location
  match condition with
  | some condition =>
    let value ← Emit.value condition
    build location (Builder.branchIf value.1 inner merge)
  | none => branch inner location
  startBlock inner location
  body ⟨merge, next⟩
  branch next location
  startBlock next location
  step
  branch header location
  startBlock merge location

mutual

def stmt (targets : Option LoopTargets) : Stmt → EmitM Unit
  | ⟨kind, location⟩ => stmtKind targets location kind

def stmtKind (targets : Option LoopTargets) (location : Location) : StmtKind → EmitM Unit
  | .expression e => do let _ ← expr e
  | .localVar id name ty initial => do
    let ty ← lowerType ty location
    let pointer ← declareLocal id name ty location
    match initial with
    | some e =>
      let v ← Emit.value e
      store pointer v.1 location
    | none => pure ()
  | .assign target none value => assign target value location
  | .assign target (some op) value => compoundAssign target op value location
  | .ret value => ret value location
  | .ifChain parts => ifChain targets location parts
  | .whileLoop condition body =>
    loop (some condition) (fun inner => stmts (some inner) body) (pure ()) location
  | .forLoop start condition step body => do
    stmt? targets start
    loop condition (fun inner => stmts (some inner) body) (stmt? targets step) location
  | .breakLoop =>
    match targets with
    | some t => branch t.merge location
    | none => refuse .breakOutside location
  | .continueLoop =>
    match targets with
    | some t => branch t.continuation location
    | none => refuse .continueOutside location

/-- Emits a chain of conditions. A part without a condition ends the chain. -/
def ifChain (targets : Option LoopTargets) (location : Location) : List IfPart → EmitM Unit
  | [] => pure ()
  | ⟨none, body⟩ :: _ => stmts targets body
  | [⟨some condition, body⟩] => selection condition (stmts targets body) none location
  | ⟨some condition, body⟩ :: rest =>
    selection condition (stmts targets body) (some (ifChain targets location rest)) location

def stmt? (targets : Option LoopTargets) : Option Stmt → EmitM Unit
  | none => pure ()
  | some s => stmt targets s

def stmts (targets : Option LoopTargets) : List Stmt → EmitM Unit
  | [] => pure ()
  | s :: ss => do
    stmt targets s
    stmts targets ss

end

end Emit

end Shader
