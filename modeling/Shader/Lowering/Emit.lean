import Shader.IR.Builder
import Shader.Lowering.Scope

/-!
# Emitting one function

An `Emitter` builds the body of one function of a library being compiled. An expression is emitted
as a value, as storage that holds a value, or as nothing; `load` and `toStorage` turn one into the
other.

Parameters are copied into variables, so that they can be assigned.
-/

namespace Shader

/-- What an expression has become. -/
inductive Emitted where
  | value (operand : Operand) (ty : TypeRef)
  /-- Storage that holds a value of the given type. -/
  | storage (pointer : ValueId) (ty : TypeRef)
  | void
  deriving DecidableEq, Repr

abbrev Typed := Operand × TypeRef

/-- Storage with the type of what it holds. -/
abbrev Storage := ValueId × TypeRef

/-- Where `break` and `continue` lead. -/
structure LoopTargets where
  merge : BlockId
  continuation : BlockId
  deriving DecidableEq, Repr

structure Emitter where
  scope : Scope
  builder : Builder
  /-- The variables of the function, newest first. -/
  locals : List (LocalId × Storage) := []
  /-- The object the function belongs to. -/
  this : Option Storage := none
  /-- The type of what it returns, unless it returns nothing. -/
  returnType : Option TypeRef := none

abbrev EmitM := ExceptT LowerError (StateM Emitter)

namespace Emit

def refuse {α : Type} (cause : Refusal) (location : Location) : EmitM α :=
  throw (.refused cause location)

def onScope {α : Type} (x : ScopeM α) : EmitM α := fun e =>
  let (result, scope) := x e.scope
  (result, { e with scope := scope })

/-- A step of construction; its failure happens at a place. -/
def build {α : Type} (location : Location) (x : BuildM α) : EmitM α := fun e =>
  match x e.builder with
  | (.ok a, builder) => (.ok a, { e with builder := builder })
  | (.error err, builder) => (.error (.refused (.ir err) location), { e with builder := builder })

def lowerType (spec : TypeSpec) (location : Location) : EmitM TypeRef :=
  onScope (Scope.lowerType spec location)

def pointerType (ty : TypeRef) (location : Location) : EmitM TypeRef :=
  onScope (Scope.onTypes location (Registry.pointerType ty))

def function (id : FunctionId) (location : Location) : EmitM FunctionRef :=
  onScope (Scope.function id location)

def constant (ty : TypeRef) (value : Literal) : EmitM Operand := do
  return .constant (← onScope (Scope.constant ty value))

def operation (opcode : Opcode) (ty : TypeRef) (operands : List Operand) (location : Location) :
    EmitM Emitted := do
  return .value (.value (← build location (Builder.value opcode ty operands))) ty

def newStorage (ty : TypeRef) (name : String) (location : Location) : EmitM ValueId := do
  let pointer ← pointerType ty location
  build location (Builder.localVariable pointer name)

def store (pointer : ValueId) (value : Operand) (location : Location) : EmitM Unit :=
  build location (Builder.store (.value pointer) value)

def branch (target : BlockId) (location : Location) : EmitM Unit :=
  build location (Builder.branch target)

/-- Places a block and goes on in it. -/
def startBlock (block : BlockId) (location : Location) : EmitM Unit :=
  build location do
    Builder.place block
    Builder.enter block

def declareLocal (id : LocalId) (name : String) (ty : TypeRef) (location : Location) :
    EmitM ValueId := do
  let pointer ← newStorage ty name location
  modify fun e => { e with locals := (id, pointer, ty) :: e.locals }
  return pointer

/-- The value of an emitted expression. -/
def load (x : Emitted) (location : Location) : EmitM Typed :=
  match x with
  | .value operand ty => return (operand, ty)
  | .storage pointer ty => do
    return (.value (← build location (Builder.load ty (.value pointer))), ty)
  | .void => refuse .voidValue location

/-- Storage for an emitted expression; a value is put into a temporary. -/
def toStorage (x : Emitted) (location : Location) : EmitM Storage :=
  match x with
  | .storage pointer ty => return (pointer, ty)
  | .value operand ty => do
    let pointer ← newStorage ty "temp" location
    store pointer operand location
    return (pointer, ty)
  | .void => refuse .voidStorage location

def call (f : FunctionRef) (returnType : Option TypeRef) (arguments : List Operand)
    (location : Location) : EmitM Emitted := do
  let result ← build location (Builder.build .functionCall returnType (.function f :: arguments))
  match result, returnType with
  | some value, some ty => return .value (.value value) ty
  | _, _ => return .void

def memberOf (object : Storage) (index : Nat) (location : Location) : EmitM Storage := do
  let ty ← onScope (Scope.onTypes location do (← get).partAt object.2 index)
  let pointer ← pointerType ty location
  let integer ← lowerType .integer location
  let index ← constant integer (.int (Int32.ofNat index))
  let member ← build location
    (Builder.value .accessChain pointer [.value object.1, index])
  return (member, ty)

/-- A literal as a constant in every lane of a type. -/
def splat (ty : TypeSpec) (value : Literal) (location : Location) : EmitM Operand := do
  let scalar ← lowerType (.scalar value.kind) location
  let c ← constant scalar value
  match ty.dimension with
  | some lanes =>
    if 1 < lanes then
      let vector ← lowerType (.withDimension value.kind lanes) location
      let v ← build location
        (Builder.value .compositeConstruct vector (List.replicate lanes c))
      return .value v
    else return c
  | none => return c

end Emit

end Shader
