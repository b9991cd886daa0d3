import Shader.Lowering.Emit

/-!
# Emitting expressions

Operands are emitted from left to right. The right operand of `||` and `&&` may be left out at run
time, so these become a selection: the left value picks between a block that keeps it and a block
that evaluates the right operand, and either stores into a temporary that is read where they meet.
-/

namespace Shader

namespace Emit

def binaryRule (key : BinaryKey) (location : Location) : EmitM BinaryRule := do
  match (← get).scope.library.binaryRule? key with
  | some rule => return rule
  | none => refuse (.noBinary key) location

/-- Lowers `left || right` or `left && right` for a left operand that has been emitted. -/
def shortCircuit (kind : ShortCircuit) (left : Typed) (right : EmitM Typed) (location : Location) :
    EmitM Emitted := do
  let name := match kind with
    | .or => "tempOr"
    | .and => "tempAnd"
  let temp ← newStorage left.2 name location
  let keepLeft ← build location (Builder.block "ifTrue")
  let evalRight ← build location (Builder.block "ifFalse")
  let merge ← build location (Builder.block "mergePoint")
  build location (Builder.changeCurrent (·.markSelection merge))
  match kind with
  | .or => build location (Builder.branchIf left.1 keepLeft evalRight)
  | .and => build location (Builder.branchIf left.1 evalRight keepLeft)
  startBlock keepLeft location
  store temp left.1 location
  branch merge location
  startBlock evalRight location
  let value ← right
  store temp value.1 location
  branch merge location
  startBlock merge location
  return .storage temp left.2

/-- An operator between two operands, of which the left one has been emitted. -/
def applyBinary (rule : BinaryRule) (left : Typed) (right : EmitM Typed) (result : TypeSpec)
    (location : Location) : EmitM Emitted := do
  match rule with
  | .shortCircuit kind => shortCircuit kind left right location
  | .instruction opcode =>
    let value ← right
    let ty ← lowerType result location
    operation opcode ty [left.1, value.1] location

def convert (source target : TypeSpec) (operand : EmitM Typed) (location : Location) :
    EmitM Emitted := do
  let key : ConversionKey := ⟨source, target⟩
  match (← get).scope.library.conversionRule? key with
  | none => refuse (.noConversion key) location
  | some rule =>
    let value ← operand
    let ty ← lowerType target location
    match rule with
    | .instruction opcode => operation opcode ty [value.1] location
    | .ofBool zero one =>
      let one ← splat target one location
      let zero ← splat target zero location
      operation .select ty [value.1, one, zero] location
    | .toBool compare zero =>
      let zero ← splat source zero location
      operation compare ty [value.1, zero] location

def callAccessor (accessor : FunctionId) (receiver : EmitM Storage) (arguments : List Operand)
    (returnType : Option TypeRef) (location : Location) : EmitM Emitted := do
  let f ← function accessor location
  let object ← receiver
  call f returnType (.value object.1 :: arguments) location

/-- A member that is read: by its getter if it has one, else from where it is stored. -/
def readMember (name : String) (accessed : Accessed) (receiver : EmitM Storage) (ty : TypeSpec)
    (location : Location) : EmitM Emitted := do
  let s := (← get).scope
  match s.getter? accessed with
  | some getter =>
    let returnType ← lowerType ty location
    callAccessor getter receiver [] (some returnType) location
  | none =>
    match accessed with
    | .property property =>
      match s.fieldIndex? property with
      | some index =>
        let object ← receiver
        let (pointer, ty) ← memberOf object index location
        return .storage pointer ty
      | none => refuse (.unreadable name) location
    | .accessors _ _ => refuse (.noGetter name) location
    | .function _ => refuse (.functionAsValue name) location
    | .intrinsic _ => refuse (.functionAsValue name) location

def callIntrinsic (key : IntrinsicKey) (arguments : EmitM (List Typed)) (ty : TypeSpec)
    (location : Location) : EmitM Emitted := do
  match (← get).scope.library.intrinsicRule? key with
  | none => refuse (.noIntrinsic key) location
  | some rule =>
    let values ← arguments
    match rule with
    | .identity =>
      match values with
      | (operand, ty) :: _ => return .value operand ty
      | [] => refuse (.noArgument key) location
    | .instruction opcode =>
      let ty ← lowerType ty location
      operation opcode ty (values.map Prod.fst) location

def callMember (name : String) (accessed : Accessed) (receiver : EmitM Storage)
    (argumentTypes : List TypeSpec) (arguments : EmitM (List Typed)) (ty : TypeSpec)
    (location : Location) : EmitM Emitted := do
  match accessed with
  | .intrinsic owner => callIntrinsic ⟨owner, name, argumentTypes⟩ arguments ty location
  | .function id =>
    let f ← function id location
    let object ← if (← get).scope.takesObject id f then
        do let object ← receiver; pure [Operand.value object.1]
      else pure []
    let values ← arguments
    let returnType ← if ty.isVoid then pure none else some <$> lowerType ty location
    call f returnType (object ++ values.map Prod.fst) location
  | _ => refuse (.notCallable name) location

def newObject (id : ClassId) (constructor : Option FunctionId) (arguments : EmitM (List Typed))
    (location : Location) : EmitM Emitted := do
  let shape ← onScope (Scope.classShape id location)
  let pointer ← pointerType shape.ty location
  let name ← onScope (Scope.onTypes location do (← get).nameOf shape.ty)
  let object ← build location (Builder.localVariable pointer name)
  match constructor with
  | some constructor =>
    let values ← arguments
    let f ← function constructor location
    let _ ← call f none (.value object :: values.map Prod.fst) location
  | none =>
    match shape.preConstructor with
    | some f => let _ ← call f none [.value object] location
    | none => pure ()
  return .storage object shape.ty

/-- The number of lanes that a constructed value has. -/
def lanes : TypeSpec → Nat
  | .vector _ count => count
  | _ => 1

def isScalar (ty : TypeRef) : EmitM Bool := do
  match (← get).scope.library.types.info? ty with
  | some i => return i.kind.isScalar
  | none => return false

/-- A new value of a builtin type: zero without arguments, a single scalar in every lane, or the
arguments in order. -/
def newValue (ty : TypeSpec) (arguments : EmitM (List Typed)) (location : Location) :
    EmitM Emitted := do
  let result ← lowerType ty location
  let compose := fun operands => operation .compositeConstruct result operands location
  match ← arguments with
  | [] =>
    match ty.scalarKind, ty.dimension with
    | some kind, some _ =>
      let scalar ← lowerType (.scalar kind) location
      let zero ← constant scalar (.zero kind)
      if lanes ty = 1 then return .value zero result
      else compose (List.replicate (lanes ty) zero)
    | _, _ => refuse (.noDefault ty) location
  | [(operand, single)] =>
    match ty with
    | .scalar _ => return .value operand result
    | _ =>
      if 1 < lanes ty ∧ (← isScalar single) then compose (List.replicate (lanes ty) operand)
      else compose [operand]
  | values => compose (values.map Prod.fst)

mutual

def expr : Expr → EmitM Emitted
  | ⟨kind, ty, location⟩ => exprKind ty location kind

def exprKind (ty : TypeSpec) (location : Location) : ExprKind → EmitM Emitted
  | .literal value => do
    let ty ← lowerType ty location
    return .value (← constant ty value) ty
  | .localVar id => do
    match (← get).locals.lookup id with
    | some (pointer, ty) => return .storage pointer ty
    | none => refuse (.unknownLocal id) location
  | .thisObject => do
    match (← get).this with
    | some (pointer, ty) => return .storage pointer ty
    | none => refuse .noObject location
  | .binary op left right => do
    let rule ← binaryRule ⟨left.ty, right.ty, op⟩ location
    let value ← load (← expr left) left.location
    applyBinary rule value (do load (← expr right) right.location) ty location
  | .unary op operand => do
    let key : UnaryKey := ⟨operand.ty, op⟩
    match (← get).scope.library.unaryRule? key with
    | none => refuse (.noUnary key) location
    | some (.instruction opcode) =>
      let value ← load (← expr operand) operand.location
      let ty ← lowerType ty location
      operation opcode ty [value.1] location
  | .cast operand =>
    if operand.ty = ty then expr operand
    else convert operand.ty ty (do load (← expr operand) operand.location) location
  | .member access => readMember access.name access.accessed (receiver location access) ty location
  | .call access arguments =>
    callMember access.name access.accessed (receiver location access) (arguments.map Expr.ty)
      (exprs arguments) ty location
  | .construct constructor arguments =>
    match ty with
    | .ofClass id => newObject id constructor (exprs arguments) location
    | ty => newValue ty (exprs arguments) location

/-- Emits the object whose member is used: the target if there is one, else the object the function
belongs to. -/
def receiver (location : Location) : Access → EmitM Storage
  | ⟨some target, _, _, _⟩ => do toStorage (← expr target) location
  | ⟨none, name, _, _⟩ => do
    match (← get).this with
    | some object => return object
    | none => refuse (.noReceiver name) location

def exprs : List Expr → EmitM (List Typed)
  | [] => return []
  | e :: es => do
    let value ← load (← expr e) e.location
    return value :: (← exprs es)

end

def value (e : Expr) : EmitM Typed := do load (← expr e) e.location

end Emit

end Shader
