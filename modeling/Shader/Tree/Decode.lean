import Shader.Json.Decode
import Shader.Tree.Basic

/-!
# Reading trees

Decoders for the JSON form of a tree. Every decoder takes the number of brackets that may still be
opened; a decoder of a bracketed value hands one less to the decoders of its content.

* `Tree.ofNode` decodes a tree.
* `Tree.ofText` reads a tree from a text, with at most `nestingLimit` open brackets.

Fields that hold a default, or nothing, may be left out; unknown fields are passed over.
-/

namespace Shader

open Json

namespace Decode

universe u

/-- What is handed to the content of a bracket. -/
def inside {α : Type u} (content : Nat → α) : Nat → Option α
  | 0 => none
  | budget + 1 => some (content budget)

def canOpen (budget : Nat) : Bool := 0 < budget

/-! ### Records of leaves -/

def location (budget : Nat) : Decoder Location := fun node => do
  let (file, line, column, _) ← record "struct SourceLocation" (inside (fun _ =>
    .cons (.required "filename" string) <|
    .cons (.required "line" natural) <|
    .cons (.required "column" natural) .nil) budget) node
  return ⟨file, line, column⟩

def scalarKind (budget : Nat) : Decoder ScalarKind :=
  choice (ScalarKind.all.map fun k => (k.name, k)) (canOpen budget)

def functionId : Decoder FunctionId := fun node => FunctionId.mk <$> natural node

def ioMode (budget : Nat) : Decoder IoMode := choice IoMode.named (canOpen budget)

def binaryOperator (budget : Nat) : Decoder BinaryOperator :=
  choice BinaryOperator.named (canOpen budget)

def unaryOperator (budget : Nat) : Decoder UnaryOperator :=
  choice UnaryOperator.named (canOpen budget)

def literal (budget : Nat) : Decoder Literal :=
  variant [("Bool", .single), ("Int", .single), ("Real", .single)] (inside (fun _ => fun
    | "Bool" => fun n => .bool <$> boolean n
    | "Int" => fun n => .int <$> integer n
    | _ => fun n => .real <$> real n) budget)

/-! ### Types -/

def typeForms : List (String × Form TypeSpec) :=
  [("Void", .plain .void), ("Scalar", .single), ("Vector", .fields), ("Matrix", .fields),
   ("FixedArray", .fields), ("Class", .single), ("Math", .plain .math)]

def vectorFields (budget : Nat) : Decoder TypeSpec := fun node => do
  let (kind, count, _) ← record "struct variant TypeSpec::Vector" (inside (fun b =>
    .cons (.required "scalar" (scalarKind b)) <|
    .cons (.required "count" natural) .nil) budget) node
  return .vector kind count

def matrixFields (budget : Nat) : Decoder TypeSpec := fun node => do
  let (rows, columns, _) ← record "struct variant TypeSpec::Matrix" (inside (fun _ =>
    .cons (.required "rows" natural) <|
    .cons (.required "columns" natural) .nil) budget) node
  return .matrix rows columns

mutual

def typeSpec : Nat → Decoder TypeSpec
  | 0 => variant typeForms none
  | budget + 1 => variant typeForms (some fun
    | "Scalar" => fun n => .scalar <$> scalarKind budget n
    | "Vector" => vectorFields budget
    | "Matrix" => matrixFields budget
    | "FixedArray" => arrayFields budget
    | _ => fun n => (.ofClass ∘ ClassId.mk) <$> natural n)

def arrayFields : Nat → Decoder TypeSpec
  | 0 => record "struct variant TypeSpec::FixedArray" none
  | budget + 1 => fun node => do
    let (element, length, _) ← record "struct variant TypeSpec::FixedArray" (some
      (.cons (.required "element" (typeSpec budget)) <|
       .cons (.required "length" natural) .nil)) node
    return .array element length

end

/-! ### Expressions -/

def accessorsFields (budget : Nat) : Decoder Accessed := fun node => do
  let (getter, setter, _) ← record "struct variant AccessedMember::GetterSetter" (inside (fun _ =>
    .cons (.optional "get" functionId) <|
    .cons (.optional "set" functionId) .nil) budget) node
  return .accessors getter setter

def intrinsicFields (budget : Nat) : Decoder Accessed := fun node => do
  let (owner, _) ← record "struct variant AccessedMember::Intrinsic" (inside (fun b =>
    .cons (.required "owner" (typeSpec b)) .nil) budget) node
  return .intrinsic owner

def accessed (budget : Nat) : Decoder Accessed :=
  variant [("Function", .single), ("Property", .single), ("GetterSetter", .fields),
      ("Intrinsic", .fields)] (inside (fun b => fun
    | "Function" => fun n => .function <$> functionId n
    | "Property" => fun n => (.property ∘ PropertyId.mk) <$> natural n
    | "GetterSetter" => accessorsFields b
    | _ => intrinsicFields b) budget)

def exprForms : List (String × Form ExprKind) :=
  [("Literal", .single), ("Local", .single), ("This", .plain .thisObject), ("Binary", .fields),
   ("Unary", .fields), ("Cast", .fields), ("MemberAccess", .single), ("Call", .fields),
   ("Construct", .fields)]

mutual

def expr : Nat → Decoder Expr
  | 0 => record "struct Expression" none
  | budget + 1 => fun node => do
    let (kind, ty, place, _) ← record "struct Expression" (some
      (.cons (.required "kind" (exprKind budget)) <|
       .cons (.required "ty" (typeSpec budget)) <|
       .cons (.defaulted "location" (location budget) .unknown) .nil)) node
    return ⟨kind, ty, place⟩

def exprKind : Nat → Decoder ExprKind
  | 0 => variant exprForms none
  | budget + 1 => variant exprForms (some fun
    | "Literal" => fun n => .literal <$> literal budget n
    | "Local" => fun n => (.localVar ∘ LocalId.mk) <$> natural n
    | "Binary" => binaryFields budget
    | "Unary" => unaryFields budget
    | "Cast" => castFields budget
    | "MemberAccess" => fun n => .member <$> access budget n
    | "Call" => callFields budget
    | _ => constructFields budget)

def binaryFields : Nat → Decoder ExprKind
  | 0 => record "struct variant ExpressionKind::Binary" none
  | budget + 1 => fun node => do
    let (op, left, right, _) ← record "struct variant ExpressionKind::Binary" (some
      (.cons (.required "op" (binaryOperator budget)) <|
       .cons (.required "left" (expr budget)) <|
       .cons (.required "right" (expr budget)) .nil)) node
    return .binary op left right

def unaryFields : Nat → Decoder ExprKind
  | 0 => record "struct variant ExpressionKind::Unary" none
  | budget + 1 => fun node => do
    let (op, operand, _) ← record "struct variant ExpressionKind::Unary" (some
      (.cons (.required "op" (unaryOperator budget)) <|
       .cons (.required "operand" (expr budget)) .nil)) node
    return .unary op operand

def castFields : Nat → Decoder ExprKind
  | 0 => record "struct variant ExpressionKind::Cast" none
  | budget + 1 => fun node => do
    let (operand, _) ← record "struct variant ExpressionKind::Cast" (some
      (.cons (.required "operand" (expr budget)) .nil)) node
    return .cast operand

def callFields : Nat → Decoder ExprKind
  | 0 => record "struct variant ExpressionKind::Call" none
  | budget + 1 => fun node => do
    let (target, arguments, _) ← record "struct variant ExpressionKind::Call" (some
      (.cons (.required "access" (access budget)) <|
       .cons (.required "arguments" (exprs budget)) .nil)) node
    return .call target arguments

def constructFields : Nat → Decoder ExprKind
  | 0 => record "struct variant ExpressionKind::Construct" none
  | budget + 1 => fun node => do
    let (constructor, arguments, _) ← record "struct variant ExpressionKind::Construct" (some
      (.cons (.optional "constructor" functionId) <|
       .cons (.required "arguments" (exprs budget)) .nil)) node
    return .construct constructor arguments

def access : Nat → Decoder Access
  | 0 => record "struct MemberAccess" none
  | budget + 1 => fun node => do
    let (target, name, member, io, _) ← record "struct MemberAccess" (some
      (.cons (.optional "target" (expr budget)) <|
       .cons (.required "name" string) <|
       .cons (.required "accessed" (accessed budget)) <|
       .cons (.defaulted "io" (ioMode budget) .read) .nil)) node
    return ⟨target, name, member, io⟩

def exprs : Nat → Decoder (List Expr)
  | 0 => sequence none
  | budget + 1 => sequence (some (expr budget))

end

/-! ### Statements -/

def stmtForms : List (String × Form StmtKind) :=
  [("Expression", .single), ("LocalVariable", .fields), ("Assign", .fields), ("Return", .single),
   ("If", .fields), ("While", .fields), ("For", .fields), ("Break", .plain .breakLoop),
   ("Continue", .plain .continueLoop)]

def localFields (budget : Nat) : Decoder StmtKind := fun node => do
  let (id, name, ty, initial, _) ← record "struct variant StatementKind::LocalVariable"
    (inside (fun b =>
      .cons (.required "local" natural) <|
      .cons (.required "name" string) <|
      .cons (.required "ty" (typeSpec b)) <|
      .cons (.optional "initial_value" (expr b)) .nil) budget) node
  return .localVar ⟨id⟩ name ty initial

def assignFields (budget : Nat) : Decoder StmtKind := fun node => do
  let (target, op, value, _) ← record "struct variant StatementKind::Assign" (inside (fun b =>
    .cons (.required "target" (expr b)) <|
    .cons (.optional "op" (binaryOperator b)) <|
    .cons (.required "value" (expr b)) .nil) budget) node
  return .assign target op value

mutual

def stmt : Nat → Decoder Stmt
  | 0 => record "struct Statement" none
  | budget + 1 => fun node => do
    let (kind, place, _) ← record "struct Statement" (some
      (.cons (.required "kind" (stmtKind budget)) <|
       .cons (.defaulted "location" (location budget) .unknown) .nil)) node
    return ⟨kind, place⟩

def stmtKind : Nat → Decoder StmtKind
  | 0 => variant stmtForms none
  | budget + 1 => variant stmtForms (some fun
    | "Expression" => fun n => .expression <$> expr budget n
    | "LocalVariable" => localFields budget
    | "Assign" => assignFields budget
    | "Return" => fun n => .ret <$> Json.optional (expr budget) n
    | "If" => ifFields budget
    | "While" => whileFields budget
    | _ => forFields budget)

def ifFields : Nat → Decoder StmtKind
  | 0 => record "struct variant StatementKind::If" none
  | budget + 1 => fun node => do
    let (parts, _) ← record "struct variant StatementKind::If" (some
      (.cons (.required "parts" (ifParts budget)) .nil)) node
    return .ifChain parts

def whileFields : Nat → Decoder StmtKind
  | 0 => record "struct variant StatementKind::While" none
  | budget + 1 => fun node => do
    let (condition, body, _) ← record "struct variant StatementKind::While" (some
      (.cons (.required "condition" (expr budget)) <|
       .cons (.required "body" (stmts budget)) .nil)) node
    return .whileLoop condition body

def forFields : Nat → Decoder StmtKind
  | 0 => record "struct variant StatementKind::For" none
  | budget + 1 => fun node => do
    let (start, condition, step, body, _) ← record "struct variant StatementKind::For" (some
      (.cons (.optional "initializer" (stmt budget)) <|
       .cons (.optional "condition" (expr budget)) <|
       .cons (.optional "iterator" (stmt budget)) <|
       .cons (.required "body" (stmts budget)) .nil)) node
    return .forLoop start condition step body

def ifPart : Nat → Decoder IfPart
  | 0 => record "struct IfPart" none
  | budget + 1 => fun node => do
    let (condition, body, _) ← record "struct IfPart" (some
      (.cons (.optional "condition" (expr budget)) <|
       .cons (.required "body" (stmts budget)) .nil)) node
    return ⟨condition, body⟩

def ifParts : Nat → Decoder (List IfPart)
  | 0 => sequence none
  | budget + 1 => sequence (some (ifPart budget))

def stmts : Nat → Decoder (List Stmt)
  | 0 => sequence none
  | budget + 1 => sequence (some (stmt budget))

end

/-! ### Declarations -/

def parameter (budget : Nat) : Decoder ParameterDecl := fun node => do
  let (id, name, ty, _) ← record "struct ParameterNode" (inside (fun b =>
    .cons (.required "local" natural) <|
    .cons (.required "name" string) <|
    .cons (.required "ty" (typeSpec b)) .nil) budget) node
  return ⟨⟨id⟩, name, ty⟩

def listOf {α : Type} (item : Nat → Decoder α) (budget : Nat) : Decoder (List α) :=
  sequence (inside item budget)

def function (budget : Nat) : Decoder FunctionDecl := fun node => do
  let (id, name, place, isStatic, parameters, result, body, _) ← record "struct FunctionNode"
    (inside (fun b =>
      .cons (.required "function" functionId) <|
      .cons (.required "name" string) <|
      .cons (.defaulted "location" (location b) .unknown) <|
      .cons (.defaulted "is_static" boolean false) <|
      .cons (.defaulted "parameters" (listOf parameter b) []) <|
      .cons (.defaulted "return_type" (typeSpec b) .void) <|
      .cons (.defaulted "statements" (stmts b) []) .nil) budget) node
  return ⟨id, name, place, isStatic, parameters, result, body⟩

def constructor (budget : Nat) : Decoder ConstructorDecl := fun node => do
  let (id, place, parameters, body, _) ← record "struct ConstructorNode" (inside (fun b =>
    .cons (.required "function" functionId) <|
    .cons (.defaulted "location" (location b) .unknown) <|
    .cons (.defaulted "parameters" (listOf parameter b) []) <|
    .cons (.defaulted "statements" (stmts b) []) .nil) budget) node
  return ⟨id, place, parameters, body⟩

def memberVariable (budget : Nat) : Decoder VariableDecl := fun node => do
  let (id, name, ty, place, isStatic, initial, getter, setter, _) ←
    record "struct MemberVariableNode" (inside (fun b =>
      .cons (.required "property" natural) <|
      .cons (.required "name" string) <|
      .cons (.required "ty" (typeSpec b)) <|
      .cons (.defaulted "location" (location b) .unknown) <|
      .cons (.defaulted "is_static" boolean false) <|
      .cons (.defaulted "initial_value" (Json.optional (expr b)) none) <|
      .cons (.defaulted "get" (Json.optional (function b)) none) <|
      .cons (.defaulted "set" (Json.optional (function b)) none) .nil) budget) node
  return ⟨⟨id⟩, name, ty, place, isStatic, initial, getter, setter⟩

def classDecl (budget : Nat) : Decoder ClassDecl := fun node => do
  let (id, name, place, preConstructor, memberVariables, constructors, functions, _) ←
    record "struct ClassNode" (inside (fun b =>
      .cons (.required "type_id" natural) <|
      .cons (.required "name" string) <|
      .cons (.defaulted "location" (location b) .unknown) <|
      .cons (.defaulted "pre_constructor" (Json.optional functionId) none) <|
      .cons (.defaulted "variables" (listOf memberVariable b) []) <|
      .cons (.defaulted "constructors" (listOf constructor b) []) <|
      .cons (.defaulted "functions" (listOf function b) []) .nil) budget) node
  return ⟨⟨id⟩, name, place, preConstructor, memberVariables, constructors, functions⟩

end Decode

namespace Tree

def ofNode (budget : Nat) : Decoder Tree := fun node => do
  let (classes, _) ← record "struct SyntaxTree" (Decode.inside (fun b =>
    .cons (.defaulted "classes" (Decode.listOf Decode.classDecl b) []) .nil) budget) node
  return ⟨classes⟩

/-- How many brackets may be open at a time. -/
def nestingLimit : Nat := 127

def ofText (text : String) : Except Fault Tree := decodeText (ofNode nestingLimit) text

end Tree

end Shader
