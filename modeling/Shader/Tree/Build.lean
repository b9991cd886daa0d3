import Shader.Tree.Basic

/-!
# Building trees by hand

Shorthands for nodes whose types and modes follow from their parts. Nodes start without a location;
`located` gives them one.
-/

namespace Shader

namespace Expr

def ofKind (kind : ExprKind) (ty : TypeSpec) : Expr := ⟨kind, ty, .unknown⟩

def located (e : Expr) (location : Location) : Expr := { e with location := location }

/-- A literal, of the scalar type of its family. -/
def literal (value : Literal) : Expr := ofKind (.literal value) (.scalar value.kind)

def boolean (value : Bool) : Expr := literal (.bool value)

def localVar (id : LocalId) (ty : TypeSpec) : Expr := ofKind (.localVar id) ty

def thisObject (ty : TypeSpec) : Expr := ofKind .thisObject ty

/-- The type of the result of an operator: truth values, as many as the left operand has lanes, for
comparisons and logic, and the type of the left operand otherwise. -/
def binaryType (op : BinaryOperator) (left : TypeSpec) : TypeSpec :=
  if op.isComparison || op.isLogical then
    .withDimension .boolean (left.dimension.getD 1)
  else left

def binary (op : BinaryOperator) (left right : Expr) : Expr :=
  ofKind (.binary op left right) (binaryType op left.ty)

def unary (op : UnaryOperator) (operand : Expr) : Expr := ofKind (.unary op operand) operand.ty

def cast (operand : Expr) (ty : TypeSpec) : Expr := ofKind (.cast operand) ty

def reading (target : Option Expr) (name : String) (accessed : Accessed) : Access :=
  ⟨target, name, accessed, .read⟩

def call (target : Option Expr) (name : String) (id : FunctionId) (arguments : List Expr)
    (ty : TypeSpec) : Expr :=
  ofKind (.call (reading target name (.function id)) arguments) ty

def intrinsic (owner : TypeSpec) (name : String) (arguments : List Expr) (ty : TypeSpec) : Expr :=
  ofKind (.call (reading none name (.intrinsic owner)) arguments) ty

def property (target : Expr) (name : String) (id : PropertyId) (ty : TypeSpec) : Expr :=
  ofKind (.member (reading (some target) name (.property id))) ty

def construct (ty : TypeSpec) (constructor : Option FunctionId) (arguments : List Expr) : Expr :=
  ofKind (.construct constructor arguments) ty

/-- Marks a member access as written to. -/
def forWrite (e : Expr) : Expr :=
  match e.kind with
  | .member access => { e with kind := .member { access with io := .write } }
  | _ => e

end Expr

namespace Stmt

def ofKind (kind : StmtKind) : Stmt := ⟨kind, .unknown⟩

def located (s : Stmt) (location : Location) : Stmt := { s with location := location }

/-- An expression as a statement, at the place of the expression. -/
def expression (e : Expr) : Stmt := ⟨.expression e, e.location⟩

def ret (value : Option Expr) : Stmt := ofKind (.ret value)

def localVar (id : LocalId) (name : String) (ty : TypeSpec) (initial : Option Expr) : Stmt :=
  ofKind (.localVar id name ty initial)

def assign (target value : Expr) : Stmt := ofKind (.assign target.forWrite none value)

def compound (target : Expr) (op : BinaryOperator) (value : Expr) : Stmt :=
  ofKind (.assign target (some op) value)

def ifElse (condition : Expr) (body : List Stmt) (otherwise : Option (List Stmt)) : Stmt :=
  let rest := match otherwise with
    | none => []
    | some body => [IfPart.mk none body]
  ofKind (.ifChain (IfPart.mk (some condition) body :: rest))

def whileLoop (condition : Expr) (body : List Stmt) : Stmt := ofKind (.whileLoop condition body)

end Stmt

end Shader
