import Shader.Diagnostic
import Shader.Tree.Basic

/-!
# The JSON form of a tree

A record is an object with all its fields, in declaration order. A variant without content is a
string, one with content an object with one member. How a real literal is written is left to the
caller (`real`), since JSON numerals cannot carry every real.
-/

namespace Shader

namespace Json

/-- A variant with content. -/
def tagged (name : String) (content : Json) : Json := .obj [(name, content)]

/-- The name of a value in a table of names. -/
def named {α : Type} [DecidableEq α] (table : List (String × α)) (a : α) : Json :=
  match table.find? (·.2 = a) with
  | some (name, _) => .str name
  | none => .null

end Json

open Json (tagged named)

def ScalarKind.toJson (k : ScalarKind) : Json := .str k.name

def TypeSpec.toJson : TypeSpec → Json
  | .void => .str "Void"
  | .scalar kind => tagged "Scalar" kind.toJson
  | .vector kind count => tagged "Vector" (.obj [("scalar", kind.toJson), ("count", .nat count)])
  | .matrix rows columns => tagged "Matrix" (.obj [("rows", .nat rows), ("columns", .nat columns)])
  | .array element length =>
    tagged "FixedArray" (.obj [("element", element.toJson), ("length", .nat length)])
  | .ofClass id => tagged "Class" (.nat id.number)
  | .math => .str "Math"

def Literal.toJson (real : Real32 → Json) : Literal → Json
  | .bool b => tagged "Bool" (.bool b)
  | .int i => tagged "Int" (.int i.toInt)
  | .real x => tagged "Real" (real x)

def FunctionId.toJson (f : FunctionId) : Json := .nat f.number

def Accessed.toJson : Accessed → Json
  | .function id => tagged "Function" id.toJson
  | .property id => tagged "Property" (.nat id.number)
  | .accessors get set =>
    tagged "GetterSetter"
      (.obj [("get", .option FunctionId.toJson get), ("set", .option FunctionId.toJson set)])
  | .intrinsic owner => tagged "Intrinsic" (.obj [("owner", owner.toJson)])

section

variable (real : Real32 → Json)

mutual

def Expr.toJson : Expr → Json
  | ⟨kind, ty, location⟩ =>
    .obj [("kind", kind.toJson), ("ty", ty.toJson), ("location", location.toJson)]

def ExprKind.toJson : ExprKind → Json
  | .literal value => tagged "Literal" (value.toJson real)
  | .localVar id => tagged "Local" (.nat id.number)
  | .thisObject => .str "This"
  | .binary op left right =>
    tagged "Binary" (.obj [("op", named BinaryOperator.named op), ("left", left.toJson),
      ("right", right.toJson)])
  | .unary op operand =>
    tagged "Unary" (.obj [("op", named UnaryOperator.named op), ("operand", operand.toJson)])
  | .cast operand => tagged "Cast" (.obj [("operand", operand.toJson)])
  | .member access => tagged "MemberAccess" access.toJson
  | .call access arguments =>
    tagged "Call" (.obj [("access", access.toJson), ("arguments", .arr (exprsToJson arguments))])
  | .construct constructor arguments =>
    tagged "Construct" (.obj [("constructor", .option FunctionId.toJson constructor),
      ("arguments", .arr (exprsToJson arguments))])

def Access.toJson : Access → Json
  | ⟨target, name, accessed, io⟩ =>
    .obj [("target", exprToJson? target), ("name", .str name), ("accessed", accessed.toJson),
      ("io", named IoMode.named io)]

def exprToJson? : Option Expr → Json
  | none => .null
  | some e => e.toJson

def exprsToJson : List Expr → List Json
  | [] => []
  | e :: es => e.toJson :: exprsToJson es

end

mutual

def Stmt.toJson : Stmt → Json
  | ⟨kind, location⟩ => .obj [("kind", kind.toJson), ("location", location.toJson)]

def StmtKind.toJson : StmtKind → Json
  | .expression value => tagged "Expression" (value.toJson real)
  | .localVar id name ty initial =>
    tagged "LocalVariable" (.obj [("local", .nat id.number), ("name", .str name),
      ("ty", ty.toJson), ("initial_value", .option (Expr.toJson real) initial)])
  | .assign target op value =>
    tagged "Assign" (.obj [("target", target.toJson real),
      ("op", .option (named BinaryOperator.named) op), ("value", value.toJson real)])
  | .ret value => tagged "Return" (.option (Expr.toJson real) value)
  | .ifChain parts => tagged "If" (.obj [("parts", .arr (partsToJson parts))])
  | .whileLoop condition body =>
    tagged "While" (.obj [("condition", condition.toJson real), ("body", .arr (stmtsToJson body))])
  | .forLoop start condition step body =>
    tagged "For" (.obj [("initializer", stmtToJson? start),
      ("condition", .option (Expr.toJson real) condition), ("iterator", stmtToJson? step),
      ("body", .arr (stmtsToJson body))])
  | .breakLoop => .str "Break"
  | .continueLoop => .str "Continue"

def IfPart.toJson : IfPart → Json
  | ⟨condition, body⟩ =>
    .obj [("condition", .option (Expr.toJson real) condition), ("body", .arr (stmtsToJson body))]

def stmtToJson? : Option Stmt → Json
  | none => .null
  | some s => s.toJson

def stmtsToJson : List Stmt → List Json
  | [] => []
  | s :: ss => s.toJson :: stmtsToJson ss

def partsToJson : List IfPart → List Json
  | [] => []
  | p :: ps => p.toJson :: partsToJson ps

end

def ParameterDecl.toJson (p : ParameterDecl) : Json :=
  .obj [("local", .nat p.id.number), ("name", .str p.name), ("ty", p.ty.toJson)]

def FunctionDecl.toJson (f : FunctionDecl) : Json :=
  .obj [("function", f.id.toJson), ("name", .str f.name), ("location", f.location.toJson),
    ("is_static", .bool f.isStatic), ("parameters", .arr (f.parameters.map ParameterDecl.toJson)),
    ("return_type", f.result.toJson), ("statements", .arr (stmtsToJson real f.body))]

def ConstructorDecl.toJson (c : ConstructorDecl) : Json :=
  .obj [("function", c.id.toJson), ("location", c.location.toJson),
    ("parameters", .arr (c.parameters.map ParameterDecl.toJson)),
    ("statements", .arr (stmtsToJson real c.body))]

def VariableDecl.toJson (v : VariableDecl) : Json :=
  .obj [("property", .nat v.id.number), ("name", .str v.name), ("ty", v.ty.toJson),
    ("location", v.location.toJson), ("is_static", .bool v.isStatic),
    ("initial_value", .option (Expr.toJson real) v.initial),
    ("get", .option (FunctionDecl.toJson real) v.getter),
    ("set", .option (FunctionDecl.toJson real) v.setter)]

def ClassDecl.toJson (c : ClassDecl) : Json :=
  .obj [("type_id", .nat c.id.number), ("name", .str c.name), ("location", c.location.toJson),
    ("pre_constructor", .option FunctionId.toJson c.preConstructor),
    ("variables", .arr (c.members.map (VariableDecl.toJson real))),
    ("constructors", .arr (c.constructors.map (ConstructorDecl.toJson real))),
    ("functions", .arr (c.functions.map (FunctionDecl.toJson real)))]

def Tree.toJson (t : Tree) : Json :=
  .obj [("classes", .arr (t.classes.map (ClassDecl.toJson real)))]

end

end Shader
