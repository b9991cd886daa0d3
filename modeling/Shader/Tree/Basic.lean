import Shader.Literal
import Shader.Location

/-!
# The syntax tree

A tree describes a fragment of a shader: classes with member variables, constructors and functions.
Every reference in it has been resolved to an identity, so nodes are plain data and never point at
each other. Each expression carries its type.

Expressions and statements are mutually nested with the lists they contain; functions on them
recurse over the tree and its lists together.
-/

namespace Shader

/-- What an access does to the member. -/
inductive IoMode where
  | read
  | write
  | readWrite
  deriving DecidableEq, Repr

/-- All modes with the names they have in a serialized tree. -/
def IoMode.named : List (String × IoMode) :=
  [("Read", .read), ("Write", .write), ("ReadWrite", .readWrite)]

inductive Accessed where
  | function (id : FunctionId)
  | property (id : PropertyId)
  | accessors (get set : Option FunctionId)
  | intrinsic (owner : TypeSpec)
  deriving DecidableEq, Repr

mutual

structure Expr where
  kind : ExprKind
  ty : TypeSpec
  location : Location

inductive ExprKind where
  | literal (value : Literal)
  | localVar (id : LocalId)
  | thisObject
  | binary (op : BinaryOperator) (left right : Expr)
  | unary (op : UnaryOperator) (operand : Expr)
  /-- Converts its operand to the type of the expression. -/
  | cast (operand : Expr)
  | member (access : Access)
  | call (access : Access) (arguments : List Expr)
  /-- Makes an object of the type of the expression. -/
  | construct (constructor : Option FunctionId) (arguments : List Expr)

/-- A member of an object, or of a type if there is no target. -/
structure Access where
  target : Option Expr
  name : String
  accessed : Accessed
  io : IoMode

end

mutual

structure Stmt where
  kind : StmtKind
  location : Location

inductive StmtKind where
  | expression (value : Expr)
  | localVar (id : LocalId) (name : String) (ty : TypeSpec) (initial : Option Expr)
  /-- An assignment, compound if there is an operator. -/
  | assign (target : Expr) (op : Option BinaryOperator) (value : Expr)
  | ret (value : Option Expr)
  /-- A chain of conditions; only the last part may lack one. -/
  | ifChain (parts : List IfPart)
  | whileLoop (condition : Expr) (body : List Stmt)
  | forLoop (start : Option Stmt) (condition : Option Expr) (step : Option Stmt) (body : List Stmt)
  | breakLoop
  | continueLoop

structure IfPart where
  condition : Option Expr
  body : List Stmt

end

structure ParameterDecl where
  id : LocalId
  name : String
  ty : TypeSpec

structure FunctionDecl where
  id : FunctionId
  name : String
  location : Location := .unknown
  isStatic : Bool := false
  parameters : List ParameterDecl := []
  result : TypeSpec := .void
  body : List Stmt := []

structure ConstructorDecl where
  id : FunctionId
  location : Location := .unknown
  parameters : List ParameterDecl := []
  body : List Stmt := []

/-- A member variable: a stored field, or a property with accessors. -/
structure VariableDecl where
  id : PropertyId
  name : String
  ty : TypeSpec
  location : Location := .unknown
  isStatic : Bool := false
  initial : Option Expr := none
  getter : Option FunctionDecl := none
  setter : Option FunctionDecl := none

def VariableDecl.isField (v : VariableDecl) : Bool := v.getter.isNone && v.setter.isNone

structure ClassDecl where
  id : ClassId
  name : String
  location : Location := .unknown
  /-- The function that runs the initializers of the member variables. -/
  preConstructor : Option FunctionId := none
  members : List VariableDecl := []
  constructors : List ConstructorDecl := []
  functions : List FunctionDecl := []

def ClassDecl.findFunction? (c : ClassDecl) (id : FunctionId) : Option FunctionDecl :=
  c.functions.find? (·.id = id)

structure Tree where
  classes : List ClassDecl := []

namespace Tree

def merge (a b : Tree) : Tree := ⟨a.classes ++ b.classes⟩

def findClass? (t : Tree) (id : ClassId) : Option ClassDecl := t.classes.find? (·.id = id)

end Tree

end Shader
