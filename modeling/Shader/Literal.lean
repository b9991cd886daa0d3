import Shader.Real32
import Shader.TypeSpec

/-!
# Literals and operators
-/

namespace Shader

/-- A literal of a scalar type. Reals are the same literal only if their words agree. -/
inductive Literal where
  | bool (value : Bool)
  | int (value : Int32)
  | real (value : Real32)
  deriving DecidableEq, Repr

namespace Literal

def kind : Literal → ScalarKind
  | .bool _ => .boolean
  | .int _ => .integer
  | .real _ => .real

def zero : ScalarKind → Literal
  | .boolean => .bool false
  | .integer => .int 0
  | .real => .real .zero

def one : ScalarKind → Literal
  | .boolean => .bool true
  | .integer => .int 1
  | .real => .real .one

def text : Literal → String
  | .bool b => toString b
  | .int i => toString i.toInt
  | .real x => x.text

end Literal

inductive BinaryOperator where
  | add
  | subtract
  | multiply
  | divide
  | modulo
  | equality
  | inequality
  | less
  | lessEqual
  | greater
  | greaterEqual
  | logicalAnd
  | logicalOr
  deriving DecidableEq, Repr

namespace BinaryOperator

/-- All operators with the names they have in a serialized tree. -/
def named : List (String × BinaryOperator) :=
  [("Add", .add), ("Subtract", .subtract), ("Multiply", .multiply), ("Divide", .divide),
   ("Modulo", .modulo), ("Equality", .equality), ("Inequality", .inequality), ("Less", .less),
   ("LessEqual", .lessEqual), ("Greater", .greater), ("GreaterEqual", .greaterEqual),
   ("LogicalAnd", .logicalAnd), ("LogicalOr", .logicalOr)]

def isComparison : BinaryOperator → Bool
  | .equality | .inequality | .less | .lessEqual | .greater | .greaterEqual => true
  | _ => false

def isLogical : BinaryOperator → Bool
  | .logicalAnd | .logicalOr => true
  | _ => false

def symbol : BinaryOperator → String
  | .add => "+"
  | .subtract => "-"
  | .multiply => "*"
  | .divide => "/"
  | .modulo => "%"
  | .equality => "=="
  | .inequality => "!="
  | .less => "<"
  | .lessEqual => "<="
  | .greater => ">"
  | .greaterEqual => ">="
  | .logicalAnd => "&&"
  | .logicalOr => "||"

end BinaryOperator

inductive UnaryOperator where
  | negate
  | logicalNot
  deriving DecidableEq, Repr

def UnaryOperator.named : List (String × UnaryOperator) :=
  [("Negate", .negate), ("LogicalNot", .logicalNot)]

def UnaryOperator.symbol : UnaryOperator → String
  | .negate => "-"
  | .logicalNot => "!"

end Shader
