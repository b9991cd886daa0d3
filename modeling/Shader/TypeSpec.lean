import Shader.Ident

/-!
# Types of the language

A `TypeSpec` is a type as the syntax tree mentions it. Builtin types are described by their
structure, classes by their identity. `math` is no type of values: it owns the functions that belong
to no other type.
-/

namespace Shader

inductive ScalarKind where
  | boolean
  | integer
  | real
  deriving DecidableEq, Repr

def ScalarKind.name : ScalarKind → String
  | .boolean => "Boolean"
  | .integer => "Integer"
  | .real => "Real"

/-- All scalar families, in the order in which names are tried. -/
def ScalarKind.all : List ScalarKind := [.boolean, .integer, .real]

inductive TypeSpec where
  | void
  | scalar (kind : ScalarKind)
  | vector (kind : ScalarKind) (count : Nat)
  | matrix (rows columns : Nat)
  | array (element : TypeSpec) (length : Nat)
  | ofClass (id : ClassId)
  | math
  deriving DecidableEq, Repr

namespace TypeSpec

def boolean : TypeSpec := .scalar .boolean

def integer : TypeSpec := .scalar .integer

def real : TypeSpec := .scalar .real

/-- A scalar for a dimension of at most one, a vector otherwise. -/
def withDimension (kind : ScalarKind) (dimension : Nat) : TypeSpec :=
  if dimension ≤ 1 then .scalar kind else .vector kind dimension

def scalarKind : TypeSpec → Option ScalarKind
  | .scalar kind => some kind
  | .vector kind _ => some kind
  | .matrix _ _ => some .real
  | _ => none

def dimension : TypeSpec → Option Nat
  | .scalar _ => some 1
  | .vector _ count => some count
  | _ => none

def isVoid : TypeSpec → Bool
  | .void => true
  | _ => false

def isBoolean : TypeSpec → Bool
  | .scalar kind => kind = .boolean
  | .vector kind _ => kind = .boolean
  | _ => false

def isClass : TypeSpec → Bool
  | .ofClass _ => true
  | _ => false

/-- The name of a builtin type. Classes are named by their declaration. -/
def builtinName : TypeSpec → Option String
  | .void => some "Void"
  | .scalar kind => some kind.name
  | .vector kind count => some (kind.name ++ toString count)
  | .matrix rows columns => some s!"Real{rows}x{columns}"
  | .array element length => element.builtinName.map fun name => s!"FixedArray[{name}, {length}]"
  | .ofClass _ => none
  | .math => none

def text : TypeSpec → String
  | .void => "Void"
  | .scalar kind => kind.name
  | .vector kind count => kind.name ++ toString count
  | .matrix rows columns => s!"Real{rows}x{columns}"
  | .array element length => "FixedArray[" ++ element.text ++ s!", {length}]"
  | .ofClass id => "class " ++ id.text
  | .math => "Math"

end TypeSpec

end Shader
