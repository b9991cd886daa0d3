import Shader.Literal

/-!
# Values at run time
-/

namespace Shader

/-- A place in memory: a slot and the way into the value it holds. -/
structure Pointer where
  slot : Nat
  path : List Nat
  deriving DecidableEq, Repr

def Pointer.text (p : Pointer) : String :=
  s!"&slot{p.slot}[" ++ String.intercalate ", " (p.path.map fun i => toString i) ++ "]"

inductive Value where
  | bool (value : Bool)
  | int (value : Int32)
  | real (value : Real32)
  | composite (items : List Value)
  | pointer (value : Pointer)
  | undefined
  deriving Repr

namespace Value

def asBool : Value → Option Bool
  | .bool b => some b
  | _ => none

def asInt : Value → Option Int32
  | .int i => some i
  | _ => none

def asReal : Value → Option Real32
  | .real x => some x
  | _ => none

def sort : Value → String
  | .bool _ => "bool"
  | .int _ => "int"
  | .real _ => "real"
  | .composite _ => "composite"
  | .pointer _ => "pointer"
  | .undefined => "undefined"

def ofLiteral : Literal → Value
  | .bool b => .bool b
  | .int i => .int i
  | .real x => .real x

mutual

def text : Value → String
  | .bool b => toString b
  | .int i => toString i.toInt
  | .real x => x.text
  | .composite items => "(" ++ String.intercalate ", " (texts items) ++ ")"
  | .pointer p => p.text
  | .undefined => "undef"

def texts : List Value → List String
  | [] => []
  | v :: vs => text v :: texts vs

end

end Value

end Shader
