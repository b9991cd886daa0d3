import Shader.Diagnostic
import Shader.Library.Rules
import Shader.References.Walk

/-!
# Why a tree is refused

A tree can be refused because it is recursive, because it uses a class that nobody defines, or
because it asks for something that has no lowering.
-/

namespace Shader

inductive Refusal where
  | staticVariable (owner name : String)
  | unknownFunction (id : FunctionId)
  | unknownLocal (id : LocalId)
  /-- The object is used where there is none. -/
  | noObject
  | noBinary (key : BinaryKey)
  | noUnary (key : UnaryKey)
  | noConversion (key : ConversionKey)
  | noIntrinsic (key : IntrinsicKey)
  /-- A builtin function that returns its argument is called without one. -/
  | noArgument (key : IntrinsicKey)
  | unreadable (property : String)
  | noGetter (property : String)
  | functionAsValue (name : String)
  | notCallable (name : String)
  | noReceiver (name : String)
  | noDefault (ty : TypeSpec)
  | voidValue
  | voidStorage
  | assignToValue
  | returnMismatch
  | breakOutside
  | continueOutside
  | malformed (name : String)
  | constructorReceiver
  | preConstructorReceiver
  | ir (error : IrError)
  | stated (reason : String)
  deriving DecidableEq, Repr

def Refusal.message : Refusal → String
  | .staticVariable owner name => s!"static member variable '{owner}.{name}'"
  | .unknownFunction id => s!"call to unknown function {id.text}"
  | .unknownLocal id => s!"unknown local {id.text}"
  | .noObject => "'this' used in a static function"
  | .noBinary key => s!"no operator for {key.text}"
  | .noUnary key => s!"no operator for {key.text}"
  | .noConversion key => s!"no conversion for {key.text}"
  | .noIntrinsic key => s!"no intrinsic {key.text}"
  | .noArgument key => s!"intrinsic {key.text} needs an argument"
  | .unreadable property => s!"property '{property}' cannot be read"
  | .noGetter property => s!"property '{property}' has no getter"
  | .functionAsValue name => s!"function '{name}' used as a value"
  | .notCallable name => s!"'{name}' is not callable"
  | .noReceiver name => s!"'{name}' needs a receiver"
  | .noDefault ty => s!"'{ty.text}' has no default constructor"
  | .voidValue => "void expression used as a value"
  | .voidStorage => "void expression has no storage"
  | .assignToValue => "assignment to a value"
  | .returnMismatch => "return does not match the function's type"
  | .breakOutside => "break outside of a loop"
  | .continueOutside => "continue outside of a loop"
  | .malformed name => s!"function '{name}' has a malformed block"
  | .constructorReceiver => "constructor without receiver"
  | .preConstructorReceiver => "pre-constructor without receiver"
  | .ir e => e.detail
  | .stated reason => reason

inductive LowerError where
  | recursion (location : Location) (stack : List Location)
  | refused (cause : Refusal) (location : Location)
  /-- A type that neither the tree nor a dependency defines. -/
  | missingType (name : String) (location : Location)
  deriving DecidableEq, Repr

namespace LowerError

def location : LowerError → Location
  | .recursion location _ => location
  | .refused _ location => location
  | .missingType _ location => location

def message : LowerError → String
  | .recursion location _ => s!"Recursion is illegal in shaders at {location.text}"
  | .refused cause location => s!"Unsupported operation at {location.text}: {cause.message}"
  | .missingType name location => s!"Missing dependency type '{name}' at {location.text}"

def diagnostic : LowerError → Diagnostic
  | .recursion location stack =>
    { Diagnostic.error "Recursion is illegal in shaders" "Object calls itself via the stack:"
        location with stack := stack }
  | .refused cause location => .error cause.message cause.message location
  | .missingType name location =>
    .error "Missing dependency type"
      s!"Type '{name}' was not found in this library or any of its dependencies" location

end LowerError

def Recursion.toError (r : Recursion) : LowerError := .recursion r.location r.stack

end Shader
