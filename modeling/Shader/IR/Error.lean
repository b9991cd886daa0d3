import Shader.IR.Ident
import Shader.Types.Kind
import Shader.TypeSpec

/-!
# What the intermediate representation refuses

`IrError` lists the reasons for which a registry, a function under construction or a resolver table
refuses a request. Most of them are operations that are not supported on the given types; for these
`IrError.detail` is the wording without the common lead.
-/

namespace Shader

inductive IrError where
  | notStruct (member owner : String)
  /-- A struct or function type has no part with this number. -/
  | noPart (index : Nat) (owner : String)
  | noParts (owner : String) (kind : Kind)
  | noLayout (name : String) (kind : Kind)
  | noComponent (name : String)
  | noMember (index : Nat) (owner : String)
  | noPointee (name : String)
  | noReturnType (name : String)
  /-- Vectors have two to four lanes. -/
  | vectorWidth (count : Nat)
  | notBuiltin (spec : TypeSpec)
  /-- The type contains itself by value and so has no size. -/
  | endless (ty : TypeRef)
  | duplicateMember (owner member : String)
  | duplicateResolver (key : String)
  | unknownBlock (block : BlockId)
  | unknownFunction (function : FunctionRef)
  | noCurrentBlock
  /-- The registry has no type with this number. -/
  | dangling (ty : TypeRef)
  deriving DecidableEq, Repr

namespace IrError

/-- The wording for an unsupported operation, or nothing for the other reasons. -/
def unsupported? : IrError → Option String
  | .notStruct member owner => some s!"cannot add member '{member}' to non-struct type '{owner}'"
  | .noPart index owner => some s!"sub-type index {index} out of range for '{owner}'"
  | .noParts owner kind =>
    some ("sub-types are only defined for structs and functions, '" ++ owner ++ "' is " ++
      kind.name)
  | .noLayout name kind =>
    some ("type '" ++ name ++ "' of kind " ++ kind.name ++ " has no byte layout")
  | .noComponent name => some s!"type '{name}' has no component type"
  | .noMember index owner => some s!"no member {index} on type '{owner}'"
  | .noPointee name => some s!"pointer '{name}' has no pointee"
  | .noReturnType name => some s!"function type '{name}' has no return type"
  | .vectorWidth count => some s!"vector of {count} components"
  | .notBuiltin spec => some ("'" ++ spec.text ++ "' is not a builtin type")
  | .endless ty => some ("type " ++ ty.text ++ " contains itself")
  | _ => none

def message (e : IrError) : String :=
  match e.unsupported? with
  | some detail => "Unsupported operation: " ++ detail
  | none =>
    match e with
    | .duplicateMember owner member => s!"Duplicate member '{member}' on type '{owner}'"
    | .duplicateResolver key => s!"Duplicate resolver registered for {key}"
    | .unknownBlock block => "Unknown block " ++ block.text
    | .unknownFunction function => "Unknown function " ++ function.text
    | .noCurrentBlock => "No current block to emit into"
    | .dangling ty => "Unknown type " ++ ty.text
    | _ => ""

/-- The wording where the lead of unsupported operations is left out. -/
def detail (e : IrError) : String := e.unsupported?.getD e.message

end IrError

end Shader
