import Shader.Machine.Run

/-!
# Default objects

What a new object of a class holds is found by running its constructor: the declared one without
parameters, or else the pre-constructor.
-/

namespace Shader

inductive ObjectError where
  | unknownClass (id : ClassId)
  | unknownProperty (className : String) (property : PropertyId)
  | construction (className : String) (error : RunError)
  deriving DecidableEq, Repr

def ObjectError.message : ObjectError → String
  | .unknownClass id => s!"unknown class {id.text}"
  | .unknownProperty className property => s!"{className} has no readable property {property.text}"
  | .construction className error => s!"constructing {className} failed: {error.message}"

structure Object where
  classId : ClassId
  className : String
  /-- The stored fields in the order of the members. -/
  value : Value

namespace Object

/-- Initializes an object in a fresh machine and reads it back. -/
def run (l : Library) (limit : Nat) (owner : Library) (ty : TypeRef)
    (constructor : Option FunctionRef) : RunM Value := do
  let zero ← match owner.types.zeroValue ty with
    | .ok v => pure v
    | .error e => throw (.ir e)
  let this ← Machine.allocate zero
  match constructor with
  | some f => let _ ← Machine.call l limit f [this]
  | none => pure ()
  (← get).read this

/-- A new object of a class, made within so many blocks. -/
def default (l : Library) (limit : Nat) (id : ClassId) : Except ObjectError Object :=
  match l.findRecord? id, l.findClassType? id with
  | some record, some (owner, ty) =>
    match run l limit owner ty (record.defaultConstructor.or record.preConstructor) {} with
    | (.ok v, _) => .ok ⟨id, record.name, v⟩
    | (.error e, _) => .error (.construction record.name e)
  | _, _ => .error (.unknownClass id)

def property (l : Library) (o : Object) (property : PropertyId) : Except ObjectError Value :=
  let member : Option Nat := do
    let record ← l.findRecord? o.classId
    let field ← record.fields.find? (·.property = property)
    field.member
  match member, o.value with
  | some i, .composite values =>
    match values[i]? with
    | some v => .ok v
    | none => .error (.unknownProperty o.className property)
  | _, _ => .error (.unknownProperty o.className property)

end Object

end Shader
