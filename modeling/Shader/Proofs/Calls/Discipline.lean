import Shader.Library.Basic
import Shader.Proofs.References.Dependence

/-!
# Identities in their roles, accesses in their modes

The walk of the reference graph and the emission of bodies read a tree differently. The walk looks
an identity up among the functions, the constructors or the member variables, depending on where it
is used, and takes the accessors of a property that the *mode* of the access asks for. Emission
knows all functions in one table, and takes the accessor that the *position* of the access needs.
The two agree on a tree in which

* every identity is used in the role in which it is declared (`Tree.RolesKept`),
* every access of a property with accessors has a mode that covers its position: one that is read
  has a mode that reads, one that is assigned a mode that writes, and one that is assigned with an
  operator a mode that does both (`Tree.ModesAgree`), and
* no property with accessors has an identity that a dependency records for a stored field
  (`Tree.PropertiesApart`), since emission would take it for that field.
-/

namespace Shader

variable (t : Tree)

/-- All expressions in the body of an item, each with the mode that its position needs. -/
def Item.positions : Item → List (IoMode × Expr)
  | .function f => stmtsPositions f.body
  | .constructor k _ => stmtsPositions k.body
  | .preConstructor _ _ => []
  | .memberVariable v => exprPositions? v.initial

/-! ### Roles -/

/-- An identity that the tree declares for a function, accessor, constructor or pre-constructor. -/
def Tree.Declares (id : FunctionId) : Prop := ∃ i ∈ t.items, i.symbol = .function id

/-- The identity is one of a function or accessor, unless it is of another tree. -/
def Tree.OnlyFunction (id : FunctionId) : Prop :=
  t.Declares id → ∃ f, .function f ∈ t.items ∧ f.id = id

/-- The identity is one of a constructor, unless it is of another tree. -/
def Tree.OnlyConstructor (id : FunctionId) : Prop :=
  t.Declares id → ∃ k c, .constructor k c ∈ t.items ∧ k.id = id

/-- What is accessed as a function or through accessors is one. -/
def Accessed.KeepsRole : Accessed → Prop
  | .function id => t.OnlyFunction id
  | .accessors get set => (∀ id ∈ get, t.OnlyFunction id) ∧ ∀ id ∈ set, t.OnlyFunction id
  | .property _ | .intrinsic _ => True

/-- An expression uses the identities that stand in it in their roles. -/
def ExprKind.KeepsRole : ExprKind → Prop
  | .member access => access.accessed.KeepsRole t
  | .call access _ => access.accessed.KeepsRole t
  | .construct constructor _ => ∀ id ∈ constructor, t.OnlyConstructor id
  | _ => True

/-- Every identity is used in the role in which it is declared. -/
def Tree.RolesKept : Prop := ∀ i ∈ t.items, ∀ p ∈ i.positions, p.2.kind.KeepsRole t

/-! ### Modes -/

/-- The tree declares a getter for what is accessed. -/
def Accessed.HasGetter : Accessed → Prop
  | .accessors get _ => ∃ f, .function f ∈ t.items ∧ get = some f.id
  | .property id => ∃ v, .memberVariable v ∈ t.items ∧ v.id = id ∧ v.getter.isSome
  | .function _ | .intrinsic _ => False

/-- The tree declares a setter for what is accessed. -/
def Accessed.HasSetter : Accessed → Prop
  | .accessors _ set => ∃ f, .function f ∈ t.items ∧ set = some f.id
  | .property id => ∃ v, .memberVariable v ∈ t.items ∧ v.id = id ∧ v.setter.isSome
  | .function _ | .intrinsic _ => False

/-- The mode of an access covers what its position needs, as far as there are accessors. -/
def Access.ModeAgrees (needed : IoMode) (a : Access) : Prop :=
  (needed.Reads → a.accessed.HasGetter t → a.io.Reads) ∧
  (needed.Writes → a.accessed.HasSetter t → a.io.Writes)

/-- The mode of an expression covers what its position needs. -/
def ExprKind.ModeAgrees (needed : IoMode) : ExprKind → Prop
  | .member access => access.ModeAgrees t needed
  | _ => True

/-- Every access of a property with accessors has a mode that covers its position. -/
def Tree.ModesAgree : Prop := ∀ i ∈ t.items, ∀ p ∈ i.positions, p.2.kind.ModeAgrees t p.1

/-! ### Properties of dependencies -/

/-- No dependency records the identity of a property with accessors for a property of its own. -/
def Tree.PropertiesApart (dependencies : List Library) : Prop :=
  ∀ v, .memberVariable v ∈ t.items → v.isField = false →
    ∀ d ∈ dependencies, ∀ r ∈ d.records, ∀ p ∈ r.fields, p.property ≠ v.id

end Shader
