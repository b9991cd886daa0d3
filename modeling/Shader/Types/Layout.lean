import Shader.Types.Registry

/-!
# Buffer layouts

Sizes and alignments follow the rules of uniform buffers: a scalar takes four bytes, a vector of
three lanes is aligned like one of four, columns of matrices and elements of arrays start at
multiples of sixteen, and a struct is padded to a multiple of sixteen.

`Registry.measure` states the rules for one type in terms of the layouts of the types it is made of.
It is used twice:

* `Registry.shapeLayout` applies it all the way down, to the types as they are;
* `Registry.layout` remembers the layout of every type it has worked out and answers from memory
  the next time.

A type that contains itself by value has no layout; the number of types bounds the depth of all
others.

Sizes, alignments and offsets are words of 32 bits, and so is the arithmetic on them: what does not
fit wraps around.
-/

namespace Shader

/-- The least multiple of `alignment` that is not below `size`, unless it is too large for a word; an
alignment of zero asks for nothing. -/
def alignUp (size alignment : UInt32) : UInt32 :=
  if alignment = 0 then size else size + (alignment - size % alignment) % alignment

namespace Registry

/-- The type a vector, matrix or array is made of. -/
def componentOf (i : TypeInfo) : Except IrError TypeRef :=
  match i.component with
  | some t => .ok t
  | none => .error (.noComponent i.name)

section Rules

variable {m : Type → Type} [Monad m] [MonadExceptOf IrError m]

/-- Places a member behind the ones before it: the running end and the largest alignment. -/
def placeMember (measure : TypeRef → m Layout) (sofar : Layout) (member : TypeRef) : m Layout := do
  let l ← measure member
  return ⟨alignUp sofar.size l.alignment + l.size, max sofar.alignment l.alignment⟩

/-- The layout rules, in terms of the layouts of the types a type is made of. -/
def measure (r : Registry) (measure : TypeRef → m Layout) (i : TypeInfo) : m Layout := do
  match i.kind with
  | .bool | .int | .float => return ⟨4, 4⟩
  | .vector =>
    let lane ← measure (← liftExcept (componentOf i))
    -- three lanes are aligned like four but take the room of three
    let lanes := if i.count = 3 then 4 else i.count.toUInt32
    return ⟨lane.size * i.count.toUInt32, lane.alignment * lanes⟩
  | .matrix =>
    let column ← liftExcept (componentOf i)
    let scalar ← liftExcept (r.info column >>= componentOf)
    let alignment := 4 * (← measure scalar).alignment
    return ⟨alignment * i.count.toUInt32, alignment⟩
  | .array =>
    let element ← liftExcept (componentOf i)
    let l ← measure element
    let kind := (← liftExcept (r.info element)).kind
    let alignment := if kind.isScalar || kind = .vector then 16 else l.alignment
    return ⟨alignUp l.size alignment * i.count.toUInt32, alignment⟩
  | .struct =>
    let packed ← i.parts.foldlM (placeMember measure) ⟨0, 0⟩
    return ⟨alignUp packed.size 16, max packed.alignment 1⟩
  | kind => throw (.noLayout i.name kind)
where
  liftExcept {α : Type} : Except IrError α → m α
    | .ok a => pure a
    | .error e => throw e

/-- The offset at which the last of some members starts. -/
def offsetOfLast (measure : TypeRef → m Layout) : UInt32 → List TypeRef → m Nat
  | offset, [] => return offset
  | offset, [member] => return alignUp offset (← measure member).alignment
  | offset, member :: members => do
    let l ← measure member
    offsetOfLast measure (alignUp offset l.alignment + l.size) members

end Rules

/-! ### Layouts of the types as they are -/

/-- The layout of a type by the rules alone, to some depth. -/
def shapeLayoutWithin (r : Registry) : Nat → TypeRef → Except IrError Layout
  | 0, t => .error (.endless t)
  | depth + 1, t => do
    let i ← r.info t
    r.measure (r.shapeLayoutWithin depth) i

/-- The layout of a type by the rules alone. -/
def shapeLayout (r : Registry) (t : TypeRef) : Except IrError Layout :=
  r.shapeLayoutWithin (r.size + 1) t

/-! ### Remembered layouts -/

/-- The layout of a type, from memory if it was asked for before, to some depth. -/
def layoutWithin : Nat → TypeRef → TypeM Layout
  | 0, t => throw (.endless t)
  | depth + 1, t => do
    let r ← get
    let i ← r.info t
    match i.layout with
    | some l => return l
    | none =>
      let l ← r.measure (layoutWithin depth) i
      modifyThe Registry (·.modify t fun i => { i with layout := some l })
      return l

/-- The layout of a type, from memory if it was asked for before. -/
def layout (t : TypeRef) : TypeM Layout := do
  let r ← get
  layoutWithin (r.size + 1) t

def byteSize (t : TypeRef) : TypeM Nat := return (← layout t).size

def byteAlignment (t : TypeRef) : TypeM Nat := return (← layout t).alignment

def memberOffset (owner : TypeRef) (index : Nat) : TypeM Nat := do
  let r ← get
  let i ← r.info owner
  if i.kind ≠ .struct ∨ i.parts.length ≤ index then
    throw (.noMember index i.name)
  offsetOfLast layout 0 (i.parts.take (index + 1))

end Registry

end Shader
