import Shader.IR.Block

/-!
# Functions of the intermediate representation

A `Routine` owns its blocks. Blocks are numbered as they are allocated; the emission order lists
those that have been placed, and the first placed block is the entry. The counter of values has no
bound, like the numbers themselves.

`Routine.repair` makes every placed block end in exactly one terminator: what follows a terminator
is never reached, and a block without one returns.
-/

namespace Shader

structure Parameter where
  id : ValueId
  ty : TypeRef
  name : String
  deriving DecidableEq, Repr

structure Routine where
  name : String
  owner : TypeRef
  functionType : TypeRef
  parameters : List Parameter := []
  blocks : List Block := []
  /-- The placed blocks in emission order. -/
  order : List BlockId := []
  nextValue : Nat := 0
  deriving DecidableEq, Repr

namespace Routine

/-- The signature alone. -/
def shell (f : Routine) : Routine := ⟨f.name, f.owner, f.functionType, [], [], [], 0⟩

def newValue (f : Routine) : ValueId × Routine :=
  (⟨f.nextValue⟩, { f with nextValue := f.nextValue + 1 })

def addParameter (f : Routine) (name : String) (ty : TypeRef) : ValueId × Routine :=
  let (id, f) := f.newValue
  (id, { f with parameters := f.parameters ++ [⟨id, ty, name⟩] })

/-- A new block, not placed yet. -/
def allocateBlock (f : Routine) (name : String) : BlockId × Routine :=
  let id : BlockId := ⟨f.blocks.length⟩
  (id, { f with blocks := f.blocks ++ [{ id := id, name := name }] })

/-- Places a block at the end of the emission order, unless it is already placed. -/
def place (f : Routine) (id : BlockId) : Routine :=
  if id ∈ f.order then f else { f with order := f.order ++ [id] }

def block? (f : Routine) (id : BlockId) : Option Block := f.blocks[id.index]?

def modifyBlock (f : Routine) (id : BlockId) (change : Block → Block) : Routine :=
  { f with blocks := f.blocks.modify id.index change }

def placed (f : Routine) : List Block := f.order.filterMap f.block?

def entry? (f : Routine) : Option BlockId := f.order.head?

def entryBlock? (f : Routine) : Option Block := f.entry?.bind f.block?

/-- The number of operations in placed blocks. -/
def opCount (f : Routine) : Nat := f.placed.foldl (fun n x => n + x.opCount) 0

def isWellFormed (f : Routine) : Bool := f.placed.all Block.isWellFormed

/-- The operations that return from a block that would fall off its end: nothing, or an undefined
value of the return type. -/
def fallbackReturn (f : Routine) : Option TypeRef → List Op × Routine
  | none => ([{ opcode := .ret }], f)
  | some ty =>
    let (v, f) := f.newValue
    ([{ opcode := .undef, result := some v, resultType := some ty },
      { opcode := .retValue, operands := [.value v] }], f)

/-- Makes one block end in exactly one terminator. -/
def repairBlock (returnType : Option TypeRef) (f : Routine) (id : BlockId) : Routine :=
  match f.block? id with
  | none => f
  | some b =>
    if b.hasTerminator then f.modifyBlock id Block.truncate
    else
      let (ops, f) := f.fallbackReturn returnType
      f.modifyBlock id fun b => { b with ops := b.ops ++ ops }

/-- Makes every placed block end in exactly one terminator. -/
def repair (f : Routine) (returnType : Option TypeRef) : Routine :=
  f.order.foldl (repairBlock returnType) f

end Routine

end Shader
