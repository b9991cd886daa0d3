import Shader.IR.Op

/-!
# Basic blocks

A block is a straight sequence of operations that ends in one terminator. A block that heads a
selection or a loop is marked as such and names the block where its branches meet again, and a loop
the block that starts its next round. The marks describe structure only; they are never run.
-/

namespace Shader

/-- What a block heads. -/
inductive BlockRole where
  | direct
  | selection
  | loop
  deriving DecidableEq, Repr

def BlockRole.name : BlockRole → String
  | .direct => "Direct"
  | .selection => "Selection"
  | .loop => "Loop"

structure Block where
  id : BlockId
  name : String
  role : BlockRole := .direct
  /-- Where the branches of a selection or a loop meet again. -/
  merge : Option BlockId := none
  /-- Where the next round of a loop starts. -/
  continuation : Option BlockId := none
  /-- The variables of the function; only its first block has any. -/
  locals : List Op := []
  ops : List Op := []
  deriving DecidableEq, Repr

namespace Block

def isEmpty (b : Block) : Bool := b.ops.isEmpty && b.locals.isEmpty

def opCount (b : Block) : Nat := b.ops.length + b.locals.length

def hasTerminator (b : Block) : Bool := b.ops.any Op.isTerminator

/-- The last operation, if it is a terminator. -/
def terminator? (b : Block) : Option Op := b.ops.getLast?.filter Op.isTerminator

/-- Whether there is exactly one terminator and it comes last. -/
def isWellFormed (b : Block) : Bool :=
  b.ops.countP Op.isTerminator = 1 && b.terminator?.isSome

/-- The operations up to and including the first terminator. -/
def throughTerminator : List Op → List Op
  | [] => []
  | op :: ops => if op.isTerminator then [op] else op :: throughTerminator ops

/-- Drops what follows the first terminator. -/
def truncate (b : Block) : Block := { b with ops := throughTerminator b.ops }

def push (b : Block) (op : Op) : Block := { b with ops := b.ops ++ [op] }

def pushLocal (b : Block) (op : Op) : Block := { b with locals := b.locals ++ [op] }

def markSelection (b : Block) (merge : BlockId) : Block :=
  { b with role := .selection, merge := some merge }

def markLoop (b : Block) (merge continuation : BlockId) : Block :=
  { b with role := .loop, merge := some merge, continuation := some continuation }

end Block

end Shader
