import Shader.TypeSpec

/-!
# Short type names

On the command line a type is written by name: a scalar family, a family followed by its number of
lanes, `Real` followed by rows, an `x` and columns, or one of these followed by a length between
square brackets.

* `readNumeral` reads the numbers in such names.
* `TypeSpec.ofName?` reads a name.
-/

namespace Shader

/-- A number in a type name: an optional plus sign and one or more digits, below `2 ^ 32`. -/
def readNumeral (cs : List Char) : Option Nat :=
  let ds := match cs with
    | '+' :: ds => ds
    | ds => ds
  if ds ≠ [] ∧ ds.all Char.isDigit then
    let n := ds.foldl (fun n d => n * 10 + (d.toNat - '0'.toNat)) 0
    if n < UInt32.size then some n else none
  else none

/-- What is left of a text after a beginning. -/
def dropFront : List Char → List Char → Option (List Char)
  | [], cs => some cs
  | _ :: _, [] => none
  | a :: as, c :: cs => if a = c then dropFront as cs else none

/-- The text before and after the first occurrence of a character. -/
def cutAt (c : Char) (cs : List Char) : Option (List Char × List Char) :=
  if c ∈ cs then some (cs.takeWhile (· ≠ c), (cs.dropWhile (· ≠ c)).drop 1) else none

namespace TypeSpec

def ofSuffix? (kind : ScalarKind) (cs : List Char) : Option TypeSpec :=
  match cs with
  | [] => some (.scalar kind)
  | cs =>
    match cutAt 'x' cs with
    | some (rows, columns) =>
      if kind = .real then do
        let rows ← readNumeral rows
        let columns ← readNumeral columns
        return .matrix rows columns
      else none
    | none => do
      let count ← readNumeral cs
      if 2 ≤ count ∧ count ≤ 4 then return .vector kind count else none

/-- Reads the name of a scalar, a vector or a matrix. -/
def ofBaseName? (cs : List Char) : Option TypeSpec := do
  let (kind, rest) ← ScalarKind.all.findSome? fun kind =>
    (dropFront kind.name.toList cs).map fun rest => (kind, rest)
  ofSuffix? kind rest

def ofChars? (cs : List Char) : Option TypeSpec :=
  match cutAt '[' cs with
  | none => ofBaseName? cs
  | some (element, length) =>
    match length.reverse with
    | ']' :: digits => do
      let length ← readNumeral digits.reverse
      let element ← ofBaseName? element
      return .array element length
    | _ => none

def ofName? (name : String) : Option TypeSpec := ofChars? name.toList

end TypeSpec

end Shader
