/-!
# Kinds of lowered types
-/

namespace Shader

inductive Kind where
  | void
  | bool
  | int
  | float
  | vector
  | matrix
  | struct
  | array
  | pointer
  | image
  | sampledImage
  | function
  | unknown
  deriving DecidableEq, Repr

namespace Kind

def named : List (String × Kind) :=
  [("Void", .void), ("Bool", .bool), ("Int", .int), ("Float", .float), ("Vector", .vector),
   ("Matrix", .matrix), ("Struct", .struct), ("FixedArray", .array), ("Pointer", .pointer),
   ("Image", .image), ("SampledImage", .sampledImage), ("Function", .function),
   ("Unknown", .unknown)]

def name (k : Kind) : String := (named.find? (·.2 = k)).elim "" Prod.fst

def isScalar : Kind → Bool
  | .bool | .int | .float => true
  | _ => false

end Kind

end Shader
