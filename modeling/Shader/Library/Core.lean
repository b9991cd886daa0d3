import Shader.Library.Basic

/-!
# The core library

The rules every shader library depends on: arithmetic, comparison, logic, conversions and builtin
functions, for each scalar family in one to four lanes. Ordering is defined on scalars only.
-/

namespace Shader

namespace Core

def dimensions : List Nat := [1, 2, 3, 4]

def arithmetic : ScalarKind → List (BinaryOperator × Opcode)
  | .real =>
    [(.add, .fAdd), (.subtract, .fSub), (.multiply, .fMul), (.divide, .fDiv), (.modulo, .fMod)]
  | .integer =>
    [(.add, .iAdd), (.subtract, .iSub), (.multiply, .iMul), (.divide, .sDiv), (.modulo, .sMod)]
  | .boolean => []

def equality : ScalarKind → List (BinaryOperator × Opcode)
  | .real => [(.equality, .fOrdEqual), (.inequality, .fOrdNotEqual)]
  | .integer => [(.equality, .iEqual), (.inequality, .iNotEqual)]
  | .boolean => [(.equality, .logicalEqual), (.inequality, .logicalNotEqual)]

def ordering : ScalarKind → List (BinaryOperator × Opcode)
  | .real =>
    [(.less, .fOrdLessThan), (.lessEqual, .fOrdLessThanEqual), (.greater, .fOrdGreaterThan),
     (.greaterEqual, .fOrdGreaterThanEqual)]
  | .integer =>
    [(.less, .sLessThan), (.lessEqual, .sLessThanEqual), (.greater, .sGreaterThan),
     (.greaterEqual, .sGreaterThanEqual)]
  | .boolean => []

/-- Rules that apply one operation to two operands of the same type. -/
def same (ty : TypeSpec) (operators : List (BinaryOperator × Opcode)) :
    List (BinaryKey × BinaryRule) :=
  operators.map fun (op, opcode) => (⟨ty, ty, op⟩, .instruction opcode)

def binary : List (BinaryKey × BinaryRule) :=
  ScalarKind.all.flatMap (fun kind => dimensions.flatMap fun n =>
    same (.withDimension kind n) (arithmetic kind ++ equality kind)) ++
  ScalarKind.all.flatMap (fun kind => same (.scalar kind) (ordering kind)) ++
  [2, 3, 4].map (fun n =>
    (⟨.withDimension .real n, .real, .multiply⟩, .instruction .vectorTimesScalar)) ++
  [(⟨.boolean, .boolean, .logicalOr⟩, .shortCircuit .or),
   (⟨.boolean, .boolean, .logicalAnd⟩, .shortCircuit .and)]

def unary : List (UnaryKey × UnaryRule) :=
  dimensions.flatMap fun n =>
    [(⟨.withDimension .integer n, .negate⟩, .instruction .sNegate),
     (⟨.withDimension .real n, .negate⟩, .instruction .fNegate),
     (⟨.withDimension .boolean n, .logicalNot⟩, .instruction .logicalNot)]

def conversionsIn (n : Nat) : List (ConversionKey × ConversionRule) :=
  let ty := fun kind => TypeSpec.withDimension kind n
  [(⟨ty .real, ty .integer⟩, .instruction .convertFToS),
   (⟨ty .integer, ty .real⟩, .instruction .convertSToF),
   (⟨ty .boolean, ty .integer⟩, .ofBool (.zero .integer) (.one .integer)),
   (⟨ty .boolean, ty .real⟩, .ofBool (.zero .real) (.one .real)),
   (⟨ty .integer, ty .boolean⟩, .toBool .iNotEqual (.zero .integer)),
   (⟨ty .real, ty .boolean⟩, .toBool .fOrdNotEqual (.zero .real))]

/-- The rules for builtin functions in `n` lanes. A single truth value is its own disjunction and
conjunction, and scalars have no dot product. -/
def intrinsicsIn (n : Nat) : List (IntrinsicKey × IntrinsicRule) :=
  let ty := fun kind => TypeSpec.withDimension kind n
  let fold := fun opcode => if n = 1 then IntrinsicRule.identity else .instruction opcode
  [(⟨ty .real, "Reinterpret", [ty .integer]⟩, .instruction .bitcast),
   (⟨ty .integer, "Reinterpret", [ty .real]⟩, .instruction .bitcast),
   (⟨.math, "Any", [ty .boolean]⟩, fold .any),
   (⟨.math, "All", [ty .boolean]⟩, fold .all)] ++
  if n = 1 then [] else [(⟨.math, "Dot", [ty .real, ty .real]⟩, .instruction .dot)]

def rules : Rules where
  binary := binary
  unary := unary
  conversions := dimensions.flatMap conversionsIn
  intrinsics := dimensions.flatMap intrinsicsIn

def library (id : LibraryId) : Library where
  id := id
  name := "Core"
  rules := rules
  complete := true

end Core

end Shader
