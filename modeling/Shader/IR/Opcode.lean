/-!
# Operation codes

The operations of the intermediate representation. A terminator ends a block; all others compute a
value or touch memory.
-/

namespace Shader

inductive Opcode where
  -- Storage, calls and selection
  | undef
  | declare
  | load
  | store
  | accessChain
  | compositeConstruct
  | functionCall
  | select
  -- Arithmetic
  | fAdd
  | fSub
  | fMul
  | fDiv
  | fMod
  | fNegate
  | iAdd
  | iSub
  | iMul
  | sDiv
  | sMod
  | sNegate
  | vectorTimesScalar
  | dot
  -- Logic and comparison
  | any
  | all
  | logicalNot
  | logicalEqual
  | logicalNotEqual
  | iEqual
  | iNotEqual
  | sLessThan
  | sLessThanEqual
  | sGreaterThan
  | sGreaterThanEqual
  | fOrdEqual
  | fOrdNotEqual
  | fOrdLessThan
  | fOrdLessThanEqual
  | fOrdGreaterThan
  | fOrdGreaterThanEqual
  -- Conversion
  | convertFToS
  | convertSToF
  | bitcast
  -- Control flow
  | ret
  | retValue
  | branch
  | branchConditional
  deriving DecidableEq, Repr

namespace Opcode

def named : List (String × Opcode) :=
  [("Undef", .undef), ("Variable", .declare), ("Load", .load), ("Store", .store),
   ("AccessChain", .accessChain), ("CompositeConstruct", .compositeConstruct),
   ("FunctionCall", .functionCall), ("Select", .select), ("FAdd", .fAdd), ("FSub", .fSub),
   ("FMul", .fMul), ("FDiv", .fDiv), ("FMod", .fMod), ("FNegate", .fNegate), ("IAdd", .iAdd),
   ("ISub", .iSub), ("IMul", .iMul), ("SDiv", .sDiv), ("SMod", .sMod), ("SNegate", .sNegate),
   ("VectorTimesScalar", .vectorTimesScalar), ("Dot", .dot), ("Any", .any), ("All", .all),
   ("LogicalNot", .logicalNot), ("LogicalEqual", .logicalEqual),
   ("LogicalNotEqual", .logicalNotEqual), ("IEqual", .iEqual), ("INotEqual", .iNotEqual),
   ("SLessThan", .sLessThan), ("SLessThanEqual", .sLessThanEqual),
   ("SGreaterThan", .sGreaterThan), ("SGreaterThanEqual", .sGreaterThanEqual),
   ("FOrdEqual", .fOrdEqual), ("FOrdNotEqual", .fOrdNotEqual), ("FOrdLessThan", .fOrdLessThan),
   ("FOrdLessThanEqual", .fOrdLessThanEqual), ("FOrdGreaterThan", .fOrdGreaterThan),
   ("FOrdGreaterThanEqual", .fOrdGreaterThanEqual), ("ConvertFToS", .convertFToS),
   ("ConvertSToF", .convertSToF), ("Bitcast", .bitcast), ("Return", .ret),
   ("ReturnValue", .retValue), ("Branch", .branch), ("BranchConditional", .branchConditional)]

def name (o : Opcode) : String := (named.find? (·.2 = o)).elim "" Prod.fst

def text (o : Opcode) : String := "Op" ++ o.name

def isTerminator : Opcode → Bool
  | .ret | .retValue | .branch | .branchConditional => true
  | _ => false

end Opcode

end Shader
