import Shader.Json.Document
import Shader.Real32

/-!
# Decoding documents

Decoders turn nodes into values. They visit a node in the order of its text and stop at the first
problem.

* Leaves: `natural`, `integer`, `real`, `boolean`, `string`, `unit`.
* `optional` takes `null` for nothing, `sequence` decodes the items of a list.
* `record` decodes an object with known fields, or the list of these fields in declaration order.
  Unknown fields are passed over, absent ones take their default.
* `variant` decodes a tagged union: a string names a variant without content, an object with one
  member a variant with content.

An opened bracket uses up one unit of the nesting budget of a document. Decoders of bracketed values
are therefore given the decoders of their content as an `Option`: there are none when the budget is
used up, and then an opening bracket is refused.

A few problems are noticed where their line is not known yet; they are `pending` until the list or
object around them is left.
-/

namespace Shader.Json

inductive Problem where
  | placed (fault : Fault)
  /-- The line is that of what follows the token, seen from the list or object around it. -/
  | pending (cause : Cause) (next : Next)

abbrev Result (α : Type) := Except Problem α

abbrev Decoder (α : Type) := Node → Result α

def refuse {α : Type} (cause : Cause) (line : Nat) : Result α := .error (.placed ⟨cause, line⟩)

def taken {α : Type} : Except Fault α → Result α
  | .ok a => .ok a
  | .error f => .error (.placed f)

/-- Gives a pending problem the line at which an object is left. -/
def inObject {α : Type} : Result α → Result α
  | .error (.pending cause next) => refuse cause next.line
  | r => r

/-- Gives a pending problem the line at which a list is left. -/
def inList {α : Type} : Result α → Result α
  | .error (.pending cause next) => refuse cause next.pastComma
  | r => r

/-- Refuses a node because `wanted` should stand there. A token that cannot be read is refused for
that reason. -/
def unexpected {α : Type} (wanted : String) : Decoder α
  | .null line none => refuse (.wrongType .null wanted) line
  | .null _ (some f) => .error (.placed f)
  | .bool line (.ok b) => refuse (.wrongType (.boolean b) wanted) line
  | .bool _ (.error f) => .error (.placed f)
  | .number line (.ok n) _ => refuse (.wrongType (.number n) wanted) line
  | .number _ (.error f) _ => .error (.placed f)
  | .text line (.ok s) _ _ => refuse (.wrongType (.string s) wanted) line
  | .text _ (.error f) _ _ => .error (.placed f)
  | .list line _ _ => refuse (.wrongType .sequence wanted) line
  | .object line _ _ => refuse (.wrongType .map wanted) line
  | .absent f => .error (.placed f)

/-! ### Leaves -/

def wholeIn (wanted : String) (low high : Int) : Decoder Int
  | .number line (.ok (.whole i)) _ =>
    if low ≤ i ∧ i ≤ high then .ok i else refuse (.outOfRange i wanted) line
  | node => unexpected wanted node

def natural : Decoder Nat := fun node => Int.toNat <$> wholeIn "u32" 0 0xffffffff node

def integer : Decoder Int32 := fun node =>
  Int32.ofInt <$> wholeIn "i32" (-0x80000000) 0x7fffffff node

/-- The real nearest to a number. A whole number is rounded once, any other number is already a
binary64. -/
def Number.toReal : Number → Real32
  | .whole i =>
    if 0 ≤ i then .ofFloat32 i.toNat.toUInt64.toFloat32
    else .ofFloat32 (Int64.ofInt i).toFloat32
  | .real x => .ofFloat32 x.toFloat32

def real : Decoder Real32
  | .number _ (.ok n) _ => .ok (Number.toReal n)
  | node => unexpected "f32" node

def boolean : Decoder Bool
  | .bool _ value => taken value
  | node => unexpected "a boolean" node

def string : Decoder String
  | .text _ value _ _ => taken value
  | node => unexpected "a string" node

def unit : Decoder Unit
  | .null _ none => .ok ()
  | node => unexpected "unit" node

def optional {α : Type} (value : Decoder α) : Decoder (Option α)
  | .null _ none => .ok none
  | .null _ (some f) => .error (.placed f)
  | node => some <$> value node

/-! ### Lists -/

def decodeItems {α : Type} (item : Decoder α) (ending : Ending) : List Node → Result (List α)
  | [] =>
    match ending.listFault with
    | none => .ok []
    | some f => .error (.placed f)
  | n :: ns => do
    let a ← inList (item n)
    let as ← decodeItems item ending ns
    return a :: as

def sequence {α : Type} (item : Option (Decoder α)) : Decoder (List α)
  | .list line items ending =>
    match item with
    | none => refuse .tooDeep line
    | some item => decodeItems item ending items
  | node => unexpected "a sequence" node

/-! ### Records -/

/-- A field of a record: its name, its decoder, and what stands for it when it is left out of an
object or, at the end, of a list of fields. -/
structure Field (α : Type) where
  name : String
  decode : Decoder α
  ifAbsent : Option α
  ifShort : Option α

def Field.required {α : Type} (name : String) (decode : Decoder α) : Field α :=
  ⟨name, decode, none, none⟩

def Field.defaulted {α : Type} (name : String) (decode : Decoder α) (value : α) : Field α :=
  ⟨name, decode, some value, some value⟩

/-- A field that may be left out of an object, but not of a list of fields. -/
def Field.optional {α : Type} (name : String) (decode : Decoder α) : Field (Option α) :=
  ⟨name, Json.optional decode, some none, none⟩

inductive Record : Type → Type 1 where
  | nil : Record Unit
  | cons {α β : Type} (field : Field α) (rest : Record β) : Record (α × β)

namespace Record

def size {α : Type} : Record α → Nat
  | .nil => 0
  | .cons _ rest => rest.size + 1

/-- What is known of the fields of a record while its object is being read. -/
def Slots {α : Type} (r : Record α) : Type :=
  match r with
  | .nil => Unit
  | @Record.cons α _ _ rest => Option α × rest.Slots

def empty {α : Type} (r : Record α) : r.Slots :=
  match r with
  | .nil => ()
  | @Record.cons α _ _ rest => ((none, rest.empty) : Option α × rest.Slots)

def has {α : Type} (r : Record α) (slots : r.Slots) (key : String) : Bool :=
  match r, slots with
  | .nil, _ => false
  | @Record.cons α _ field rest, slots =>
    let slots : Option α × rest.Slots := slots
    if field.name = key then slots.1.isSome else rest.has slots.2 key

/-- Decodes the field of a given name. Gives nothing if there is no such field. -/
def fill {α : Type} (r : Record α) (slots : r.Slots) (key : String) (node : Node) :
    Option (Result r.Slots) :=
  match r, slots with
  | .nil, _ => none
  | @Record.cons α _ field rest, slots =>
    let slots : Option α × rest.Slots := slots
    if field.name = key then
      some ((field.decode node).map fun a => ((some a, slots.2) : Option α × rest.Slots))
    else
      (rest.fill slots.2 key node).map fun filled =>
        filled.map fun left => ((slots.1, left) : Option α × rest.Slots)

/-- The record, or the name of the first field that is missing. -/
def finish {α : Type} (r : Record α) (slots : r.Slots) : Except String α :=
  match r, slots with
  | .nil, _ => .ok ()
  | @Record.cons α _ field rest, slots =>
    let slots : Option α × rest.Slots := slots
    match slots.1.or field.ifAbsent with
    | none => .error field.name
    | some a => (rest.finish slots.2).map fun b => (a, b)

def ofMembers {α : Type} (r : Record α) (ending : Ending) : r.Slots → List Member → Result α
  | slots, [] =>
    match ending with
    | .closed line =>
      match r.finish slots with
      | .ok a => .ok a
      | .error name => refuse (.missingField name) line
    | ending =>
      match ending.objectFault with
      | some f => .error (.placed f)
      | none => refuse .endInObject 0
  | slots, m :: ms => do
    let key ← taken m.key
    if r.has slots key then
      refuse (.duplicateField key) m.next.line
    else
      match r.fill slots key m.value with
      | some filled =>
        let slots ← inObject filled
        r.ofMembers ending slots ms
      | none =>
        match m.value.skipFault with
        | some f => .error (.placed f)
        | none => r.ofMembers ending slots ms

/-- Decodes fields that stand in a list, from field number `index` on; gives what is left of the
list. -/
def ofItems : {α : Type} → Record α → String → Ending → Nat → List Node → Result (α × List Node)
  | _, .nil, _, _, _, items => .ok ((), items)
  | _, .cons field rest, wanted, ending, index, n :: ns => do
    let a ← inList (field.decode n)
    let (b, left) ← rest.ofItems wanted ending (index + 1) ns
    return ((a, b), left)
  | _, .cons field rest, wanted, ending, index, [] =>
    match ending with
    | .closed line =>
      match field.ifShort with
      | some a => do
        let (b, left) ← rest.ofItems wanted ending (index + 1) []
        return ((a, b), left)
      | none => refuse (.wrongLength index wanted) line
    | ending =>
      match ending.listFault with
      | some f => .error (.placed f)
      | none => refuse .endInList 0

end Record

/-- Refuses anything in a list after the last field. -/
def listEnd (ending : Ending) : List Node → Result Unit
  | n :: _ => refuse .trailingText n.line
  | [] =>
    match ending with
    | .closed _ => .ok ()
    | .unclosed line => refuse .endInList line
    | .noComma line => refuse .trailingText line
    | .trailingComma line => refuse .trailingComma line
    | .endAfterComma line => refuse .trailingText line
    | .noKey _ => .ok ()
    | .broken => .ok ()

def elements (n : Nat) : String := if n = 1 then "1 element" else s!"{n} elements"

/-- A record, named `wanted` in messages. -/
def record {α : Type} (wanted : String) (fields : Option (Record α)) : Decoder α
  | .list line items ending =>
    match fields with
    | none => refuse .tooDeep line
    | some r => do
      let (a, left) ← r.ofItems (wanted ++ " with " ++ elements r.size) ending 0 items
      listEnd ending left
      return a
  | .object line members ending =>
    match fields with
    | none => refuse .tooDeep line
    | some r => r.ofMembers ending r.empty members
  | node => unexpected wanted node

/-! ### Tagged unions -/

/-- What a variant of a tagged union holds. -/
inductive Form (α : Type) where
  /-- Nothing: the variant is this value. -/
  | plain (value : α)
  | single
  | fields

/-- The end of the object of a variant: nothing may follow its one member. -/
def variantEnd (ending : Ending) (after : Nat) : List Member → Result Unit
  | _ :: _ => refuse .noValue after
  | [] =>
    match ending with
    | .closed _ => .ok ()
    | .unclosed line => refuse .endInObject line
    | .noComma line => refuse .noValue line
    | _ => refuse .noValue after

/-- A tagged union. `content` decodes what the variant of a given name holds. -/
def variant {α : Type} (forms : List (String × Form α)) (content : Option (String → Decoder α)) :
    Decoder α
  | .text line value _ next => do
    let name ← taken value
    match forms.lookup name with
    | some (.plain a) => .ok a
    | some .single => .error (.pending (.wrongType .unitVariant "newtype variant") next)
    | some .fields => .error (.pending (.wrongType .unitVariant "struct variant") next)
    | none => refuse (.unknownVariant name (forms.map Prod.fst)) line
  | .object line members ending =>
    match content with
    | none => refuse .tooDeep line
    | some content =>
      match members with
      | m :: ms => do
        let name ← taken m.key
        let a ← match forms.lookup name with
          | some (.plain a) => do
            unit m.value
            pure a
          | some _ => content name m.value
          | none => refuse (.unknownVariant name (forms.map Prod.fst)) m.line
        variantEnd ending m.after ms
        return a
      | [] =>
        match ending, ending.objectFault with
        | .closed line, _ => refuse .noValue line
        | _, some f => .error (.placed f)
        | _, none => refuse .noValue line
  | .absent f => .error (.placed f)
  | node => refuse .noValue node.line

/-- A tagged union all of whose variants are plain. -/
def choice {α : Type} (values : List (String × α)) (deep : Bool) : Decoder α :=
  variant (values.map fun (name, a) => (name, .plain a))
    (if deep then some fun _ node => unexpected "unit" node else none)

/-! ### Documents -/

def decodeText {α : Type} (root : Decoder α) (text : String) : Except Fault α :=
  let document := Document.ofText text
  match root document.root with
  | .error (.placed f) => .error f
  | .error (.pending cause next) => .error ⟨cause, next.line⟩
  | .ok a =>
    match document.excess with
    | some f => .error f
    | none => .ok a

end Shader.Json
