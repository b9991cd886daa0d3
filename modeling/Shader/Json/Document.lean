import Shader.Json.Numeral
import Shader.Json.StringLiteral

/-!
# JSON text as it is read

A reader that decodes while it reads reports the first thing that is wrong, be it a broken text or a
value of the wrong shape. To keep the two apart, a text is first turned into a `Node`: a JSON value
with the lines its parts stand on, in which a fault takes the place of whatever cannot be read. A
decoder then walks the node in the order of the text and meets each fault where a reader would.

Some faults depend on whether a value is wanted or passed over (`Node.skipFault`), so the leaves
keep both.

* `Node.ofCursor` reads one value.
* `Document.ofText` reads a whole text.
-/

namespace Shader.Json

/-- The lines of what follows a token: the line of the next character that is not blank, and the
same once a comma that stands there has been passed. -/
structure Next where
  line : Nat
  pastComma : Nat

/-- How a list or an object ends, with the line of the end. -/
inductive Ending where
  | closed (line : Nat)
  /-- The text ends after an item, or after the opening bracket. -/
  | unclosed (line : Nat)
  /-- Something else stands where a comma or the closing bracket should. -/
  | noComma (line : Nat)
  /-- The closing bracket stands right after a comma. -/
  | trailingComma (line : Nat)
  /-- The text ends after a comma. -/
  | endAfterComma (line : Nat)
  /-- Something other than a key stands where a member should start. -/
  | noKey (line : Nat)
  /-- The last item cannot be passed over. -/
  | broken

mutual

/-- A value as it stands in a text, with the line it starts on. -/
inductive Node where
  /-- `null`, or a misspelling of it. -/
  | null (line : Nat) (broken : Option Fault)
  /-- `true` or `false`, or a misspelling. -/
  | bool (line : Nat) (value : Except Fault Bool)
  /-- A number; `skip` is the fault met when it is passed over. -/
  | number (line : Nat) (value : Except Fault Number) (skip : Option Fault)
  /-- A string; `skip` is the fault met when it is passed over. -/
  | text (line : Nat) (value : Except Fault String) (skip : Option Fault) (next : Next)
  | list (line : Nat) (items : List Node) (ending : Ending)
  | object (line : Nat) (members : List Member) (ending : Ending)
  /-- There is no value here. -/
  | absent (fault : Fault)

structure Member where
  line : Nat
  key : Except Fault String
  /-- The fault met when the key is passed over. -/
  skip : Option Fault
  /-- What follows the key. -/
  next : Next
  value : Node
  /-- The line of what follows the value. -/
  after : Nat

end

def Node.line : Node → Nat
  | .null line _ => line
  | .bool line _ => line
  | .number line _ _ => line
  | .text line _ _ _ => line
  | .list line _ _ => line
  | .object line _ _ => line
  | .absent fault => fault.line

namespace Ending

/-- The fault that ends a list whose items are wanted. -/
def listFault : Ending → Option Fault
  | .closed _ => none
  | .unclosed line => some ⟨.endInList, line⟩
  | .noComma line => some ⟨.noCommaInList, line⟩
  | .trailingComma line => some ⟨.trailingComma, line⟩
  | .endAfterComma line => some ⟨.endInValue, line⟩
  | .noKey _ => none
  | .broken => none

/-- The fault that ends an object whose members are wanted. -/
def objectFault : Ending → Option Fault
  | .closed _ => none
  | .unclosed line => some ⟨.endInObject, line⟩
  | .noComma line => some ⟨.noCommaInObject, line⟩
  | .trailingComma line => some ⟨.trailingComma, line⟩
  | .endAfterComma line => some ⟨.endInValue, line⟩
  | .noKey line => some ⟨.keyNotString, line⟩
  | .broken => none

/-- The fault that ends a list that is passed over. -/
def skippedListFault : Ending → Option Fault
  | .closed _ => none
  | .unclosed line => some ⟨.endInList, line⟩
  | .noComma line => some ⟨.noCommaInList, line⟩
  | .trailingComma line => some ⟨.noValue, line⟩
  | .endAfterComma line => some ⟨.endInValue, line⟩
  | .noKey _ => none
  | .broken => none

/-- The fault that ends an object that is passed over. -/
def skippedObjectFault : Ending → Option Fault
  | .closed _ => none
  | .unclosed line => some ⟨.endInObject, line⟩
  | .noComma line => some ⟨.noCommaInObject, line⟩
  | .trailingComma line => some ⟨.keyNotString, line⟩
  | .endAfterComma line => some ⟨.endInObject, line⟩
  | .noKey line => some ⟨.keyNotString, line⟩
  | .broken => none

end Ending

mutual

/-- The first fault met when a value is passed over. -/
def Node.skipFault : Node → Option Fault
  | .null _ broken => broken
  | .bool _ (.ok _) => none
  | .bool _ (.error f) => some f
  | .number _ _ skip => skip
  | .text _ _ skip _ => skip
  | .list _ items ending => (itemsSkipFault items).or ending.skippedListFault
  | .object _ members ending => (membersSkipFault members).or ending.skippedObjectFault
  | .absent f => some f

def itemsSkipFault : List Node → Option Fault
  | [] => none
  | n :: ns => n.skipFault.or (itemsSkipFault ns)

def membersSkipFault : List Member → Option Fault
  | [] => none
  | ⟨_, _, skip, _, value, _⟩ :: ms => (skip.or value.skipFault).or (membersSkipFault ms)

end

/-! ### Reading -/

/-- A place in a text: what is left of it and the line it is on. -/
structure Cursor where
  rest : List Char
  line : Nat

namespace Cursor

def isBlank (c : Char) : Bool := c = ' ' || c = '\t' || c = '\n' || c = '\r'

def skipBlanks (c : Cursor) : Cursor :=
  let blanks := c.rest.takeWhile isBlank
  ⟨c.rest.dropWhile isBlank, c.line + blanks.count '\n'⟩

def next (c : Cursor) : Next :=
  let c := c.skipBlanks
  match c.rest with
  | ',' :: rest => ⟨c.line, (Cursor.mk rest c.line).skipBlanks.line⟩
  | _ => ⟨c.line, c.line⟩

/-- Reads the letters that must follow the first one of a word. -/
def word (c : Cursor) : List Char → Except Fault Cursor
  | [] => .ok c
  | letter :: letters =>
    match c.rest with
    | [] => .error ⟨.endInValue, c.line⟩
    | x :: rest =>
      if x = letter then word ⟨rest, c.line⟩ letters
      else .error ⟨.misspelt, c.line + lineBreaks x⟩

end Cursor

/-- The outcome of reading: the node, and where the text goes on unless it cannot be read on. -/
abbrev Reading (α : Type) := α × Option Cursor

namespace Node

def readNull (c : Cursor) : Reading Node :=
  match c.word "ull".toList with
  | .ok c' => (.null c.line none, some c')
  | .error f => (.null c.line (some f), none)

def readBool (c : Cursor) (letters : List Char) (value : Bool) : Reading Node :=
  match c.word letters with
  | .ok c' => (.bool c.line (.ok value), some c')
  | .error f => (.bool c.line (.error f), none)

def readNumber (c : Cursor) : Reading Node :=
  match Numeral.scan c.line c.rest with
  | .ok (n, rest) =>
    let value := n.value.mapError (Fault.mk · c.line)
    (.number c.line value none, some ⟨rest, c.line⟩)
  | .error broken => (.number c.line (.error broken.onRead) (some broken.onSkip), none)

/-- The content of a string, the fault of passing over it, and where the text goes on. -/
def readString (c : Cursor) : (Except Fault String × Option Fault) × Option Cursor :=
  let content := (StringLiteral.read c.line c.rest).map Prod.fst
  match StringLiteral.skip c.line c.rest with
  | .ok rest => ((content, none), some ⟨rest, c.line⟩)
  | .error f => ((content, some f), none)

def nextOf (line : Nat) : Option Cursor → Next
  | some c => c.next
  | none => ⟨line, line⟩

mutual

/-- Reads a value; the cursor stands on its first character. `fuel` bounds the characters left. -/
def ofCursor : Nat → Cursor → Reading Node
  | 0, c => (.absent ⟨.endInValue, c.line⟩, none)
  | fuel + 1, c =>
    match c.rest with
    | [] => (.absent ⟨.endInValue, c.line⟩, none)
    | 'n' :: rest => readNull ⟨rest, c.line⟩
    | 't' :: rest => readBool ⟨rest, c.line⟩ "rue".toList true
    | 'f' :: rest => readBool ⟨rest, c.line⟩ "alse".toList false
    | '"' :: rest =>
      let ((value, skip), after) := readString ⟨rest, c.line⟩
      (.text c.line value skip (nextOf c.line after), after)
    | '[' :: rest =>
      let (items, ending, after) := itemsOf fuel true ⟨rest, c.line⟩
      (.list c.line items ending, after)
    | '\x7b' :: rest =>
      let (members, ending, after) := membersOf fuel true ⟨rest, c.line⟩
      (.object c.line members ending, after)
    | x :: _ =>
      if x = '-' ∨ x.isDigit then readNumber c
      else (.absent ⟨.noValue, c.line⟩, none)

/-- Reads the items of a list up to its end; `first` says that none has been read. -/
def itemsOf : Nat → Bool → Cursor → List Node × Ending × Option Cursor
  | 0, _, c => ([], .unclosed c.line, none)
  | fuel + 1, first, c =>
    let c := c.skipBlanks
    let item (c : Cursor) : List Node × Ending × Option Cursor :=
      match ofCursor fuel c with
      | (node, none) => ([node], .broken, none)
      | (node, some c) =>
        let (items, ending, after) := itemsOf fuel false c
        (node :: items, ending, after)
    match c.rest with
    | [] => ([], .unclosed c.line, none)
    | ']' :: rest => ([], .closed c.line, some ⟨rest, c.line⟩)
    | x :: rest =>
      if first then item c
      else if x = ',' then
        let c := (Cursor.mk rest c.line).skipBlanks
        match c.rest with
        | [] => ([], .endAfterComma c.line, none)
        | ']' :: _ => ([], .trailingComma c.line, none)
        | _ => item c
      else ([], .noComma c.line, none)

/-- Reads the members of an object up to its end; `first` says that none has been read. -/
def membersOf : Nat → Bool → Cursor → List Member × Ending × Option Cursor
  | 0, _, c => ([], .unclosed c.line, none)
  | fuel + 1, first, c =>
    let c := c.skipBlanks
    let member (c : Cursor) : List Member × Ending × Option Cursor :=
      match c.rest with
      | '"' :: rest =>
        let ((key, skip), after) := readString ⟨rest, c.line⟩
        let next := nextOf c.line after
        match after with
        | none =>
          ([⟨c.line, key, skip, next, .absent ⟨.endInString, c.line⟩, c.line⟩], .broken, none)
        | some afterKey =>
          let colon := afterKey.skipBlanks
          match colon.rest with
          | [] =>
            ([⟨c.line, key, skip, next, .absent ⟨.endInObject, colon.line⟩, colon.line⟩],
              .broken, none)
          | ':' :: rest =>
            match ofCursor fuel (Cursor.mk rest colon.line).skipBlanks with
            | (node, none) => ([⟨c.line, key, skip, next, node, c.line⟩], .broken, none)
            | (node, some c') =>
              let (members, ending, after) := membersOf fuel false c'
              (⟨c.line, key, skip, next, node, c'.next.line⟩ :: members, ending, after)
          | _ =>
            ([⟨c.line, key, skip, next, .absent ⟨.noColon, colon.line⟩, colon.line⟩],
              .broken, none)
      | _ => ([], .noKey c.line, none)
    match c.rest with
    | [] => ([], .unclosed c.line, none)
    | '\x7d' :: rest => ([], .closed c.line, some ⟨rest, c.line⟩)
    | x :: rest =>
      if first then member c
      else if x = ',' then
        let c := (Cursor.mk rest c.line).skipBlanks
        match c.rest with
        | [] => ([], .endAfterComma c.line, none)
        | '\x7d' :: _ => ([], .trailingComma c.line, none)
        | _ => member c
      else ([], .noComma c.line, none)

end

end Node

/-- A text that should hold one value: the value, and the fault of anything that follows it. -/
structure Document where
  root : Node
  excess : Option Fault

/-- Reads a text. Every second call reads at least one character, so twice the length of the text
bounds the calls. -/
def Document.ofText (text : String) : Document :=
  let chars := text.toList
  let (root, after) := Node.ofCursor (2 * chars.length + 4) (Cursor.mk chars 1).skipBlanks
  match after with
  | none => ⟨root, none⟩
  | some c =>
    let c := c.skipBlanks
    ⟨root, if c.rest.isEmpty then none else some ⟨.trailingText, c.line⟩⟩

/-! ### Plain values -/

mutual

/-- The plain value of a node, if it can be read whole. -/
def Node.toJson? : Node → Option Json
  | .null _ none => some .null
  | .null _ (some _) => none
  | .bool _ (.ok b) => some (.bool b)
  | .bool _ (.error _) => none
  | .number _ (.ok n) _ => some (.num n)
  | .number _ (.error _) _ => none
  | .text _ (.ok s) _ _ => some (.str s)
  | .text _ (.error _) _ _ => none
  | .list _ items (.closed _) => (itemsToJson? items).map .arr
  | .list _ _ _ => none
  | .object _ members (.closed _) => (membersToJson? members).map .obj
  | .object _ _ _ => none
  | .absent _ => none

def itemsToJson? : List Node → Option (List Json)
  | [] => some []
  | n :: ns => do
    let j ← n.toJson?
    let js ← itemsToJson? ns
    return j :: js

def membersToJson? : List Member → Option (List (String × Json))
  | [] => some []
  | ⟨_, key, _, _, value, _⟩ :: ms => do
    let k ← key.toOption
    let v ← value.toJson?
    let rest ← membersToJson? ms
    return (k, v) :: rest

end

mutual

/-- A plain value as a node, as if it stood on the first line of a text. -/
def toNode : Json → Node
  | .null => .null 1 none
  | .bool b => .bool 1 (.ok b)
  | .num n => .number 1 (.ok n) none
  | .str s => .text 1 (.ok s) none ⟨1, 1⟩
  | .arr items => .list 1 (toNodes items) (.closed 1)
  | .obj members => .object 1 (toMembers members) (.closed 1)

def toNodes : List Json → List Node
  | [] => []
  | j :: js => toNode j :: toNodes js

def toMembers : List (String × Json) → List Member
  | [] => []
  | (k, v) :: rest => ⟨1, .ok k, none, ⟨1, 1⟩, toNode v, 1⟩ :: toMembers rest

end

def parse? (text : String) : Option Json :=
  let document := Document.ofText text
  match document.excess with
  | none => document.root.toJson?
  | some _ => none

end Shader.Json
