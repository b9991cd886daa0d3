import Shader.Proofs.Json.Reading
import Shader.Tree.Decode

/-!
# Trees and their written forms

A tree has many JSON forms. In the object of a record, fields may stand in any order and among
members that are no fields, and a field that holds its default or nothing may be left out.

* `Form` says for each part of a tree which JSON values are its forms, with a budget for the brackets
  that are open at a time. Members that are no fields are passed over and may open any number.
* `form_toJson` — the encoder writes one of them. Numbers have to fit 32 bits, and the numerals of
  reals have to read back (`Fits`); trees carry unbounded numbers, and the encoder leaves it to its
  caller how reals are written.
* `decodes` — the decoder reads every form back.

The proofs follow the tree. The loop over the members of an object is behind `record_bind`, so that
what is left for each record is to name its fields.
-/

namespace Shader

open Json

/-! ### Forms -/

/-- An option field: it may be left out instead of `null`. -/
def Json.GivenOption {α : Type} (F : α → Json → Prop) (o : Option α) (ms : List (String × Json))
    (name : String) : Prop :=
  GivenUnless (o = none) ms name (OrNull F o)

def Location.Form (l : Location) : Nat → Json → Prop :=
  Object fun _ ms => Given ms "filename" (· = .str l.file) ∧ Given ms "line" (Word l.line) ∧
    Given ms "column" (Word l.column)

def TypeSpec.Form : TypeSpec → Nat → Json → Prop
  | .void => fun _ => (· = .str "Void")
  | .scalar kind => Variant "Scalar" fun _ => (· = kind.toJson)
  | .vector kind count => Variant "Vector" <| Object fun _ ms =>
      Given ms "scalar" (· = kind.toJson) ∧ Given ms "count" (Word count)
  | .matrix rows columns => Variant "Matrix" <| Object fun _ ms =>
      Given ms "rows" (Word rows) ∧ Given ms "columns" (Word columns)
  | .array element length => Variant "FixedArray" <| Object fun b ms =>
      Given ms "element" (element.Form b) ∧ Given ms "length" (Word length)
  | .ofClass id => Variant "Class" fun _ => Word id.number
  | .math => fun _ => (· = .str "Math")

/-- The numeral of a real may be any that is read as this real. -/
def Literal.Form : Literal → Nat → Json → Prop
  | .bool b => Variant "Bool" fun _ => (· = .bool b)
  | .int i => Variant "Int" fun _ => (· = .int i.toInt)
  | .real x => Variant "Real" fun _ v => Json.real (toNode v) = .ok x

def FunctionId.Form (f : FunctionId) : Json → Prop := Word f.number

def Accessed.Form : Accessed → Nat → Json → Prop
  | .function id => Variant "Function" fun _ => id.Form
  | .property id => Variant "Property" fun _ => Word id.number
  | .accessors getter setter => Variant "GetterSetter" <| Object fun _ ms =>
      GivenOption FunctionId.Form getter ms "get" ∧ GivenOption FunctionId.Form setter ms "set"
  | .intrinsic owner => Variant "Intrinsic" <| Object fun b ms => Given ms "owner" (owner.Form b)

mutual

def Expr.Form : Expr → Nat → Json → Prop
  | ⟨kind, ty, location⟩ => Object fun b ms =>
      Given ms "kind" (kind.Form b) ∧ Given ms "ty" (ty.Form b) ∧
      GivenUnless (location = .unknown) ms "location" (location.Form b)

def ExprKind.Form : ExprKind → Nat → Json → Prop
  | .literal value => Variant "Literal" value.Form
  | .localVar id => Variant "Local" fun _ => Word id.number
  | .thisObject => fun _ => (· = .str "This")
  | .binary op left right => Variant "Binary" <| Object fun b ms =>
      Given ms "op" (· = named BinaryOperator.named op) ∧ Given ms "left" (left.Form b) ∧
      Given ms "right" (right.Form b)
  | .unary op operand => Variant "Unary" <| Object fun b ms =>
      Given ms "op" (· = named UnaryOperator.named op) ∧ Given ms "operand" (operand.Form b)
  | .cast operand => Variant "Cast" <| Object fun b ms => Given ms "operand" (operand.Form b)
  | .member access => Variant "MemberAccess" access.Form
  | .call access arguments => Variant "Call" <| Object fun b ms =>
      Given ms "access" (access.Form b) ∧ Given ms "arguments" (Items (exprsForm arguments) b)
  | .construct constructor arguments => Variant "Construct" <| Object fun b ms =>
      GivenOption FunctionId.Form constructor ms "constructor" ∧
      Given ms "arguments" (Items (exprsForm arguments) b)

def Access.Form : Access → Nat → Json → Prop
  | ⟨target, name, accessed, io⟩ => Object fun b ms =>
      GivenUnless (target = none) ms "target" (exprForm? target b) ∧
      Given ms "name" (· = .str name) ∧ Given ms "accessed" (accessed.Form b) ∧
      GivenUnless (io = .read) ms "io" (· = named IoMode.named io)

def exprForm? : Option Expr → Nat → Json → Prop
  | none => fun _ => (· = .null)
  | some e => e.Form

def exprsForm : List Expr → Nat → List Json → Prop
  | [] => fun _ => (· = [])
  | e :: es => fun b js => ∃ j js', js = j :: js' ∧ e.Form b j ∧ exprsForm es b js'

end

mutual

def Stmt.Form : Stmt → Nat → Json → Prop
  | ⟨kind, location⟩ => Object fun b ms =>
      Given ms "kind" (kind.Form b) ∧
      GivenUnless (location = .unknown) ms "location" (location.Form b)

def StmtKind.Form : StmtKind → Nat → Json → Prop
  | .expression value => Variant "Expression" value.Form
  | .localVar id name ty initial => Variant "LocalVariable" <| Object fun b ms =>
      Given ms "local" (Word id.number) ∧ Given ms "name" (· = .str name) ∧
      Given ms "ty" (ty.Form b) ∧ GivenOption (Expr.Form · b) initial ms "initial_value"
  | .assign target op value => Variant "Assign" <| Object fun b ms =>
      Given ms "target" (target.Form b) ∧
      GivenOption (fun op j => j = named BinaryOperator.named op) op ms "op" ∧
      Given ms "value" (value.Form b)
  | .ret value => Variant "Return" fun b => OrNull (Expr.Form · b) value
  | .ifChain parts => Variant "If" <| Object fun b ms => Given ms "parts" (Items (partsForm parts) b)
  | .whileLoop condition body => Variant "While" <| Object fun b ms =>
      Given ms "condition" (condition.Form b) ∧ Given ms "body" (Items (stmtsForm body) b)
  | .forLoop start condition step body => Variant "For" <| Object fun b ms =>
      GivenUnless (start = none) ms "initializer" (stmtForm? start b) ∧
      GivenOption (Expr.Form · b) condition ms "condition" ∧
      GivenUnless (step = none) ms "iterator" (stmtForm? step b) ∧
      Given ms "body" (Items (stmtsForm body) b)
  | .breakLoop => fun _ => (· = .str "Break")
  | .continueLoop => fun _ => (· = .str "Continue")

def IfPart.Form : IfPart → Nat → Json → Prop
  | ⟨condition, body⟩ => Object fun b ms =>
      GivenOption (Expr.Form · b) condition ms "condition" ∧
      Given ms "body" (Items (stmtsForm body) b)

def stmtForm? : Option Stmt → Nat → Json → Prop
  | none => fun _ => (· = .null)
  | some s => s.Form

def stmtsForm : List Stmt → Nat → List Json → Prop
  | [] => fun _ => (· = [])
  | s :: ss => fun b js => ∃ j js', js = j :: js' ∧ s.Form b j ∧ stmtsForm ss b js'

def partsForm : List IfPart → Nat → List Json → Prop
  | [] => fun _ => (· = [])
  | p :: ps => fun b js => ∃ j js', js = j :: js' ∧ p.Form b j ∧ partsForm ps b js'

end

def ParameterDecl.Form (p : ParameterDecl) : Nat → Json → Prop := Object fun b ms =>
  Given ms "local" (Word p.id.number) ∧ Given ms "name" (· = .str p.name) ∧
  Given ms "ty" (p.ty.Form b)

def FunctionDecl.Form (f : FunctionDecl) : Nat → Json → Prop := Object fun b ms =>
  Given ms "function" f.id.Form ∧ Given ms "name" (· = .str f.name) ∧
  GivenUnless (f.location = .unknown) ms "location" (f.location.Form b) ∧
  GivenUnless (f.isStatic = false) ms "is_static" (· = .bool f.isStatic) ∧
  GivenUnless (f.parameters = []) ms "parameters" (Each ParameterDecl.Form f.parameters b) ∧
  GivenUnless (f.result = .void) ms "return_type" (f.result.Form b) ∧
  GivenUnless (f.body = []) ms "statements" (Items (stmtsForm f.body) b)

def ConstructorDecl.Form (c : ConstructorDecl) : Nat → Json → Prop := Object fun b ms =>
  Given ms "function" c.id.Form ∧
  GivenUnless (c.location = .unknown) ms "location" (c.location.Form b) ∧
  GivenUnless (c.parameters = []) ms "parameters" (Each ParameterDecl.Form c.parameters b) ∧
  GivenUnless (c.body = []) ms "statements" (Items (stmtsForm c.body) b)

def VariableDecl.Form (v : VariableDecl) : Nat → Json → Prop := Object fun b ms =>
  Given ms "property" (Word v.id.number) ∧ Given ms "name" (· = .str v.name) ∧
  Given ms "ty" (v.ty.Form b) ∧
  GivenUnless (v.location = .unknown) ms "location" (v.location.Form b) ∧
  GivenUnless (v.isStatic = false) ms "is_static" (· = .bool v.isStatic) ∧
  GivenOption (Expr.Form · b) v.initial ms "initial_value" ∧
  GivenOption (FunctionDecl.Form · b) v.getter ms "get" ∧
  GivenOption (FunctionDecl.Form · b) v.setter ms "set"

def ClassDecl.Form (c : ClassDecl) : Nat → Json → Prop := Object fun b ms =>
  Given ms "type_id" (Word c.id.number) ∧ Given ms "name" (· = .str c.name) ∧
  GivenUnless (c.location = .unknown) ms "location" (c.location.Form b) ∧
  GivenOption FunctionId.Form c.preConstructor ms "pre_constructor" ∧
  GivenUnless (c.members = []) ms "variables" (Each VariableDecl.Form c.members b) ∧
  GivenUnless (c.constructors = []) ms "constructors" (Each ConstructorDecl.Form c.constructors b) ∧
  GivenUnless (c.functions = []) ms "functions" (Each FunctionDecl.Form c.functions b)

/-- **The JSON forms of a tree**, with at most so many brackets open at a time in what is read. -/
def Tree.Form (t : Tree) : Nat → Json → Prop := Object fun b ms =>
  GivenUnless (t.classes = []) ms "classes" (Each ClassDecl.Form t.classes b)

/-! ### Reading forms back -/

variable {b : Nat}

theorem decodes_scalarKind {k : ScalarKind} : Decodes (Decode.scalarKind b) (· = k.toJson) k := by
  rintro _ rfl
  cases k <;> rfl

theorem decodes_ioMode {io : IoMode} :
    Decodes (Decode.ioMode b) (· = named IoMode.named io) io := by
  rintro _ rfl
  cases io <;> rfl

theorem decodes_binaryOperator {op : BinaryOperator} :
    Decodes (Decode.binaryOperator b) (· = named BinaryOperator.named op) op := by
  rintro _ rfl
  cases op <;> rfl

theorem decodes_unaryOperator {op : UnaryOperator} :
    Decodes (Decode.unaryOperator b) (· = named UnaryOperator.named op) op := by
  rintro _ rfl
  cases op <;> rfl

theorem decodes_integer {i : Int32} : Decodes integer (· = .int i.toInt) i := by
  rintro _ rfl
  show Int32.ofInt <$> (if -(2 ^ 31) ≤ i.toInt ∧ i.toInt ≤ 2 ^ 31 - 1 then Except.ok i.toInt else _) = _
  rw [if_pos ⟨i.le_toInt, Int.le_sub_one_of_lt i.toInt_lt⟩]
  show Except.ok (Int32.ofInt i.toInt) = _
  rw [Int32.ofInt_toInt]

theorem FunctionId.decodes (f : FunctionId) : Decodes Decode.functionId f.Form f :=
  decodes_natural.map FunctionId.mk

theorem FunctionId.decodes_option {o : Option FunctionId} :
    Decodes (Json.optional Decode.functionId) (OrNull FunctionId.Form o) o :=
  .optional FunctionId.decodes nofun

theorem Location.decodes (l : Location) : ∀ b, Decodes (Decode.location b) (l.Form b) l := by
  refine .object fun b ms ⟨hfile, hline, hcolumn⟩ => ?_
  exact record_bind (a := (l.file, l.line, l.column, ())) rfl
    ⟨hfile.required decodes_string, hline.required decodes_natural,
     hcolumn.required decodes_natural, trivial⟩

theorem Literal.decodes (l : Literal) : ∀ b, Decodes (Decode.literal b) (l.Form b) l := by
  cases l with
  | bool value => exact .variant (fun _ => rfl) (.inl rfl) fun _ => decodes_boolean.map _
  | int value => exact .variant (fun _ => rfl) (.inl rfl) fun _ => decodes_integer.map _
  | real value =>
    refine .variant (fun _ => rfl) (.inl rfl) fun b v hv => ?_
    show Literal.real <$> Json.real (toNode v) = _
    rw [hv]
    rfl

theorem TypeSpec.decodes (ty : TypeSpec) : ∀ b, Decodes (Decode.typeSpec b) (ty.Form b) ty := by
  induction ty with
  | void | math => rintro (_ | b) _ rfl <;> rfl
  | scalar kind => exact .variant (fun _ => rfl) (.inl rfl) fun _ => decodes_scalarKind.map _
  | vector kind count =>
    refine .variant (fun _ => rfl) (.inr rfl) (.object fun b ms ⟨hkind, hcount⟩ => ?_)
    exact record_bind (a := (kind, count, ())) rfl
      ⟨hkind.required decodes_scalarKind, hcount.required decodes_natural, trivial⟩
  | matrix rows columns =>
    refine .variant (fun _ => rfl) (.inr rfl) (.object fun b ms ⟨hrows, hcolumns⟩ => ?_)
    exact record_bind (a := (rows, columns, ())) rfl
      ⟨hrows.required decodes_natural, hcolumns.required decodes_natural, trivial⟩
  | array element length ih =>
    refine .variant (fun _ => rfl) (.inr rfl) (.object fun b ms ⟨helement, hlength⟩ => ?_)
    exact record_bind (a := (element, length, ())) rfl
      ⟨helement.required (ih b), hlength.required decodes_natural, trivial⟩
  | ofClass id => exact .variant (fun _ => rfl) (.inl rfl) fun _ => decodes_natural.map _

theorem Accessed.decodes (m : Accessed) : ∀ b, Decodes (Decode.accessed b) (m.Form b) m := by
  cases m with
  | function id => exact .variant (fun _ => rfl) (.inl rfl) fun _ => id.decodes.map _
  | property id => exact .variant (fun _ => rfl) (.inl rfl) fun _ => decodes_natural.map _
  | accessors getter setter =>
    refine .variant (fun _ => rfl) (.inr rfl) (.object fun b ms ⟨hget, hset⟩ => ?_)
    exact record_bind (a := (getter, setter, ())) rfl
      ⟨hget.optional FunctionId.decodes_option, hset.optional FunctionId.decodes_option, trivial⟩
  | intrinsic owner =>
    refine .variant (fun _ => rfl) (.inr rfl) (.object fun b ms howner => ?_)
    exact record_bind (a := (owner, ())) rfl ⟨howner.required (owner.decodes b), trivial⟩

/-! Each case takes the record of its constructor apart; the budget goes down with every bracket. -/

mutual

theorem Expr.decodes : ∀ (e : Expr) (b : Nat), Decodes (Decode.expr b) (e.Form b) e
  | ⟨kind, ty, location⟩ => by
    refine .object fun b ms ⟨hkind, hty, hlocation⟩ => ?_
    exact record_bind (a := (kind, ty, location, ())) rfl
      ⟨hkind.required (kind.decodes b), hty.required (ty.decodes b),
       hlocation.defaulted (location.decodes b), trivial⟩

theorem ExprKind.decodes : ∀ (k : ExprKind) (b : Nat), Decodes (Decode.exprKind b) (k.Form b) k
  | .literal value => .variant (fun _ => rfl) (.inl rfl) fun b => (value.decodes b).map _
  | .localVar id => .variant (fun _ => rfl) (.inl rfl) fun _ => decodes_natural.map _
  | .thisObject => by rintro (_ | b) _ rfl <;> rfl
  | .binary op left right => by
    refine .variant (fun _ => rfl) (.inr rfl) (.object fun b ms ⟨hop, hleft, hright⟩ => ?_)
    exact record_bind (a := (op, left, right, ())) rfl
      ⟨hop.required decodes_binaryOperator, hleft.required (left.decodes b),
       hright.required (right.decodes b), trivial⟩
  | .unary op operand => by
    refine .variant (fun _ => rfl) (.inr rfl) (.object fun b ms ⟨hop, hoperand⟩ => ?_)
    exact record_bind (a := (op, operand, ())) rfl
      ⟨hop.required decodes_unaryOperator, hoperand.required (operand.decodes b), trivial⟩
  | .cast operand => by
    refine .variant (fun _ => rfl) (.inr rfl) (.object fun b ms hoperand => ?_)
    exact record_bind (a := (operand, ())) rfl ⟨hoperand.required (operand.decodes b), trivial⟩
  | .member access => .variant (fun _ => rfl) (.inl rfl) fun b => (access.decodes b).map _
  | .call access arguments => by
    refine .variant (fun _ => rfl) (.inr rfl) (.object fun b ms ⟨haccess, harguments⟩ => ?_)
    exact record_bind (a := (access, arguments, ())) rfl
      ⟨haccess.required (access.decodes b),
       harguments.required (.items (fun _ => rfl) (exprs_decode arguments) b), trivial⟩
  | .construct constructor arguments => by
    refine .variant (fun _ => rfl) (.inr rfl) (.object fun b ms ⟨hconstructor, harguments⟩ => ?_)
    exact record_bind (a := (constructor, arguments, ())) rfl
      ⟨hconstructor.optional FunctionId.decodes_option,
       harguments.required (.items (fun _ => rfl) (exprs_decode arguments) b), trivial⟩

theorem Access.decodes : ∀ (m : Access) (b : Nat), Decodes (Decode.access b) (m.Form b) m
  | ⟨target, name, accessed, io⟩ => by
    refine .object fun b ms ⟨htarget, hname, haccessed, hio⟩ => ?_
    exact record_bind (a := (target, name, accessed, io, ())) rfl
      ⟨htarget.optional (expr?_decodes target b), hname.required decodes_string,
       haccessed.required (accessed.decodes b), hio.defaulted decodes_ioMode, trivial⟩

theorem expr?_decodes : ∀ (o : Option Expr) (b : Nat),
    Decodes (Json.optional (Decode.expr b)) (exprForm? o b) o
  | none, b => by
    rintro _ rfl
    rfl
  | some e, b => (e.decodes b).some (by obtain ⟨kind, ty, location⟩ := e; exact nofun)

theorem exprs_decode : ∀ (es : List Expr) (b : Nat) (js : List Json), exprsForm es b js →
    List.Forall₂ (fun e j => Decode.expr b (toNode j) = .ok e) es js
  | [], b, js, h => by
    obtain rfl : js = [] := h
    exact .nil
  | e :: es, b, _, ⟨j, js, rfl, hj, h⟩ => .cons (e.decodes b j hj) (exprs_decode es b js h)

end

theorem Expr.decodes_option {o : Option Expr} :
    Decodes (Json.optional (Decode.expr b)) (OrNull (Expr.Form · b) o) o :=
  .optional (fun e => e.decodes b) fun ⟨_, _, _⟩ => nofun

mutual

theorem Stmt.decodes : ∀ (s : Stmt) (b : Nat), Decodes (Decode.stmt b) (s.Form b) s
  | ⟨kind, location⟩ => by
    refine .object fun b ms ⟨hkind, hlocation⟩ => ?_
    exact record_bind (a := (kind, location, ())) rfl
      ⟨hkind.required (kind.decodes b), hlocation.defaulted (location.decodes b), trivial⟩

theorem StmtKind.decodes : ∀ (k : StmtKind) (b : Nat), Decodes (Decode.stmtKind b) (k.Form b) k
  | .expression value => .variant (fun _ => rfl) (.inl rfl) fun b => (value.decodes b).map _
  | .localVar id name ty initial => by
    refine .variant (fun _ => rfl) (.inr rfl)
      (.object fun b ms ⟨hid, hname, hty, hinitial⟩ => ?_)
    exact record_bind (a := (id.number, name, ty, initial, ())) rfl
      ⟨hid.required decodes_natural, hname.required decodes_string,
       hty.required (ty.decodes b), hinitial.optional Expr.decodes_option, trivial⟩
  | .assign target op value => by
    refine .variant (fun _ => rfl) (.inr rfl) (.object fun b ms ⟨htarget, hop, hvalue⟩ => ?_)
    exact record_bind (a := (target, op, value, ())) rfl
      ⟨htarget.required (target.decodes b),
       hop.optional (.optional (fun _ => decodes_binaryOperator) fun op => by cases op <;> nofun),
       hvalue.required (value.decodes b), trivial⟩
  | .ret value => .variant (fun _ => rfl) (.inl rfl) fun _ => Expr.decodes_option.map _
  | .ifChain parts => by
    refine .variant (fun _ => rfl) (.inr rfl) (.object fun b ms hparts => ?_)
    exact record_bind (a := (parts, ())) rfl
      ⟨hparts.required (.items (fun _ => rfl) (parts_decode parts) b), trivial⟩
  | .whileLoop condition body => by
    refine .variant (fun _ => rfl) (.inr rfl) (.object fun b ms ⟨hcondition, hbody⟩ => ?_)
    exact record_bind (a := (condition, body, ())) rfl
      ⟨hcondition.required (condition.decodes b),
       hbody.required (.items (fun _ => rfl) (stmts_decode body) b), trivial⟩
  | .forLoop start condition step body => by
    refine .variant (fun _ => rfl) (.inr rfl)
      (.object fun b ms ⟨hstart, hcondition, hstep, hbody⟩ => ?_)
    exact record_bind (a := (start, condition, step, body, ())) rfl
      ⟨hstart.optional (stmt?_decodes start b), hcondition.optional Expr.decodes_option,
       hstep.optional (stmt?_decodes step b),
       hbody.required (.items (fun _ => rfl) (stmts_decode body) b), trivial⟩
  | .breakLoop => by rintro (_ | b) _ rfl <;> rfl
  | .continueLoop => by rintro (_ | b) _ rfl <;> rfl

theorem IfPart.decodes : ∀ (p : IfPart) (b : Nat), Decodes (Decode.ifPart b) (p.Form b) p
  | ⟨condition, body⟩ => by
    refine .object fun b ms ⟨hcondition, hbody⟩ => ?_
    exact record_bind (a := (condition, body, ())) rfl
      ⟨hcondition.optional Expr.decodes_option,
       hbody.required (.items (fun _ => rfl) (stmts_decode body) b), trivial⟩

theorem stmt?_decodes : ∀ (o : Option Stmt) (b : Nat),
    Decodes (Json.optional (Decode.stmt b)) (stmtForm? o b) o
  | none, b => by
    rintro _ rfl
    rfl
  | some s, b => (s.decodes b).some (by obtain ⟨kind, location⟩ := s; exact nofun)

theorem stmts_decode : ∀ (ss : List Stmt) (b : Nat) (js : List Json), stmtsForm ss b js →
    List.Forall₂ (fun s j => Decode.stmt b (toNode j) = .ok s) ss js
  | [], b, js, h => by
    obtain rfl : js = [] := h
    exact .nil
  | s :: ss, b, _, ⟨j, js, rfl, hj, h⟩ => .cons (s.decodes b j hj) (stmts_decode ss b js h)

theorem parts_decode : ∀ (ps : List IfPart) (b : Nat) (js : List Json), partsForm ps b js →
    List.Forall₂ (fun p j => Decode.ifPart b (toNode j) = .ok p) ps js
  | [], b, js, h => by
    obtain rfl : js = [] := h
    exact .nil
  | p :: ps, b, _, ⟨j, js, rfl, hj, h⟩ => .cons (p.decodes b j hj) (parts_decode ps b js h)

end

theorem stmts_decodes (body : List Stmt) :
    ∀ b, Decodes (Decode.stmts b) (Items (stmtsForm body) b) body :=
  .items (fun _ => rfl) (stmts_decode body)

/-- The declarations of a list are decoded one by one. -/
theorem listOf_decodes {α : Type} {item : Nat → Decoder α} {F : α → Nat → Json → Prop}
    (h : ∀ a b, Decodes (item b) (F a b) a) (as : List α) :
    ∀ b, Decodes (Decode.listOf item b) (Each F as b) as :=
  .items (fun _ => rfl) fun b _ hjs => hjs.imp fun a j hj => h a b j hj

theorem ParameterDecl.decodes (p : ParameterDecl) :
    ∀ b, Decodes (Decode.parameter b) (p.Form b) p := by
  refine .object fun b ms ⟨hid, hname, hty⟩ => ?_
  exact record_bind (a := (p.id.number, p.name, p.ty, ())) rfl
    ⟨hid.required decodes_natural, hname.required decodes_string,
     hty.required (p.ty.decodes b), trivial⟩

theorem FunctionDecl.decodes (f : FunctionDecl) : ∀ b, Decodes (Decode.function b) (f.Form b) f := by
  refine .object fun b ms ⟨hid, hname, hlocation, hstatic, hparameters, hresult, hbody⟩ => ?_
  exact record_bind
    (a := (f.id, f.name, f.location, f.isStatic, f.parameters, f.result, f.body, ())) rfl
    ⟨hid.required f.id.decodes, hname.required decodes_string,
     hlocation.defaulted (f.location.decodes b), hstatic.defaulted decodes_boolean,
     hparameters.defaulted (listOf_decodes ParameterDecl.decodes f.parameters b),
     hresult.defaulted (f.result.decodes b), hbody.defaulted (stmts_decodes f.body b), trivial⟩

theorem ConstructorDecl.decodes (c : ConstructorDecl) :
    ∀ b, Decodes (Decode.constructor b) (c.Form b) c := by
  refine .object fun b ms ⟨hid, hlocation, hparameters, hbody⟩ => ?_
  exact record_bind (a := (c.id, c.location, c.parameters, c.body, ())) rfl
    ⟨hid.required c.id.decodes, hlocation.defaulted (c.location.decodes b),
     hparameters.defaulted (listOf_decodes ParameterDecl.decodes c.parameters b),
     hbody.defaulted (stmts_decodes c.body b), trivial⟩

theorem FunctionDecl.decodes_option {o : Option FunctionDecl} :
    Decodes (Json.optional (Decode.function b)) (OrNull (FunctionDecl.Form · b) o) o :=
  .optional (fun f => f.decodes b) fun _ => nofun

theorem VariableDecl.decodes (v : VariableDecl) :
    ∀ b, Decodes (Decode.memberVariable b) (v.Form b) v := by
  refine .object fun b ms ⟨hid, hname, hty, hlocation, hstatic, hinitial, hget, hset⟩ => ?_
  exact record_bind
    (a := (v.id.number, v.name, v.ty, v.location, v.isStatic, v.initial, v.getter, v.setter, ())) rfl
    ⟨hid.required decodes_natural, hname.required decodes_string,
     hty.required (v.ty.decodes b), hlocation.defaulted (v.location.decodes b),
     hstatic.defaulted decodes_boolean, hinitial.defaulted Expr.decodes_option,
     hget.defaulted FunctionDecl.decodes_option, hset.defaulted FunctionDecl.decodes_option,
     trivial⟩

theorem ClassDecl.decodes (c : ClassDecl) : ∀ b, Decodes (Decode.classDecl b) (c.Form b) c := by
  refine .object fun b ms ⟨hid, hname, hlocation, hpre, hmembers, hconstructors, hfunctions⟩ => ?_
  exact record_bind (a := (c.id.number, c.name, c.location, c.preConstructor, c.members,
      c.constructors, c.functions, ())) rfl
    ⟨hid.required decodes_natural, hname.required decodes_string,
     hlocation.defaulted (c.location.decodes b), hpre.defaulted FunctionId.decodes_option,
     hmembers.defaulted (listOf_decodes VariableDecl.decodes c.members b),
     hconstructors.defaulted (listOf_decodes ConstructorDecl.decodes c.constructors b),
     hfunctions.defaulted (listOf_decodes FunctionDecl.decodes c.functions b), trivial⟩

theorem Tree.decodes (t : Tree) : ∀ b, Decodes (Tree.ofNode b) (t.Form b) t := by
  refine .object fun b ms hclasses => ?_
  exact record_bind (a := (t.classes, ())) rfl
    ⟨hclasses.defaulted (listOf_decodes ClassDecl.decodes t.classes b), trivial⟩

/-! ### Writing a form -/

/-- Numbers of 32 bits. -/
def Location.Fits (l : Location) : Prop := l.line < 2 ^ 32 ∧ l.column < 2 ^ 32

def TypeSpec.Fits : TypeSpec → Prop
  | .vector _ count => count < 2 ^ 32
  | .matrix rows columns => rows < 2 ^ 32 ∧ columns < 2 ^ 32
  | .array element length => element.Fits ∧ length < 2 ^ 32
  | .ofClass id => id.number < 2 ^ 32
  | .void | .scalar _ | .math => True

def FunctionId.Fits (f : FunctionId) : Prop := f.number < 2 ^ 32

def Accessed.Fits : Accessed → Prop
  | .function id => id.Fits
  | .property id => id.number < 2 ^ 32
  | .accessors getter setter => (∀ f ∈ getter, f.Fits) ∧ ∀ f ∈ setter, f.Fits
  | .intrinsic owner => owner.Fits

theorem Location.form_toJson {l : Location} (h : l.Fits) : Writes l.Form l.toJson :=
  .object fun _ _ => ⟨⟨_, rfl, rfl⟩, ⟨_, rfl, rfl, h.1⟩, ⟨_, rfl, rfl, h.2⟩⟩

theorem TypeSpec.form_toJson {ty : TypeSpec} (h : ty.Fits) : Writes ty.Form ty.toJson := by
  induction ty with
  | void | math => exact fun _ _ => rfl
  | scalar kind => exact .variant fun _ _ => rfl
  | vector kind count => exact .variant <| .object fun _ _ => ⟨⟨_, rfl, rfl⟩, ⟨_, rfl, rfl, h⟩⟩
  | matrix rows columns =>
    exact .variant <| .object fun _ _ => ⟨⟨_, rfl, rfl, h.1⟩, ⟨_, rfl, rfl, h.2⟩⟩
  | array element length ih =>
    exact .variant <| .object fun _ hms => ⟨(ih h.1).given hms rfl, ⟨_, rfl, rfl, h.2⟩⟩
  | ofClass id => exact .variant fun _ _ => ⟨rfl, h⟩

theorem FunctionId.form_toJson {f : FunctionId} (h : f.Fits) : f.Form f.toJson := ⟨rfl, h⟩

theorem FunctionId.form_option {o : Option FunctionId} (h : ∀ f ∈ o, f.Fits) :
    OrNull FunctionId.Form o (.option FunctionId.toJson o) := by
  cases o with
  | none => rfl
  | some f => exact FunctionId.form_toJson (h f rfl)

theorem Accessed.form_toJson {m : Accessed} (h : m.Fits) : Writes m.Form m.toJson := by
  cases m with
  | function id => exact .variant fun _ _ => ⟨rfl, h⟩
  | property id => exact .variant fun _ _ => ⟨rfl, h⟩
  | accessors getter setter =>
    exact .variant <| .object fun _ _ =>
      ⟨.inl ⟨_, rfl, FunctionId.form_option h.1⟩, .inl ⟨_, rfl, FunctionId.form_option h.2⟩⟩
  | intrinsic owner =>
    exact .variant <| .object fun _ hms => (TypeSpec.form_toJson h).given hms rfl

section

variable (real : Real32 → Json)

/-- The numeral of a real reads back. -/
def Literal.Fits : Literal → Prop
  | .real x => Json.real (toNode (real x)) = .ok x
  | .bool _ | .int _ => True

mutual

def Expr.Fits : Expr → Prop
  | ⟨kind, ty, location⟩ => kind.Fits ∧ ty.Fits ∧ location.Fits

def ExprKind.Fits : ExprKind → Prop
  | .literal value => value.Fits real
  | .localVar id => id.number < 2 ^ 32
  | .thisObject => True
  | .binary _ left right => left.Fits ∧ right.Fits
  | .unary _ operand => operand.Fits
  | .cast operand => operand.Fits
  | .member access => access.Fits
  | .call access arguments => access.Fits ∧ exprsFit arguments
  | .construct constructor arguments => (∀ f ∈ constructor, f.Fits) ∧ exprsFit arguments

def Access.Fits : Access → Prop
  | ⟨target, _, accessed, _⟩ => exprFits? target ∧ accessed.Fits

def exprFits? : Option Expr → Prop
  | none => True
  | some e => e.Fits

def exprsFit : List Expr → Prop
  | [] => True
  | e :: es => e.Fits ∧ exprsFit es

end

mutual

def Stmt.Fits : Stmt → Prop
  | ⟨kind, location⟩ => kind.Fits ∧ location.Fits

def StmtKind.Fits : StmtKind → Prop
  | .expression value => value.Fits real
  | .localVar id _ ty initial => id.number < 2 ^ 32 ∧ ty.Fits ∧ ∀ e ∈ initial, e.Fits real
  | .assign target _ value => target.Fits real ∧ value.Fits real
  | .ret value => ∀ e ∈ value, e.Fits real
  | .ifChain parts => partsFit parts
  | .whileLoop condition body => condition.Fits real ∧ stmtsFit body
  | .forLoop start condition step body =>
    stmtFits? start ∧ (∀ e ∈ condition, e.Fits real) ∧ stmtFits? step ∧ stmtsFit body
  | .breakLoop | .continueLoop => True

def IfPart.Fits : IfPart → Prop
  | ⟨condition, body⟩ => (∀ e ∈ condition, e.Fits real) ∧ stmtsFit body

def stmtFits? : Option Stmt → Prop
  | none => True
  | some s => s.Fits

def stmtsFit : List Stmt → Prop
  | [] => True
  | s :: ss => s.Fits ∧ stmtsFit ss

def partsFit : List IfPart → Prop
  | [] => True
  | p :: ps => p.Fits ∧ partsFit ps

end

def ParameterDecl.Fits (p : ParameterDecl) : Prop := p.id.number < 2 ^ 32 ∧ p.ty.Fits

def FunctionDecl.Fits (f : FunctionDecl) : Prop :=
  f.id.Fits ∧ f.location.Fits ∧ (∀ p ∈ f.parameters, p.Fits) ∧ f.result.Fits ∧ stmtsFit real f.body

def ConstructorDecl.Fits (c : ConstructorDecl) : Prop :=
  c.id.Fits ∧ c.location.Fits ∧ (∀ p ∈ c.parameters, p.Fits) ∧ stmtsFit real c.body

def VariableDecl.Fits (v : VariableDecl) : Prop :=
  v.id.number < 2 ^ 32 ∧ v.ty.Fits ∧ v.location.Fits ∧ (∀ e ∈ v.initial, e.Fits real) ∧
    (∀ f ∈ v.getter, f.Fits real) ∧ ∀ f ∈ v.setter, f.Fits real

def ClassDecl.Fits (c : ClassDecl) : Prop :=
  c.id.number < 2 ^ 32 ∧ c.location.Fits ∧ (∀ f ∈ c.preConstructor, f.Fits) ∧
    (∀ v ∈ c.members, v.Fits real) ∧ (∀ d ∈ c.constructors, d.Fits real) ∧
    ∀ f ∈ c.functions, f.Fits real

/-- **A tree that can be written.** All numbers fit 32 bits, and the numerals of reals read back. -/
def Tree.Fits (t : Tree) : Prop := ∀ c ∈ t.classes, c.Fits real

variable {real}

theorem Literal.form_toJson {l : Literal} (h : l.Fits real) : Writes l.Form (l.toJson real) := by
  cases l with
  | bool value => exact .variant fun _ _ => rfl
  | int value => exact .variant fun _ _ => rfl
  | real value => exact .variant fun _ _ => h

mutual

theorem Expr.form_toJson : ∀ e : Expr, e.Fits real → Writes e.Form (e.toJson real)
  | ⟨kind, _, _⟩, ⟨hkind, hty, hlocation⟩ => .object fun _ hms =>
    ⟨(kind.form_toJson hkind).given hms rfl, (TypeSpec.form_toJson hty).given hms rfl,
      .inl ((Location.form_toJson hlocation).given hms rfl)⟩

theorem ExprKind.form_toJson : ∀ k : ExprKind, k.Fits real → Writes k.Form (k.toJson real)
  | .literal _, h => .variant (Literal.form_toJson h)
  | .localVar _, h => .variant fun _ _ => ⟨rfl, h⟩
  | .thisObject, _ => fun _ _ => rfl
  | .binary _ left right, ⟨hleft, hright⟩ => .variant <| .object fun _ hms =>
    ⟨⟨_, rfl, rfl⟩, (left.form_toJson hleft).given hms rfl, (right.form_toJson hright).given hms rfl⟩
  | .unary _ operand, h => .variant <| .object fun _ hms =>
    ⟨⟨_, rfl, rfl⟩, (operand.form_toJson h).given hms rfl⟩
  | .cast operand, h => .variant <| .object fun _ hms => (operand.form_toJson h).given hms rfl
  | .member access, h => .variant (access.form_toJson h)
  | .call access arguments, ⟨haccess, harguments⟩ => .variant <| .object fun _ hms =>
    ⟨(access.form_toJson haccess).given hms rfl,
      (Writes.items (exprs_form_toJson arguments harguments)).given hms rfl⟩
  | .construct _ arguments, ⟨hconstructor, harguments⟩ => .variant <| .object fun _ hms =>
    ⟨.inl ⟨_, rfl, FunctionId.form_option hconstructor⟩,
      (Writes.items (exprs_form_toJson arguments harguments)).given hms rfl⟩

theorem Access.form_toJson : ∀ m : Access, m.Fits real → Writes m.Form (m.toJson real)
  | ⟨target, _, _, _⟩, ⟨htarget, haccessed⟩ => .object fun _ hms =>
    ⟨.inl ((expr?_form_toJson target htarget).given hms rfl), ⟨_, rfl, rfl⟩,
      (Accessed.form_toJson haccessed).given hms rfl, .inl ⟨_, rfl, rfl⟩⟩

theorem expr?_form_toJson : ∀ o : Option Expr, exprFits? real o →
    Writes (exprForm? o) (exprToJson? real o)
  | none, _ => fun _ _ => rfl
  | some e, h => e.form_toJson h

theorem exprs_form_toJson : ∀ es : List Expr, exprsFit real es → ∀ b,
    (∀ j ∈ exprsToJson real es, j.depth ≤ b) → exprsForm es b (exprsToJson real es)
  | [], _, _, _ => rfl
  | e :: es, ⟨he, hes⟩, b, hjs => ⟨_, _, rfl, e.form_toJson he b (hjs _ List.mem_cons_self),
      exprs_form_toJson es hes b fun j hj => hjs j (List.mem_cons_of_mem _ hj)⟩

end

theorem Expr.form_option {o : Option Expr} (h : ∀ e ∈ o, e.Fits real) :
    Writes (fun b => OrNull (Expr.Form · b) o) (.option (Expr.toJson real) o) :=
  .option fun e he => e.form_toJson (h e he)

mutual

theorem Stmt.form_toJson : ∀ s : Stmt, s.Fits real → Writes s.Form (s.toJson real)
  | ⟨kind, _⟩, ⟨hkind, hlocation⟩ => .object fun _ hms =>
    ⟨(kind.form_toJson hkind).given hms rfl,
      .inl ((Location.form_toJson hlocation).given hms rfl)⟩

theorem StmtKind.form_toJson : ∀ k : StmtKind, k.Fits real → Writes k.Form (k.toJson real)
  | .expression value, h => .variant (value.form_toJson h)
  | .localVar _ _ _ _, ⟨hid, hty, hinitial⟩ => .variant <| .object fun _ hms =>
    ⟨⟨_, rfl, rfl, hid⟩, ⟨_, rfl, rfl⟩, (TypeSpec.form_toJson hty).given hms rfl,
      .inl ((Expr.form_option hinitial).given hms rfl)⟩
  | .assign target op value, ⟨htarget, hvalue⟩ => .variant <| .object fun _ hms =>
    ⟨(target.form_toJson htarget).given hms rfl, .inl ⟨_, rfl, by cases op <;> rfl⟩,
      (value.form_toJson hvalue).given hms rfl⟩
  | .ret _, h => .variant (Expr.form_option h)
  | .ifChain parts, h => .variant <| .object fun _ hms =>
    (Writes.items (parts_form_toJson parts h)).given hms rfl
  | .whileLoop condition body, ⟨hcondition, hbody⟩ => .variant <| .object fun _ hms =>
    ⟨(condition.form_toJson hcondition).given hms rfl,
      (Writes.items (stmts_form_toJson body hbody)).given hms rfl⟩
  | .forLoop start _ step body, ⟨hstart, hcondition, hstep, hbody⟩ => .variant <| .object fun _ hms =>
    ⟨.inl ((stmt?_form_toJson start hstart).given hms rfl),
      .inl ((Expr.form_option hcondition).given hms rfl),
      .inl ((stmt?_form_toJson step hstep).given hms rfl),
      (Writes.items (stmts_form_toJson body hbody)).given hms rfl⟩
  | .breakLoop, _ => fun _ _ => rfl
  | .continueLoop, _ => fun _ _ => rfl

theorem IfPart.form_toJson : ∀ p : IfPart, p.Fits real → Writes p.Form (p.toJson real)
  | ⟨_, body⟩, ⟨hcondition, hbody⟩ => .object fun _ hms =>
    ⟨.inl ((Expr.form_option hcondition).given hms rfl),
      (Writes.items (stmts_form_toJson body hbody)).given hms rfl⟩

theorem stmt?_form_toJson : ∀ o : Option Stmt, stmtFits? real o →
    Writes (stmtForm? o) (stmtToJson? real o)
  | none, _ => fun _ _ => rfl
  | some s, h => s.form_toJson h

theorem stmts_form_toJson : ∀ ss : List Stmt, stmtsFit real ss → ∀ b,
    (∀ j ∈ stmtsToJson real ss, j.depth ≤ b) → stmtsForm ss b (stmtsToJson real ss)
  | [], _, _, _ => rfl
  | s :: ss, ⟨hs, hss⟩, b, hjs => ⟨_, _, rfl, s.form_toJson hs b (hjs _ List.mem_cons_self),
      stmts_form_toJson ss hss b fun j hj => hjs j (List.mem_cons_of_mem _ hj)⟩

theorem parts_form_toJson : ∀ ps : List IfPart, partsFit real ps → ∀ b,
    (∀ j ∈ partsToJson real ps, j.depth ≤ b) → partsForm ps b (partsToJson real ps)
  | [], _, _, _ => rfl
  | p :: ps, ⟨hp, hps⟩, b, hjs => ⟨_, _, rfl, p.form_toJson hp b (hjs _ List.mem_cons_self),
      parts_form_toJson ps hps b fun j hj => hjs j (List.mem_cons_of_mem _ hj)⟩

end

theorem ParameterDecl.form_toJson {p : ParameterDecl} (h : p.Fits) : Writes p.Form p.toJson :=
  .object fun _ hms =>
    ⟨⟨_, rfl, rfl, h.1⟩, ⟨_, rfl, rfl⟩, (TypeSpec.form_toJson h.2).given hms rfl⟩

theorem FunctionDecl.form_toJson {f : FunctionDecl} (h : f.Fits real) :
    Writes f.Form (f.toJson real) := by
  obtain ⟨hid, hlocation, hparameters, hresult, hbody⟩ := h
  exact .object fun _ hms => ⟨⟨_, rfl, FunctionId.form_toJson hid⟩, ⟨_, rfl, rfl⟩,
    .inl ((Location.form_toJson hlocation).given hms rfl), .inl ⟨_, rfl, rfl⟩,
    .inl ((Writes.each fun p hp => ParameterDecl.form_toJson (hparameters p hp)).given hms rfl),
    .inl ((TypeSpec.form_toJson hresult).given hms rfl),
    .inl ((Writes.items (stmts_form_toJson f.body hbody)).given hms rfl)⟩

theorem ConstructorDecl.form_toJson {c : ConstructorDecl} (h : c.Fits real) :
    Writes c.Form (c.toJson real) := by
  obtain ⟨hid, hlocation, hparameters, hbody⟩ := h
  exact .object fun _ hms => ⟨⟨_, rfl, FunctionId.form_toJson hid⟩,
    .inl ((Location.form_toJson hlocation).given hms rfl),
    .inl ((Writes.each fun p hp => ParameterDecl.form_toJson (hparameters p hp)).given hms rfl),
    .inl ((Writes.items (stmts_form_toJson c.body hbody)).given hms rfl)⟩

theorem VariableDecl.form_toJson {v : VariableDecl} (h : v.Fits real) :
    Writes v.Form (v.toJson real) := by
  obtain ⟨hid, hty, hlocation, hinitial, hget, hset⟩ := h
  exact .object fun _ hms => ⟨⟨_, rfl, rfl, hid⟩, ⟨_, rfl, rfl⟩,
    (TypeSpec.form_toJson hty).given hms rfl,
    .inl ((Location.form_toJson hlocation).given hms rfl), .inl ⟨_, rfl, rfl⟩,
    .inl ((Expr.form_option hinitial).given hms rfl),
    .inl ((Writes.option fun f hf => FunctionDecl.form_toJson (hget f hf)).given hms rfl),
    .inl ((Writes.option fun f hf => FunctionDecl.form_toJson (hset f hf)).given hms rfl)⟩

theorem ClassDecl.form_toJson {c : ClassDecl} (h : c.Fits real) :
    Writes c.Form (c.toJson real) := by
  obtain ⟨hid, hlocation, hpre, hmembers, hconstructors, hfunctions⟩ := h
  exact .object fun _ hms => ⟨⟨_, rfl, rfl, hid⟩, ⟨_, rfl, rfl⟩,
    .inl ((Location.form_toJson hlocation).given hms rfl),
    .inl ⟨_, rfl, FunctionId.form_option hpre⟩,
    .inl ((Writes.each fun v hv => VariableDecl.form_toJson (hmembers v hv)).given hms rfl),
    .inl ((Writes.each fun d hd => ConstructorDecl.form_toJson (hconstructors d hd)).given hms rfl),
    .inl ((Writes.each fun f hf => FunctionDecl.form_toJson (hfunctions f hf)).given hms rfl)⟩

theorem Tree.form_toJson {t : Tree} (h : t.Fits real) : Writes t.Form (t.toJson real) :=
  .object fun _ hms =>
    .inl ((Writes.each fun c hc => ClassDecl.form_toJson (h c hc)).given hms rfl)

end

/-- **Reading a tree back.** What the encoder writes is a form of the tree, if the budget allows for
its brackets, and from every form of the tree the decoder gets the tree. -/
theorem Tree.ofNode_form (real : Real32 → Json) (t : Tree) (budget : Nat) :
    (t.Fits real → (t.toJson real).depth ≤ budget → t.Form budget (t.toJson real)) ∧
      ∀ j, t.Form budget j → Tree.ofNode budget (toNode j) = .ok t :=
  ⟨fun h => Tree.form_toJson h budget, t.decodes budget⟩

/-- A static function that returns a half. -/
def Tree.half : Tree :=
  let value : Expr := ⟨.literal (.real (Number.toReal (.real 0.5))), .real, .unknown⟩
  ⟨[{ id := ⟨1⟩, name := "Half",
      functions := [{ id := ⟨2⟩, name := "get", isStatic := true, result := .real,
                      body := [⟨.ret (some value), ⟨"half.fx", 3, 5⟩⟩] }] }]⟩

/-- The same with fields in another order, a field that no record has, and without the fields that
hold a default. -/
def Tree.halfAltered : Json :=
  let value := .obj [("ty", tagged "Scalar" (.str "Real")),
    ("kind", tagged "Literal" (tagged "Real" (.num (.real 0.5))))]
  let statement := .obj [("kind", tagged "Return" value),
    ("location", .obj [("line", .nat 3), ("filename", .str "half.fx"), ("column", .nat 5)])]
  let function := .obj [("is_static", .bool true), ("name", .str "get"),
    ("return_type", tagged "Scalar" (.str "Real")), ("function", .nat 2),
    ("statements", .arr [statement])]
  .obj [("version", .arr [.nat 7]),
    ("classes", .arr [.obj [("functions", .arr [function]), ("name", .str "Half"),
      ("type_id", .nat 1)]])]

/-- Both the form with all fields in order and the altered one are read as the tree, with as many
brackets as a text may open. -/
theorem Tree.ofNode_form_half :
    Tree.half.Fits (fun _ => .num (.real 0.5)) ∧
      Tree.ofNode Tree.nestingLimit (toNode (Tree.half.toJson fun _ => .num (.real 0.5))) =
        .ok Tree.half ∧
      Tree.half.Form Tree.nestingLimit Tree.halfAltered ∧
      Tree.ofNode Tree.nestingLimit (toNode Tree.halfAltered) = .ok Tree.half := by
  obtain ⟨hwrite, hread⟩ :=
    Tree.ofNode_form (fun _ => .num (.real 0.5)) Tree.half Tree.nestingLimit
  have hfits : Tree.half.Fits fun _ => .num (.real 0.5) := by
    simp [Tree.Fits, Tree.half, ClassDecl.Fits, FunctionDecl.Fits, FunctionId.Fits, Location.Fits,
      Location.unknown, TypeSpec.Fits, TypeSpec.real, stmtsFit, Stmt.Fits, StmtKind.Fits, Expr.Fits,
      ExprKind.Fits, Literal.Fits]
    rfl
  -- The fields come up in the order of the record, wherever they stand among the members.
  have hform : Tree.half.Form Tree.nestingLimit Tree.halfAltered := by
    refine ⟨_, _, rfl, rfl, .inl ⟨_, rfl, _, _, rfl, rfl, .cons ⟨_, _, rfl, rfl,
      ⟨_, rfl, rfl, by decide⟩, ⟨_, rfl, rfl⟩, .inr ⟨rfl, rfl⟩, .inr ⟨rfl, rfl⟩, .inr ⟨rfl, rfl⟩,
      .inr ⟨rfl, rfl⟩, .inl ⟨_, rfl, _, _, rfl, rfl, .cons ?_ .nil⟩⟩ .nil⟩⟩
    refine ⟨_, _, rfl, rfl, ⟨_, rfl, rfl, by decide⟩, ⟨_, rfl, rfl⟩, .inr ⟨rfl, rfl⟩,
      .inl ⟨_, rfl, rfl⟩, .inr ⟨rfl, rfl⟩, .inl ⟨_, rfl, _, _, rfl, rfl, rfl⟩,
      .inl ⟨_, rfl, _, _, rfl, rfl, _, _, rfl, ?_, rfl⟩⟩
    refine ⟨_, _, rfl, rfl, ⟨_, rfl, _, _, rfl, rfl, _, _, rfl, rfl, ?_, ?_, .inr ⟨rfl, rfl⟩⟩, ?_⟩
    · exact ⟨_, rfl, _, _, rfl, rfl, _, _, rfl, rfl, rfl⟩
    · exact ⟨_, rfl, _, _, rfl, rfl, rfl⟩
    · exact .inl ⟨_, rfl, _, _, rfl, rfl, ⟨_, rfl, rfl⟩, ⟨_, rfl, rfl, by decide⟩,
        ⟨_, rfl, rfl, by decide⟩⟩
  exact ⟨hfits, hread _ (hwrite hfits (by decide)), hform, hread _ hform⟩

/-- A literal under so many negations. -/
def Expr.negations : Nat → Expr
  | 0 => ⟨.literal (.int 1), .integer, .unknown⟩
  | n + 1 => ⟨.unary .negate (negations n), .integer, .unknown⟩

/-- A static function that returns a literal under forty negations. -/
def Tree.tower : Tree :=
  ⟨[{ id := ⟨1⟩, name := "Tower",
      functions := [{ id := ⟨2⟩, name := "get", isStatic := true, result := .integer,
                      body := [⟨.ret (some (.negations 40)), .unknown⟩] }] }]⟩

theorem Location.unknown_fits : Location.unknown.Fits := ⟨by decide, by decide⟩

theorem Expr.negations_fit {real : Real32 → Json} (n : Nat) : (Expr.negations n).Fits real := by
  induction n with
  | zero => exact ⟨trivial, trivial, Location.unknown_fits⟩
  | succ n ih => exact ⟨ih, trivial, Location.unknown_fits⟩

/-- **Some trees are not read back.** A negation opens three brackets, so the form of this tree opens
more than a text may. -/
theorem Tree.ofNode_tower :
    Tree.tower.Fits (fun _ => .null) ∧
      Tree.ofNode Tree.nestingLimit (toNode (Tree.tower.toJson fun _ => .null)) ≠ .ok Tree.tower := by
  refine ⟨fun c hc => ?_, fun hread => ?_⟩
  · obtain rfl := List.mem_singleton.mp hc
    refine ⟨by decide, Location.unknown_fits, nofun, nofun, nofun, fun f hf => ?_⟩
    obtain rfl := List.mem_singleton.mp hf
    have hvalue : ∀ e ∈ some (Expr.negations 40), e.Fits fun _ => .null :=
      fun _ he => Option.some.inj he ▸ Expr.negations_fit 40
    exact ⟨show 2 < 2 ^ 32 by decide, Location.unknown_fits, nofun, trivial,
      ⟨hvalue, Location.unknown_fits⟩, trivial⟩
  · -- The decoder stops at the first bracket over the limit, deep inside the negations.
    have hrefused : (Tree.ofNode Tree.nestingLimit
        (toNode (Tree.tower.toJson fun _ => .null))).isOk = false := by decide +kernel
    rw [hread] at hrefused
    nomatch hrefused

end Shader
