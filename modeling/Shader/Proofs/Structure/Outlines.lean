import Shader.Proofs.IR.Growth
import Shader.Proofs.Library.Within
import Shader.Proofs.Lowering.Constructs
import Shader.Proofs.Structure.Sketch

/-!
# What emission draws

The outline of an expression or a statement is read off the syntax (`Expr.outline`, `Stmt.outline`).
The rules tell which operators become a selection, and the scope which targets are emitted at all.

That emission as a whole draws the outline of the syntax is part of the walk through the syntax.
-/

namespace Shader

open Outcome

/-! ### Outlines of syntax -/

/-- An operation that is given by a rule. Nothing keeps a rule from being a terminator. -/
def Outline.ruled (opcode : Opcode) : Outline :=
  if opcode.isTerminator then .leave opcode else .straight

namespace Scope

/-- An operator that is applied to an operand that has been emitted and one that has not. -/
def combine (s : Scope) (key : BinaryKey) (right : Outline) : Outline :=
  match s.library.binaryRule? key with
  | some (.shortCircuit _) => .shortCircuit right
  | some (.instruction opcode) => .seq right (.ruled opcode)
  | none => .straight

/-- A conversion of an operand. -/
def conversion (s : Scope) (key : ConversionKey) (operand : Outline) : Outline :=
  match s.library.conversionRule? key with
  | some (.instruction opcode) => .seq operand (.ruled opcode)
  | some (.ofBool _ _) => operand
  | some (.toBool compare _) => .seq operand (.ruled compare)
  | none => .straight

/-- A call of a builtin function. -/
def intrinsic (s : Scope) (key : IntrinsicKey) (arguments : Outline) : Outline :=
  match s.library.intrinsicRule? key with
  | some (.instruction opcode) => .seq arguments (.ruled opcode)
  | some .identity => arguments
  | none => .straight

/-- Whether the function that an identity stands for takes the object it belongs to. -/
def takes (s : Scope) (id : FunctionId) : Bool :=
  match s.library.findFunction? id with
  | some f => s.takesObject id f
  | none => false

end Scope

mutual

/-- The outline of an expression. -/
def Expr.outline (s : Scope) : Expr → Outline
  | ⟨kind, ty, _⟩ => kind.outline s ty

/-- The outline of an expression of a given type. -/
def ExprKind.outline (s : Scope) (ty : TypeSpec) : ExprKind → Outline
  | .literal _ | .localVar _ | .thisObject => .straight
  | .binary op left right =>
    .seq (left.outline s) (s.combine ⟨left.ty, right.ty, op⟩ (right.outline s))
  | .unary op operand =>
    match s.library.unaryRule? ⟨operand.ty, op⟩ with
    | some (.instruction opcode) => .seq (operand.outline s) (.ruled opcode)
    | none => .straight
  | .cast operand =>
    if operand.ty = ty then operand.outline s
    else s.conversion ⟨operand.ty, ty⟩ (operand.outline s)
  | .member access => access.outline s
  | .call access arguments =>
    match access.accessed with
    | .intrinsic owner => s.intrinsic ⟨owner, access.name, arguments.map Expr.ty⟩ (exprsOutline s arguments)
    | .function id =>
      if s.takes id then .seq (access.outline s) (exprsOutline s arguments)
      else exprsOutline s arguments
    | .property _ | .accessors _ _ => .straight
  | .construct constructor arguments =>
    match ty with
    | .ofClass _ => if constructor.isSome then exprsOutline s arguments else .straight
    | _ => exprsOutline s arguments

/-- The outline of the target of an access. -/
def Access.outline (s : Scope) : Access → Outline
  | ⟨some target, _, _, _⟩ => target.outline s
  | ⟨none, _, _, _⟩ => .straight

/-- The outline of expressions in order. -/
def exprsOutline (s : Scope) : List Expr → Outline
  | [] => .straight
  | e :: es => .seq (e.outline s) (exprsOutline s es)

end

/-- The outline of an expression that may be missing. -/
def exprOutline? (s : Scope) : Option Expr → Outline
  | none => .straight
  | some e => e.outline s

/-- The outline of an assignment. What a setter is called on is emitted after the value. -/
def assignOutline (s : Scope) (target value : Expr) : Outline :=
  match Emit.assignedMember? target s with
  | some (access, _) => .seq (value.outline s) (access.outline s)
  | none => .seq (value.outline s) (target.outline s)

/-- The outline of an assignment with an operator. -/
def compoundOutline (s : Scope) (target : Expr) (op : BinaryOperator) (value : Expr) : Outline :=
  let combined := s.combine ⟨target.ty, value.ty, op⟩ (value.outline s)
  match Emit.assignedMember? target s with
  | some (access, _) => .seq (access.outline s) combined
  | none => .seq (target.outline s) combined

mutual

/-- The outline of a statement. -/
def Stmt.outline (s : Scope) : Stmt → Outline
  | ⟨kind, _⟩ => kind.outline s

/-- The outline of a kind of statement. -/
def StmtKind.outline (s : Scope) : StmtKind → Outline
  | .expression e => e.outline s
  | .localVar _ _ _ initial => exprOutline? s initial
  | .assign target none value => assignOutline s target value
  | .assign target (some op) value => compoundOutline s target op value
  | .ret value => .seq (exprOutline? s value) (.leave (if value.isSome then .retValue else .ret))
  | .ifChain parts => partsOutline s parts
  | .whileLoop condition body => .loop true (condition.outline s) (stmtsOutline s body) .straight
  | .forLoop start condition step body =>
    .seq (stmtOutline? s start)
      (.loop condition.isSome (exprOutline? s condition) (stmtsOutline s body) (stmtOutline? s step))
  | .breakLoop | .continueLoop => .leave .branch

/-- The outline of a chain of conditions. -/
def partsOutline (s : Scope) : List IfPart → Outline
  | [] => .straight
  | ⟨none, body⟩ :: _ => stmtsOutline s body
  | [⟨some condition, body⟩] => .seq (condition.outline s) (.ifThen (stmtsOutline s body))
  | ⟨some condition, body⟩ :: rest =>
    .seq (condition.outline s) (.ifElse (stmtsOutline s body) (partsOutline s rest))

/-- The outline of a statement that may be missing. -/
def stmtOutline? (s : Scope) : Option Stmt → Outline
  | none => .straight
  | some x => x.outline s

/-- The outline of statements in order. -/
def stmtsOutline (s : Scope) : List Stmt → Outline
  | [] => .straight
  | x :: xs => .seq (x.outline s) (stmtsOutline s xs)

end

/-- The outline of what initializes a member variable. -/
def initializerOutline (s : Scope) (v : VariableDecl) : Outline :=
  match s.fieldIndex? v.id with
  | none => .straight
  | some _ => exprOutline? s v.initial

/-- The outline of what initializes member variables in order. -/
def initializersOutline (s : Scope) : List VariableDecl → Outline
  | [] => .straight
  | v :: vs => .seq (initializerOutline s v) (initializersOutline s vs)

/-! ### Sketches of functions under construction -/

/-- A block as control flow sees it. -/
def Block.node (b : Block) : Node :=
  ⟨b.role, b.merge, b.continuation, (b.ops.find? Op.isTerminator).map Op.opcode⟩

/-- The sketch of a function under construction. -/
def Builder.sketch (b : Builder) : Sketch :=
  ⟨b.routine.blocks.map Block.node, b.routine.order, b.current.getD ⟨0⟩⟩

namespace Block

theorem node_push (b : Block) (op : Op) :
    (b.push op).node = if op.isTerminator then b.node.close op.opcode else b.node := by
  unfold node push Node.close
  dsimp only
  rw [List.find?_append]
  split
  · next h => cases b.ops.find? Op.isTerminator <;> simp [h]
  · next h => cases b.ops.find? Op.isTerminator <;> simp [h]

end Block

variable {change : Block → Block}

namespace Builder

theorem map_modify {α β : Type} {h : α → β} {f : α → α} {g : β → β} (hfg : ∀ a, h (f a) = g (h a))
    (as : List α) (i : Nat) : (as.modify i f).map h = (as.map h).modify i g := by
  refine List.ext_getElem? fun j => ?_
  rw [List.getElem?_map, List.getElem?_modify, List.getElem?_modify, List.getElem?_map]
  cases as[j]? with
  | none => rfl
  | some a => by_cases hij : i = j <;> simp [hij, hfg]

variable {b' b : Builder} {c : BlockId}

/-- A change of the current block. -/
theorem sketch_change {f : Node → Node} (hchange : ∀ x : Block, (change x).node = f x.node)
    (hc : b.current = some c) (hblocks : b'.routine.blocks = b.routine.blocks.modify c.index change)
    (horder : b'.routine.order = b.routine.order) (hcurrent : b'.current = b.current) :
    b'.sketch = b.sketch.change f := by
  unfold sketch Sketch.change
  rw [hblocks, horder, hcurrent, hc, map_modify hchange]
  rfl

/-- A change that control flow does not see. -/
theorem sketch_eq {i : Nat} {f : Block → Block} (hf : ∀ x : Block, (f x).node = x.node)
    (hblocks : b'.routine.blocks = b.routine.blocks.modify i f)
    (horder : b'.routine.order = b.routine.order) (hcurrent : b'.current = b.current) :
    b'.sketch = b.sketch := by
  unfold sketch
  rw [hblocks, horder, hcurrent, map_modify (g := id) hf, List.modify_id]

theorem Appends.sketch {n : Nat} {op : Op} {x : Block} (h : Appends n op b b' c x) :
    b'.sketch = (Outline.ruled op.opcode).draw b.sketch := by
  have hblocks : b'.routine.blocks = b.routine.blocks.modify c.index (·.push op) := by
    rw [h.eq]
    rfl
  have horder : b'.routine.order = b.routine.order := by
    rw [h.eq]
    rfl
  have hcurrent : b'.current = b.current := h.current'.trans h.current.symm
  unfold Outline.ruled
  by_cases hop : op.opcode.isTerminator = true
  · rw [if_pos hop]
    refine sketch_change (fun y => ?_) h.current hblocks horder hcurrent
    rw [Block.node_push, if_pos (show op.isTerminator = true from hop)]
  · rw [if_neg hop]
    refine sketch_eq (fun y => ?_) hblocks horder hcurrent
    rw [Block.node_push, if_neg (show ¬ op.isTerminator = true from hop)]

theorem Declares.sketch {op : Op} {v : ValueId} (h : Declares op v b b') :
    b'.sketch = b.sketch := by
  obtain ⟨c, x, -, -, rfl⟩ := h.eq
  exact sketch_eq (f := (·.pushLocal op)) (fun _ => rfl) rfl rfl rfl

theorem sketch_block {name : String} (h : block name b = (.ok c, b')) :
    c = b.sketch.fresh 0 ∧ b'.sketch = b.sketch.allocate 1 := by
  obtain ⟨rfl, rfl⟩ := block_ok h
  unfold sketch Sketch.fresh Sketch.allocate
  simp [Block.node]

theorem sketch_mark {f : Node → Node} (hchange : ∀ x : Block, (change x).node = f x.node) {u : Unit}
    (h : changeCurrent change b = (.ok u, b')) : b'.sketch = b.sketch.change f := by
  obtain ⟨c, x, hc, -, rfl⟩ := changeCurrent_ok h
  exact sketch_change hchange hc rfl rfl rfl

theorem sketch_start {u : Unit} (h : (do place c; enter c : BuildM Unit) b = (.ok u, b')) :
    b'.sketch = b.sketch.start c := by
  replace h := after_ok h rfl
  obtain ⟨-, rfl⟩ := ok_eq_ok.mp h
  unfold sketch Sketch.start Routine.place
  dsimp only
  split <;> rfl

end Builder
/-! ### The scope while bodies are emitted -/

namespace Scope

/-- The scope gives the same answers as the scope of the declared tree. -/
structure Reads (s₀ s : Scope) : Prop where
  id : s.library.id = s₀.library.id
  functions : s.library.functions = s₀.library.functions
  dependencies : s.library.dependencies = s₀.library.dependencies
  rules : s.library.rules = s₀.library.rules
  accessors : s.accessors = s₀.accessors
  fields : s.fields = s₀.fields
  receivers : s.receivers = s₀.receivers
  shapes : ∀ id shape, s₀.classes.lookup id = some shape → s.classes.lookup id = some shape

variable {s₀ s : Scope}

theorem Reads.findFunction?_eq (hs : s₀.Reads s) (id : FunctionId) :
    s.library.findFunction? id = s₀.library.findFunction? id :=
  Library.search?_congr (by rw [hs.functions]) hs.dependencies

theorem Reads.fieldIndex?_eq (hs : s₀.Reads s) (id : PropertyId) :
    s.fieldIndex? id = s₀.fieldIndex? id := by
  unfold fieldIndex?
  rw [hs.fields, hs.dependencies]

theorem Reads.getter?_eq (hs : s₀.Reads s) (a : Accessed) : s.getter? a = s₀.getter? a := by
  cases a with
  | property id => simp only [getter?, hs.fieldIndex?_eq, hs.accessors]
  | _ => rfl

theorem Reads.setter?_eq (hs : s₀.Reads s) (a : Accessed) : s.setter? a = s₀.setter? a := by
  cases a with
  | property id => simp only [setter?, hs.fieldIndex?_eq, hs.accessors]
  | _ => rfl

section

variable (h : s₀.Reads s)
include h

theorem Reads.assignedMember?_eq (target : Expr) :
    Emit.assignedMember? target s = Emit.assignedMember? target s₀ := by
  unfold Emit.assignedMember?
  split
  · rw [h.setter?_eq]
  · rfl

theorem Reads.binaryRule?_eq (key : BinaryKey) :
    s.library.binaryRule? key = s₀.library.binaryRule? key :=
  Library.search?_congr (by rw [h.rules]) h.dependencies

theorem Reads.unaryRule?_eq (key : UnaryKey) :
    s.library.unaryRule? key = s₀.library.unaryRule? key :=
  Library.search?_congr (by rw [h.rules]) h.dependencies

theorem Reads.conversionRule?_eq (key : ConversionKey) :
    s.library.conversionRule? key = s₀.library.conversionRule? key :=
  Library.search?_congr (by rw [h.rules]) h.dependencies

theorem Reads.intrinsicRule?_eq (key : IntrinsicKey) :
    s.library.intrinsicRule? key = s₀.library.intrinsicRule? key :=
  Library.search?_congr (by rw [h.rules]) h.dependencies

end

end Scope

/-! ### Steps that draw -/

namespace Emit

variable {α β : Type} {x : EmitM α} {f : α → EmitM β} {d d' : Sketch → Sketch}

/-- **Drawing.** Whenever the step gives a value, it has changed the sketch in the given way. -/
def Draws (x : EmitM α) (d : Sketch → Sketch) : Prop :=
  ∀ e a e', x e = (.ok a, e') → e'.builder.sketch = d e.builder.sketch

protected theorem Draws.pure (a : α) : Draws (pure a : EmitM α) id := by
  intro e b e' h
  obtain ⟨-, rfl⟩ := ok_eq_ok.mp h
  rfl

protected theorem Draws.bind (hx : Draws x d) (hf : ∀ a, Draws (f a) d') :
    Draws (x >>= f) (d' ∘ d) := by
  intro e b e'' h
  obtain ⟨a, e', h₁, h₂⟩ := bind_ok.mp h
  rw [hf a e' b e'' h₂, hx e a e' h₁]
  rfl

/-- Steps that stay in the current block. -/
theorem Draws.straight (hx : Draws x id) (hf : ∀ a, Draws (f a) id) : Draws (x >>= f) id :=
  hx.bind hf

protected theorem Draws.forM {as : List α} {f : α → EmitM PUnit} (hf : ∀ a ∈ as, Draws (f a) id) :
    Draws (as.forM f) id := by
  induction as with
  | nil => exact .pure _
  | cons a as ih =>
    exact (hf a List.mem_cons_self).straight fun _ => ih fun b hb => hf b (List.mem_cons_of_mem a hb)

theorem onScope_draws (x : ScopeM α) : Draws (onScope x) id := by
  intro e a e' h
  obtain ⟨scope, -, rfl⟩ := onScope_ok.mp h
  rfl

theorem build_draws {x : BuildM α} (location : Location)
    (hx : ∀ b a b', x b = (.ok a, b') → b'.sketch = d b.sketch) : Draws (build location x) d := by
  intro e a e' h
  obtain ⟨builder, hbuilder, rfl⟩ := build_ok.mp h
  exact hx _ _ _ hbuilder

theorem value_draws (opcode : Opcode) (ty : TypeRef) (operands : List Operand)
    (location : Location) :
    Draws (build location (Builder.value opcode ty operands)) (Outline.ruled opcode).draw := by
  refine build_draws location fun b v b' h => ?_
  obtain ⟨-, c, x, happends⟩ := Builder.value_ok h
  exact happends.sketch

theorem operation_draws (opcode : Opcode) (ty : Option TypeRef) (operands : List Operand)
    (location : Location) :
    Draws (build location (Builder.build opcode ty operands)) (Outline.ruled opcode).draw := by
  refine build_draws location fun b v b' h => ?_
  obtain ⟨-, n, c, x, happends, -⟩ := Builder.build_ok h
  exact happends.sketch

/-- An operation without a result. -/
theorem plain_draws (opcode : Opcode) (operands : List Operand) (location : Location) :
    Draws (build location (do let _ ← Builder.build opcode none operands))
      (Outline.ruled opcode).draw := by
  refine build_draws location fun b v b' h => ?_
  obtain ⟨_, b₁, hbuild, -, rfl⟩ := return_ok.mp h
  obtain ⟨-, n, c, x, happends, -⟩ := Builder.build_ok hbuild
  exact happends.sketch

theorem localVariable_draws (ty : TypeRef) (name : String) (location : Location) :
    Draws (build location (Builder.localVariable ty name)) id :=
  build_draws location fun _ _ _ h => (Builder.localVariable_ok h).sketch

theorem declareLocal_draws (id : LocalId) (name : String) (ty : TypeRef) (location : Location) :
    Draws (declareLocal id name ty location) fun k => k := by
  have hstorage := (onScope_draws (Scope.onTypes location (Registry.pointerType ty))).straight
    fun pointer => localVariable_draws pointer name location
  refine hstorage.straight fun pointer => ?_
  refine Draws.straight (fun e u e' h => ?_) fun _ => .pure _
  obtain ⟨-, rfl⟩ := ok_eq_ok.mp h
  rfl

theorem block_draws (name : String) (location : Location) {e e' : Emitter} {c : BlockId}
    (h : build location (Builder.block name) e = (.ok c, e')) :
    c = e.builder.sketch.fresh 0 ∧ e'.builder.sketch = e.builder.sketch.allocate 1 := by
  obtain ⟨builder, hbuilder, rfl⟩ := build_ok.mp h
  exact Builder.sketch_block hbuilder

theorem startBlock_draws (c : BlockId) (location : Location) :
    Draws (startBlock c location) (·.start c) :=
  build_draws location fun _ _ _ => Builder.sketch_start

theorem mark_draws (f : Node → Node) (location : Location)
    (hchange : ∀ x : Block, (change x).node = f x.node) :
    Draws (build location (Builder.changeCurrent change)) (·.change f) :=
  build_draws location fun _ _ _ => Builder.sketch_mark hchange

theorem fork_draws (merge : BlockId) (condition : Operand) (ifTrue ifFalse : BlockId)
    (location : Location) : Draws (fork merge condition ifTrue ifFalse location) (·.fork merge) :=
  (mark_draws (Node.markSelection merge) location fun _ => rfl).bind fun _ =>
    plain_draws .branchConditional _ location

theorem arm_draws (c : BlockId) {fill : EmitM Unit} (hfill : Draws fill d) (exit : BlockId)
    (location : Location) : Draws (arm c fill exit location) (·.arm c d .branch) :=
  (startBlock_draws c location).bind fun _ => hfill.bind fun _ => plain_draws .branch _ location

end Emit

end Shader
