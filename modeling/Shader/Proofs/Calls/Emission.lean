import Shader.Proofs.Calls.Callees
import Shader.Proofs.Calls.Declared
import Shader.Proofs.IR.Growth
import Shader.Proofs.Lowering.Walk

/-!
# Traces of emission

Emission is made of few steps. On the scope it looks for types, classes and constants, which may have
to be made (`Scope.Reaches`). On the function it appends operations and variables, and it allocates,
marks and places blocks (`Builder.Step`). A **trace** is a sequence of such steps, and emission as a
whole leaves one: the states that it comes to are stages of the walk through the syntax. The facts about
emission that hold step by step are read off traces.

Calls are the steps that need a licence. Emission calls the functions that the scope of the declared
tree gives it: those that identities stand for, those that accessors name and those that initialize
objects. An expression is **granted** a property `C` of calls, which are a function and a number of
operands, if it holds of every call that the scope gives for it (`Expr.Granted`), and only calls with
the property are made.

Which functions these are in terms of the tree is of no concern here.
-/

namespace Shader

open Outcome Relation

/-! ### The scope during emission -/

namespace Scope

/-- The identity stands for the function. -/
def Names (s₀ : Scope) (id : FunctionId) (f : FunctionRef) : Prop :=
  s₀.library.findFunction? id = some f

/-- If a class is initialized by a function of the library, this is its shape; else it is initialized
as the dependencies say. -/
def Shapes (s₀ : Scope) (cid : ClassId) (shape : ClassShape) : Prop :=
  ∀ g, shape.preConstructor = some g →
    (g.library = s₀.library.id → (cid, shape) ∈ s₀.classes) ∧
    (g.library ≠ s₀.library.id → Library.Initializes s₀.library.dependencies g)

/-- The scope gives the same answers as the scope of the declared tree, and all the classes that it
knows have a shape that the tree or the dependencies account for. -/
structure Emitting (s₀ s : Scope) : Prop extends Reads s₀ s where
  records : s.library.records = s₀.library.records
  classes : ∀ p ∈ s.classes, s₀.Shapes p.1 p.2

variable {t : Tree} {own : LibraryId} {ds : List Library} {s₀ s s' : Scope}

/-! ### Steps on the scope -/

/-- A class that is looked for in the dependencies is none of the tree. -/
theorem Reads.enterShape (hs : s₀.Reads s) (hs' : s₀.Reads s') {id : ClassId}
    (h : s.classes.lookup id = none) (shape : ClassShape) :
    s₀.Reads { s' with classes := (id, shape) :: s'.classes } := by
  refine { hs' with shapes := fun id' shape' hshape => ?_ }
  have hne : id' ≠ id := by
    rintro rfl
    rw [hs.shapes id' shape' hshape] at h
    nomatch h
  change List.lookup id' ((id, shape) :: s'.classes) = _
  rw [List.lookup_cons, beq_false_of_ne hne]
  exact hs'.shapes id' shape' hshape

theorem onTypes_emitting {α : Type} (location : Location) (x : TypeM α) :
    Upholds (Emitting s₀) (onTypes location x) fun _ => True := by
  intro s a s' h hs
  obtain ⟨types, -, rfl⟩ := onTypes_ok.mp h
  exact ⟨{ hs with }, True.intro⟩

theorem constant_emitting (ty : TypeRef) (value : Literal) :
    Upholds (Emitting s₀) (constant ty value) fun _ => True := by
  intro s a s' h hs
  obtain ⟨-, rfl⟩ := ok_eq_ok.mp h
  refine ⟨?_, True.intro⟩
  cases s.library.constants.findIdx? (· = ⟨ty, value⟩) with
  | some i => exact hs
  | none => exact { hs with }

theorem Declaring.emitting (h₀ : s₀.Declaring t own ds) : Emitting s₀ s₀ where
  id := rfl
  functions := rfl
  dependencies := rfl
  rules := rfl
  records := rfl
  accessors := rfl
  fields := rfl
  receivers := rfl
  shapes _ _ h := h
  classes p hp g hg := by
    refine ⟨fun _ => hp, fun hne => ?_⟩
    rw [h₀.dependencies]
    exact h₀.imported p hp g hg (h₀.id ▸ hne)

/-- A function of the library is named in the library itself. -/
theorem Declaring.mem_functions (h₀ : s₀.Declaring t own ds) {id : FunctionId} {f : FunctionRef}
    (hf : s₀.Names id f) (hown : f.library = s₀.library.id) : (id, f) ∈ s₀.library.functions := by
  cases hlookup : s₀.library.functions.lookup id with
  | some g =>
    rw [Names, Library.findFunction?, Library.search?_of_own hlookup] at hf
    cases hf
    exact mem_of_lookup_eq_some hlookup
  | none =>
    rw [Names, Library.findFunction?, Library.search?_of_none hlookup] at hf
    obtain ⟨d, hd, m, hm, hf⟩ := Library.exists_within_of_searchAll? _ hf
    rw [h₀.dependencies] at hd
    obtain ⟨hne, howned⟩ := h₀.foreign d hd m hm
    have hlib := howned.functions _ (mem_of_lookup_eq_some hf)
    exact absurd (hlib.symm.trans (hown.trans h₀.id)) hne

/-- Whether a function takes an object does not depend on which bodies have been emitted. -/
theorem Reads.takesObject_eq (hs : s₀.Reads s) (h₀ : s₀.Declaring t own ds)
    {id : FunctionId} {f : FunctionRef} (hf : s₀.Names id f) :
    s.takesObject id f = s₀.takesObject id f := by
  unfold takesObject
  rw [hs.receivers]
  cases hreceiver : s₀.receivers.lookup id with
  | some takes => rfl
  | none =>
    -- what is named in the library is told whether it takes an object, so this is not named there
    have hforeign : f.library ≠ s₀.library.id := by
      intro hown
      have hmem : id ∈ s₀.receivers.map Prod.fst := by
        rw [h₀.receivers]
        exact List.mem_map_of_mem (h₀.mem_functions hf hown)
      obtain ⟨p, hp, rfl⟩ := List.mem_map.mp hmem
      simpa using List.lookup_eq_none_iff.mp hreceiver p hp
    have hsame : s.library.resolveRoutine? f = s₀.library.resolveRoutine? f :=
      Library.resolveRoutine?_congr hs.id hs.dependencies fun hid => absurd hid hforeign
    dsimp only
    rw [hsame]

theorem classShape_emitting (h₀ : s₀.Declaring t own ds) (id : ClassId) (location : Location) :
    Upholds (Emitting s₀) (classShape id location) (s₀.Shapes id) := by
  intro s shape s' h hs
  rcases classShape_ok h with ⟨hlookup, rfl⟩ | ⟨hlookup, source, ty, types, hforeign, -, rfl⟩
  · exact ⟨hs, hs.classes _ (mem_of_lookup_eq_some hlookup)⟩
  · have hshapes : s₀.Shapes id shape := by
      intro g hg
      have hinitializes := foreignClass?_initializes hs.dependencies (hg ▸ hforeign)
      refine ⟨fun hown => ?_, fun _ => hinitializes⟩
      rw [h₀.dependencies] at hinitializes
      exact absurd (hown.trans h₀.id) (hinitializes.library_ne h₀.foreign)
    have hs' : Emitting s₀ (s.withTypes types) := { hs with }
    exact ⟨{ hs.toReads.enterShape hs'.toReads hlookup _, hs' with
      classes := List.forall_mem_cons.mpr ⟨hshapes, hs.classes⟩ }, hshapes⟩

theorem lowerType_emitting (h₀ : s₀.Declaring t own ds) (spec : TypeSpec) (location : Location) :
    Upholds (Emitting s₀) (lowerType spec location) fun _ => True := by
  unfold lowerType
  split
  · exact (classShape_emitting h₀ _ location).bind fun _ _ => .pure True.intro
  · exact onTypes_emitting location _

/-! ### The scopes of emission -/

/-- **The scopes that emission can come to.** It looks for types, classes and constants, which may
have to be made, and it installs functions. -/
inductive Reaches (s₀ : Scope) : Scope → Prop
  | start : Reaches s₀ s₀
  | lowerType {s s' : Scope} {spec : TypeSpec} {location : Location} {ty : TypeRef}
    (hs : Reaches s₀ s) (h : Scope.lowerType spec location s = (.ok ty, s')) : Reaches s₀ s'
  | pointerType {s s' : Scope} {ty pointer : TypeRef} {location : Location} (hs : Reaches s₀ s)
    (h : onTypes location (Registry.pointerType ty) s = (.ok pointer, s')) : Reaches s₀ s'
  | classShape {s s' : Scope} {id : ClassId} {location : Location} {shape : ClassShape}
    (hs : Reaches s₀ s) (h : Scope.classShape id location s = (.ok shape, s')) : Reaches s₀ s'
  | constant {s s' : Scope} {ty : TypeRef} {value : Literal} {c : ConstantId} (hs : Reaches s₀ s)
    (h : Scope.constant ty value s = (.ok c, s')) : Reaches s₀ s'
  | install {s : Scope} {f : FunctionRef} {body : Routine} {l : Library} (hs : Reaches s₀ s)
    (h : s.library.install? f body = some l) : Reaches s₀ { s with library := l }

theorem Reaches.trans (h : Reaches s₀ s) (h' : Reaches s s') : Reaches s₀ s' := by
  induction h' with
  | start => exact h
  | lowerType _ h ih => exact ih.lowerType h
  | pointerType _ h ih => exact ih.pointerType h
  | classShape _ h ih => exact ih.classShape h
  | constant _ h ih => exact ih.constant h
  | install _ h ih => exact ih.install h

/-- Emission says about functions what the declared tree says. -/
theorem Reaches.emitting (h₀ : s₀.Declaring t own ds) (h : Reaches s₀ s) : Emitting s₀ s := by
  induction h with
  | start => exact h₀.emitting
  | lowerType _ h ih => exact (lowerType_emitting h₀ _ _ _ _ _ h ih).1
  | pointerType _ h ih => exact (onTypes_emitting _ _ _ _ _ h ih).1
  | classShape _ h ih => exact (classShape_emitting h₀ _ _ _ _ _ h ih).1
  | constant _ h ih => exact (constant_emitting _ _ _ _ _ h ih).1
  | install _ h ih =>
    obtain ⟨rfl, -⟩ := Library.routine?_of_install? h
    exact { ih with }

end Scope

/-! ### What is granted -/

/-- The property holds of every call that the scope gives for an expression in a position. -/
def ExprKind.Granted (s₀ : Scope) (C : FunctionRef → Nat → Prop) (needed : IoMode) (ty : TypeSpec) :
    ExprKind → Prop
  | .member a =>
    (needed.Reads → ∀ id f, s₀.getter? a.accessed = some id → s₀.Names id f → C f 1) ∧
    (needed.Writes → ∀ id f, s₀.setter? a.accessed = some id → s₀.Names id f → C f 2)
  | .call a es => ∀ id f, a.accessed = .function id → s₀.Names id f →
    C f ((s₀.takesObject id f).toNat + es.length)
  | .construct constructor es =>
    (∀ id f, constructor = some id → s₀.Names id f → C f (1 + es.length)) ∧
    (constructor = none → ∀ cid shape f, ty = .ofClass cid → s₀.Shapes cid shape →
      shape.preConstructor = some f → C f 1)
  | _ => True

/-- The property holds of every call that the scope gives for an expression in a position. -/
def Expr.Granted (s₀ : Scope) (C : FunctionRef → Nat → Prop) (needed : IoMode) (e : Expr) : Prop :=
  e.kind.Granted s₀ C needed e.ty

/-- A property of all calls is granted to everything. -/
theorem Expr.granted_of_forall {s₀ : Scope} {C : FunctionRef → Nat → Prop} (h : ∀ f n, C f n)
    (needed : IoMode) (e : Expr) : e.Granted s₀ C needed := by
  unfold Expr.Granted
  cases e.kind with
  | member => exact ⟨fun _ _ f _ _ => h f 1, fun _ _ f _ _ => h f 2⟩
  | call => exact fun _ f _ _ => h f _
  | construct => exact ⟨fun _ f _ _ => h f _, fun _ _ _ f _ _ _ => h f 1⟩
  | _ => exact True.intro

/-! ### Steps on the function -/

/-- If the operation is a call, its first operand is a function and it has a number of operands that
is allowed. -/
def Op.Fits (C : FunctionRef → Nat → Prop) (op : Op) : Prop :=
  op.opcode = .functionCall → ∃ f operands, op.operands = .function f :: operands ∧ C f operands.length

theorem Op.Fits.callee {C : FunctionRef → Nat → Prop} {op : Op} {g : FunctionRef} (h : op.Fits C)
    (hg : op.callee? = some g) : ∃ n, C g n := by
  unfold Op.callee? at hg
  split at hg
  · next hop hoperands =>
    cases hg
    obtain ⟨f, os, heq, hC⟩ := h hop
    obtain ⟨hf, -⟩ := List.cons.inj (hoperands.symm.trans heq)
    exact ⟨_, Operand.function.inj hf ▸ hC⟩
  · cases hg

namespace Builder

/-- **A step of construction.** Parameters are declared in the head of a function only. -/
inductive Step (C : FunctionRef → Nat → Prop) (head : Bool) : Builder → Builder → Prop
  | append {n : Nat} {op : Op} {b b' : Builder} {c : BlockId} {x : Block}
    (h : Appends n op b b' c x) (hop : op.Fits C) : Step C head b b'
  | declare {op : Op} {v : ValueId} {b b' : Builder} (h : Declares op v b b')
    (hop : op.result = some v) : Step C head b b'
  | block {name : String} {c : BlockId} {b b' : Builder} (h : block name b = (.ok c, b')) :
    Step C head b b'
  | mark {change : Block → Block} {u : Unit} {b b' : Builder} (hchange : ∀ x : Block, change x =
      { x with role := (change x).role, merge := (change x).merge,
               continuation := (change x).continuation })
    (h : changeCurrent change b = (.ok u, b')) : Step C head b b'
  /-- Blocks are placed, and another one is made the current one. -/
  | move {b : Builder} {order : List BlockId} (h : b.routine.order <+: order)
    (current : Option BlockId) : Step C head b ⟨{ b.routine with order := order }, current⟩
  | parameter {name : String} {ty : TypeRef} {v : ValueId} {b b' : Builder} (hhead : head = true)
    (h : parameter name ty b = (.ok v, b')) : Step C head b b'

variable {C : FunctionRef → Nat → Prop} {head : Bool} {b b' : Builder}

/-- Steps keep a property of all operations. -/
theorem Step.each {P : Op → Prop} (hP : ∀ op : Op, op.Fits C → P op) (h : Step C head b b')
    (hb : b.routine.Each P) : b'.routine.Each P := by
  cases h with
  | append h hop =>
    rw [h.eq]
    refine Routine.Each.modifyBlock (fun x hx => ?_) hb
    exact List.forall_mem_append.mpr ⟨hx, List.forall_mem_singleton.mpr (hP _ hop)⟩
  | declare h =>
    obtain ⟨c, x, -, -, rfl⟩ := h.eq
    exact Routine.Each.modifyBlock (fun _ hx => hx) hb
  | block h =>
    obtain ⟨-, rfl⟩ := block_ok h
    exact List.forall_mem_append.mpr ⟨hb, List.forall_mem_singleton.mpr (List.forall_mem_nil _)⟩
  | mark hchange h =>
    obtain ⟨c, x, -, -, rfl⟩ := changeCurrent_ok h
    refine Routine.Each.modifyBlock (fun x hx => ?_) hb
    rw [hchange x]
    exact hx
  | move => exact hb
  | parameter _ h =>
    obtain ⟨-, rfl⟩ := ok_eq_ok.mp h
    exact hb

/-- Behind the head of a function, its parameters stay as they are. -/
theorem Step.parameters (h : Step C false b b') : b'.routine.parameters = b.routine.parameters := by
  cases h with
  | append h => exact h.changes.parameters
  | declare h => exact h.changes.parameters
  | block h =>
    obtain ⟨-, rfl⟩ := block_ok h
    rfl
  | mark hchange h => exact (mark_ok hchange h).changes.parameters
  | move => rfl
  | parameter hhead => cases hhead

end Builder

/-! ### Traces -/

namespace Emit

/-- **A trace of emission** from one state to another. Nothing is installed on the way. -/
structure Traces (s₀ : Scope) (C : FunctionRef → Nat → Prop) (head : Bool) (e e' : Emitter) : Prop where
  start : s₀.Reaches e.scope
  reaches : e.scope.Reaches e'.scope
  routines : e'.scope.library.routines = e.scope.library.routines
  steps : ReflTransGen (Builder.Step C head) e.builder e'.builder

section Traces

variable {α : Type} {s₀ : Scope} {C : FunctionRef → Nat → Prop} {head : Bool} {e₀ e e' : Emitter}

theorem Traces.refl (h : s₀.Reaches e.scope) : Traces s₀ C head e e := ⟨h, .start, rfl, .refl⟩

theorem Traces.trans (h : Traces s₀ C head e₀ e) (h' : Traces s₀ C head e e') :
    Traces s₀ C head e₀ e' :=
  ⟨h.start, h.reaches.trans h'.reaches, h'.routines.trans h.routines, h.steps.trans h'.steps⟩

theorem Traces.each {P : Op → Prop} (hP : ∀ op : Op, op.Fits C → P op) (h : Traces s₀ C head e e')
    (he : e.builder.routine.Each P) : e'.builder.routine.Each P := by
  obtain ⟨-, -, -, hsteps⟩ := h
  generalize e'.builder = b at hsteps ⊢
  induction hsteps with
  | refl => exact he
  | tail _ hstep ih => exact hstep.each hP ih

theorem Traces.parameters (h : Traces s₀ C false e e') :
    e'.builder.routine.parameters = e.builder.routine.parameters := by
  obtain ⟨-, -, -, hsteps⟩ := h
  generalize e'.builder = b at hsteps ⊢
  induction hsteps with
  | refl => rfl
  | tail _ hstep ih => exact hstep.parameters.trans ih

/-- A step on the scope. -/
theorem onScope_traces {x : ScopeM α} {Q : α → Prop} (hx : ∀ s a s', x s = (.ok a, s') →
      s₀.Reaches s → (s.Reaches s' ∧ s'.library.routines = s.library.routines) ∧ Q a) :
    Upholds (Traces s₀ C head e₀) (onScope x) Q := by
  intro e a e' h he
  obtain ⟨s, hs, rfl⟩ := onScope_ok.mp h
  have hreaches := he.start.trans he.reaches
  obtain ⟨⟨hreach, hroutines⟩, hq⟩ := hx _ _ _ hs hreaches
  exact ⟨he.trans ⟨hreaches, hreach, hroutines, .refl⟩, hq⟩

/-- Steps on the function. -/
theorem build_traces {x : BuildM α} (hx : ∀ b a b', x b = (.ok a, b') →
      ReflTransGen (Builder.Step C head) b b') (location : Location) :
    Upholds (Traces s₀ C head e₀) (build location x) fun _ => True := by
  intro e a e' h he
  obtain ⟨b, hb, rfl⟩ := build_ok.mp h
  exact ⟨he.trans ⟨he.start.trans he.reaches, .start, rfl, hx _ _ _ hb⟩, True.intro⟩

variable {opcode : Opcode} {operands : List Operand}

theorem build_operation_traces {ty : Option TypeRef}
    (hop : ∀ result, Op.Fits C { opcode, result, resultType := ty, operands })
    (location : Location) :
    Upholds (Traces s₀ C head e₀) (build location (Builder.build opcode ty operands))
      fun _ => True := by
  refine build_traces (fun b v b' h => ?_) location
  obtain ⟨-, n, c, x, happends, -⟩ := Builder.build_ok h
  exact .single (.append happends (hop v))

theorem plain_traces (hop : opcode ≠ .functionCall) (location : Location) :
    Upholds (Traces s₀ C head e₀)
      (build location (do let _ ← Builder.build opcode none operands)) fun _ => True := by
  refine build_traces (fun b v b' h => ?_) location
  obtain ⟨_, b₁, h₁, -, rfl⟩ := return_ok.mp h
  obtain ⟨-, n, c, x, happends, -⟩ := Builder.build_ok h₁
  exact .single (.append happends fun heq => absurd heq hop)

theorem value_traces {ty : TypeRef} (hop : opcode ≠ .functionCall) (location : Location) :
    Upholds (Traces s₀ C head e₀) (build location (Builder.value opcode ty operands))
      fun _ => True := by
  refine build_traces (fun b v b' h => ?_) location
  obtain ⟨-, c, x, happends⟩ := Builder.value_ok h
  exact .single (.append happends fun heq => absurd heq hop)

theorem mark_traces {change : Block → Block} (hchange : ∀ x : Block, change x =
      { x with role := (change x).role, merge := (change x).merge,
               continuation := (change x).continuation }) (location : Location) :
    Upholds (Traces s₀ C head e₀) (build location (Builder.changeCurrent change)) fun _ => True :=
  build_traces (fun _ _ _ h => .single (.mark hchange h)) location

theorem branch_traces (c : BlockId) (location : Location) :
    Upholds (Traces s₀ C head e₀) (branch c location) fun _ => True :=
  plain_traces (by decide) location

theorem branchIf_traces (condition : Operand) (ifTrue ifFalse : BlockId) (location : Location) :
    Upholds (Traces s₀ C head e₀) (build location (Builder.branchIf condition ifTrue ifFalse))
      fun _ => True := plain_traces (by decide) location

theorem startBlock_traces (c : BlockId) (location : Location) :
    Upholds (Traces s₀ C head e₀) (startBlock c location) fun _ => True := by
  refine build_traces (fun b u b' h => ?_) location
  obtain ⟨order, horder, rfl⟩ := (Builder.startBlock_ok h).eq
  exact .single (.move horder _)

theorem pointerType_traces (ty : TypeRef) (location : Location) :
    Upholds (Traces s₀ C head e₀) (pointerType ty location) fun _ => True := by
  refine onScope_traces fun s pointer s' h _ => ⟨⟨.pointerType .start h, ?_⟩, True.intro⟩
  obtain ⟨types, -, rfl⟩ := Scope.onTypes_ok.mp h
  rfl

theorem localVariable_traces (ty : TypeRef) (name : String) (location : Location) :
    Upholds (Traces s₀ C head e₀) (build location (Builder.localVariable ty name)) fun _ => True :=
  build_traces (fun _ _ _ h => .single (.declare (Builder.localVariable_ok h) rfl)) location

theorem declareLocal_traces (id : LocalId) (name : String) (ty : TypeRef) (location : Location) :
    Upholds (Traces s₀ C head e₀) (declareLocal id name ty location) fun _ => True := by
  refine ((pointerType_traces ty location).bind fun pointer _ =>
    localVariable_traces pointer name location).bind fun _ _ => ?_
  refine (Upholds.modify fun e he => ?_).bind fun _ _ => .pure True.intro
  exact ⟨he.start, he.reaches, he.routines, he.steps⟩

/-- A look at the scope. -/
theorem look_traces {x : ScopeM α} {Q : α → Prop}
    (hx : ∀ s a s', x s = (.ok a, s') → s₀.Reaches s → s' = s ∧ Q a) :
    Upholds (Traces s₀ C head e₀) (onScope x) Q := by
  refine onScope_traces fun s a s' h hs => ?_
  obtain ⟨rfl, hq⟩ := hx s a s' h hs
  exact ⟨⟨.start, rfl⟩, hq⟩

theorem lookAtTypes_traces {look : Registry → Except IrError α} (location : Location) :
    Upholds (Traces s₀ C head e₀) (onScope (Scope.onTypes location do look (← get)))
      fun _ => True :=
  look_traces fun _ _ _ h _ => ⟨Scope.lookAtTypes_ok h, True.intro⟩

theorem lowerType_traces (spec : TypeSpec) (location : Location) :
    Upholds (Traces s₀ C head e₀) (lowerType spec location) fun _ => True := by
  refine onScope_traces fun s ty s' h _ => ⟨⟨.lowerType .start h, ?_⟩, True.intro⟩
  obtain ⟨types, classes, rfl⟩ := Scope.lowerType_frame h
  rfl

theorem constant_traces (ty : TypeRef) (value : Literal) :
    Upholds (Traces s₀ C head e₀) (constant ty value) fun _ => True := by
  refine Upholds.bind (Q := fun _ => True) (onScope_traces fun s c s' h _ => ?_)
    fun _ _ => .pure True.intro
  refine ⟨⟨.constant .start h, ?_⟩, True.intro⟩
  obtain ⟨-, rfl⟩ := ok_eq_ok.mp h
  cases s.library.constants.findIdx? (· = ⟨ty, value⟩) <;> rfl

end Traces

/-! ### Rules -/

/-- Whatever a look-up finds is found in a library whose rules make no calls. -/
theorem exists_noCalls {t : Tree} {own : LibraryId} {ds : List Library} {s₀ : Scope}
    (h₀ : s₀.Declaring t own ds) {α : Type} {look : Library → Option α} {a : α}
    (h : s₀.library.search? look = some a) : ∃ m : Library, m.rules.NoCalls ∧ look m = some a := by
  obtain ⟨m, hm, ha⟩ := Library.exists_within_of_search? _ h
  refine ⟨m, ?_, ha⟩
  cases hm with
  | self => exact h₀.noCalls
  | dependency hd hm => exact (h₀.foreign _ (h₀.dependencies ▸ hd) m hm).2.noCalls

/-! ### The walk -/

/-- **Stages on a trace.** A call needs a licence, and nothing else is asked. -/
def tracedStages (s₀ : Scope) (C : FunctionRef → Nat → Prop) (head : Bool) :
    Stages { e : Emitter // s₀.Reaches e.scope } where
  emitter := Subtype.val
  scope := s₀
  Follows w w' := Traces s₀ C head w.1 w'.1
  Within _ _ := True
  Usable _ _ := True
  HasType _ _ := True
  Offers _ _ := True
  Named := s₀.Names
  Shaped := s₀.Shapes
  Callable := C
  Allowed opcode := opcode ≠ .functionCall
  Granted needed e := e.Granted s₀ C needed
  refl w := .refl w.2
  trans h h' := h.trans h'
  within _ := True.intro
  usable _ _ := True.intro
  hasType _ _ := True.intro
  offers _ _ := True.intro

section Traced

variable {α : Type} {s₀ : Scope} {C : FunctionRef → Nat → Prop} {head : Bool} {x : EmitM α}

theorem leads_of_traces {Q : α → Prop} (hx : ∀ e₀, Upholds (Traces s₀ C head e₀) x Q)
    {w : { e : Emitter // s₀.Reaches e.scope }} :
    (tracedStages s₀ C head).Leads w x fun a _ => Q a := by
  intro a e he
  obtain ⟨htraces, hq⟩ := hx _ _ _ _ he (.refl w.2)
  exact ⟨⟨e, w.2.trans htraces.reaches⟩, rfl, htraces, hq⟩

theorem traces_of_leads {Q : α → { e : Emitter // s₀.Reaches e.scope } → Prop}
    (hx : ∀ w, (tracedStages s₀ C head).Leads w x Q) {e e' : Emitter} {a : α}
    (h : x e = (.ok a, e')) (he : s₀.Reaches e.scope) : Traces s₀ C head e e' := by
  obtain ⟨w, rfl, htraces, -⟩ := hx ⟨e, he⟩ a e' h
  exact htraces

/-- The blocks of a construct may be started at any time. -/
theorem tracedStages_blocks : Nonempty (tracedStages s₀ C head).Blocks := by
  have hpasses : ∀ {w : { e : Emitter // s₀.Reaches e.scope }} {x : EmitM Unit},
      Upholds (Traces s₀ C head w.1) x (fun _ => True) →
      Stages.Passes (Traces s₀ C head w.1) x fun _ => Traces s₀ C head w.1 :=
    fun hx e u e' h he => (hx e u e' h he).1
  have hstart : ∀ {w : { e : Emitter // s₀.Reaches e.scope }} {c : BlockId} (location : Location),
      Stages.Passes (Traces s₀ C head w.1) (startBlock c location) fun _ e =>
        ∃ w' : { e : Emitter // s₀.Reaches e.scope }, w'.1 = e ∧ Traces s₀ C head w.1 w'.1 := by
    intro w c location e u e' h he
    have he' := (startBlock_traces c location e u e' h he).1
    exact ⟨⟨e', he'.start.trans he'.reaches⟩, rfl, he'⟩
  exact ⟨{
    Drafts w _ e := Traces s₀ C head w.1 e
    Amid w _ _ e := Traces s₀ C head w.1 e
    Inside w _ _ w' := Traces s₀ C head w.1 w'.1
    within _ := True.intro
    follows h h' := h.trans h'
    offers _ _ _ := True.intro
    trans _ _ := True.intro
    usable _ _ := True.intro
    begins w := .refl w.2
    block name location e c e' h he :=
      (build_traces (fun _ _ _ h => .single (.block h)) location e c e' h he).1
    rotate h := h
    fork location _ _ _ _ := hpasses ((mark_traces (fun _ => rfl) location).bind fun _ _ =>
      branchIf_traces _ _ _ location)
    enter location _ := hpasses (branch_traces _ location)
    head location _ _ _ := hpasses ((startBlock_traces _ location).bind fun _ _ =>
      (mark_traces (fun _ => rfl) location).bind fun _ _ => branch_traces _ location)
    start location := hstart location
    leave location h _ := by
      rintro _ u e' hrun rfl
      exact (branch_traces _ location _ _ _ hrun h).1
    decide location h _ _ _ := by
      rintro _ u e' hrun rfl
      exact (branchIf_traces _ _ _ location _ _ _ hrun h).1
    join location := hstart location }⟩

/-- The elementary steps leave traces, and so the walk does. -/
theorem tracedStages_sound {t : Tree} {own : LibraryId} {ds : List Library}
    (h₀ : s₀.Declaring t own ds) : (tracedStages s₀ C head).Sound where
  reads w := (w.2.emitting h₀).toReads
  takes {w} _ _ hf := (w.2.emitting h₀).takesObject_eq h₀ hf
  lowerType spec location := leads_of_traces fun _ => lowerType_traces spec location
  pointerType ty location := leads_of_traces fun _ => pointerType_traces ty location
  classShape id location := by
    refine Stages.Leads.imp (Q := fun shape _ => s₀.Shapes id shape) ?_
      fun _ _ h => ⟨True.intro, h⟩
    refine leads_of_traces fun _ => onScope_traces fun s shape s' h hs => ?_
    refine ⟨⟨.classShape .start h, ?_⟩,
      (Scope.classShape_emitting h₀ id location _ _ _ h (hs.emitting h₀)).2⟩
    obtain ⟨types, classes, rfl⟩ := Scope.classShape_frame h
    rfl
  function id location := by
    refine leads_of_traces fun _ => look_traces fun s f s' h hs => ?_
    obtain ⟨rfl, hf⟩ := Scope.function_ok h
    exact ⟨rfl, ((hs.emitting h₀).findFunction?_eq id).symm.trans hf⟩
  constant ty value := leads_of_traces fun _ => constant_traces ty value
  partAt _ _ location := leads_of_traces fun _ => lookAtTypes_traces location
  nameOf _ location := leads_of_traces fun _ => lookAtTypes_traces location
  locals _ := ⟨True.intro, True.intro⟩
  this _ := ⟨True.intro, True.intro⟩
  value location h _ _ := leads_of_traces fun _ => value_traces h location
  plain location h _ := leads_of_traces fun _ => plain_traces h location
  called {w f ty operands} location h _ _ := (leads_of_traces fun _ =>
    build_operation_traces (fun _ _ => ⟨f, operands, rfl, h⟩) location).imp fun _ _ _ _ _ => True.intro
  localVariable name location _ := leads_of_traces fun _ => localVariable_traces _ name location
  declareLocal id name location _ := leads_of_traces fun _ => declareLocal_traces id name _ location
  branch location _ := ⟨leads_of_traces fun _ => branch_traces _ location,
    leads_of_traces fun _ => branch_traces _ location⟩
  blocks := tracedStages_blocks
  allowed _ h := h
  -- rules belong to a library whose rules are known to make no calls
  binary h := by
    obtain ⟨m, hm, hrule⟩ := exists_noCalls h₀ h
    exact fun heq => hm.binary _ (mem_of_lookup_eq_some hrule) (congrArg BinaryRule.instruction heq)
  unary h := by
    obtain ⟨m, hm, hrule⟩ := exists_noCalls h₀ h
    exact fun heq => hm.unary _ (mem_of_lookup_eq_some hrule) (congrArg _ heq)
  conversion h := by
    obtain ⟨m, hm, hrule⟩ := exists_noCalls h₀ h
    obtain ⟨hne, hcompare⟩ := hm.conversions _ (mem_of_lookup_eq_some hrule)
    exact ⟨fun _ hrule heq => hne (heq ▸ hrule), fun _ zero hrule heq => hcompare zero (heq ▸ hrule)⟩
  intrinsic h := by
    obtain ⟨m, hm, hrule⟩ := exists_noCalls h₀ h
    exact fun heq => hm.intrinsics _ (mem_of_lookup_eq_some hrule) (congrArg _ heq)
  getter h hneeded hget hf := h.1 hneeded _ _ hget hf
  setter h hneeded hset hf := h.2 hneeded _ _ hset hf
  call h hid hf := h _ _ hid hf
  constructor h hf := h.1 _ _ rfl hf
  object h hshape hf := h.2 rfl _ _ _ rfl hshape hf
  position {needed e} hmember h := by
    obtain ⟨kind, ty, location⟩ := e
    cases kind with
    | member a => exact absurd rfl (hmember a)
    | _ => exact h

end Traced

end Emit

end Shader
