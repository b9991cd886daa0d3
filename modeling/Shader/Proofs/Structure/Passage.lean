import Shader.Proofs.Machine.Limit
import Shader.Proofs.Structure.Forward
import Shader.Proofs.Structure.Marks

/-!
# Forward order in compiled functions

Every function of a compiled library is in forward order (`Routine.Forward`), whatever the tree
says. The only way back leads to the head of a loop, and loops come from the loops of the source. So
a call of a function without loops passes each of its blocks at most once, on the way from the first
to the last.
-/

namespace Shader

open Outcome

/-! ### Outlines without loops -/

/-- No loop is drawn. -/
def Outline.loopless : Outline → Bool
  | .straight | .leave _ => true
  | .seq a b => a.loopless && b.loopless
  | .shortCircuit right => right.loopless
  | .ifThen body => body.loopless
  | .ifElse body rest => body.loopless && rest.loopless
  | .loop _ _ _ _ => false

variable {o : Outline}

namespace Sketch

/-- No block heads a loop. -/
def Loopless (s : Sketch) : Prop := ∀ k ∈ s.nodes, k.role ≠ .loop

variable {s : Sketch}

section

variable (h : s.Loopless)
include h

theorem Loopless.change {f : Node → Node} (hf : ∀ k : Node, k.role ≠ .loop → (f k).role ≠ .loop) :
    (s.change f).Loopless := forall_mem_modify hf h _

theorem Loopless.close (opcode : Opcode) : (s.close opcode).Loopless :=
  h.change fun _ hk => hk

theorem Loopless.allocate (n : Nat) : (s.allocate n).Loopless := by
  intro k hk
  rcases List.mem_append.mp hk with hk | hk
  · exact h k hk
  · rw [List.eq_of_mem_replicate hk]
    exact nofun

theorem Loopless.fork (merge : BlockId) : (s.fork merge).Loopless :=
  (h.change (f := Node.markSelection merge) fun _ _ => nofun).close _

theorem Loopless.arm {fill : Sketch → Sketch} (hfill : ∀ s : Sketch, s.Loopless → (fill s).Loopless)
    (c : BlockId) (opcode : Opcode) :
    (s.arm c fill opcode).Loopless :=
  (hfill (s.start c) h).close opcode

end

/-- **An outline without loops draws none.** -/
theorem Loopless.draw (ho : o.loopless = true) (h : s.Loopless) :
    (o.draw s).Loopless := by
  induction o generalizing s with
  | straight => exact h
  | leave opcode => exact h.close opcode
  | seq a b iha ihb =>
    obtain ⟨ha, hb⟩ := Bool.and_eq_true_iff.mp ho
    exact ihb hb (iha ha h)
  | shortCircuit right ih =>
    exact (((h.allocate 3).fork _).arm (fun _ h => h) _ _).arm (fun _ h => ih ho h) _ _
  | ifThen body ih => exact ((h.allocate 2).fork _).arm (fun _ h => ih ho h) _ _
  | ifElse body rest ih ih' =>
    obtain ⟨hbody, hrest⟩ := Bool.and_eq_true_iff.mp ho
    exact (((h.allocate 3).fork _).arm (fun _ h => ih hbody h) _ _).arm (fun _ h => ih' hrest h) _ _
  | loop => nomatch ho

end Sketch

theorem Routine.Drawn.not_headsLoop {r : Routine} (h : r.Drawn o) (ho : o.loopless = true)
    (c : BlockId) : ¬ r.HeadsLoop c := by
  rintro ⟨hc, x, hx, hrole⟩
  obtain ⟨k, b, hk, hb, hfinishes⟩ := h.blocks c hc
  cases hx.symm.trans hb
  have hentry : Sketch.entry.Loopless := by
    intro k hk
    rw [List.mem_singleton.mp hk]
    exact nofun
  exact hentry.draw ho k (List.mem_of_getElem? hk) (hfinishes.role.symm.trans hrole)

/-! ### Syntax without loops -/

section Outlines

variable (s : Scope)

theorem Outline.loopless_ruled (opcode : Opcode) : (Outline.ruled opcode).loopless = true := by
  unfold ruled
  split <;> rfl

theorem Scope.loopless_combine (key : BinaryKey) {right : Outline} (h : right.loopless = true) :
    (s.combine key right).loopless = true := by
  unfold combine
  split
  · exact h
  · exact Bool.and_eq_true_iff.mpr ⟨h, Outline.loopless_ruled _⟩
  · rfl

theorem Scope.loopless_conversion (key : ConversionKey) {operand : Outline}
    (h : operand.loopless = true) : (s.conversion key operand).loopless = true := by
  unfold conversion
  split
  · exact Bool.and_eq_true_iff.mpr ⟨h, Outline.loopless_ruled _⟩
  · exact h
  · exact Bool.and_eq_true_iff.mpr ⟨h, Outline.loopless_ruled _⟩
  · rfl

theorem Scope.loopless_intrinsic (key : IntrinsicKey) {arguments : Outline}
    (h : arguments.loopless = true) : (s.intrinsic key arguments).loopless = true := by
  unfold intrinsic
  split
  · exact Bool.and_eq_true_iff.mpr ⟨h, Outline.loopless_ruled _⟩
  · exact h
  · rfl

mutual

theorem Expr.loopless_outline : ∀ e : Expr, (e.outline s).loopless = true
  | ⟨kind, ty, _⟩ => by
    rw [Expr.outline]
    exact kind.loopless_outline ty

theorem ExprKind.loopless_outline (ty : TypeSpec) :
    ∀ k : ExprKind, (k.outline s ty).loopless = true
  | .literal _ | .localVar _ | .thisObject => by
    rw [ExprKind.outline]
    rfl
  | .binary op left right => by
    rw [ExprKind.outline]
    exact Bool.and_eq_true_iff.mpr
      ⟨left.loopless_outline, s.loopless_combine _ right.loopless_outline⟩
  | .unary op operand => by
    rw [ExprKind.outline]
    split
    · exact Bool.and_eq_true_iff.mpr ⟨operand.loopless_outline, Outline.loopless_ruled _⟩
    · rfl
  | .cast operand => by
    rw [ExprKind.outline]
    split
    · exact operand.loopless_outline
    · exact s.loopless_conversion _ operand.loopless_outline
  | .member access => by
    rw [ExprKind.outline]
    exact access.loopless_outline
  | .call access arguments => by
    rw [ExprKind.outline]
    split
    · exact s.loopless_intrinsic _ (exprsOutline_loopless arguments)
    · split
      · exact Bool.and_eq_true_iff.mpr ⟨access.loopless_outline, exprsOutline_loopless arguments⟩
      · exact exprsOutline_loopless arguments
    · rfl
    · rfl
  | .construct constructor arguments => by
    rw [ExprKind.outline.eq_def]
    dsimp only
    split
    · split
      · exact exprsOutline_loopless arguments
      · rfl
    · exact exprsOutline_loopless arguments

theorem Access.loopless_outline : ∀ a : Access, (a.outline s).loopless = true
  | ⟨some target, _, _, _⟩ => by
    rw [Access.outline]
    exact target.loopless_outline
  | ⟨none, _, _, _⟩ => by
    rw [Access.outline]
    rfl

theorem exprsOutline_loopless : ∀ es : List Expr, (exprsOutline s es).loopless = true
  | [] => by
    rw [exprsOutline]
    rfl
  | e :: es => by
    rw [exprsOutline]
    exact Bool.and_eq_true_iff.mpr ⟨e.loopless_outline, exprsOutline_loopless es⟩

end

theorem exprOutline?_loopless (e : Option Expr) : (exprOutline? s e).loopless = true := by
  cases e with
  | none => rfl
  | some e => exact e.loopless_outline s

theorem initializersOutline_loopless (vs : List VariableDecl) :
    (initializersOutline s vs).loopless = true := by
  induction vs with
  | nil => rfl
  | cons v vs ih =>
    refine Bool.and_eq_true_iff.mpr ⟨?_, ih⟩
    unfold initializerOutline
    split
    · rfl
    · exact exprOutline?_loopless s v.initial

end Outlines

mutual

/-- There is no loop in the statement. -/
def Stmt.loopless : Stmt → Bool
  | ⟨kind, _⟩ => kind.loopless

/-- There is no loop in a statement of this kind. -/
def StmtKind.loopless : StmtKind → Bool
  | .ifChain parts => partsLoopless parts
  | .whileLoop _ _ | .forLoop _ _ _ _ => false
  | _ => true

/-- There is no loop in the branches of a condition. -/
def partsLoopless : List IfPart → Bool
  | [] => true
  | ⟨_, body⟩ :: ps => stmtsLoopless body && partsLoopless ps

/-- There is no loop in the statements. -/
def stmtsLoopless : List Stmt → Bool
  | [] => true
  | x :: xs => x.loopless && stmtsLoopless xs

end

section Statements

variable (s : Scope)

mutual

theorem Stmt.loopless_outline : ∀ x : Stmt, x.loopless = true → (x.outline s).loopless = true
  | ⟨kind, _⟩, h => by
    rw [Stmt.loopless] at h
    rw [Stmt.outline]
    exact kind.loopless_outline h

theorem StmtKind.loopless_outline :
    ∀ k : StmtKind, k.loopless = true → (k.outline s).loopless = true
  | .expression e, _ => by
    rw [StmtKind.outline]
    exact e.loopless_outline s
  | .localVar _ _ _ initial, _ => by
    rw [StmtKind.outline]
    exact exprOutline?_loopless s initial
  | .assign target none value, _ => by
    rw [StmtKind.outline]
    unfold assignOutline
    split
    · exact Bool.and_eq_true_iff.mpr ⟨value.loopless_outline s, Access.loopless_outline s _⟩
    · exact Bool.and_eq_true_iff.mpr ⟨value.loopless_outline s, target.loopless_outline s⟩
  | .assign target (some op) value, _ => by
    rw [StmtKind.outline]
    unfold compoundOutline
    have hcombine := s.loopless_combine ⟨target.ty, value.ty, op⟩ (value.loopless_outline s)
    dsimp only
    split
    · exact Bool.and_eq_true_iff.mpr ⟨Access.loopless_outline s _, hcombine⟩
    · exact Bool.and_eq_true_iff.mpr ⟨target.loopless_outline s, hcombine⟩
  | .ret value, _ => by
    rw [StmtKind.outline]
    exact Bool.and_eq_true_iff.mpr ⟨exprOutline?_loopless s value, rfl⟩
  | .ifChain parts, h => by
    rw [StmtKind.loopless] at h
    rw [StmtKind.outline]
    exact partsOutline_loopless parts h
  | .whileLoop _ _, h => by
    rw [StmtKind.loopless] at h
    nomatch h
  | .forLoop _ _ _ _, h => by
    rw [StmtKind.loopless] at h
    nomatch h
  | .breakLoop, _ | .continueLoop, _ => by
    rw [StmtKind.outline]
    rfl

theorem partsOutline_loopless :
    ∀ ps : List IfPart, partsLoopless ps = true → (partsOutline s ps).loopless = true
  | [], _ => by
    rw [partsOutline]
    rfl
  | ⟨none, body⟩ :: _, h => by
    rw [partsLoopless] at h
    rw [partsOutline]
    exact stmtsOutline_loopless body (Bool.and_eq_true_iff.mp h).1
  | [⟨some condition, body⟩], h => by
    rw [partsLoopless] at h
    rw [partsOutline]
    exact Bool.and_eq_true_iff.mpr
      ⟨condition.loopless_outline s, stmtsOutline_loopless body (Bool.and_eq_true_iff.mp h).1⟩
  | ⟨some condition, body⟩ :: p :: ps, h => by
    rw [partsLoopless] at h
    obtain ⟨hbody, hrest⟩ := Bool.and_eq_true_iff.mp h
    rw [partsOutline]
    · exact Bool.and_eq_true_iff.mpr ⟨condition.loopless_outline s, Bool.and_eq_true_iff.mpr
        ⟨stmtsOutline_loopless body hbody, partsOutline_loopless (p :: ps) hrest⟩⟩
    · exact nofun

/-- **Statements without loops** draw none. -/
theorem stmtsOutline_loopless :
    ∀ xs : List Stmt, stmtsLoopless xs = true → (stmtsOutline s xs).loopless = true
  | [], _ => by
    rw [stmtsOutline]
    rfl
  | x :: xs, h => by
    rw [stmtsLoopless] at h
    obtain ⟨hx, hxs⟩ := Bool.and_eq_true_iff.mp h
    rw [stmtsOutline]
    exact Bool.and_eq_true_iff.mpr ⟨x.loopless_outline hx, stmtsOutline_loopless xs hxs⟩

end

end Statements

/-! ### The blocks of one activation -/

namespace Machine

/-- **The blocks that an activation enters**, one after the other from a given one on, until it ends
with an outcome. The blocks of the calls that it makes are not among them. -/
inductive Traces (root : Library) (limit : Nat) (a : Activation) :
    Frame → BlockId → Machine → List BlockId → Except RunError (Option Value) × Machine → Prop
  /-- A block beyond the limit is not entered. -/
  | limit {frame b m} (h : limit ≤ m.executed.size) :
    Traces root limit a frame b m [] (.error (.stepLimit limit), m)
  | unknown {frame b m} (h : m.executed.size < limit) (hb : a.routine.block? b = none) :
    Traces root limit a frame b m [b] (.error (.unknownBlock b), entering a m b)
  | failed {frame b m x e m'} (h : m.executed.size < limit) (hb : a.routine.block? b = some x)
    (hops : runOps (call root limit) a.library b frame x.ops (entering a m b) = (.error e, m')) :
    Traces root limit a frame b m [b] (.error e, m')
  | left {frame b m x v frame' m'} (h : m.executed.size < limit) (hb : a.routine.block? b = some x)
    (hops : runOps (call root limit) a.library b frame x.ops (entering a m b) =
      (.ok (.leave v, frame'), m')) :
    Traces root limit a frame b m [b] (.ok v, m')
  | jumped {frame b m x next frame' m' bs r} (h : m.executed.size < limit)
    (hb : a.routine.block? b = some x)
    (hops : runOps (call root limit) a.library b frame x.ops (entering a m b) =
      (.ok (.jump next, frame'), m'))
    (hrest : Traces root limit a frame' next m' bs r) :
    Traces root limit a frame b m (b :: bs) r

/-- The blocks that a call enters in the function that is called. A call that cannot be prepared
enters none. -/
def Visits (root : Library) (limit : Nat) (f : FunctionRef) (vs : List Value) (m : Machine)
    (bs : List BlockId) : Prop :=
  match enter root f vs m with
  | (.error _, _) => bs = []
  | (.ok p, m') => Traces root limit p.1 p.2.1 p.2.2 m' bs (call root limit f vs m)

section Traces

variable {root : Library} {limit : Nat} {a : Activation}

/-- **Every activation runs along a list of blocks.** The induction is on what is left of the limit.
-/
theorem exists_traces (left : Nat) : ∀ frame b m, limit - m.executed.size = left →
    ∃ bs, Traces root limit a frame b m bs (runBlock root limit a frame b m) := by
  induction left using Nat.strong_induction_on with
  | _ left ih =>
    intro frame b m hleft
    rw [runBlock_eq]
    by_cases hlimit : limit ≤ m.executed.size
    · rw [if_pos hlimit]
      exact ⟨[], .limit hlimit⟩
    · rw [if_neg hlimit]
      have hlt := Nat.lt_of_not_le hlimit
      cases hb : a.routine.block? b with
      | none => exact ⟨[b], .unknown hlt hb⟩
      | some x =>
        have hsize : (entering a m b).executed.size = m.executed.size + 1 := Array.size_push _
        have hgrow := (grows_runOps root limit a.library b frame x.ops (entering a m b)).size
        dsimp only
        rw [rest, bind_apply]
        rcases hops : runOps (call root limit) a.library b frame x.ops (entering a m b) with
          ⟨e | ⟨next | v, frame'⟩, m'⟩
        · exact ⟨[b], .failed hlt hb hops⟩
        · rw [hops] at hgrow
          dsimp only at hgrow
          obtain ⟨bs, hbs⟩ := ih (limit - m'.executed.size) (by omega) frame' next m' rfl
          exact ⟨b :: bs, .jumped hlt hb hops hbs⟩
        · exact ⟨[b], .left hlt hb hops⟩

theorem exists_visits (root : Library) (limit : Nat) (f : FunctionRef) (vs : List Value)
    (m : Machine) : ∃ bs, Visits root limit f vs m bs := by
  unfold Visits
  rw [call_eq, bind_apply]
  rcases enter root f vs m with ⟨e | p, m'⟩
  · exact ⟨[], rfl⟩
  · exact exists_traces _ p.2.1 p.2.2 m' rfl

/-- A jump leads to a target of one of the operations. -/
theorem mem_targets_of_jump {call : FunctionRef → List Value → RunM (Option Value)} {l : Library}
    {block next : BlockId} {frame frame' : Frame} {ops : List Op} {m m' : Machine}
    (h : runOps call l block frame ops m = (.ok (.jump next, frame'), m')) :
    ∃ op ∈ ops, next ∈ op.targets := by
  have hoperand : ∀ {op : Op} {i : Nat}, blockOperand op i = .ok next →
      next ∈ op.operands.filterMap Operand.asBlock := by
    intro op i hi
    unfold blockOperand at hi
    split at hi
    · next b hb =>
      cases hi
      obtain ⟨o, ho, hblock⟩ := Option.bind_eq_some_iff.mp hb
      exact List.mem_filterMap.mpr ⟨o, List.mem_of_getElem? ho, hblock⟩
    · cases hi
  induction ops generalizing frame m with
  | nil => exact absurd h error_ne_ok
  | cons op ops ih =>
    unfold runOps at h
    cases hflow : terminate? l frame op with
    | none =>
      rw [hflow] at h
      obtain ⟨v, m₁, -, h⟩ := bind_ok.mp h
      have hrest : ∃ o ∈ ops, next ∈ o.targets := by
        cases hresult : op.result with
        | some id =>
          rw [hresult] at h
          exact ih h
        | none =>
          rw [hresult] at h
          exact ih h
      obtain ⟨o, ho, hnext⟩ := hrest
      exact ⟨o, List.mem_cons_of_mem op ho, hnext⟩
    | some flow =>
      rw [hflow] at h
      obtain ⟨flow', m₁, hlift, h⟩ := bind_ok.mp h
      obtain ⟨heq, -⟩ := ok_eq_ok.mp h
      obtain ⟨rfl, -⟩ := Prod.mk.inj heq
      obtain rfl : flow = .ok (.jump next) := congrArg Prod.fst hlift
      refine ⟨op, List.mem_cons_self, ?_⟩
      -- of the terminators only the two branches jump
      unfold terminate? at hflow
      unfold Op.targets
      split at hflow
      · cases hflow
      · have hflow := Option.some.inj hflow
        cases hv : operand l frame op 0 <;> rw [hv] at hflow <;> cases hflow
      · next hbranch =>
        rw [hbranch]
        obtain ⟨b, hi, hflow⟩ := Outcome.bind_eq_ok.mp (Option.some.inj hflow)
        obtain rfl : b = next := Flow.jump.inj (Except.ok.inj hflow)
        exact hoperand hi
      · next hbranch =>
        rw [hbranch]
        obtain ⟨v, hv, hflow⟩ := Outcome.bind_eq_ok.mp (Option.some.inj hflow)
        cases v with
        | bool taken =>
          obtain ⟨b, hi, hflow⟩ := Outcome.bind_eq_ok.mp hflow
          obtain rfl : b = next := Flow.jump.inj (Except.ok.inj hflow)
          exact hoperand hi
        | _ => cases hflow
      · cases hflow

/-- **Forward order without loops.** Each block that is entered stands behind the one before it, so
that none is entered twice. -/
theorem Traces.nodup (hforward : a.routine.Forward) (hloops : ∀ c, ¬ a.routine.HeadsLoop c)
    {frame : Frame} {b : BlockId} {m : Machine} {bs : List BlockId}
    {r : Except RunError (Option Value) × Machine} (h : Traces root limit a frame b m bs r) :
    bs.Nodup ∧ ∀ c ∈ bs, a.routine.order.idxOf b ≤ a.routine.order.idxOf c := by
  have hsingle : ∀ b : BlockId, [b].Nodup ∧
      ∀ c ∈ [b], a.routine.order.idxOf b ≤ a.routine.order.idxOf c := fun b =>
    ⟨List.nodup_singleton b, fun c hc => List.mem_singleton.mp hc ▸ Nat.le_refl _⟩
  induction h with
  | limit => exact ⟨List.nodup_nil, nofun⟩
  | unknown => exact hsingle _
  | failed => exact hsingle _
  | left => exact hsingle _
  | @jumped frame b m x next frame' m' bs r _ hb hops _ ih =>
    obtain ⟨op, hop, hnext⟩ := mem_targets_of_jump hops
    obtain ⟨-, hlt⟩ := (hforward.targets b x hb op hop next hnext).resolve_right (hloops next)
    obtain ⟨hnodup, hle⟩ := ih
    refine ⟨List.nodup_cons.mpr ⟨fun hmem => ?_, hnodup⟩, fun c hc => ?_⟩
    · have := hle b hmem
      omega
    · rcases List.mem_cons.mp hc with rfl | hc
      · exact Nat.le_refl _
      · exact Nat.le_trans (Nat.le_of_lt hlt) (hle c hc)

end Traces

end Machine

/-! ### Compiled functions -/

theorem ClassDecl.Plans.loopless {c : ClassDecl} {s₀ : Scope} {g : FunctionRef} (h : c.Plans s₀ g o)
    (hbodies : ∀ d ∈ c.definitions, s₀.Names d.id g → ∀ xs, d.body = some xs →
      stmtsLoopless xs = true) : o.loopless = true := by
  cases h with
  | initializers => exact initializersOutline_loopless s₀ c.members
  | body hd hbody hid => exact stmtsOutline_loopless s₀ _ (hbodies _ hd hid _ hbody)

/-- A function without blocks is in forward order. -/
theorem Routine.forward_of_blocks {r : Routine} (h : r.blocks = []) : r.Forward := by
  have hnone : ∀ {c x}, r.block? c ≠ some x := by
    intro c x hx
    rw [Routine.block?, h] at hx
    cases hx
  refine ⟨fun c hc => ?_, fun _ _ hx => absurd hx hnone, fun _ _ hx => absurd hx hnone⟩
  rw [h] at hc
  exact absurd hc (Nat.not_lt_zero _)

namespace Tree

/-- **Compiled functions are in forward order.** Let a tree be accepted on top of compiled
libraries. In each function of the resulting library every block is placed once, leads to blocks
that are placed behind it or head a loop, and names points that are placed behind it. If no body
that the tree gives for a function has a loop, a call of the function enters each of its blocks at
most once. -/
theorem lowerTree_forward {t : Tree} {id : LibraryId} {name : String} {dependencies : List Library}
    {report : Report} (hcompiled : ∀ d ∈ dependencies, d.Compiled)
    (hfresh : ∀ d ∈ dependencies, d.findLibrary? id = none)
    (h : (lowerTree t { id, name, dependencies } report).2.failed = false) :
    (∀ r ∈ (lowerTree t { id, name, dependencies } report).1.routines, r.Forward) ∧
    ∀ g : FunctionRef, g.library = id →
      (∀ d ∈ t.definitions,
        (lowerTree t { id, name, dependencies } report).1.findFunction? d.id = some g →
          ∀ xs, d.body = some xs → stmtsLoopless xs = true) →
      ∀ root limit vs m,
        root.findLibrary? id = some (lowerTree t { id, name, dependencies } report).1 →
        (∃ bs, Machine.Visits root limit g vs m bs) ∧
          ∀ bs, Machine.Visits root limit g vs m bs → bs.Nodup := by
  have hforeign := Library.foreign_of_owned (fun d hd => (hcompiled d hd).owned) hfresh
  obtain ⟨u, s₀, s, hdeclare, h₀, -, hresult, hend⟩ := lowerTree_written hforeign h
  have hawaiting := Scope.declareTree_awaiting (Scope.sketching_empty hforeign) hdeclare
  have hreads := hend.reaches.emitting h₀
  have hanchored : s₀.Anchored fun _ => True :=
    ⟨fun _ _ _ => True.intro, fun _ _ _ _ _ => True.intro⟩
  rw [hresult]
  -- a function is as it has been declared, without a body, or in forward order
  have hroutine : ∀ {g r}, s.library.routine? g = some r → r.Forward := by
    intro g r hr
    rcases hend.bodies g r hr with hold | hwrites
    · exact Routine.forward_of_blocks (h₀.bodies r (Library.mem_routines_of_routine? hold))
    · exact (hwrites.scoped hawaiting hanchored).2
  have hfind : ∀ fid, ({ s.library with complete := true } : Library).findFunction? fid =
      s₀.library.findFunction? fid := fun fid =>
    Library.search?_congr (by rw [hreads.functions]) hreads.dependencies
  refine ⟨fun r hr => ?_, fun g hg hbodies root limit vs m hroot => ?_⟩
  · obtain ⟨i, hi, rfl⟩ := List.mem_iff_getElem.mp hr
    refine hroutine (g := ⟨id, i⟩) ?_
    rw [Library.routine?, if_pos (hreads.id.trans h₀.id).symm]
    exact List.getElem?_eq_getElem hi
  · refine ⟨Machine.exists_visits root limit g vs m, fun bs hbs => ?_⟩
    unfold Machine.Visits at hbs
    split at hbs
    · rw [hbs]
      exact List.nodup_nil
    · next p m' henter =>
      obtain ⟨hl, hr, -⟩ := Machine.enter_ok henter
      have hlibrary := Option.some.inj (hroot.symm.trans (hg ▸ hl))
      have hr : s.library.routine? g = some p.1.routine := by
        rw [← hlibrary] at hr
        exact hr
      refine (hbs.nodup (hroutine hr) fun c hloop => ?_).1
      rcases hend.bodies g _ hr with hold | hwrites
      · obtain ⟨-, x, hx, -⟩ := hloop
        rw [Routine.block?, h₀.bodies _ (Library.mem_routines_of_routine? hold)] at hx
        cases hx
      · obtain ⟨d, hd, o, hplans, hdrawn⟩ := hwrites.draws hawaiting
        refine hdrawn.not_headsLoop (hplans.loopless fun e he hid xs hxs => ?_) c hloop
        exact hbodies e (mem_definitions hd he) ((hfind e.id).trans hid) xs hxs

/-- A condition with two parts, and a return on each way. -/
def searchTwice : List Stmt :=
  let found : Expr := ⟨.localVar ⟨1⟩, .boolean, .unknown⟩
  [⟨.ifChain [⟨some ⟨.binary .logicalOr found found, .boolean, .unknown⟩, [returned 1]⟩], .unknown⟩,
   returned 2]

/-- A function without loops goes through its blocks, from the first one past the two parts of the
condition to the last one, and enters none of them twice. -/
theorem lowerTree_forward_searchTwice :
    (∀ r ∈ (lowerTree (search searchTwice) .blank {}).1.routines, r.Forward) ∧
    (Machine.call (lowerTree (search searchTwice) .blank {}).1 10 ⟨⟨1⟩, 0⟩ [.bool false]
      {}).2.executed.size = 4 ∧
    ∃ bs, Machine.Visits (lowerTree (search searchTwice) .blank {}).1 10 ⟨⟨1⟩, 0⟩ [.bool false] {} bs ∧
      bs.Nodup := by
  have hid : Library.id (lowerTree (search searchTwice) .blank {}).1 = ⟨1⟩ := by decide +kernel
  have hsize : (Machine.call (lowerTree (search searchTwice) .blank {}).1 10 ⟨⟨1⟩, 0⟩ [.bool false]
        {}).2.executed.size = 4 := by decide +kernel
  obtain ⟨hforward, hnodup⟩ := @lowerTree_forward (search searchTwice) ⟨1⟩ "A" [Core.library ⟨0⟩] {}
    (by simpa using .core ⟨0⟩) (by simp; decide) (by decide +kernel)
  have hbodies : ∀ d ∈ (search searchTwice).definitions, ∀ xs, d.body = some xs →
      stmtsLoopless xs = true := by
    intro d hd xs hxs
    obtain rfl := List.mem_singleton.mp hd
    cases hxs
    decide
  generalize (lowerTree (search searchTwice) .blank {}).1 = l at *
  obtain ⟨⟨bs, hbs⟩, hall⟩ := hnodup ⟨⟨1⟩, 0⟩ rfl (fun d hd _ => hbodies d hd) l 10 [.bool false] {}
    (Library.search?_of_own (if_pos hid))
  exact ⟨hforward, hsize, bs, hbs, hall bs hbs⟩

end Tree

end Shader
