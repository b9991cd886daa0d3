import Shader.Proofs.Calls.Arity

/-!
# The limit on entered blocks

A run may enter only so many blocks, counted over all calls since the machine was made. This bounds
every run, and that is all it does: a run that the limit does not end is the same under every larger
limit, and one that it ends has done the first part of what it would have done.

* `Machine.runs_call_iff` — every call runs to its end by the rules, in one way only. Every rule that
  enters a block uses up some of the limit, and between two of them there are only the operations of
  a block.
* `Machine.Cuts` — a step under a smaller limit beside the same step under a larger one;
  `Machine.Runs.cuts` is the run lemma for it, and `Machine.call_cuts` what it says of calls.
-/

namespace Shader

open Outcome Relation

variable {r : Except RunError (Option Value) × Machine}

namespace Machine

/-! ### Runs by rules -/

/-- What a machine can be set to do: call a function, go on with a call from a block, or from within
a block. -/
inductive Task where
  | call (f : FunctionRef) (vs : List Value)
  | block (a : Activation) (frame : Frame) (block : BlockId)
  | rest (a : Activation) (frame : Frame) (block : BlockId) (ops : List Op)

/-- What an operation calls, if it is a call at all; it may lack a function or an argument. -/
def callee? (l : Library) (frame : Frame) (op : Op) :
    Option (Except RunError (FunctionRef × List Value)) :=
  match op.opcode with
  | .functionCall =>
    match op.operands with
    | .function f :: _ => some ((operandsFrom l frame op 1).map fun vs => (f, vs))
    | _ => some (.error (.misfit op.opcode .noCallee))
  | _ => none

/-- One operation that is no call. -/
def performAlone (l : Library) (frame : Frame) (op : Op) : RunM Value :=
  perform (fun _ _ => pure none) l frame op

/-- **The rules of a run.** They relate a task and a machine to the outcome and the machine that is
left. Nothing in them counts what is still to come: a derivation is a finite run. -/
inductive Runs (root : Library) (limit : Nat) :
    Task → Machine → Except RunError (Option Value) × Machine → Prop
  /-- A call that cannot be prepared. -/
  | refused {f vs m e m'} (h : enter root f vs m = (.error e, m')) :
    Runs root limit (.call f vs) m (.error e, m')
  | entered {f vs m p m' r} (h : enter root f vs m = (.ok p, m'))
    (hrun : Runs root limit (.block p.1 p.2.1 p.2.2) m' r) : Runs root limit (.call f vs) m r
  /-- A block beyond the limit. -/
  | limit {a frame b m} (h : limit ≤ m.executed.size) :
    Runs root limit (.block a frame b) m (.error (.stepLimit limit), m)
  | unknown {a frame b m} (h : m.executed.size < limit) (hb : a.routine.block? b = none) :
    Runs root limit (.block a frame b) m (.error (.unknownBlock b), entering a m b)
  | block {a frame b m x r} (h : m.executed.size < limit) (hb : a.routine.block? b = some x)
    (hrun : Runs root limit (.rest a frame b x.ops) (entering a m b) r) :
    Runs root limit (.block a frame b) m r
  /-- A block that ends without a terminator. -/
  | unended {a frame b m} : Runs root limit (.rest a frame b []) m (.error (.noTerminator b), m)
  | stuck {a frame b op ops m e} (h : terminate? a.library frame op = some (.error e)) :
    Runs root limit (.rest a frame b (op :: ops)) m (.error e, m)
  | leave {a frame b op ops m v} (h : terminate? a.library frame op = some (.ok (.leave v))) :
    Runs root limit (.rest a frame b (op :: ops)) m (.ok v, m)
  | jump {a frame b op ops m next r} (h : terminate? a.library frame op = some (.ok (.jump next)))
    (hrun : Runs root limit (.block a frame next) m r) :
    Runs root limit (.rest a frame b (op :: ops)) m r
  /-- An operation that fails. -/
  | failed {a frame b op ops m e m'} (h : terminate? a.library frame op = none)
    (hcallee : callee? a.library frame op = none)
    (hop : performAlone a.library frame op m = (.error e, m')) :
    Runs root limit (.rest a frame b (op :: ops)) m (.error e, m')
  | operation {a frame b op ops m v m' r} (h : terminate? a.library frame op = none)
    (hcallee : callee? a.library frame op = none)
    (hop : performAlone a.library frame op m = (.ok v, m'))
    (hrun : Runs root limit (.rest a (op.record frame v) b ops) m' r) :
    Runs root limit (.rest a frame b (op :: ops)) m r
  /-- A call of nothing, or with an argument missing. -/
  | uncallable {a frame b op ops m e} (h : terminate? a.library frame op = none)
    (hcallee : callee? a.library frame op = some (.error e)) :
    Runs root limit (.rest a frame b (op :: ops)) m (.error e, m)
  /-- A call within the block that fails. -/
  | thrown {a frame b op ops f vs m e m'} (h : terminate? a.library frame op = none)
    (hcallee : callee? a.library frame op = some (.ok (f, vs)))
    (hcall : Runs root limit (.call f vs) m (.error e, m')) :
    Runs root limit (.rest a frame b (op :: ops)) m (.error e, m')
  | returned {a frame b op ops f vs m v m' r} (h : terminate? a.library frame op = none)
    (hcallee : callee? a.library frame op = some (.ok (f, vs)))
    (hcall : Runs root limit (.call f vs) m (.ok v, m'))
    (hrun : Runs root limit (.rest a (op.record frame (v.getD .undefined)) b ops) m' r) :
    Runs root limit (.rest a frame b (op :: ops)) m r

section Runs

variable {root : Library} {limit : Nat}

/-- What the machine does with a task. -/
def Task.run (root : Library) (limit : Nat) : Task → RunM (Option Value)
  | .call f vs => Machine.call root limit f vs
  | .block a frame b => runBlock root limit a frame b
  | .rest a frame b ops => Machine.rest root limit a b frame ops

variable {call : FunctionRef → List Value → RunM (Option Value)} {l : Library} {frame : Frame}
  {op : Op}

/-- Whoever makes the calls, an operation that is no call is performed alone. -/
theorem perform_of_not_call (h : callee? l frame op = none) :
    perform call l frame op = performAlone l frame op := by
  obtain ⟨opcode, result, resultType, operands, name⟩ := op
  cases opcode with
  | functionCall =>
    unfold callee? at h
    dsimp only at h
    split at h
    · nomatch h
    · nomatch h
  | _ => rfl

/-- A call among the operations: what it calls, if there is something to call, gives its value. -/
theorem perform_of_call {x : Except RunError (FunctionRef × List Value)}
    (h : callee? l frame op = some x) :
    perform call l frame op = (do
      let p ← (liftM x : RunM (FunctionRef × List Value))
      return (← call p.1 p.2).getD .undefined) := by
  obtain ⟨opcode, result, resultType, operands, name⟩ := op
  cases opcode with
  | functionCall =>
    -- the callee is the first operand, if that names a function
    cases operands with
    | nil =>
      cases h
      rfl
    | cons first others =>
      cases first with
      | function f =>
        cases h
        unfold perform
        dsimp only
        cases operandsFrom l frame _ 1 with
        | error e => rfl
        | ok vs => rfl
      | _ =>
        cases h
        rfl
  | _ => nomatch h

variable {vs : List Value} {m : Machine} {f : FunctionRef}

theorem perform_ok_of_call {v : Option Value} {m' : Machine}
    (h : callee? l frame op = some (.ok (f, vs))) (hcall : call f vs m = (.ok v, m')) :
    perform call l frame op m = (.ok (v.getD .undefined), m') := by
  rw [perform_of_call h]
  exact bind_ok.mpr ⟨_, m, rfl, bind_ok.mpr ⟨v, m', hcall, rfl⟩⟩

theorem perform_error_of_call {e : RunError} {m' : Machine}
    (h : callee? l frame op = some (.ok (f, vs))) (hcall : call f vs m = (.error e, m')) :
    perform call l frame op m = (.error e, m') := by
  rw [perform_of_call h]
  exact bind_error.mpr (.inr ⟨_, m, rfl, bind_error.mpr (.inl hcall)⟩)

/-- **Rules are obeyed.** What is derived by the rules is what the machine does. -/
theorem Runs.run_eq {t : Task} (h : Runs root limit t m r) : t.run root limit m = r := by
  induction h with
  | refused h => rw [Task.run, call_eq, bind_apply, h]
  | entered h _ ih =>
    rw [Task.run, call_eq, bind_apply, h]
    exact ih
  | limit h => rw [Task.run, runBlock_eq, if_pos h]
  | unknown h hb => rw [Task.run, runBlock_eq, if_neg (Nat.not_le_of_lt h), hb]
  | block h hb _ ih =>
    rw [Task.run, runBlock_eq, if_neg (Nat.not_le_of_lt h), hb]
    exact ih
  | unended => rfl
  | stuck h => exact rest_terminator_error h _ _
  | leave h => exact rest_terminator h _ _
  | jump h _ ih => exact (rest_terminator h _ _).trans ih
  | failed h hcallee hop =>
    refine rest_operation_error h ?_ _
    rw [perform_of_not_call hcallee, hop]
  | operation h hcallee hop _ ih =>
    refine (rest_operation h ?_ _).trans ih
    rw [perform_of_not_call hcallee, hop]
  | uncallable h hcallee =>
    refine rest_operation_error h ?_ _
    rw [perform_of_call hcallee]
    rfl
  | thrown h hcallee _ ih => exact rest_operation_error h (perform_error_of_call hcallee ih) _
  | returned h hcallee _ _ ih ih' =>
    exact (rest_operation h (perform_ok_of_call hcallee ih) _).trans ih'

theorem grows_performAlone (limit : Nat) (l : Library) (frame : Frame) (op : Op) (m : Machine) :
    Grows limit m (performAlone l frame op m).2 :=
  grows_of_steps ((sound_alone limit).perform (calls_alone fun _ _ _ _ => ⟨rfl, .of_eq rfl rfl⟩)
    (((moved_alone Frame.move_id).mpr rfl).operand l op))

/-- The rest of a block comes to an end, if all calls do from now on. The induction is on the
operations that are left. -/
theorem runs_rest {a : Activation} {b : BlockId} {k : Nat}
    (hcall : ∀ f vs m, k ≤ m.executed.size →
      Runs root limit (.call f vs) m (Machine.call root limit f vs m))
    (hblock : ∀ frame next m, k ≤ m.executed.size →
      Runs root limit (.block a frame next) m (runBlock root limit a frame next m))
    (frame : Frame) (ops : List Op) (m : Machine) (hk : k ≤ m.executed.size) :
    ∃ r, Runs root limit (.rest a frame b ops) m r := by
  induction ops generalizing frame m with
  | nil => exact ⟨_, .unended⟩
  | cons op ops ih =>
    cases hflow : terminate? a.library frame op with
    | some flow =>
      rcases flow with e | next | v
      · exact ⟨_, .stuck hflow⟩
      · exact ⟨_, .jump hflow (hblock frame next m hk)⟩
      · exact ⟨_, .leave hflow⟩
    | none =>
      cases hcallee : callee? a.library frame op with
      | none =>
        have hgrow := (grows_performAlone limit a.library frame op m).size
        rcases hop : performAlone a.library frame op m with ⟨e | v, m'⟩
        · exact ⟨_, .failed hflow hcallee hop⟩
        · rw [hop] at hgrow
          obtain ⟨r, hr⟩ := ih (op.record frame v) m' (Nat.le_trans hk hgrow)
          exact ⟨r, .operation hflow hcallee hop hr⟩
      | some x =>
        rcases x with e | ⟨f, vs⟩
        · exact ⟨_, .uncallable hflow hcallee⟩
        · have hrun := hcall f vs m hk
          have hgrow := (grows_call root limit f vs m).size
          rcases hresult : Machine.call root limit f vs m with ⟨e | v, m'⟩
          · rw [hresult] at hrun
            exact ⟨_, .thrown hflow hcallee hrun⟩
          · rw [hresult] at hrun hgrow
            obtain ⟨r, hr⟩ := ih (op.record frame (v.getD .undefined)) m' (Nat.le_trans hk hgrow)
            exact ⟨r, .returned hflow hcallee hrun hr⟩

/-- A call comes to an end if the block that it starts with does. -/
theorem runs_call_of_block
    (hblock : ∀ a frame b m', m.executed.size ≤ m'.executed.size →
      Runs root limit (.block a frame b) m' (runBlock root limit a frame b m')) :
    Runs root limit (.call f vs) m (Machine.call root limit f vs m) := by
  have hgrow := (grows_enter root limit f vs m).size
  rw [call_eq, bind_apply]
  rcases henter : enter root f vs m with ⟨e | p, m'⟩
  · exact .refused henter
  · rw [henter] at hgrow
    exact .entered henter (hblock p.1 p.2.1 p.2.2 m' hgrow)

/-- **Blocks come to an end**, by induction on how much of the limit is left: a block that is
entered leaves less of it, both for the blocks that follow and for the calls in between. -/
theorem runs_block (left : Nat) : ∀ a frame b m, limit - m.executed.size = left →
    Runs root limit (.block a frame b) m (runBlock root limit a frame b m) := by
  induction left using Nat.strong_induction_on with
  | _ left ih =>
    intro a frame b m hleft
    rw [runBlock_eq]
    by_cases hlimit : limit ≤ m.executed.size
    · rw [if_pos hlimit]
      exact .limit hlimit
    · rw [if_neg hlimit]
      cases hb : a.routine.block? b with
      | none => exact .unknown (Nat.lt_of_not_le hlimit) hb
      | some x =>
        have hsize : (entering a m b).executed.size = m.executed.size + 1 := Array.size_push _
        have hblock : ∀ a frame next (m' : Machine), m.executed.size + 1 ≤ m'.executed.size →
            Runs root limit (.block a frame next) m' (runBlock root limit a frame next m') :=
          fun a frame next m' hm' => ih (limit - m'.executed.size) (by omega) a frame next m' rfl
        obtain ⟨r, hr⟩ := runs_rest (a := a) (b := b)
          (fun f vs m' hm' => runs_call_of_block fun a frame b m'' hm'' =>
            hblock a frame b m'' (Nat.le_trans hm' hm''))
          (hblock a) frame x.ops (entering a m b) (Nat.le_of_eq hsize.symm)
        have hrun : rest root limit a b frame x.ops (entering a m b) = r := hr.run_eq
        dsimp only
        rw [hrun]
        exact .block (Nat.lt_of_not_le hlimit) hb hr

/-- **Calls run to their end** by the rules, and in one way only. -/
theorem runs_call_iff :
    Runs root limit (.call f vs) m r ↔ Machine.call root limit f vs m = r := by
  constructor
  · exact fun h => h.run_eq
  · rintro rfl
    exact runs_call_of_block fun a frame b m' _ => runs_block _ a frame b m' rfl

end Runs

/-! ### Types without an end

A zero value is a tree as deep as the type. In a library whose types are all there, and do not hold
themselves, there is always one. -/

end Machine

/-- **Types in order.** All types that a library refers to are there, in its registry and in its
code, and no type holds itself. -/
structure Library.Typed (l : Library) : Prop where
  closed : l.types.Closed
  finite : ∀ t, ¬ TransGen l.types.Holds t t
  code : ∀ r ∈ l.routines, ∀ b ∈ r.blocks, ∀ op ∈ b.locals ++ b.ops, ∀ ty, op.resultType = some ty →
    ty.index < l.types.size

/-- A reason that is not a type which does not exist or has no end. -/
def RunError.NotTypes (e : RunError) : Prop := ∀ error, e ≠ .ir error

namespace Machine

section Types

variable {l root : Library}

theorem yields_initialValue (hl : l.Typed) {ty : TypeRef} (hty : ty.index < l.types.size) :
    Yields RunError.NotTypes (initialValue l ty) fun _ => True := by
  refine ⟨fun _ _ => True.intro, fun e he => ?_⟩
  obtain ⟨-, u, hcycle⟩ := initialValue_error hl.closed hty he
  exact absurd hcycle (hl.finite u)

variable (hroot : ∀ l : Library, l.Within root → l.Typed)
include hroot

/-- A run in libraries whose types are in order does not stop because of them. -/
theorem call_notTypes (limit : Nat) (f : FunctionRef) (vs : List Value) (m : Machine)
    (e : IrError) : (Machine.call root limit f vs m).1 ≠ .error (.ir e) := by
  have hadmits : Admits root RunError.NotTypes fun _ _ => True := {
    plain := fun e he => he.1
    initial := fun l hl r hr b hb op hop ty hty =>
      yields_initialValue (hroot l hl) ((hroot l hl).code r hr b hb op hop ty hty)
    calls := fun _ _ _ _ _ _ _ _ _ _ _ _ => True.intro
    entered := fun _ _ _ _ _ _ _ _ => by simp [RunError.NotTypes] }
  have hcall : Stops RunError.NotTypes (Machine.call root limit f vs) fun _ => True :=
    hadmits.stops_call True.intro
  exact fun h => (hcall m).2 _ _ (Prod.ext h rfl) e rfl

end Types

/-! ### Larger limits -/

/-- **Cutting off.** The first step does what the second one does, unless it hits the limit `n`; then
it has recorded the first part of what the second one records under its limit `n'`. -/
def Cuts {α : Type} (n n' : Nat) (x y : RunM α) : Prop :=
  ∀ m, x m = y m ∨ ∃ m', x m = (.error (.stepLimit n), m') ∧ Grows n' m' (y m).2

section Cuts

variable {root : Library} {n n' : Nat}

theorem grows_run (t : Task) (m : Machine) : Grows n m (t.run root n m).2 := by
  have hblock : ∀ a frame b m, Grows n m (runBlock root n a frame b m).2 := fun a frame b m =>
    grows_of_steps (x := runFrom root n (n - m.executed.size) a frame b) ((sound_alone n).runFrom
      ⟨Nat.le_refl _, .inl rfl⟩ ((moved_alone Frame.move_id).mpr rfl) root a b)
  cases t with
  | call f vs => exact grows_call root n f vs m
  | block a frame b => exact hblock a frame b m
  | rest a frame b ops =>
    have hgrow := grows_runOps root n a.library b frame ops m
    rw [Task.run, rest, bind_apply]
    generalize runOps (Machine.call root n) a.library b frame ops m = r at hgrow ⊢
    rcases r with ⟨e | p, m'⟩
    · exact hgrow
    · unfold follow
      dsimp only
      cases p.1 with
      | leave result => exact hgrow
      | jump next => exact hgrow.trans (hblock a p.2 next m')

/-- **A run under a larger limit.** By induction on the rules: up to the block at which the smaller
limit is hit, the same rules apply. -/
theorem Runs.cuts (hn : n ≤ n') {t : Task} {m : Machine} (h : Runs root n t m r) :
    r = t.run root n' m ∨
      ∃ m', r = (.error (.stepLimit n), m') ∧ Grows n' m' (t.run root n' m).2 := by
  induction h with
  | refused h => exact .inl (Runs.refused h).run_eq.symm
  | entered h _ ih =>
    rw [Task.run, call_eq, bind_of_ok h]
    exact ih
  | @limit a frame b m h => exact .inr ⟨m, rfl, grows_run (.block a frame b) m⟩
  | unknown h hb => exact .inl (Runs.unknown (Nat.lt_of_lt_of_le h hn) hb).run_eq.symm
  | block h hb _ ih =>
    rw [Task.run, runBlock_eq, if_neg (by omega), hb]
    exact ih
  | unended => exact .inl rfl
  | stuck h => exact .inl (Runs.stuck h).run_eq.symm
  | leave h => exact .inl (Runs.leave h).run_eq.symm
  | jump h _ ih =>
    rw [Task.run, rest_terminator h]
    exact ih
  | failed h hcallee hop => exact .inl (Runs.failed h hcallee hop).run_eq.symm
  | operation h hcallee hop _ ih =>
    rw [Task.run, rest_operation h ((congrFun (perform_of_not_call hcallee) _).trans hop)]
    exact ih
  | uncallable h hcallee => exact .inl (Runs.uncallable h hcallee).run_eq.symm
  | @thrown a frame b op ops f vs m e m' h hcallee _ ih =>
    rcases ih with heq | ⟨m'', hcut, hgrows⟩
    · exact .inl (rest_operation_error h (perform_error_of_call hcallee heq.symm) _).symm
    · -- under the larger limit the call goes on, and perhaps the block as well
      refine .inr ⟨m'', hcut, ?_⟩
      simp only [Task.run] at hgrows ⊢
      rcases hcall : Machine.call root n' f vs m with ⟨e' | v, k⟩
      · rw [rest_operation_error h (perform_error_of_call hcallee hcall)]
        exact hcall ▸ hgrows
      · rw [rest_operation h (perform_ok_of_call hcallee hcall)]
        rw [hcall] at hgrows
        exact hgrows.trans (grows_run (.rest a _ b ops) k)
  | returned h hcallee _ _ ih ih' =>
    rcases ih with heq | ⟨m', hcut, -⟩
    · rw [Task.run, rest_operation h (perform_ok_of_call hcallee heq.symm)]
      exact ih'
    · cases hcut

/-- **A call under a larger limit.** -/
theorem call_cuts (root : Library) (hn : n ≤ n') (f : FunctionRef) (vs : List Value) :
    Cuts n n' (Machine.call root n f vs) (Machine.call root n' f vs) :=
  fun _ => (runs_call_iff.mpr rfl).cuts hn

/-- A call that does not stop does the same under a larger limit. -/
theorem call_limit (root : Library) (hn : n ≤ n') {f : FunctionRef} {vs : List Value}
    {m m' : Machine} {r : Option Value} (h : Machine.call root n f vs m = (.ok r, m')) :
    Machine.call root n' f vs m = (.ok r, m') := by
  rcases call_cuts root hn f vs m with heq | ⟨m'', hcut, -⟩
  · rw [← heq, h]
  · exact absurd (h.symm.trans hcut) ok_ne_error

end Cuts

/-! ### Machines in use -/

/-- **Machines in use**: a fresh one, and what calls and new slots make of it. -/
inductive Reached (root : Library) (limit : Nat) : Machine → Prop
  | fresh : Reached root limit {}
  | called {m : Machine} (f : FunctionRef) (vs : List Value) (h : Reached root limit m) :
    Reached root limit (Machine.call root limit f vs m).2
  | allocated {m : Machine} (v : Value) (h : Reached root limit m) :
    Reached root limit (allocate v m).2

/-- However often a machine is used, it enters no more blocks than the limit allows. -/
theorem Reached.executed_le {root : Library} {limit : Nat} {m : Machine}
    (h : Reached root limit m) : m.executed.size ≤ limit := by
  induction h with
  | fresh => exact Nat.zero_le _
  | @called m f vs _ ih =>
    exact Nat.le_trans (grows_call root limit f vs m).limited (Nat.max_le.mpr ⟨Nat.le_refl _, ih⟩)
  | allocated v _ ih => exact ih

/-- **The limit bounds every run and does nothing but cut it off.** In a library whose types are in
order, every call runs to its end by the rules, in one way only, and does not end because of a type.
A machine that has been in use from the start has entered no more blocks than its limit allows. A
call that does not hit the limit `n` does the same under every larger one, and a call that hits it
has recorded the first part of what it records under a larger one. -/
theorem call_limit_cuts_off (root : Library) (hroot : ∀ l : Library, l.Within root → l.Typed)
    (f : FunctionRef) (vs : List Value) :
    (∀ limit m, ∃ r m', (∀ s, Runs root limit (.call f vs) m s ↔ s = (r, m')) ∧
      Machine.call root limit f vs m = (r, m') ∧ ∀ e, r ≠ .error (.ir e)) ∧
    (∀ limit m, Reached root limit m → m.executed.size ≤ limit) ∧
    ∀ n n' m, n ≤ n' →
      ((Machine.call root n f vs m).1 ≠ .error (.stepLimit n) →
        Machine.call root n' f vs m = Machine.call root n f vs m) ∧
      ((Machine.call root n f vs m).1 = .error (.stepLimit n) →
        (Machine.call root n f vs m).2.executed.toList <+:
            (Machine.call root n' f vs m).2.executed.toList ∧
          (Machine.call root n f vs m).2.calls.toList <+:
            (Machine.call root n' f vs m).2.calls.toList) := by
  refine ⟨fun limit m => ?_, fun limit m hm => hm.executed_le, fun n n' m hn => ?_⟩
  · refine ⟨_, _, fun s => ?_, rfl, call_notTypes hroot limit f vs m⟩
    rw [runs_call_iff]
    exact eq_comm
  · rcases call_cuts root hn f vs m with heq | ⟨m', hcut, hgrows⟩
    · rw [heq]
      exact ⟨fun _ => rfl, fun _ => ⟨List.prefix_rfl, List.prefix_rfl⟩⟩
    · rw [hcut]
      exact ⟨fun h => absurd rfl h, fun _ => ⟨hgrows.executed, hgrows.calls⟩⟩

/-- A library with one function, which first calls itself and then starts over. -/
def spinner : Library where
  id := ⟨0⟩
  name := "Spinner"
  types := ⟨[{ name := "Integer", kind := .int, count := 1, component := none }]⟩
  routines :=
    [{ name := "Spin", owner := ⟨0⟩, functionType := ⟨0⟩,
       blocks :=
        [{ id := ⟨0⟩, name := "entry",
           locals := [{ opcode := .declare, result := some ⟨0⟩, resultType := some ⟨0⟩ }],
           ops := [{ opcode := .functionCall, operands := [.function ⟨⟨0⟩, 0⟩] },
                   { opcode := .branch, operands := [.block ⟨0⟩] }] }],
       order := [⟨0⟩], nextValue := 1 }]

theorem spinner_typed : spinner.Typed where
  closed := by
    rintro ⟨index⟩ i hi
    cases index with
    | zero =>
      cases hi
      exact nofun
    | succ index => nomatch hi
  finite t := by
    -- the one type holds nothing
    have hholds : ∀ t u, ¬ spinner.types.Holds t u := by
      rintro ⟨index⟩ u h
      cases index with
      | zero =>
        cases h with
        | component hi hkind =>
          cases hi
          simp at hkind
        | member hi hkind =>
          cases hi
          simp at hkind
      | succ index =>
        cases h with
        | component hi => nomatch hi
        | member hi => nomatch hi
    intro hcycle
    cases hcycle with
    | single h => exact hholds _ _ h
    | tail _ h => exact hholds _ _ h
  code := by decide

/-- A function that calls itself without end stops at the limit, after the first of the blocks that
it enters under a larger one. -/
theorem call_limit_cuts_off_spinner :
    (∀ l : Library, l.Within spinner → l.Typed) ∧
    (Machine.call spinner 3 ⟨⟨0⟩, 0⟩ [] {}).1 = .error (.stepLimit 3) ∧
    (Machine.call spinner 3 ⟨⟨0⟩, 0⟩ [] {}).2.executed.toList <+:
      (Machine.call spinner 5 ⟨⟨0⟩, 0⟩ [] {}).2.executed.toList := by
  have htyped : ∀ l : Library, l.Within spinner → l.Typed := by
    intro l hl
    cases hl with
    | self => exact spinner_typed
    | dependency hd => nomatch hd
  have hstops : (match (Machine.call spinner 3 ⟨⟨0⟩, 0⟩ [] {}).1 with
      | .error e => decide (e = .stepLimit 3)
      | .ok _ => false) = true := by decide +kernel
  have hlimit : (Machine.call spinner 3 ⟨⟨0⟩, 0⟩ [] {}).1 = .error (.stepLimit 3) := by
    split at hstops
    · next e he => rw [he, of_decide_eq_true hstops]
    · nomatch hstops
  have hcut := (call_limit_cuts_off spinner htyped ⟨⟨0⟩, 0⟩ []).2.2 3 5 {} (by decide)
  exact ⟨htyped, hlimit, (hcut.2 hlimit).1⟩

end Machine

end Shader
