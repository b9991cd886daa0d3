import Shader.Proofs.Calls.Emission
import Shader.Proofs.Scoping.Runs

/-!
# Calls with the right number of arguments

A function is entered only with as many arguments as it has parameters, and this is checked when a
call is made. If every operation that makes a call has the right number of operands, the check fails
at most for the first call.
-/

namespace Shader

open Outcome

theorem Op.Fits.mono {C C' : FunctionRef → Nat → Prop} {op : Op} (h : op.Fits C)
    (hC : ∀ f n, C f n → C' f n) : op.Fits C' := by
  intro hop
  obtain ⟨f, os, hoperands, hf⟩ := h hop
  exact ⟨f, os, hoperands, hC f _ hf⟩

namespace Library

variable {root l : Library} {f : FunctionRef}

/-- The function is there and has as many parameters. -/
def Takes (l : Library) (f : FunctionRef) (n : Nat) : Prop :=
  ∃ r, l.resolveRoutine? f = some r ∧ r.parameters.length = n

/-- All calls in the library have the right number of operands. -/
def Fitting (l : Library) : Prop := ∀ r ∈ l.routines, r.Each (Op.Fits l.Takes)

/-- Where libraries are told apart by their numbers, a function is found in the library that it
belongs to. -/
theorem Coherent.resolveRoutine? (h : root.Coherent) (hl : l.Within root) {r : Routine}
    (hr : l.routine? f = some r) : root.resolveRoutine? f = some r := by
  rw [Coherent.resolveRoutine?_eq root h]
  cases hfound : root.search? (·.routine? f) with
  | none =>
    rw [within_of_search?_eq_none hl hfound] at hr
    cases hr
  | some r' =>
    obtain ⟨l', hl', hr'⟩ := exists_within_of_search? _ hfound
    have hid : l.id = l'.id := (library_of_routine? hr).symm.trans (library_of_routine? hr')
    rw [← h l l' hl hl' hid] at hr'
    exact hr'.symm.trans hr

/-- What a library within another one takes a function for, the other one takes it for as well. -/
theorem Coherent.takes (h : root.Coherent) (hl : l.Within root) {n : Nat} (hf : l.Takes f n) :
    root.Takes f n := by
  obtain ⟨r, hr, hn⟩ := hf
  rw [Coherent.resolveRoutine?_eq l (h.of_within hl)] at hr
  obtain ⟨m, hm, hr⟩ := exists_within_of_search? _ hr
  exact ⟨r, h.resolveRoutine? (hl.trans hm) hr, hn⟩

end Library

/-- The reason lies neither in a type nor in the number of arguments. -/
def RunError.Plain (e : RunError) : Prop :=
  (∀ error, e ≠ .ir error) ∧ ∀ expected found, e ≠ .argumentCount expected found

theorem RunError.OfValues.plain {e : RunError} (h : e.OfValues) : e.Plain := by
  constructor
  · rintro error rfl
    exact h
  · rintro expected found rfl
    exact h

/-- The reason is not the number of arguments. -/
def RunError.NotCount (e : RunError) : Prop := ∀ expected found, e ≠ .argumentCount expected found

namespace Machine

/-- **Where the other reasons come from.** A run may stop for the plain reasons, for those of the
zero values that the code asks for, and for those of the calls that it makes. -/
structure Admits (root : Library) (E : RunError → Prop) (C : FunctionRef → Nat → Prop) : Prop where
  plain : ∀ e : RunError, e.Plain → E e
  initial : ∀ l : Library, l.Within root → ∀ r ∈ l.routines, ∀ b ∈ r.blocks,
    ∀ op ∈ b.locals ++ b.ops, ∀ ty, op.resultType = some ty →
      Yields E (initialValue l ty) fun _ => True
  calls : ∀ l : Library, l.Within root → ∀ r ∈ l.routines, ∀ b ∈ r.blocks, ∀ op ∈ b.ops,
    op.opcode = .functionCall → ∀ f os, op.operands = .function f :: os → C f os.length
  entered : ∀ l : Library, l.Within root → ∀ f r n, C f n → l.routine? f = some r →
    r.parameters.length ≠ n → E (.argumentCount r.parameters.length n)

section Code

variable {E : RunError → Prop} (hplain : ∀ e : RunError, e.Plain → E e) {l : Library}
  {frame : Frame} {op : Op}
include hplain

theorem yields_operand_of_plain (index : Nat) :
    Yields E (operand l frame op index) fun _ => True := by
  unfold operand
  split
  · split
    · exact .ok True.intro
    · exact .error (hplain _ (by simp [RunError.Plain]))
  · split
    · exact .ok True.intro
    · exact .error (hplain _ (by simp [RunError.Plain]))
  · exact .error (hplain _ (by simp [RunError.Plain]))

theorem yields_blockOperand_of_plain (index : Nat) :
    Yields E (blockOperand op index) fun _ => True := by
  unfold blockOperand
  split
  · exact .ok True.intro
  · exact .error (hplain _ (by simp [RunError.Plain]))

omit hplain in
theorem stops_allocateLocals {ops : List Op}
    (hinitial : ∀ op ∈ ops, ∀ ty, op.resultType = some ty →
      Yields E (initialValue l ty) fun _ => True) :
    Stops E (allocateLocals l frame ops) fun _ => True := by
  induction ops generalizing frame with
  | nil => exact .pure True.intro
  | cons op ops ih =>
    obtain ⟨hop, hops⟩ := List.forall_mem_cons.mp hinitial
    unfold allocateLocals
    split
    · next id ty _ hty =>
      exact (Stops.lift (hop ty hty)).bind fun v _ => (stops_allocate v).bind fun _ _ => ih hops
    · exact ih hops

/-- **One block.** Operations whose zero values and calls stop for the reasons that are allowed. -/
theorem stops_runOps {call : FunctionRef → List Value → RunM (Option Value)} (block : BlockId)
    {ops : List Op}
    (hinitial : ∀ op ∈ ops, ∀ ty, op.resultType = some ty →
      Yields E (initialValue l ty) fun _ => True)
    (hcall : ∀ op ∈ ops, op.opcode = .functionCall → ∀ f os, op.operands = .function f :: os →
      ∀ vs, vs.length = os.length → Stops E (call f vs) fun _ => True) :
    Stops E (runOps call l block frame ops) fun _ => True := by
  induction ops generalizing frame with
  | nil => exact .throw (hplain _ (by simp [RunError.Plain]))
  | cons op ops ih =>
    obtain ⟨hop, hops⟩ := List.forall_mem_cons.mp hinitial
    obtain ⟨hcallOp, hcallOps⟩ := List.forall_mem_cons.mp hcall
    have hvalues : ∀ e : RunError, e.OfValues → E e := fun e he => hplain e he.plain
    have harg : ∀ index, Yields E (operand l frame op index) fun _ => True :=
      yields_operand_of_plain hplain
    unfold runOps
    cases hflow : terminate? l frame op with
    | some flow =>
      exact (Stops.lift (yields_terminate? hvalues (P := fun _ => True) harg (fun _ => True.intro)
        (yields_blockOperand_of_plain hplain) hflow)).bind fun _ _ => .pure True.intro
    | none =>
      refine (stops_perform hvalues harg hop fun f os hopcode hoperands =>
        hcallOp hopcode f os hoperands).bind fun v _ => ?_
      cases op.result with
      | some id => exact ih hops hcallOps
      | none => exact ih hops hcallOps

end Code

section Runs

variable {root : Library} {limit : Nat} {E : RunError → Prop} {C : FunctionRef → Nat → Prop}
  {f : FunctionRef} {vs : List Value}

namespace Admits

variable (h : Admits root E C)
include h

/-- A call in progress runs a function of a library behind the root. -/
theorem stops_enter (hf : C f vs.length) :
    Stops E (enter root f vs) fun p =>
      p.1.library.Within root ∧ p.1.routine ∈ p.1.library.routines := by
  unfold enter
  split
  · exact .throw (h.plain _ (by simp [RunError.Plain]))
  · next l hfind =>
    obtain ⟨m, hm, heq⟩ := Library.exists_within_of_search? _ hfind
    have hl : l.Within root := by
      split at heq
      · cases heq
        exact hm
      · cases heq
    split
    · exact .throw (h.plain _ (by simp [RunError.Plain]))
    · next routine hroutine =>
      have hmem := Library.mem_routines_of_routine? hroutine
      have hmodify : Stops E
          (modify fun s => { s with calls := s.calls.push f } : RunM PUnit) fun _ => True :=
        fun _ => ⟨fun _ _ _ => True.intro, fun _ _ he => absurd he ok_ne_error⟩
      refine hmodify.bind fun _ _ => ?_
      dsimp only
      split
      · split
        · exact .throw (h.plain _ (by simp [RunError.Plain]))
        · next entry hentry =>
          obtain ⟨b, -, hb⟩ := Option.bind_eq_some_iff.mp hentry
          have hinitial := h.initial l hl routine hmem entry (List.mem_of_getElem? hb)
          exact (stops_allocateLocals fun op hop =>
            hinitial op (List.mem_append_left _ hop)).bind fun frame _ => .pure ⟨hl, hmem⟩
      · next hcount =>
        exact Stops.bind (Q := fun _ => False) (.throw (h.entered l hl f routine _ hf hroutine hcount))
          fun _ h => h.elim

/-- A whole run, by induction on the number of blocks that it may still enter. -/
theorem stops_runFrom (n : Nat) {a : Activation} (hwithin : a.library.Within root)
    (hroutine : a.routine ∈ a.library.routines) {frame : Frame} {block : BlockId} :
    Stops E (runFrom root limit n a frame block) fun _ => True := by
  induction n generalizing a frame block with
  | zero => exact .throw (h.plain _ (by simp [RunError.Plain]))
  | succ n ih =>
    rw [runFrom_succ]
    refine (stops_tick (h.plain _ (by simp [RunError.Plain])) a.function block).bind fun _ _ => ?_
    cases hb : a.routine.block? block with
    | none => exact .throw (h.plain _ (by simp [RunError.Plain]))
    | some b =>
      have hmem := List.mem_of_getElem? hb
      have hinitial := h.initial _ hwithin _ hroutine b hmem
      -- calls are entered with one block less to go, so the induction covers them as well
      refine (stops_runOps h.plain block (fun op hop => hinitial op (List.mem_append_right _ hop))
        fun op hop hopcode f os hoperands vs hvs => ?_).bind fun p _ => ?_
      · have hf := h.calls _ hwithin _ hroutine b hmem op hop hopcode f os hoperands
        exact (h.stops_enter (hvs ▸ hf)).bind fun p hp => ih hp.1 hp.2
      · cases p.1 with
        | leave result => exact .pure True.intro
        | jump next => exact ih hwithin hroutine

/-- **What a call stops for**: a reason that is allowed. -/
theorem stops_call (hf : C f vs.length) :
    Stops E (call root limit f vs) fun _ => True :=
  (h.stops_enter hf).bind fun _ hp => stops_get.bind fun _ _ => h.stops_runFrom _ hp.1 hp.2

end Admits

/-- **Runs keep to the number of arguments.** If all calls in the libraries behind the root have the
right number of operands, a call with the right number of arguments does not stop because of their
number, and no call that it leads to does. -/
theorem call_counts (hcoherent : root.Coherent)
    (hfitting : ∀ m : Library, m.Within root → m.Fitting)
    (hf : ∀ r, root.resolveRoutine? f = some r → r.parameters.length = vs.length) :
    Stops RunError.NotCount (call root limit f vs) fun _ => True := by
  have hadmits : Admits root RunError.NotCount
      (fun f n => ∀ r, root.resolveRoutine? f = some r → r.parameters.length = n) := {
    plain := fun e he => he.2
    initial := fun l _ _ _ _ _ _ _ ty _ => by
      unfold initialValue
      split
      · exact .ok True.intro
      · exact .error (by simp [RunError.NotCount])
    calls := by
      intro l hl r hr b hb op hop hopcode f os hoperands r' hr'
      obtain ⟨f', os', hoperands', hf⟩ := hfitting l hl r hr b hb op hop hopcode
      rw [hoperands] at hoperands'
      obtain ⟨hfunction, rfl⟩ := List.cons.inj hoperands'
      cases hfunction
      obtain ⟨r'', hr'', hlength⟩ := hcoherent.takes hl hf
      cases hr'.symm.trans hr''
      exact hlength
    entered := fun l hl f r n hn hr hne => absurd (hn r (hcoherent.resolveRoutine? hl hr)) hne }
  exact hadmits.stops_call hf

end Runs

end Machine

end Shader
