import Shader.Proofs.Calls.Callees
import Shader.Proofs.Library.Within
import Shader.Proofs.Scoping.Legal
import Shader.Proofs.Types.Closed

/-!
# Runs that do not get stuck

Where everything is at hand, a run can only stop for reasons that lie in the values it meets, in the
number of its arguments or in the limit (`RunError.Ordinary`). Never does it miss a result, a
constant, a function, a block or a terminator.

* `Machine.Stops` — a step that gives a value with a property or stops for a tolerated reason. It goes
  through sequences of steps, so that a fact about runs follows from one about each operation.
-/

namespace Shader

open Outcome

/-- The reasons for which any code may stop. -/
def RunError.Ordinary : RunError → Prop
  | .argumentCount _ _ | .misfit _ _ | .divisionByZero | .stepLimit _ | .invalidPointer => True
  | _ => False

/-- The reasons that lie in the values that a single operation meets. -/
def RunError.OfValues : RunError → Prop
  | .misfit _ _ | .divisionByZero | .invalidPointer => True
  | _ => False

variable {e : RunError} {frame : Frame}

theorem RunError.OfValues.ordinary (h : e.OfValues) : e.Ordinary := by
  cases e with
  | misfit | divisionByZero | invalidPointer => exact True.intro
  | _ => exact h.elim

/-! ### Frames -/

namespace Frame

/-- The results have values. -/
def Has (frame : Frame) (S : Set ValueId) : Prop := ∀ v ∈ S, (frame.lookup v).isSome

theorem Has.mono {S S' : Set ValueId} (h : frame.Has S) (hS : S' ⊆ S) :
    frame.Has S' := fun v hv => h v (hS hv)

theorem Has.set {S : Set ValueId} (h : frame.Has S) (id : ValueId) (v : Value) :
    (frame.set id v).Has (S ∪ {id}) := by
  intro x hx
  rw [lookup_set]
  by_cases heq : x = id
  · rw [if_pos heq]
    rfl
  · rw [if_neg heq]
    exact h x (hx.resolve_right heq)

/-- All parameters have values. -/
theorem has_ofArguments {ps : List Parameter} {vs : List Value} (h : ps.length = vs.length) :
    (ofArguments ps vs).Has { v | ∃ p ∈ ps, p.id = v } := by
  have hfold : ∀ (qs : List (Parameter × Value)) (frame : Frame) (S : Set ValueId), frame.Has S →
      (qs.foldl (fun frame q => frame.set q.1.id q.2) frame).Has
        (S ∪ { v | ∃ q ∈ qs, q.1.id = v }) := by
    intro qs
    induction qs with
    | nil =>
      intro frame S h
      exact h.mono (by rintro v (hv | ⟨q, hq, -⟩); exacts [hv, nomatch hq])
    | cons q qs ih =>
      intro frame S h
      refine (ih _ _ (h.set q.1.id q.2)).mono ?_
      rintro v (hv | ⟨q', hq', rfl⟩)
      · exact .inl (.inl hv)
      · rcases List.mem_cons.mp hq' with rfl | hq'
        · exact .inl (.inr rfl)
        · exact .inr ⟨q', hq', rfl⟩
  refine (hfold (ps.zip vs) [] ∅ nofun).mono ?_
  rintro v ⟨p, hp, rfl⟩
  obtain ⟨n, hn, rfl⟩ := List.mem_iff_getElem.mp hp
  refine .inr ⟨(ps[n], vs.get ⟨n, h ▸ hn⟩), ?_, rfl⟩
  exact List.mem_iff_getElem.mpr ⟨n, by simp; omega, by simp⟩

end Frame

namespace Machine

/-! ### Queries and steps that stop for tolerated reasons -/

/-- A query gives a value with a property or fails for a tolerated reason. -/
def Yields {α : Type} (E : RunError → Prop) (x : Except RunError α) (Q : α → Prop) : Prop :=
  (∀ a, x = .ok a → Q a) ∧ ∀ e, x = .error e → E e

/-- **Stopping for tolerated reasons.** From any state, a step gives a value with a property or stops
for a tolerated reason. -/
def Stops {α : Type} (E : RunError → Prop) (x : RunM α) (Q : α → Prop) : Prop :=
  ∀ m, (∀ a m', x m = (.ok a, m') → Q a) ∧ ∀ e m', x m = (.error e, m') → E e

section Rules

variable {α β : Type} {E : RunError → Prop} {Q : α → Prop} {R : β → Prop}

theorem Yields.ok {a : α} (h : Q a) : Yields E (.ok a) Q :=
  ⟨fun _ hb => Except.ok.inj hb ▸ h, nofun⟩

theorem Yields.error (h : E e) : Yields E (.error e : Except RunError α) Q :=
  ⟨nofun, fun _ he => Except.error.inj he ▸ h⟩

variable {x : Except RunError α}

theorem Yields.bind {f : α → Except RunError β} (hx : Yields E x Q)
    (hf : ∀ a, Q a → Yields E (f a) R) : Yields E (x >>= f) R := by
  cases x with
  | error e => exact .error (hx.2 e rfl)
  | ok a => exact hf a (hx.1 a rfl)

theorem Yields.mono {Q' : α → Prop} (hx : Yields E x Q) (h : ∀ a, Q a → Q' a) :
    Yields E x Q' := ⟨fun a ha => h a (hx.1 a ha), hx.2⟩

theorem Yields.mapM {as : List α} {f : α → Except RunError β}
    (hf : ∀ a ∈ as, Yields E (f a) fun _ => True) :
    Yields E (as.mapM f) fun bs => bs.length = as.length := by
  induction as with
  | nil => exact .ok rfl
  | cons a as ih =>
    rw [List.mapM_cons]
    refine (hf a List.mem_cons_self).bind fun b _ => ?_
    refine (ih fun c hc => hf c (List.mem_cons_of_mem a hc)).bind fun bs hbs => .ok ?_
    rw [List.length_cons, List.length_cons, hbs]

theorem Stops.mono {Q' : α → Prop} {x : RunM α} (hx : Stops E x Q) (h : ∀ a, Q a → Q' a) :
    Stops E x Q' := fun m => ⟨fun a m' ha => h a ((hx m).1 a m' ha), (hx m).2⟩

theorem Stops.pure {a : α} (h : Q a) : Stops E (pure a : RunM α) Q := by
  intro m
  refine ⟨fun b m' hb => ?_, fun e m' he => absurd he ok_ne_error⟩
  obtain ⟨rfl, -⟩ := ok_eq_ok.mp hb
  exact h

theorem Stops.throw (h : E e) : Stops E (throw e : RunM α) Q := by
  intro m
  refine ⟨fun b m' hb => absurd hb error_ne_ok, fun e' m' he => ?_⟩
  obtain ⟨rfl, -⟩ := error_eq_error.mp he
  exact h

theorem Stops.lift (hx : Yields E x Q) : Stops E (liftM x : RunM α) Q := by
  intro m
  rw [lift_apply]
  cases x with
  | ok a => exact Stops.pure (hx.1 a rfl) m
  | error e => exact Stops.throw (hx.2 e rfl) m

theorem Stops.bind {x : RunM α} {f : α → RunM β} (hx : Stops E x Q)
    (hf : ∀ a, Q a → Stops E (f a) R) : Stops E (x >>= f) R := by
  intro m
  refine ⟨fun b m' h => ?_, fun e m' h => ?_⟩
  · obtain ⟨a, m₁, h₁, h₂⟩ := bind_ok.mp h
    exact (hf a ((hx m).1 a m₁ h₁) m₁).1 b m' h₂
  · rcases bind_error.mp h with h₁ | ⟨a, m₁, h₁, h₂⟩
    · exact (hx m).2 e m' h₁
    · exact (hf a ((hx m).1 a m₁ h₁) m₁).2 e m' h₂

theorem stops_get : Stops E (get : RunM Machine) fun _ => True :=
  fun _ => ⟨fun _ _ _ => True.intro, fun _ _ he => absurd he ok_ne_error⟩

theorem stops_allocate (v : Value) : Stops E (allocate v) fun _ => True :=
  fun _ => ⟨fun _ _ _ => True.intro, fun _ _ he => absurd he ok_ne_error⟩

end Rules

/-- A variable has an initial value unless its type contains itself. -/
theorem initialValue_error {l : Library} (hl : l.types.Closed) {ty : TypeRef}
    (hty : ty.index < l.types.size) (he : initialValue l ty = .error e) :
    (∃ u, e = .ir (.endless u)) ∧ ∃ u, Relation.TransGen l.types.Holds u u := by
  obtain ⟨i, hi⟩ := Registry.exists_info? hty
  have hvalue : l.types.valueType ty = .ok (i.pointee.getD ty) := by
    rw [Registry.valueType, Registry.info_eq hi]
    rfl
  have hlt : (i.pointee.getD ty).index < l.types.size := by
    cases hpointee : i.pointee with
    | none => exact hty
    | some u => exact hl ty i hi u (by simp [Registry.mentions, hpointee])
  unfold initialValue at he
  rw [hvalue] at he
  simp only [bind, Except.bind] at he
  cases hzero : l.types.zeroValue (i.pointee.getD ty) with
  | ok v =>
    rw [hzero] at he
    cases he
  | error e' =>
    rw [hzero] at he
    cases he
    obtain ⟨⟨u, rfl⟩, hcycle⟩ := hl.zeroValue_error hlt hzero
    exact ⟨⟨u, rfl⟩, hcycle⟩

/-! ### Arithmetic -/

section Arithmetic

variable {E : RunError → Prop} (hE : ∀ e : RunError, e.OfValues → E e)
include hE

section

variable (opcode : Opcode)
include opcode

theorem yields_refuse {α : Type} {Q : α → Prop} (v : Value) :
    Yields E (Value.refuse opcode v : Except RunError α) Q := .error (hE _ True.intro)

theorem yields_unary (v : Value) :
    Yields E (v.unary opcode) fun _ => True := by
  unfold Value.unary
  split
  all_goals first | exact .ok True.intro | exact yields_refuse hE _ _

theorem yields_binary (v w : Value) :
    Yields E (v.binary opcode w) fun _ => True := by
  unfold Value.binary
  split
  · unfold Value.realBinary
    split
    all_goals first | exact .ok True.intro | exact yields_refuse hE _ _
  · unfold Value.intBinary
    split
    · exact .ok True.intro
    · split
      · exact .error (hE _ True.intro)
      · exact .ok True.intro
    · exact .ok True.intro
    · exact yields_refuse hE _ _
  · unfold Value.boolBinary
    split
    · exact .ok True.intro
    · exact yields_refuse hE _ _
  · exact yields_refuse hE _ _

theorem yields_liftUnary (v : Value) :
    Yields E (v.liftUnary opcode) fun _ => True := by
  refine Value.liftUnary.induct (fun v => Yields E (v.liftUnary opcode) fun _ => True)
    (fun vs => Yields E (Value.liftUnaryAll opcode vs) fun _ => True) ?_ ?_ ?_ ?_ v
  · intro vs ih
    rw [Value.liftUnary]
    exact ih.bind fun _ _ => .ok True.intro
  · intro v hne
    rw [Value.liftUnary]
    · exact yields_unary hE opcode v
    · exact hne
  · rw [Value.liftUnaryAll]
    exact .ok True.intro
  · intro v vs ih ih'
    rw [Value.liftUnaryAll]
    exact ih.bind fun _ _ => ih'.bind fun _ _ => .ok True.intro

theorem yields_liftBinary (v w : Value) :
    Yields E (v.liftBinary opcode w) fun _ => True := by
  refine Value.liftBinary.induct (fun v w => Yields E (v.liftBinary opcode w) fun _ => True)
    (fun vs ws => Yields E (Value.liftBinaryAll opcode vs ws) fun _ => True) ?_ ?_ ?_ ?_ ?_ v w
  · intro vs ws hlength ih
    rw [Value.liftBinary, if_pos hlength]
    exact ih.bind fun _ _ => .ok True.intro
  · intro vs ws hlength
    rw [Value.liftBinary, if_neg hlength]
    exact yields_binary hE opcode _ _
  · intro v w hne
    rw [Value.liftBinary]
    · exact yields_binary hE opcode v w
    · exact hne
  · intro v vs w ws ih ih'
    rw [Value.liftBinaryAll]
    exact ih.bind fun _ _ => ih'.bind fun _ _ => .ok True.intro
  · intro vs ws hne
    rw [Value.liftBinaryAll]
    · exact .ok True.intro
    · exact hne

end

theorem yields_select (c v w : Value) : Yields E (c.select v w) fun _ => True := by
  refine Value.select.induct (fun c v w => Yields E (c.select v w) fun _ => True)
    (fun cs vs ws => Yields E (Value.selectAll cs vs ws) fun _ => True) ?_ ?_ ?_ ?_ ?_ ?_ c v w
  · intro c v w
    rw [Value.select]
    exact .ok True.intro
  · intro cs vs ws hlength ih
    rw [Value.select, if_pos hlength]
    exact ih.bind fun _ _ => .ok True.intro
  · intro cs vs ws hlength
    rw [Value.select, if_neg hlength]
    exact yields_refuse hE _ _
  · intro c v w hbool hcomposite
    rw [Value.select]
    · exact yields_refuse hE _ _
    · exact hbool
    · exact hcomposite
  · intro c cs v vs w ws ih ih'
    rw [Value.selectAll]
    exact ih.bind fun _ _ => ih'.bind fun _ _ => .ok True.intro
  · intro cs vs ws hne
    rw [Value.selectAll]
    · exact .ok True.intro
    · exact hne

theorem yields_timesScalar (v w : Value) : Yields E (v.timesScalar w) fun _ => True := by
  unfold Value.timesScalar
  split
  · exact (Yields.mapM fun lane _ => yields_binary hE _ lane w).bind fun _ _ => .ok True.intro
  · exact yields_refuse hE _ _

theorem yields_dotFrom (sum : Real32) (vs ws : List Value) :
    Yields E (Value.dotFrom sum vs ws) fun _ => True := by
  induction sum, vs, ws using Value.dotFrom.induct with
  | case1 sum x vs y ws ih => rw [Value.dotFrom]; exact ih
  | case2 sum v vs w ws hne =>
    rw [Value.dotFrom]
    · exact yields_refuse hE _ _
    · exact hne
  | case3 sum vs ws h h' =>
    rw [Value.dotFrom]
    · exact .ok True.intro
    all_goals assumption

theorem yields_dot (v w : Value) : Yields E (v.dot w) fun _ => True := by
  unfold Value.dot
  split
  · split
    · exact (yields_dotFrom hE _ _ _).bind fun _ _ => .ok True.intro
    · exact yields_refuse hE _ _
  · exact yields_refuse hE _ _

theorem yields_truths (opcode : Opcode) (v : Value) :
    Yields E (v.truths opcode) fun _ => True := by
  unfold Value.truths
  split
  · refine (Yields.mapM fun lane _ => ?_).mono fun _ _ => True.intro
    split
    · exact .ok True.intro
    · exact yields_refuse hE _ _
  · exact yields_refuse hE _ _

end Arithmetic

/-! ### Operations -/

section Operations

variable {E : RunError → Prop} (hE : ∀ e : RunError, e.OfValues → E e) {l : Library}
  {frame : Frame} {op : Op}
include hE

/-- An operation that computes a value from operands that it gets. -/
theorem yields_compute (harg : ∀ i, Yields E (operand l frame op i) fun _ => True) :
    Yields E (compute l frame op) fun _ => True := by
  have hlift : ∀ opcode, Yields E (do (← operand l frame op 0).liftUnary opcode) fun _ => True :=
    fun opcode => (harg 0).bind fun v _ => yields_liftUnary hE opcode v
  unfold compute
  dsimp only
  split
  · exact .ok True.intro
  · refine (harg 0).bind fun v _ => ?_
    split
    · refine Yields.bind (.mapM fun i _ => ?_) fun _ _ => .ok True.intro
      refine (harg i).bind fun v _ => ?_
      split
      · exact .ok True.intro
      · exact yields_refuse hE _ _
    · exact yields_refuse hE _ _
  · exact (Yields.mapM fun i _ => harg i).bind fun _ _ => .ok True.intro
  · exact (harg 0).bind fun c _ => (harg 1).bind fun v _ => (harg 2).bind fun w _ =>
      yields_select hE c v w
  · exact (harg 0).bind fun v _ => (harg 1).bind fun w _ => yields_timesScalar hE v w
  · exact (harg 0).bind fun v _ => (harg 1).bind fun w _ => yields_dot hE v w
  · exact (harg 0).bind fun v _ => (yields_truths hE _ v).bind fun _ _ => .ok True.intro
  · exact (harg 0).bind fun v _ => (yields_truths hE _ v).bind fun _ _ => .ok True.intro
  · exact hlift _
  · exact hlift _
  · exact hlift _
  · exact hlift _
  · exact hlift _
  · exact hlift _
  · exact (harg 0).bind fun v _ => (harg 1).bind fun w _ => yields_liftBinary hE _ v w

theorem stops_read (v : Value) :
    Stops E (do (← get).read v : RunM Value) fun _ => True := by
  refine stops_get.bind fun m _ => .lift ?_
  unfold read
  split
  · split
    · exact .ok True.intro
    · exact .error (hE _ True.intro)
  · exact .error (hE _ True.intro)

theorem stops_write (target new : Value) : Stops E (write target new) fun _ => True := by
  unfold write
  split
  · intro m
    dsimp only
    split
    · exact ⟨fun _ _ _ => True.intro, fun _ _ he => absurd he ok_ne_error⟩
    · refine ⟨fun _ _ _ => True.intro, fun e m' he => ?_⟩
      obtain ⟨rfl, -⟩ := error_eq_error.mp he
      exact hE _ True.intro
  · exact .throw (hE _ True.intro)

/-- An operation that gets its operands. A function is called with as many values as there are
operands behind it. -/
theorem stops_perform {call : FunctionRef → List Value → RunM (Option Value)}
    (harg : ∀ i, Yields E (operand l frame op i) fun _ => True)
    (hinitial : ∀ ty, op.resultType = some ty → Yields E (initialValue l ty) fun _ => True)
    (hcall : ∀ f os, op.opcode = .functionCall → op.operands = .function f :: os →
      ∀ vs : List Value, vs.length = os.length → Stops E (call f vs) fun _ => True) :
    Stops E (perform call l frame op) fun _ => True := by
  unfold perform
  split
  · split
    · next ty hty => exact (Stops.lift (hinitial ty hty)).bind fun v _ => stops_allocate v
    · exact stops_allocate _
  · exact (Stops.lift (harg 0)).bind fun p _ => stops_read hE p
  · refine (Stops.lift (harg 0)).bind fun p _ => (Stops.lift (harg 1)).bind fun v _ => ?_
    exact (stops_write hE p v).bind fun _ _ => .pure True.intro
  · next hopcode =>
    split
    · next f os hoperands =>
      refine (Stops.lift (.mapM fun i _ => harg i)).bind fun vs hvs => ?_
      refine (hcall f os hopcode hoperands vs ?_).bind fun _ _ => .pure True.intro
      rw [hvs, List.length_range', hoperands, List.length_cons, Nat.add_sub_cancel]
    · exact .throw (hE _ True.intro)
  · exact .lift (yields_compute hE harg)

end Operations

section Code

variable {E : RunError → Prop} (hE : ∀ e : RunError, e.OfValues → E e) {g : Ground}
  {S : Set ValueId} {l : Library} {frame : Frame} {op : Op}
include hE

/-- The operands of allowed code are at hand. -/
theorem yields_operand (hconstants : g.constants ≤ l.constants.length) (hop : op.Legal g S)
    (hframe : frame.Has (S ∪ g.fixed)) (index : Nat) :
    Yields E (operand l frame op index) fun _ => True := by
  unfold operand
  split
  · next id hid =>
    obtain ⟨v, hv⟩ := Option.isSome_iff_exists.mp
      (hframe id (hop.operands _ (List.mem_of_getElem? hid)))
    rw [hv]
    exact .ok True.intro
  · next c hc =>
    have hlt : c.index < l.constants.length :=
      Nat.lt_of_lt_of_le (hop.operands _ (List.mem_of_getElem? hc)) hconstants
    rw [Library.constant?, List.getElem?_eq_getElem hlt]
    exact .ok True.intro
  · exact .error (hE _ True.intro)

/-- Where control may go: to a block that is there, with all it needs at hand. -/
def Leads (g : Ground) (S : Set ValueId) : Flow → Prop
  | .jump b => b.index < g.blocks ∧ g.entry b ⊆ S ∪ g.fixed
  | .leave _ => True

theorem yields_blockOperand (hop : op.Legal g S) (index : Nat) :
    Yields E (blockOperand op index) fun b => Leads g S (.jump b) := by
  unfold blockOperand
  split
  · next b hb =>
    obtain ⟨o, ho, hb⟩ := Option.bind_eq_some_iff.mp hb
    cases o with
    | block c =>
      cases hb
      exact .ok (hop.operands _ (List.mem_of_getElem? ho))
    | _ => nomatch hb
  · exact .error (hE _ True.intro)

theorem yields_terminate? {P : Flow → Prop}
    (harg : ∀ index, Yields E (operand l frame op index) fun _ => True)
    (hleave : ∀ result, P (.leave result))
    (hblock : ∀ index, Yields E (blockOperand op index) fun b => P (.jump b))
    {flow : Except RunError Flow} (h : terminate? l frame op = some flow) : Yields E flow P := by
  unfold terminate? at h
  split at h
  · cases h
    exact .ok (hleave _)
  · cases h
    exact (harg 0).bind fun v _ => .ok (hleave _)
  · cases h
    exact (hblock 0).bind fun b hb => .ok hb
  · cases h
    refine (harg 0).bind fun v _ => ?_
    split
    · exact (hblock _).bind fun b hb => .ok hb
    · exact yields_refuse hE _ _
  · nomatch h

/-- **One block.** Allowed code runs up to its terminator, and where it leads to, all that is needed
there has a value. -/
theorem runOps_stops {call : FunctionRef → List Value → RunM (Option Value)} {block : BlockId}
    {ops : List Op} (hconstants : g.constants ≤ l.constants.length)
    (hinitial : ∀ ty : TypeRef, ty.index < g.types → Yields E (initialValue l ty) fun _ => True)
    (hcall : ∀ f vs, g.known f → Stops E (call f vs) fun _ => True) (hops : g.Allows S ops)
    (hend : ops.any Op.isTerminator = true) (hframe : frame.Has (S ∪ g.fixed)) :
    Stops E (runOps call l block frame ops) fun p => ∀ b, p.1 = .jump b →
      b.index < g.blocks ∧ p.2.Has (g.entry b ∪ g.fixed) := by
  induction ops generalizing S frame with
  | nil => cases hend
  | cons op ops ih =>
    have hterminate := terminate?_isSome l frame op
    have harg := yields_operand hE hconstants hops.1 hframe
    unfold runOps
    cases hflow : terminate? l frame op with
    | some flow =>
      refine (Stops.lift (yields_terminate? hE (P := Leads g S) harg (fun _ => True.intro)
        (yields_blockOperand hE hops.1) hflow)).bind fun flow hleads => .pure ?_
      rintro b rfl
      exact ⟨hleads.1, hframe.mono (Set.union_subset hleads.2 Set.subset_union_right)⟩
    | none =>
      rw [hflow] at hterminate
      have hnot : op.isTerminator = false := hterminate.symm
      rw [List.any_cons, hnot, Bool.false_or] at hend
      have hrest := hops.2
      rw [Op.after, if_neg (by rw [hnot]; exact Bool.false_ne_true)] at hrest
      have hperform : Stops E (perform call l frame op) fun _ => True := by
        refine stops_perform hE harg (fun ty hty => hinitial ty (hops.1.type ty hty))
          fun f os _ hoperands vs _ => ?_
        refine hcall f vs (hops.1.operands (.function f) ?_)
        rw [hoperands]
        exact List.mem_cons_self
      refine hperform.bind fun v _ => ?_
      -- what is at hand grows with the frame, by the result of the operation
      cases hresult : op.result with
      | some id =>
        rw [hresult] at hrest
        refine ih hrest hend ((hframe.set id v).mono ?_)
        rintro x ((hx | hx) | hx)
        · exact .inl (.inl hx)
        · exact .inr (Option.some.inj hx).symm
        · exact .inl (.inr hx)
      | none =>
        rw [hresult] at hrest
        refine ih hrest hend (hframe.mono ?_)
        rintro x ((hx | hx) | hx)
        · exact .inl hx
        · cases hx
        · exact .inr hx

omit hE in
theorem allocateLocals_stops {ops : List Op} {types : Nat}
    (hinitial : ∀ ty : TypeRef, ty.index < types → Yields E (initialValue l ty) fun _ => True)
    (hops : ∀ op ∈ ops, ∃ id ty, op.result = some id ∧ op.resultType = some ty ∧ ty.index < types)
    (hframe : frame.Has S) :
    Stops E (allocateLocals l frame ops) fun frame' =>
      frame'.Has (S ∪ { v | ∃ op ∈ ops, op.result = some v }) := by
  induction ops generalizing frame S with
  | nil => exact .pure (hframe.mono (by rintro v (hv | ⟨op, hop, -⟩); exacts [hv, nomatch hop]))
  | cons op ops ih =>
    obtain ⟨id, ty, hid, hty, hlt⟩ := hops op List.mem_cons_self
    unfold allocateLocals
    rw [hid, hty]
    refine (Stops.lift (hinitial ty hlt)).bind fun v _ => (stops_allocate v).bind fun p _ => ?_
    refine (ih (fun o ho => hops o (List.mem_cons_of_mem op ho)) (hframe.set id p)).mono
      fun frame' h => h.mono ?_
    rintro x (hx | ⟨o, ho, hx⟩)
    · exact .inl (.inl hx)
    · rcases List.mem_cons.mp ho with rfl | ho
      · exact .inl (.inr (Option.some.inj (hid.symm.trans hx)).symm)
      · exact .inr ⟨o, ho, hx⟩

end Code

end Machine

/-! ### Libraries -/

namespace Library

/-- A function that is found in the library or behind it. -/
def Knows (l : Library) (f : FunctionRef) : Prop :=
  ∃ m : Library, m.Within l ∧ m.id = f.library ∧ f.index < m.routines.length

/-- All functions of a library are scoped, on the ground of its own types and constants and of the
functions that it knows. -/
structure Sealed (l : Library) : Prop where
  types : l.types.Closed
  routines : ∀ r ∈ l.routines, ∃ entry, r.Scoped l.Knows l.constants.length l.types.size entry

/-- Libraries behind a library are told apart by their numbers. -/
def Coherent (l : Library) : Prop :=
  ∀ m m' : Library, m.Within l → m'.Within l → m.id = m'.id → m = m'

theorem Within.trans {l m k : Library} (hm : m.Within l) (hk : k.Within m) : k.Within l := by
  induction hm with
  | self => exact hk
  | dependency hd _ ih => exact .dependency hd ih

theorem Coherent.findLibrary? {l m : Library} (h : l.Coherent) (hm : m.Within l) :
    l.findLibrary? m.id = some m := by
  cases hfind : l.findLibrary? m.id with
  | none => exact absurd rfl (hm.id_ne hfind)
  | some k =>
    obtain ⟨k', hk', heq⟩ := exists_within_of_search? _ hfind
    split at heq
    · next hid =>
      cases heq
      rw [h _ _ hk' hm hid]
    · nomatch heq

theorem Coherent.of_within {l m : Library} (h : l.Coherent) (hm : m.Within l) : m.Coherent :=
  fun k k' hk hk' => h k k' (hm.trans hk) (hm.trans hk')

mutual

/-- Where libraries are told apart by their numbers, the library that a reference names is the only
one that could have its function, and nothing is missed by not asking behind it. -/
theorem Coherent.resolveRoutine?_eq {f : FunctionRef} :
    ∀ l : Library, l.Coherent → l.resolveRoutine? f = l.search? (·.routine? f)
  | ⟨_, _, _, _, _, _, dependencies, _, _, _, _⟩, h => by
    rw [Library.resolveRoutine?_eq, search?_eq]
    split
    · next hown =>
      cases hr : routine? _ f with
      | some r => rfl
      | none =>
        refine (Option.eq_none_iff_forall_ne_some.mpr fun r hfound => ?_).symm
        obtain ⟨d, hd, m, hm, hm_routine⟩ := exists_within_of_searchAll? _ hfound
        rw [h m _ (.dependency hd hm) .self ((library_of_routine? hm_routine).symm.trans hown), hr]
          at hm_routine
        nomatch hm_routine
    · next hown =>
      rw [routine?, if_neg hown]
      exact resolveRoutineAll?_eq dependencies fun d hd => h.of_within (.dependency hd .self)

theorem resolveRoutineAll?_eq {f : FunctionRef} :
    ∀ ls : List Library, (∀ l ∈ ls, l.Coherent) →
      resolveRoutineAll? ls f = searchAll? (·.routine? f) ls
  | [], _ => rfl
  | l :: ls, h => by
    obtain ⟨hl, hls⟩ := List.forall_mem_cons.mp h
    rw [resolveRoutineAll?, searchAll?, Coherent.resolveRoutine?_eq l hl, resolveRoutineAll?_eq ls hls]
    cases l.search? (·.routine? f) <;> rfl

end

end Library

namespace Machine

section Library

variable {E : RunError → Prop} {root : Library} {limit : Nat}

theorem stops_tick (hE : E (.stepLimit limit)) (f : FunctionRef) (block : BlockId) :
    Stops E (tick limit f block) fun _ => True := by
  intro m
  rw [tick_apply]
  split
  · exact Stops.throw hE m
  · exact ⟨fun _ _ _ => True.intro, fun _ _ he => absurd he ok_ne_error⟩

/-- A call in progress in a scoped function of a library behind the root. -/
structure Active (root : Library) (a : Activation) (entry : BlockId → Set ValueId) : Prop where
  within : a.library.Within root
  code : a.routine.Scoped a.library.Knows a.library.constants.length a.library.types.size entry

/-- What can be tolerated in all libraries behind the root: the ordinary reasons and the failure of
types to have a zero value. -/
structure Tolerates (E : RunError → Prop) (root : Library) : Prop where
  ordinary : ∀ e : RunError, e.Ordinary → E e
  initial : ∀ m : Library, m.Within root → ∀ ty : TypeRef, ty.index < m.types.size →
    Yields E (initialValue m ty) fun _ => True

variable (hE : Tolerates E root) (hsealed : ∀ m : Library, m.Within root → m.Sealed)
  (hcoherent : root.Coherent)
include hE hsealed hcoherent

/-- **Entering a function** gives a value to its parameters and to its variables. -/
theorem stops_enter {f : FunctionRef} (hf : root.Knows f) (vs : List Value) :
    Stops E (enter root f vs) fun p => ∃ entry, Active root p.1 entry ∧
      p.2.2.index < p.1.routine.blocks.length ∧
      p.2.1.Has (entry p.2.2 ∪ p.1.routine.fixed) := by
  obtain ⟨m, hm, hid, hlt⟩ := hf
  have hlibrary : root.findLibrary? f.library = some m := hid ▸ hcoherent.findLibrary? hm
  obtain ⟨r, hr⟩ : ∃ r, m.routine? f = some r := by
    rw [Library.routine?, if_pos hid.symm]
    exact ⟨_, List.getElem?_eq_getElem hlt⟩
  obtain ⟨entry, hscoped⟩ := (hsealed m hm).routines r (Library.mem_routines_of_routine? hr)
  obtain ⟨c, x, hc, hx, hxid, hentry⟩ := hscoped.first
  have hblock : r.entryBlock? = some x := by
    rw [Routine.entryBlock?, Routine.entry?, hc]
    exact hx
  have hlocals : r.locals = x.locals := by rw [Routine.locals, hblock]; rfl
  intro s
  rw [enter_apply hlibrary hr, hblock]
  split
  · next hlength =>
    dsimp only
    have hallocate := allocateLocals_stops (E := E) (fun ty => hE.initial m hm ty)
      (hlocals ▸ hscoped.locals) (Frame.has_ofArguments hlength)
      { s with calls := s.calls.push f }
    generalize allocateLocals m _ x.locals _ = result at hallocate
    rcases result with ⟨e | frame, s'⟩
    · refine ⟨fun _ _ h => absurd h error_ne_ok, fun e' s'' h => ?_⟩
      obtain ⟨rfl, -⟩ := error_eq_error.mp h
      exact hallocate.2 _ _ rfl
    · refine ⟨fun p s'' h => ?_, fun _ _ h => absurd h ok_ne_error⟩
      obtain ⟨rfl, -⟩ := ok_eq_ok.mp h
      refine ⟨entry, ⟨hm, hscoped⟩, ?_, (hallocate.1 _ _ rfl).mono ?_⟩
      · rw [hxid]
        exact (List.getElem?_eq_some_iff.mp hx).1
      · rw [hxid]
        refine Set.union_subset (hentry.trans ?_) ?_
        all_goals
          rintro v (hv | ⟨op, hop, hv⟩)
          · exact .inl hv
          · exact .inr ⟨op, hlocals ▸ hop, hv⟩
  · refine ⟨fun _ _ h => absurd h error_ne_ok, fun e' s'' h => ?_⟩
    obtain ⟨rfl, -⟩ := error_eq_error.mp h
    exact hE.ordinary _ True.intro

/-- A whole run, by induction on the number of blocks that it may still enter. -/
theorem stops_runFrom (n : Nat) {a : Activation} {entry : BlockId → Set ValueId}
    (ha : Active root a entry) {block : BlockId} (hblock : block.index < a.routine.blocks.length)
    (hframe : frame.Has (entry block ∪ a.routine.fixed)) :
    Stops E (runFrom root limit n a frame block) fun _ => True := by
  induction n generalizing a entry frame block with
  | zero => exact .throw (hE.ordinary _ True.intro)
  | succ n ih =>
    rw [runFrom_succ]
    refine (stops_tick (hE.ordinary _ True.intro) a.function block).bind fun _ _ => ?_
    obtain ⟨b, hb⟩ : ∃ b, a.routine.block? block = some b := ⟨_, List.getElem?_eq_getElem hblock⟩
    rw [hb]
    dsimp only
    obtain ⟨hallows, hend⟩ := ha.code.code block b hb
    have hcall : ∀ f vs, a.library.Knows f →
        Stops E (callWithin root limit n f vs) fun _ => True := by
      rintro f vs ⟨m, hm, hf⟩
      refine (stops_enter hE hsealed hcoherent ⟨m, ha.within.trans hm, hf⟩ vs).bind ?_
      rintro p ⟨entry', hactive, hindex, hhas⟩
      exact ih hactive hindex hhas
    rw [← runOps_throughTerminator]
    refine (runOps_stops (fun e he => hE.ordinary e he.ordinary) (Nat.le_refl _)
      (hE.initial _ ha.within) hcall hallows hend hframe).bind fun p hp => ?_
    cases hflow : p.1 with
    | leave result => exact .pure True.intro
    | jump next =>
      obtain ⟨hindex, hhas⟩ := hp next hflow
      exact ih ha hindex hhas

/-- **Calls do not get stuck.** If everything behind the root is sealed, a call of a function that is
there stops for tolerated reasons only. -/
theorem call_stops {f : FunctionRef} (hf : root.Knows f) (vs : List Value) :
    Stops E (call root limit f vs) fun _ => True := by
  refine (stops_enter hE hsealed hcoherent hf vs).bind ?_
  rintro ⟨a, frame, block⟩ ⟨entry, hactive, hindex, hhas⟩
  refine stops_get.bind fun m _ => ?_
  exact stops_runFrom hE hsealed hcoherent _ hactive hindex hhas

end Library

end Machine

end Shader
