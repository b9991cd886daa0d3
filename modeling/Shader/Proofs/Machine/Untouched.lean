import Shader.Proofs.IR.Growth
import Shader.Proofs.Machine.Confined

/-!
# Variables before their first use

A variable has a slot of its own, which holds a zero value when the function is entered. The only
pointer to this slot is in the frame, under the number of the variable. So until an operation names the
variable, nothing writes to it, neither the function itself nor a function that it calls.
-/

namespace Shader

open Outcome

/-- The operation neither uses a result nor computes it. -/
def Op.Avoids (object : ValueId) (op : Op) : Prop :=
  .value object ∉ op.operands ∧ op.result ≠ some object

/-- The function has a variable of this number for a value of the type. -/
def Activation.Declares (a : Activation) (object : ValueId) (ty : TypeRef) : Prop :=
  ∃ before op after, a.routine.locals = before ++ op :: after ∧ op.result = some object ∧
    (∃ pointer, op.resultType = some pointer ∧ a.library.types.valueType pointer = .ok ty) ∧
    ∀ op ∈ after, op.result ≠ some object

namespace Machine

open Memory (Confined confined_self reach reach_mono)

/-- **The points of an activation before a variable is used**: the block, the frame and the operations
that are left there, after operations that all avoid the variable. -/
inductive Avoiding (root : Library) (limit : Nat) (object : ValueId) (a : Activation) (frame₀ : Frame)
    (b₀ : BlockId) (m₀ : Machine) : BlockId → Frame → List Op → Machine → Prop
  | entry {x} (hlimit : m₀.executed.size < limit) (hb : a.routine.block? b₀ = some x) :
    Avoiding root limit object a frame₀ b₀ m₀ b₀ frame₀ x.ops (entering a m₀ b₀)
  | jump {b frame op ops m next x} (h : Avoiding root limit object a frame₀ b₀ m₀ b frame (op :: ops) m)
    (hjump : terminate? a.library frame op = some (.ok (.jump next)))
    (hlimit : m.executed.size < limit) (hb : a.routine.block? next = some x) :
    Avoiding root limit object a frame₀ b₀ m₀ next frame x.ops (entering a m next)
  | operation {b frame op ops m v m'}
    (h : Avoiding root limit object a frame₀ b₀ m₀ b frame (op :: ops) m)
    (hgoes : terminate? a.library frame op = none) (hop : op.Avoids object)
    (hrun : perform (call root limit) a.library frame op m = (.ok v, m')) :
    Avoiding root limit object a frame₀ b₀ m₀ b (op.record frame v) ops m'

variable {object id : ValueId} {frame frame' : Frame} {op : Op}

/-- **A variable that is untouched.** Its slot holds what it held, and no other pointer leads there. -/
structure Spared (object : ValueId) (p : Nat) (base : Memory) (frame : Frame) (m : Machine) :
    Prop where
  own : frame.lookup object = some (.pointer ⟨p, []⟩)
  memory : Confined {p}ᶜ base m.memory
  others : ∀ id v, id ≠ object → frame.lookup id = some v →
    v.RefersTo (reach {p}ᶜ base m.memory.size)

variable {p : Nat} {base : Memory} {m m' : Machine} {v : Value}

/-- An operand other than the variable does not lead to its slot. -/
theorem Spared.operand (h : Spared object p base frame m) (l : Library)
    (hop : .value object ∉ op.operands) {ρ : Nat → Nat}
    (hρ : ρ ∈ (confining {p}ᶜ base).moves m.memory.size) (k : Nat) :
    operand l frame op k = (operand l frame op k).map (Value.move ρ) := by
  refine operand_move_of_lookup fun id hid => ?_
  cases hv : frame.lookup id with
  | none => rfl
  | some v =>
    have hne : id ≠ object := by
      rintro rfl
      exact hop (List.mem_of_getElem? hid)
    exact congrArg some (moved_confining.mpr ⟨rfl, h.others id v hne hv⟩ ρ hρ)

/-- A step that does not know of the variable, and the result that it may have. -/
theorem Spared.step (h : Spared object p base frame m) {x : RunM Value}
    (hx : (confining {p}ᶜ base).Steps m.memory.size Value.move x x) (hrun : x m = (.ok v, m')) :
    Spared object p base frame m' ∧
      ∀ id, id ≠ object → Spared object p base (frame.set id v) m' := by
  rcases hx m m ⟨rfl, rfl, h.memory⟩ with ⟨_, _, _, hstop⟩ | ⟨n, hn, ⟨-, rfl, hm'⟩, hresult⟩
  · exact hstop.elim
  rw [hrun] at hn hm' hresult
  have hothers : ∀ id v, id ≠ object → frame.lookup id = some v →
      v.RefersTo (reach {p}ᶜ base m'.memory.size) :=
    fun id v hid hv => (h.others id v hid hv).mono (reach_mono hn)
  refine ⟨⟨h.own, hm', hothers⟩, fun id hid => ⟨?_, hm', fun x w hx hw => ?_⟩⟩
  · rw [Frame.lookup_set, if_neg hid.symm]
    exact h.own
  · rw [Frame.lookup_set] at hw
    split at hw
    · cases hw
      exact (moved_confining.mp fun ρ hρ => Except.ok.inj (hresult ρ hρ)).2
    · exact hothers x w hx hw

/-- **One operation** that avoids the variable, calls included. -/
theorem Spared.perform (h : Spared object p base frame m) (root l : Library) (limit : Nat)
    (hop : op.Avoids object) (hrun : perform (call root limit) l frame op m = (.ok v, m')) :
    Spared object p base (op.record frame v) m' := by
  obtain ⟨hsame, hset⟩ := h.step ((sound_confining limit).perform (calls_confining root limit _)
    fun ρ hρ => h.operand l hop.1 hρ) hrun
  unfold Op.record
  cases hresult : op.result with
  | none => exact hsame
  | some id => exact hset id fun hid => hop.2 (hresult.trans (congrArg some hid))

/-! ### New variables -/

variable {l : Library} {ty : TypeRef} {ops : List Op}

/-- What is allocated for one variable. -/
theorem allocateLocals_cons (hid : op.result = some id) (hty : op.resultType = some ty) :
    allocateLocals l frame (op :: ops) = (do
      let q ← (do allocate (← initialValue l ty) : RunM Value)
      allocateLocals l (frame.set id q) ops) := by
  rw [allocateLocals, hid, hty, bind_assoc]

theorem allocateLocals_append (ops ops' : List Op) :
    allocateLocals l frame (ops ++ ops') = (do
      let frame' ← allocateLocals l frame ops
      allocateLocals l frame' ops') := by
  induction ops generalizing frame with
  | nil => rfl
  | cons op ops ih =>
    simp only [List.cons_append, allocateLocals]
    split
    · simp only [ih, bind_assoc]
    · exact ih

/-- The variables behind it have slots of their own. -/
theorem Spared.allocateLocals (hops : ∀ op ∈ ops, op.result ≠ some object)
    (h : Spared object p base frame m) (hrun : allocateLocals l frame ops m = (.ok frame', m')) :
    Spared object p base frame' m' := by
  induction ops generalizing frame m with
  | nil =>
    obtain ⟨rfl, rfl⟩ := ok_eq_ok.mp hrun
    exact h
  | cons op ops ih =>
    obtain ⟨hop, hops⟩ := List.forall_mem_cons.mp hops
    cases hid : op.result with
    | none =>
      rw [Machine.allocateLocals, hid] at hrun
      exact ih hops h hrun
    | some id =>
      cases hty : op.resultType with
      | none =>
        rw [Machine.allocateLocals, hid, hty] at hrun
        exact ih hops h hrun
      | some ty =>
        rw [allocateLocals_cons hid hty] at hrun
        obtain ⟨q, m₁, h₁, hrun⟩ := bind_ok.mp hrun
        have hne : id ≠ object := fun heq => hop (hid.trans (congrArg some heq))
        exact ih hops ((h.step ((sound_confining 0).initial l ty) h₁).2 id hne) hrun

/-- No pointer in the memory or in the values leads to a slot that is not there. -/
structure Rooted (m : Machine) (vs : List Value) : Prop where
  memory : ∀ (i : Nat) (v : Value), m.memory[i]? = some v → v.RefersTo (Set.Iio m.memory.size)
  values : ∀ v ∈ vs, v.RefersTo (Set.Iio m.memory.size)

variable {root : Library} {limit : Nat} {a : Activation} {f : FunctionRef} {vs : List Value}
  {b b' : BlockId}

/-- **A new variable is untouched.** Its slot holds a zero value. -/
theorem spared_enter (henter : enter root f vs m = (.ok (a, frame, b), m')) (hm : m.Rooted vs)
    (hdeclares : a.Declares object ty) :
    ∃ p base zero, a.library.types.zeroValue ty = .ok zero ∧ base[p]? = some zero ∧
      Spared object p base frame m' := by
  obtain ⟨before, op, after, hlocals, hid, ⟨pointer, hpointer, hty⟩, hafter⟩ := hdeclares
  obtain ⟨-, -, hrun⟩ := enter_ok henter
  rw [← Routine.locals, hlocals, allocateLocals_append] at hrun
  obtain ⟨frame₁, m₁, h₁, hrun⟩ := bind_ok.mp hrun
  rw [allocateLocals_cons hid hpointer] at hrun
  obtain ⟨q, m₂, h₂, hrun⟩ := bind_ok.mp hrun
  obtain ⟨zero, m₃, hzero, h₂⟩ := bind_ok.mp h₂
  obtain rfl : m₁ = m₃ := congrArg Prod.snd hzero
  replace hzero : initialValue a.library pointer = .ok zero := congrArg Prod.fst hzero
  obtain ⟨rfl, rfl⟩ := ok_eq_ok.mp h₂
  -- nothing that is there before the variable points beyond itself
  have hframe : (confining (Set.Iio m.memory.size) m.memory).Moved m.memory.size Frame.move
      (.ofArguments a.routine.parameters vs) (.ofArguments a.routine.parameters vs) := by
    intro ρ hρ
    rw [← Frame.ofArguments_move]
    refine congrArg _ ((List.map_id vs).symm.trans (List.map_congr_left fun v hv => ?_))
    exact moved_confining.mpr ⟨rfl, (hm.values v hv).mono Set.subset_union_left⟩ ρ hρ
  rcases (sound_confining 0).allocateLocals hframe a.library before { m with calls := m.calls.push f }
    _ ⟨rfl, rfl, confined_self fun i _ => hm.memory i⟩ with
    ⟨_, _, _, hstop⟩ | ⟨n, hn, ⟨-, rfl, hm₁⟩, hframe₁⟩
  · exact hstop.elim
  rw [h₁] at hn hm₁ hframe₁
  have hbelow : reach (Set.Iio m.memory.size) m.memory m₁.memory.size ⊆ {m₁.memory.size}ᶜ := by
    rintro i (hi | hi) rfl
    · exact Nat.lt_irrefl _ (Nat.lt_of_lt_of_le hi hm₁.size)
    · exact Nat.lt_irrefl _ hi.2
  have hvalue : a.library.types.zeroValue ty = .ok zero := by
    unfold initialValue at hzero
    rw [hty] at hzero
    dsimp only [bind, Except.bind] at hzero
    split at hzero
    · next v hv => exact hv.trans (congrArg Except.ok (Except.ok.inj hzero))
    · nomatch hzero
  -- its slot is the next one, so neither memory nor frame can have a pointer to it yet
  refine ⟨m₁.memory.size, m₁.memory.push zero, zero, hvalue, Array.getElem?_push_size, ?_⟩
  refine Spared.allocateLocals hafter ⟨?_, confined_self fun i hi v hv => ?_, fun id v hne hv => ?_⟩ hrun
  · rw [Frame.lookup_set, if_pos rfl]
  · rw [Array.getElem?_push, if_neg (show i ≠ m₁.memory.size from hi)] at hv
    exact (hm₁.closed i v (Nat.lt_or_ge i _) hv).mono hbelow
  · rw [Frame.lookup_set, if_neg hne] at hv
    have hmove := congrArg (List.lookup id) (Except.ok.inj (hframe₁ _ evade_mem_moves))
    rw [Frame.lookup_move, hv] at hmove
    exact (Value.refersTo_iff_move.mpr (Option.some.inj hmove).symm).mono
      (hbelow.trans Set.subset_union_left)

/-! ### The way to the first use -/

variable {M : Machine}

/-- The run goes on from such a point. -/
theorem Avoiding.run_eq (h : Avoiding root limit object a frame b m b' frame' ops M) :
    runBlock root limit a frame b m = rest root limit a b' frame' ops M := by
  have hblock : ∀ {frame c m x}, m.executed.size < limit → a.routine.block? c = some x →
      runBlock root limit a frame c m = rest root limit a c frame x.ops (entering a m c) := by
    intro frame c m x hlimit hc
    rw [runBlock_eq, if_neg (Nat.not_le_of_lt hlimit), hc]
  induction h with
  | entry hlimit hb => exact hblock hlimit hb
  | jump _ hjump hlimit hb ih =>
    rw [ih, rest_terminator hjump]
    exact hblock hlimit hb
  | operation _ hgoes _ hrun ih => rw [ih, rest_operation hgoes hrun]

/-- **The way to a first use** leaves the variable untouched. -/
theorem Avoiding.spared (h : Avoiding root limit object a frame b m b' frame' ops M)
    (hm : Spared object p base frame m) : Spared object p base frame' M := by
  induction h with
  | entry => exact { hm with }
  | jump _ _ _ _ ih => exact { ih with }
  | operation _ _ hop hrun ih => exact ih.perform root a.library limit hop hrun

/-- **A variable holds zero until it is used**, whatever the function has done before, and whatever it
has called. -/
theorem Avoiding.holds_zero (henter : enter root f vs m = (.ok (a, frame, b), m')) (hm : m.Rooted vs)
    (hdeclares : a.Declares object ty)
    (h : Avoiding root limit object a frame b m' b' frame' ops M) :
    ∃ p zero, a.library.types.zeroValue ty = .ok zero ∧
      frame'.lookup object = some (.pointer ⟨p, []⟩) ∧ M.memory[p]? = some zero := by
  obtain ⟨p, base, zero, hzero, hslot, hspared⟩ := spared_enter henter hm hdeclares
  have hspared := h.spared hspared
  have hp : p < base.size := (Array.getElem?_eq_some_iff.mp hslot).1
  exact ⟨p, zero, hzero, hspared.own, (hspared.memory.kept p hp fun hne => hne rfl).trans hslot⟩

end Machine

end Shader
