import Shader.Proofs.Machine.Pairing

/-!
# The course of a run

`Machine.runFrom` counts how many blocks it may still enter, besides the limit that the blocks
entered so far are compared with. The count never runs out before the limit is reached, so it can be
left out:

* `runBlock` runs a call from a block on and `rest` from within a block on; `runBlock_eq`,
  `rest_terminator` and `rest_operation` say what they do, step by step, with the calls in between
  made by `call` itself.

The reason is that the list of entered blocks only grows, and never beyond the limit (`Grows`), so
that a count that is large enough once stays large enough. For a whole run this comes from setting a
machine beside itself (`alone`).
-/

namespace Shader

/-- The frame after an operation. -/
def Op.record (op : Op) (frame : Frame) (v : Value) : Frame :=
  match op.result with
  | some id => frame.set id v
  | none => frame

namespace Machine

open Outcome

theorem lift_apply {α : Type} (x : Except RunError α) (m : Machine) :
    (liftM x : RunM α) m = (x, m) := rfl

/-- A call that can be prepared: there is a function with a body for this number of arguments. -/
theorem enter_apply {root l : Library} {f : FunctionRef} {routine : Routine}
    (hl : root.findLibrary? f.library = some l) (hr : l.routine? f = some routine)
    (vs : List Value) (m : Machine) :
    enter root f vs m =
      if routine.parameters.length = vs.length then
        match routine.entryBlock? with
        | none => (.error (.noBody routine.name), { m with calls := m.calls.push f })
        | some entry =>
          match allocateLocals l (.ofArguments routine.parameters vs) entry.locals
            { m with calls := m.calls.push f } with
          | (.ok frame, m') => (.ok (⟨l, f, routine⟩, frame, entry.id), m')
          | (.error e, m') => (.error e, m')
      else (.error (.argumentCount routine.parameters.length vs.length),
        { m with calls := m.calls.push f }) := by
  unfold enter
  rw [hl]
  dsimp only
  rw [hr]
  dsimp only
  rw [bind_apply]
  dsimp only [modify_apply]
  by_cases hlength : routine.parameters.length = vs.length
  · rw [if_pos hlength, if_pos hlength]
    cases routine.entryBlock? with
    | none => rfl
    | some entry =>
      dsimp only
      rw [bind_apply]
      unfold Frame.ofArguments
      generalize allocateLocals l _ entry.locals _ = r
      rcases r with ⟨e | frame, m'⟩
      · rfl
      · rfl
  · rw [if_neg hlength, if_neg hlength]
    rfl

/-- A call that has been prepared runs the function that is found, with its variables allocated. -/
theorem enter_ok {root : Library} {f : FunctionRef} {vs : List Value} {m m' : Machine}
    {p : Activation × Frame × BlockId} (h : enter root f vs m = (.ok p, m')) :
    root.findLibrary? f.library = some p.1.library ∧ p.1.library.routine? f = some p.1.routine ∧
      allocateLocals p.1.library (.ofArguments p.1.routine.parameters vs)
        (p.1.routine.entryBlock?.elim [] Block.locals) { m with calls := m.calls.push f } =
        (.ok p.2.1, m') := by
  cases hl : root.findLibrary? f.library with
  | none =>
    unfold enter at h
    rw [hl] at h
    exact absurd h error_ne_ok
  | some l =>
    cases hr : l.routine? f with
    | none =>
      unfold enter at h
      rw [hl] at h
      dsimp only at h
      rw [hr] at h
      exact absurd h error_ne_ok
    | some routine =>
      rw [enter_apply hl hr] at h
      split at h
      · split at h
        · exact absurd h error_ne_ok
        · next hentry =>
          split at h
          · next hlocals =>
            obtain ⟨rfl, rfl⟩ := ok_eq_ok.mp h
            rw [hentry]
            exact ⟨rfl, hr, hlocals⟩
          · exact absurd h error_ne_ok
      · exact absurd h error_ne_ok

theorem tick_apply (limit : Nat) (f : FunctionRef) (block : BlockId) (m : Machine) :
    tick limit f block m =
      if limit ≤ m.executed.size then (.error (.stepLimit limit), m)
      else (.ok (), { m with executed := m.executed.push (f, block) }) := by
  unfold tick
  by_cases h : limit ≤ m.executed.size
  · rw [if_pos h, bind_apply]
    dsimp only [get_apply]
    rw [if_pos h]
    rfl
  · rw [if_neg h, bind_apply]
    dsimp only [get_apply]
    rw [if_neg h]
    rfl

/-! ### A machine beside itself -/

variable {m m' : Machine}

section Alone

/-- What a run makes of the records of a machine: they go on, and blocks are entered only below the
limit. -/
structure Grows (limit : Nat) (m m' : Machine) : Prop where
  executed : m.executed.toList <+: m'.executed.toList
  calls : m.calls.toList <+: m'.calls.toList
  limited : m'.executed.size ≤ max limit m.executed.size

variable {limit : Nat}

theorem Grows.of_eq (hexecuted : m'.executed = m.executed) (hcalls : m'.calls = m.calls) :
    Grows limit m m' where
  executed := hexecuted ▸ List.prefix_rfl
  calls := hcalls ▸ List.prefix_rfl
  limited := hexecuted ▸ Nat.le_max_right _ _

theorem Grows.size (h : Grows limit m m') :
    m.executed.size ≤ m'.executed.size := h.executed.length_le

theorem Grows.trans {m m' m'' : Machine} (h : Grows limit m m') (h' : Grows limit m' m'') :
    Grows limit m m'' where
  executed := h.executed.trans h'.executed
  calls := h.calls.trans h'.calls
  limited := by
    have := h.limited
    have := h'.limited
    omega

theorem Grows.entering (h : m.executed.size < limit) (entered : FunctionRef × BlockId) :
    Grows limit m { m with executed := m.executed.push entered } where
  executed := by
    rw [Array.toList_push]
    exact List.prefix_append _ _
  calls := List.prefix_rfl
  limited := by
    rw [Array.size_push]
    omega

variable (limit) in
/-- A machine beside itself. The counts may differ if both cover what the limit still allows. -/
def alone : Pairing Machine where
  le := Grows limit
  pair w m M := m = w ∧ M = w
  moves _ := {id}
  counts w n n' := n' ≤ n ∧ (n' = n ∨ limit - w.executed.size ≤ n')
  stops _ := False

variable {α : Type} {w : Machine} {g : (Nat → Nat) → α → α} {x y : RunM α}

theorem grows_of_steps (h : (alone limit).Steps w g x y) : Grows limit w (x w).2 := by
  rcases h w w ⟨rfl, rfl⟩ with ⟨_, _, _, hstop⟩ | ⟨w', hw, ⟨hx, -⟩, -⟩
  · exact hstop.elim
  · exact hx ▸ hw

theorem steps_alone (hg : ∀ a, g id a = a) :
    (alone limit).Steps w g x y ↔ y w = x w ∧ Grows limit w (x w).2 := by
  have hmap : ∀ r : Except RunError α, r.map (g id) = r := fun r => by
    cases r with
    | error e => rfl
    | ok a => exact congrArg Except.ok (hg a)
  constructor
  · intro h
    refine ⟨?_, grows_of_steps h⟩
    rcases h w w ⟨rfl, rfl⟩ with ⟨_, _, _, hstop⟩ | ⟨w', -, ⟨hx, hy⟩, hresult⟩
    · exact hstop.elim
    · exact Prod.ext ((hresult id rfl).trans (hmap _)) (hy.trans hx.symm)
  · rintro ⟨heq, hgrows⟩ m M ⟨hm, hM⟩
    rw [hm, hM, heq]
    refine .inr ⟨(x w).2, hgrows, ⟨rfl, rfl⟩, ?_⟩
    rintro ρ rfl
    exact (hmap _).symm

theorem moved_alone (hg : ∀ a, g id a = a) {a b : α} : (alone limit).Moved w g a b ↔ b = a := by
  constructor
  · exact fun h => (h id rfl).trans (hg a)
  · rintro rfl ρ rfl
    exact (hg _).symm

theorem map_move_id (vs : List Value) : vs.map (Value.move id) = vs :=
  (List.map_congr_left fun v _ => v.move_id).trans (List.map_id vs)

theorem optionMap_move_id (r : Option Value) : r.map (Value.move id) = r := by
  cases r with
  | none => rfl
  | some v => exact congrArg some v.move_id

theorem flow_move_id (p : Flow × Frame) : Prod.map (Flow.move id) (Frame.move id) p = p := by
  obtain ⟨flow, frame⟩ := p
  refine Prod.ext ?_ frame.move_id
  cases flow with
  | jump b => rfl
  | leave r => exact congrArg Flow.leave (optionMap_move_id r)

theorem write_records (p v : Value) (m : Machine) : Grows limit m (write p v m).2 := by
  unfold write
  split
  · split
    · exact .of_eq rfl rfl
    · exact .of_eq rfl rfl
  · exact .of_eq rfl rfl

variable (limit) in
/-- Runs only add to what is recorded, and another count makes no difference as long as it covers what
the limit still allows. -/
theorem sound_alone : (alone limit).Sound limit limit where
  refl w := .of_eq rfl rfl
  trans := .trans
  anti _ := fun _ hρ => hρ
  nonempty _ := ⟨id, rfl⟩
  allocate hv := by
    obtain rfl := (moved_alone Value.move_id).mp hv
    exact (steps_alone Value.move_id).mpr ⟨rfl, .of_eq rfl rfl⟩
  read hp := by
    obtain rfl := (moved_alone Value.move_id).mp hp
    exact (steps_alone Value.move_id).mpr ⟨rfl, .of_eq rfl rfl⟩
  write hp hv := by
    obtain rfl := (moved_alone Value.move_id).mp hp
    obtain rfl := (moved_alone Value.move_id).mp hv
    exact (steps_alone fun _ => rfl).mpr ⟨rfl, write_records _ _ _⟩
  record w f := (steps_alone fun _ => rfl).mpr ⟨rfl, List.prefix_rfl,
    by rw [modify_apply, Array.toList_push]; exact List.prefix_append _ _, Nat.le_max_right _ _⟩
  tick {w x y} f b h := by
    rw [steps_alone optionMap_move_id, bind_apply, bind_apply, tick_apply]
    by_cases hlimit : limit ≤ w.executed.size
    · rw [if_pos hlimit]
      exact ⟨rfl, .of_eq rfl rfl⟩
    · rw [if_neg hlimit]
      have hgrows := Grows.entering (Nat.lt_of_not_le hlimit) (f, b)
      obtain ⟨heq, hrest⟩ := (steps_alone optionMap_move_id).mp (h _ hgrows fun n n' hn => by
        have hsize : (w.executed.push (f, b)).size = w.executed.size + 1 := Array.size_push _
        refine ⟨Nat.le_of_succ_le_succ hn.1, ?_⟩
        dsimp only
        have := hn.2
        omega)
      exact ⟨heq, hgrows.trans hrest⟩
  counts hn := hn.1
  later hw hn := ⟨hn.1, by
    have := hw.size
    have := hn.2
    omega⟩
  spent {w n} hn root a frame b := by
    rw [steps_alone optionMap_move_id]
    cases n with
    | zero => exact ⟨rfl, .of_eq rfl rfl⟩
    | succ n =>
      have hlimit : limit ≤ w.executed.size := by
        have := hn.2
        omega
      rw [runFrom_succ, bind_apply, tick_apply, if_pos hlimit]
      exact ⟨rfl, .of_eq rfl rfl⟩

end Alone

/-! ### The count of blocks can be left out -/

section Count

variable (root : Library) (limit : Nat)

/-- **The count is enough.** A run does not depend on its count of blocks, once the count covers
what the limit still allows. -/
theorem runFrom_congr {n n' : Nat} (a : Activation) (frame : Frame) (block : BlockId)
    (hn : limit - m.executed.size ≤ n) (hn' : limit - m.executed.size ≤ n') :
    runFrom root limit n a frame block m = runFrom root limit n' a frame block m := by
  have hframe : (alone limit).Moved m Frame.move frame frame := (moved_alone Frame.move_id).mpr rfl
  rcases Nat.le_total n n' with hle | hle
  · exact ((steps_alone optionMap_move_id).mp
      ((sound_alone limit).runFrom ⟨hle, .inr hn⟩ hframe root a block)).1
  · exact ((steps_alone optionMap_move_id).mp
      ((sound_alone limit).runFrom ⟨hle, .inr hn'⟩ hframe root a block)).1.symm

variable (f : FunctionRef) (vs : List Value)

theorem grows_enter (m : Machine) : Grows limit m (enter root f vs m).2 :=
  grows_of_steps ((sound_alone limit).enter ((moved_alone map_move_id).mpr rfl) root f)

/-- A call may as well count the blocks that it can still enter. -/
theorem call_eq_callWithin {n : Nat} (hn : limit - m.executed.size ≤ n) :
    call root limit f vs m = callWithin root limit n f vs m := by
  have hgrows := (grows_enter root limit f vs m).size
  unfold call callWithin
  rw [bind_apply, bind_apply]
  generalize enter root f vs m = r at hgrows ⊢
  rcases r with ⟨e | p, m'⟩
  · rfl
  · exact runFrom_congr root limit _ _ _ (Nat.le_refl _) (by dsimp only at hgrows; omega)

theorem grows_call (m : Machine) : Grows limit m (call root limit f vs m).2 := by
  rw [call_eq_callWithin root limit f vs (Nat.le_refl _)]
  exact grows_of_steps ((sound_alone limit).callWithin ⟨Nat.le_refl _, .inl rfl⟩
    ((moved_alone map_move_id).mpr rfl) root f)

variable {limit} in
/-- Ways of making calls that do the same from a machine on. -/
theorem calls_alone {call call' : FunctionRef → List Value → RunM (Option Value)}
    (h : ∀ f vs m', Grows limit m m' →
      call' f vs m' = call f vs m' ∧ Grows limit m' (call f vs m').2) :
    (alone limit).Calls m call call' := by
  intro m' hm' f vs vs' hvs
  obtain rfl := (moved_alone map_move_id).mp hvs
  exact (steps_alone optionMap_move_id).mpr (h f _ m' hm')

variable {limit} in
theorem runOps_alone {call call' : FunctionRef → List Value → RunM (Option Value)}
    (h : (alone limit).Calls m call call') (l : Library) (block : BlockId) (frame : Frame)
    (ops : List Op) :
    runOps call' l block frame ops m = runOps call l block frame ops m ∧
      Grows limit m (runOps call l block frame ops m).2 :=
  (steps_alone flow_move_id).mp ((sound_alone limit).runOps h
    ((moved_alone Frame.move_id).mpr (Eq.refl frame)) l block ops)

theorem grows_runOps (l : Library) (block : BlockId) (frame : Frame) (ops : List Op) (m : Machine) :
    Grows limit m (runOps (call root limit) l block frame ops m).2 :=
  (runOps_alone (calls_alone fun f vs m' _ => ⟨rfl, grows_call root limit f vs m'⟩)
    l block frame ops).2

end Count

/-! ### Runs, step by step -/

section Steps

variable (root : Library) (limit : Nat) (a : Activation)

/-- Runs a call from a block on. -/
def runBlock (frame : Frame) (block : BlockId) : RunM (Option Value) := fun m =>
  runFrom root limit (limit - m.executed.size) a frame block m

/-- Goes where a block leads. -/
def follow (p : Flow × Frame) : RunM (Option Value) :=
  match p.1 with
  | .leave result => return result
  | .jump next => runBlock root limit a p.2 next

/-- Runs a call from within a block on. -/
def rest (block : BlockId) (frame : Frame) (ops : List Op) : RunM (Option Value) := do
  follow root limit a (← runOps (call root limit) a.library block frame ops)

/-- The machine after entering a block. -/
def entering (m : Machine) (block : BlockId) : Machine :=
  { m with executed := m.executed.push (a.function, block) }

theorem runBlock_eq (frame : Frame) (block : BlockId) (m : Machine) :
    runBlock root limit a frame block m =
      if limit ≤ m.executed.size then (.error (.stepLimit limit), m)
      else match a.routine.block? block with
        | none => (.error (.unknownBlock block), entering a m block)
        | some b => rest root limit a block frame b.ops (entering a m block) := by
  by_cases hlimit : limit ≤ m.executed.size
  · rw [if_pos hlimit, runBlock, Nat.sub_eq_zero_of_le hlimit]
    rfl
  · rw [if_neg hlimit, runBlock]
    obtain ⟨n, hn⟩ : ∃ n, limit - m.executed.size = n + 1 := ⟨limit - m.executed.size - 1, by omega⟩
    rw [hn, runFrom_succ, bind_apply, tick_apply, if_neg hlimit]
    dsimp only
    cases a.routine.block? block with
    | none => rfl
    | some b =>
      -- once the block is entered, the smaller count is enough
      have hsize : (entering a m block).executed.size = m.executed.size + 1 := Array.size_push _
      have hcalls : (alone limit).Calls (entering a m block) (callWithin root limit n)
          (call root limit) := calls_alone fun f vs m' hm' => by
        have hm' := hm'.size
        have heq := call_eq_callWithin root limit f vs (m := m') (n := n) (by omega)
        exact ⟨heq, heq ▸ grows_call root limit f vs m'⟩
      obtain ⟨hops, hgrows⟩ := runOps_alone hcalls a.library block frame b.ops
      have hm' := hgrows.size
      dsimp only
      rw [rest, bind_apply, bind_apply, hops]
      unfold entering at hsize hm' ⊢
      generalize runOps (callWithin root limit n) a.library block frame b.ops _ = r at hm' ⊢
      rcases r with ⟨e | p, m'⟩
      · rfl
      · dsimp only [follow] at hsize hm' ⊢
        cases p.1 with
        | leave result => rfl
        | jump next => exact runFrom_congr root limit _ _ _ (by omega) (Nat.le_refl _)

theorem call_eq (f : FunctionRef) (vs : List Value) :
    call root limit f vs = (do
      let p ← enter root f vs
      runBlock root limit p.1 p.2.1 p.2.2) := rfl

variable {root limit a}

variable {frame : Frame} {block : BlockId} {op : Op}

theorem rest_terminator {flow : Flow} (h : terminate? a.library frame op = some (.ok flow))
    (ops : List Op) (m : Machine) :
    rest root limit a block frame (op :: ops) m = follow root limit a (flow, frame) m := by
  rw [rest, runOps, h]
  rfl

theorem rest_terminator_error {e : RunError} (h : terminate? a.library frame op = some (.error e))
    (ops : List Op) (m : Machine) :
    rest root limit a block frame (op :: ops) m = (.error e, m) := by
  rw [rest, runOps, h]
  rfl

theorem rest_operation {v : Value} (h : terminate? a.library frame op = none)
    (hp : perform (call root limit) a.library frame op m = (.ok v, m')) (ops : List Op) :
    rest root limit a block frame (op :: ops) m =
      rest root limit a block (op.record frame v) ops m' := by
  rw [rest, rest, runOps, h]
  dsimp only
  rw [bind_apply, bind_apply, bind_apply, hp]
  dsimp only
  unfold Op.record
  cases op.result with
  | some id => rfl
  | none => rfl

theorem rest_operation_error {e : RunError} (h : terminate? a.library frame op = none)
    (hp : perform (call root limit) a.library frame op m = (.error e, m')) (ops : List Op) :
    rest root limit a block frame (op :: ops) m = (.error e, m') := by
  rw [rest, runOps, h]
  dsimp only
  rw [bind_apply, bind_apply, hp]

end Steps

end Machine

end Shader
