import Shader.Proofs.Machine.Move
import Shader.Proofs.Types.Closed

/-!
# Runs side by side

Two machines run the same code, on values that differ only in where their pointers go. No operation
but those on memory looks at a pointer (`Machine.compute_move`), so whatever the machines have in
common lasts for a whole run, if it does when a slot is made, read or written, when a call is
recorded and when a block is entered.

* `Pairing.Sound.runOps` is the step lemma, `Pairing.Sound.runFrom` the run lemma and
  `Pairing.Sound.callWithin` what they say of calls.
-/

namespace Shader

open Outcome

/-- The frame in which the parameters stand for the arguments. -/
def Frame.ofArguments (ps : List Parameter) (vs : List Value) : Frame :=
  (ps.zip vs).foldl (fun frame p => frame.set p.1.id p.2) []

theorem Frame.ofArguments_move (ρ : Nat → Nat) (ps : List Parameter) (vs : List Value) :
    ofArguments ps (vs.map (Value.move ρ)) = (ofArguments ps vs).move ρ := by
  have hfold : ∀ (qs : List (Parameter × Value)) (frame : Frame),
      (qs.map (Prod.map id (Value.move ρ))).foldl (fun frame p => frame.set p.1.id p.2)
        (frame.move ρ) =
      (qs.foldl (fun frame p => frame.set p.1.id p.2) frame).move ρ := by
    intro qs
    induction qs with
    | nil => exact fun _ => rfl
    | cons q qs ih =>
      intro frame
      rw [List.map_cons, List.foldl_cons, List.foldl_cons, ← ih, ← Frame.set_move]
      rfl
  unfold ofArguments
  rw [List.zip_map_right]
  exact hfold _ []

namespace Machine

/-! ### Zero values hold no pointers -/

theorem move_zeroWithin {ρ : Nat → Nat} (r : Registry) (depth : Nat) (ty : TypeRef) :
    (r.zeroWithin depth ty).map (Value.move ρ) = r.zeroWithin depth ty := by
  induction depth generalizing ty with
  | zero => rfl
  | succ depth ih =>
    cases hi : r.info? ty with
    | none =>
      rw [Registry.zeroWithin, Registry.info, hi]
      rfl
    | some i =>
      by_cases hrepeats : i.kind = .vector ∨ i.kind = .matrix ∨ i.kind = .array
      · rw [Registry.zeroWithin_repeats hi depth hrepeats]
        cases i.component with
        | none => rfl
        | some c =>
          have hc := ih c
          dsimp only [Option.elim]
          cases h : r.zeroWithin depth c with
          | error e => rfl
          | ok v =>
            rw [h] at hc
            have hv : v.move ρ = v := Except.ok.inj hc
            simp [Except.map, hv]
      by_cases hstruct : i.kind = .struct
      · rw [Registry.zeroWithin_struct hi depth hstruct]
        have hparts := (Value.mapM_map_move (fun t => (ih t).symm) i.parts).symm
        cases h : i.parts.mapM (r.zeroWithin depth) with
        | error e => rfl
        | ok vs =>
          rw [h] at hparts
          have hvs : vs.map (Value.move ρ) = vs := Except.ok.inj hparts
          simp [Except.map, hvs]
      · rw [Registry.zeroWithin_flat hi depth hrepeats hstruct]
        cases i.kind <;> rfl

theorem move_initialValue {ρ : Nat → Nat} (l : Library) (ty : TypeRef) :
    (initialValue l ty).map (Value.move ρ) = initialValue l ty := by
  have hzero : ∀ t, (l.types.zeroValue t).map (Value.move ρ) = l.types.zeroValue t :=
    move_zeroWithin l.types _
  unfold initialValue
  cases l.types.valueType ty with
  | error e => rfl
  | ok t =>
    have ht := hzero t
    simp only [bind, Except.bind]
    cases h : l.types.zeroValue t with
    | error e => rfl
    | ok v =>
      rw [h] at ht
      exact congrArg Except.ok (Except.ok.inj ht)

/-! ### Calls with a count of the blocks that can still be entered -/

/-- Calls a function with a count of the blocks that can still be entered. -/
def callWithin (root : Library) (limit n : Nat) (f : FunctionRef) (vs : List Value) :
    RunM (Option Value) := do
  let p ← enter root f vs
  runFrom root limit n p.1 p.2.1 p.2.2

theorem runFrom_succ (root : Library) (limit n : Nat) (a : Activation) (frame : Frame)
    (block : BlockId) :
    runFrom root limit (n + 1) a frame block = (do
      tick limit a.function block
      match a.routine.block? block with
      | none => throw (.unknownBlock block)
      | some b =>
        let p ← runOps (callWithin root limit n) a.library block frame b.ops
        match p.1 with
        | .leave result => return result
        | .jump next => runFrom root limit n a p.2 next) := rfl

/-! ### Pairings -/

/-- **Machines side by side**, with worlds that say how far their runs have come. -/
structure Pairing (W : Type) where
  /-- How the runs can go on. -/
  le : W → W → Prop
  /-- The machines that belong together. -/
  pair : W → Machine → Machine → Prop
  /-- The moves of slots each of which makes the values of the second run out of those of the
  first. -/
  moves : W → Set (Nat → Nat)
  /-- How many blocks the two may still enter. -/
  counts : W → Nat → Nat → Prop
  /-- The reasons for which the second run may stop on its own. -/
  stops : RunError → Prop

namespace Pairing

variable {W α β : Type} (B : Pairing W)

/-- What the second run has in the place of something of the first. -/
def Moved (w : W) (g : (Nat → Nat) → α → α) (a b : α) : Prop := ∀ ρ ∈ B.moves w, b = g ρ a

variable {B} in
theorem Moved.operand {w : W} {frame frame' : Frame} (h : B.Moved w Frame.move frame frame')
    (l : Library) (op : Op) : ∀ ρ ∈ B.moves w, ∀ i,
      operand l frame' op i = (operand l frame op i).map (Value.move ρ) :=
  fun ρ hρ => h ρ hρ ▸ operand_move l frame op

/-- **Steps side by side.** Machines that belong together still do so afterwards, however the steps
end, and the outcomes belong together as well. -/
def Steps (w : W) (g : (Nat → Nat) → α → α) (x y : RunM α) : Prop :=
  ∀ m M, B.pair w m M → (∃ e M', y M = (.error e, M') ∧ B.stops e) ∨
    ∃ w', B.le w w' ∧ B.pair w' (x m).2 (y M).2 ∧ ∀ ρ ∈ B.moves w', (y M).1 = (x m).1.map (g ρ)

/-- Ways of making calls side by side, from a world on. -/
def Calls (w : W) (call call' : FunctionRef → List Value → RunM (Option Value)) : Prop :=
  ∀ w', B.le w w' → ∀ f vs vs', B.Moved w' (fun ρ => List.map (Value.move ρ)) vs vs' →
    B.Steps w' (fun ρ => Option.map (Value.move ρ)) (call f vs) (call' f vs')

/-- **Pairings that runs keep**, the first one under `limit` and the second one under `limit'`. -/
structure Sound (limit limit' : Nat) : Prop where
  refl : ∀ w, B.le w w
  trans : ∀ {w w' w''}, B.le w w' → B.le w' w'' → B.le w w''
  anti : ∀ {w w'}, B.le w w' → B.moves w' ⊆ B.moves w
  nonempty : ∀ w, (B.moves w).Nonempty
  allocate : ∀ {w v v'}, B.Moved w Value.move v v' →
    B.Steps w Value.move (allocate v) (allocate v')
  read : ∀ {w p p'}, B.Moved w Value.move p p' →
    B.Steps w Value.move (do (← get).read p) (do (← get).read p')
  write : ∀ {w p p' v v'}, B.Moved w Value.move p p' → B.Moved w Value.move v v' →
    B.Steps w (fun _ => id) (write p v) (write p' v')
  record : ∀ w f, B.Steps w (fun _ => id)
    (modify fun s => { s with calls := s.calls.push f } : RunM PUnit)
    (modify fun s => { s with calls := s.calls.push f })
  tick : ∀ {w x y} f b,
    (∀ w', B.le w w' → (∀ n n', B.counts w (n + 1) (n' + 1) → B.counts w' n n') →
      B.Steps w' (fun ρ => Option.map (Value.move ρ)) x y) →
    B.Steps w (fun ρ => Option.map (Value.move ρ)) (do tick limit f b; x) (do tick limit' f b; y)
  counts : ∀ {w n n'}, B.counts w n n' → n' ≤ n
  later : ∀ {w w' n n'}, B.le w w' → B.counts w n n' → B.counts w' n n'
  /-- The second run has used up its count. -/
  spent : ∀ {w n}, B.counts w n 0 → ∀ root a frame b,
    B.Steps w (fun ρ => Option.map (Value.move ρ)) (runFrom root limit n a frame b)
      (throw (.stepLimit limit'))

namespace Sound

variable {B} {limit limit' : Nat} (hB : B.Sound limit limit') {w : W}
  {g : (Nat → Nat) → α → α} {h : (Nat → Nat) → β → β}
include hB

theorem moved {w' : W} {a b : α} (hab : B.Moved w g a b) (hw : B.le w w') : B.Moved w' g a b :=
  fun ρ hρ => hab ρ (hB.anti hw hρ)

theorem lift {x y : Except RunError α} (hxy : ∀ ρ ∈ B.moves w, y = x.map (g ρ)) :
    B.Steps w g (liftM x) (liftM y) :=
  fun _ _ hp => .inr ⟨w, hB.refl w, hp, hxy⟩

theorem pure {a b : α} (hab : B.Moved w g a b) : B.Steps w g (pure a) (pure b) :=
  hB.lift (x := .ok a) (y := .ok b) fun ρ hρ => congrArg Except.ok (hab ρ hρ)

theorem throw (e : RunError) : B.Steps w g (throw e) (throw e) :=
  hB.lift (x := .error e) (y := .error e) fun _ _ => rfl

theorem bind {x y : RunM α} {f k : α → RunM β} (hx : B.Steps w g x y)
    (hf : ∀ w' a b, B.le w w' → B.Moved w' g a b → B.Steps w' h (f a) (k b)) :
    B.Steps w h (x >>= f) (y >>= k) := by
  intro m M hp
  rw [bind_apply, bind_apply]
  rcases hx m M hp with ⟨e, M', hstop, he⟩ | ⟨w', hw, hp', hresult⟩
  · rw [hstop]
    exact .inl ⟨e, M', rfl, he⟩
  · obtain ⟨ρ, hρ⟩ := hB.nonempty w'
    rcases hxm : x m with ⟨e | a, m'⟩ <;> rcases hyM : y M with ⟨e' | b, M'⟩ <;>
      rw [hxm, hyM] at hp' hresult
    · exact .inr ⟨w', hw, hp', fun ρ hρ => congrArg Except.error (Except.error.inj (hresult ρ hρ))⟩
    · nomatch hresult ρ hρ
    · nomatch hresult ρ hρ
    · rcases hf w' a b hw (fun ρ hρ => Except.ok.inj (hresult ρ hρ)) m' M' hp' with hstop | hdone
      · exact .inl hstop
      · obtain ⟨w'', hw', hdone⟩ := hdone
        exact .inr ⟨w'', hB.trans hw hw', hdone⟩

/-! ### Operations -/

theorem initial (l : Library) (ty : TypeRef) :
    B.Steps w Value.move (do Machine.allocate (← initialValue l ty))
      (do Machine.allocate (← initialValue l ty)) :=
  hB.bind (g := Value.move) (hB.lift fun _ _ => (move_initialValue l ty).symm)
    fun _ _ _ _ hv => hB.allocate hv

variable {frame frame' : Frame}

variable {call call' : FunctionRef → List Value → RunM (Option Value)} {vs vs' : List Value}
  {n n' : Nat}

theorem perform (hcall : B.Calls w call call') {l : Library} {op : Op}
    (hop : ∀ ρ ∈ B.moves w, ∀ i, operand l frame' op i = (operand l frame op i).map (Value.move ρ)) :
    B.Steps w Value.move (perform call l frame op) (perform call' l frame' op) := by
  have hoperand : ∀ i {w'}, B.le w w' →
      B.Steps w' Value.move (liftM (operand l frame op i)) (liftM (operand l frame' op i)) :=
    fun i _ hw => hB.lift fun ρ hρ => hop ρ (hB.anti hw hρ) i
  unfold Machine.perform
  split
  · split
    · exact hB.initial l _
    · exact hB.allocate fun _ _ => rfl
  · exact hB.bind (hoperand 0 (hB.refl w)) fun w' p p' _ hp => hB.read hp
  · refine hB.bind (hoperand 0 (hB.refl w)) fun w' p p' hw hp => ?_
    refine hB.bind (hoperand 1 hw) fun w'' v v' hw' hv => ?_
    exact hB.bind (hB.write (hB.moved hp hw') hv) fun _ _ _ _ _ => hB.pure fun _ _ => rfl
  · split
    · next f _ _ =>
      refine hB.bind (g := fun ρ => List.map (Value.move ρ))
        (hB.lift fun ρ hρ => operandsFrom_move (hop ρ hρ) 1) fun w' vs vs' hw hvs => ?_
      refine hB.bind (hcall w' hw f vs vs' hvs) fun w'' r r' _ hr => hB.pure fun ρ hρ => ?_
      rw [hr ρ hρ]
      cases r <;> rfl
    · exact hB.throw _
  · exact hB.lift fun ρ hρ => compute_move (hop ρ hρ)

/-- **One block**, by induction on its operations. -/
theorem runOps (hcall : B.Calls w call call') (hframe : B.Moved w Frame.move frame frame')
    (l : Library) (block : BlockId) (ops : List Op) :
    B.Steps w (fun ρ => Prod.map (Flow.move ρ) (Frame.move ρ))
      (runOps call l block frame ops) (runOps call' l block frame' ops) := by
  induction ops generalizing frame frame' w with
  | nil => exact hB.throw _
  | cons op ops ih =>
    have hflow : ∀ ρ ∈ B.moves w, terminate? l frame' op =
        (terminate? l frame op).map fun flow => flow.map (Flow.move ρ) :=
      fun ρ hρ => hframe ρ hρ ▸ terminate?_move l frame op
    obtain ⟨ρ₀, hρ₀⟩ := hB.nonempty w
    unfold Machine.runOps
    -- an operation ends both blocks or none of them
    cases h : terminate? l frame op <;> cases h' : terminate? l frame' op <;>
      simp only [h, h', Option.map_some, Option.map_none] at hflow
    · refine hB.bind (hB.perform hcall (hframe.operand l op)) fun w' v v' hw hv => ?_
      have hcall' : B.Calls w' call call' := fun w'' hw' => hcall w'' (hB.trans hw hw')
      have hframe' := hB.moved hframe hw
      cases op.result with
      | some id =>
        refine ih hcall' fun ρ hρ => ?_
        rw [hframe' ρ hρ, hv ρ hρ, Frame.set_move]
      | none => exact ih hcall' hframe'
    · nomatch hflow ρ₀ hρ₀
    · nomatch hflow ρ₀ hρ₀
    · refine hB.bind (hB.lift fun ρ hρ => Option.some.inj (hflow ρ hρ))
        fun w' flow flow' hw hflow => hB.pure fun ρ hρ => ?_
      exact Prod.ext (hflow ρ hρ) (hB.moved hframe hw ρ hρ)

/-! ### Calls -/

theorem allocateLocals (hframe : B.Moved w Frame.move frame frame') (l : Library) (ops : List Op) :
    B.Steps w Frame.move (allocateLocals l frame ops) (allocateLocals l frame' ops) := by
  induction ops generalizing frame frame' w with
  | nil => exact hB.pure hframe
  | cons op ops ih =>
    unfold Machine.allocateLocals
    split
    · next id ty _ _ =>
      refine hB.bind (g := Value.move) (hB.lift fun _ _ => (move_initialValue l ty).symm)
        fun w' v v' hw hv => hB.bind (hB.allocate hv) fun w'' p p' hw' hp => ih fun ρ hρ => ?_
      rw [hp ρ hρ, hB.moved hframe (hB.trans hw hw') ρ hρ, Frame.set_move]
    · exact ih hframe

theorem enter (hvs : B.Moved w (fun ρ => List.map (Value.move ρ)) vs vs') (root : Library)
    (f : FunctionRef) :
    B.Steps w (fun ρ p => (p.1, p.2.1.move ρ, p.2.2)) (enter root f vs) (enter root f vs') := by
  obtain ⟨ρ₀, hρ₀⟩ := hB.nonempty w
  have hlength : vs'.length = vs.length := by rw [hvs ρ₀ hρ₀, List.length_map]
  unfold Machine.enter
  split
  · exact hB.throw _
  · next l _ =>
    split
    · exact hB.throw _
    · next routine _ =>
      refine hB.bind (hB.record w f) fun w' _ _ hw _ => ?_
      rw [hlength]
      dsimp only
      split
      · split
        · exact hB.throw _
        · next entry _ =>
          have hframe : B.Moved w' Frame.move (.ofArguments routine.parameters vs)
              (.ofArguments routine.parameters vs') := fun ρ hρ => by
            rw [hB.moved hvs hw ρ hρ, Frame.ofArguments_move]
          refine hB.bind (hB.allocateLocals hframe l entry.locals) fun w'' _ _ _ hlocals => ?_
          exact hB.pure fun ρ hρ => by rw [hlocals ρ hρ]
      · exact hB.throw _

/-- A call goes well if all runs do from now on. -/
theorem callWithin_of_runFrom {root : Library}
    (hrun : ∀ w', B.le w w' → ∀ frame frame', B.Moved w' Frame.move frame frame' → ∀ a block,
      B.Steps w' (fun ρ => Option.map (Value.move ρ)) (runFrom root limit n a frame block)
        (runFrom root limit' n' a frame' block))
    (hvs : B.Moved w (fun ρ => List.map (Value.move ρ)) vs vs') (f : FunctionRef) :
    B.Steps w (fun ρ => Option.map (Value.move ρ))
      (callWithin root limit n f vs) (callWithin root limit' n' f vs') := by
  refine hB.bind (hB.enter hvs root f) fun w' p p' hw hp => ?_
  obtain ⟨ρ₀, hρ₀⟩ := hB.nonempty w'
  rw [congrArg Prod.fst (hp ρ₀ hρ₀), congrArg (fun q => q.2.2) (hp ρ₀ hρ₀)]
  exact hrun w' hw _ _ (fun ρ hρ => by rw [hp ρ hρ]) _ _

/-- **A whole run**, by induction on the number of blocks that the second one may still enter. -/
theorem runFrom (hn : B.counts w n n') (hframe : B.Moved w Frame.move frame frame') (root : Library)
    (a : Activation) (block : BlockId) :
    B.Steps w (fun ρ => Option.map (Value.move ρ)) (runFrom root limit n a frame block)
      (runFrom root limit' n' a frame' block) := by
  induction n' generalizing n w a frame frame' block with
  | zero => exact hB.spent hn root a frame block
  | succ n' ih =>
    obtain ⟨n, rfl⟩ : ∃ k, n = k + 1 := ⟨n - 1, by have := hB.counts hn; omega⟩
    rw [runFrom_succ, runFrom_succ]
    refine hB.tick _ _ fun w' hw hcounts => ?_
    have hn := hcounts n n' hn
    have hcall : B.Calls w' (callWithin root limit n) (callWithin root limit' n') :=
      fun w'' hw' f vs vs' hvs => hB.callWithin_of_runFrom
        (fun u hu _ _ hframe => ih (hB.later (hB.trans hw' hu) hn) hframe) hvs f
    cases a.routine.block? block with
    | none => exact hB.throw _
    | some b =>
      refine hB.bind (hB.runOps hcall (hB.moved hframe hw) a.library block b.ops) ?_
      rintro w'' ⟨flow, frame⟩ ⟨flow', frame'⟩ hw' hp
      obtain ⟨ρ₀, hρ₀⟩ := hB.nonempty w''
      cases flow with
      | leave r =>
        obtain rfl : flow' = .leave (r.map (Value.move ρ₀)) := congrArg Prod.fst (hp ρ₀ hρ₀)
        exact hB.pure fun ρ hρ => Flow.leave.inj (congrArg Prod.fst (hp ρ hρ))
      | jump next =>
        obtain rfl : flow' = .jump next := congrArg Prod.fst (hp ρ₀ hρ₀)
        exact ih (hB.later hw' hn) (fun ρ hρ => congrArg Prod.snd (hp ρ hρ)) a next

/-- **A whole call.** -/
theorem callWithin (hn : B.counts w n n')
    (hvs : B.Moved w (fun ρ => List.map (Value.move ρ)) vs vs') (root : Library) (f : FunctionRef) :
    B.Steps w (fun ρ => Option.map (Value.move ρ))
      (callWithin root limit n f vs) (callWithin root limit' n' f vs') :=
  hB.callWithin_of_runFrom (fun _ hw _ _ hframe => hB.runFrom (hB.later hw hn) hframe root) hvs f

end Sound

end Pairing

end Machine

end Shader
