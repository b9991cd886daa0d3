import Shader.Machine.Run
import Mathlib.Data.List.Basic
import Shader.Proofs.Machine.Focus

/-!
# Moving values to other places in memory

A run that starts in memory that is already in use has its slots elsewhere than one that starts in
fresh memory. `Value.move` takes the pointers in a value to their new slots, and every operation of
the machine commutes with it: arithmetic does not look at pointers, and what looks at them only follows
them.
-/

namespace Shader

namespace Value

mutual

/-- The value with its pointers moved to other slots. -/
def move (ρ : Nat → Nat) : Value → Value
  | .pointer p => .pointer ⟨ρ p.slot, p.path⟩
  | .composite vs => .composite (moveAll ρ vs)
  | .bool b => .bool b
  | .int i => .int i
  | .real x => .real x
  | .undefined => .undefined

/-- The values with their pointers moved. -/
def moveAll (ρ : Nat → Nat) : List Value → List Value
  | [] => []
  | v :: vs => move ρ v :: moveAll ρ vs

end

variable {ρ : Nat → Nat}

@[simp] theorem moveAll_eq_map (vs : List Value) : moveAll ρ vs = vs.map (move ρ) := by
  induction vs with
  | nil => rfl
  | cons v vs ih => rw [moveAll, ih, List.map_cons]

@[simp] theorem move_bool (b : Bool) : move ρ (.bool b) = .bool b := rfl

@[simp] theorem move_int (i : Int32) : move ρ (.int i) = .int i := rfl

@[simp] theorem move_real (x : Real32) : move ρ (.real x) = .real x := rfl

@[simp] theorem move_undefined : move ρ .undefined = .undefined := rfl

@[simp] theorem move_pointer (p : Pointer) :
    move ρ (.pointer p) = .pointer ⟨ρ p.slot, p.path⟩ := rfl

@[simp] theorem move_composite (vs : List Value) :
    move ρ (.composite vs) = .composite (vs.map (move ρ)) := by
  rw [move, moveAll_eq_map]

@[simp] theorem move_ofLiteral (l : Literal) : move ρ (.ofLiteral l) = .ofLiteral l := by
  cases l <;> rfl

@[simp] theorem sort_move (v : Value) : (v.move ρ).sort = v.sort := by
  cases v <;> rfl

@[simp] theorem refuse_move {α : Type} (opcode : Opcode) (v : Value) :
    (refuse opcode (v.move ρ) : Except RunError α) = refuse opcode v := by
  rw [refuse, refuse, sort_move]

/-! ### Pointers -/

mutual

/-- The pointers in a value, at any depth. -/
def pointers : Value → List Pointer
  | .pointer p => [p]
  | .composite vs => pointersAll vs
  | .bool _ | .int _ | .real _ | .undefined => []

/-- The pointers in some values. -/
def pointersAll : List Value → List Pointer
  | [] => []
  | v :: vs => pointers v ++ pointersAll vs

end

mutual

/-- A value does not notice that slots are moved to which it has no pointer. -/
theorem move_eq_self_iff {ρ : Nat → Nat} : ∀ v : Value,
    v.move ρ = v ↔ ∀ p ∈ v.pointers, ρ p.slot = p.slot
  | .pointer p => by
    obtain ⟨slot, path⟩ := p
    simp [pointers]
  | .composite vs => by
    rw [move, composite.injEq, moveAll_eq_self_iff vs, pointers]
  | .bool _ | .int _ | .real _ | .undefined => by simp [pointers]

theorem moveAll_eq_self_iff {ρ : Nat → Nat} : ∀ vs : List Value,
    moveAll ρ vs = vs ↔ ∀ p ∈ pointersAll vs, ρ p.slot = p.slot
  | [] => by simp [pointersAll]
  | v :: vs => by
    rw [moveAll, List.cons.injEq, move_eq_self_iff v, moveAll_eq_self_iff vs, pointersAll]
    constructor
    · rintro ⟨hv, hvs⟩ p hp
      exact (List.mem_append.mp hp).elim (hv p) (hvs p)
    · exact fun h => ⟨fun p hp => h p (List.mem_append_left _ hp),
        fun p hp => h p (List.mem_append_right _ hp)⟩

end

theorem move_id (v : Value) : v.move id = v := (move_eq_self_iff v).mpr fun _ _ => rfl

/-! ### Arithmetic -/

theorem unary_move (opcode : Opcode) (v : Value) :
    unary opcode (v.move ρ) = (unary opcode v).map (move ρ) := by
  cases v <;> cases opcode <;> rfl

theorem map_move_realBinary (opcode : Opcode) (x y : Real32) :
    (realBinary opcode x y).map (move ρ) = realBinary opcode x y := by
  cases opcode <;> rfl

theorem map_move_intBinary (opcode : Opcode) (x y : Int32) :
    (intBinary opcode x y).map (move ρ) = intBinary opcode x y := by
  unfold intBinary
  split
  · rfl
  · split
    · rfl
    · rfl
  · rfl
  · rfl

theorem binary_move (opcode : Opcode) (v w : Value) :
    binary opcode (v.move ρ) (w.move ρ) = (binary opcode v w).map (move ρ) := by
  cases v with
  | real x =>
    cases w with
    | real y => exact (map_move_realBinary opcode x y).symm
    | _ => rfl
  | int x =>
    cases w with
    | int y => exact (map_move_intBinary opcode x y).symm
    | _ => rfl
  | bool x =>
    cases w with
    | bool y => cases opcode <;> rfl
    | _ => rfl
  | _ => rfl

mutual

theorem liftUnary_move (opcode : Opcode) : ∀ v : Value,
    liftUnary opcode (v.move ρ) = (liftUnary opcode v).map (move ρ)
  | .composite vs => by
    rw [move, liftUnary, liftUnary, liftUnaryAll_move opcode vs]
    cases liftUnaryAll opcode vs <;> rfl
  | .bool b => unary_move opcode (.bool b)
  | .int i => unary_move opcode (.int i)
  | .real x => unary_move opcode (.real x)
  | .pointer p => unary_move opcode (.pointer p)
  | .undefined => unary_move opcode .undefined

theorem liftUnaryAll_move (opcode : Opcode) : ∀ vs : List Value,
    liftUnaryAll opcode (moveAll ρ vs) = (liftUnaryAll opcode vs).map (moveAll ρ)
  | [] => rfl
  | v :: vs => by
    rw [moveAll, liftUnaryAll, liftUnaryAll, liftUnary_move opcode v, liftUnaryAll_move opcode vs]
    cases liftUnary opcode v with
    | error e => rfl
    | ok w => cases liftUnaryAll opcode vs <;> rfl

end

mutual

theorem liftBinary_move (opcode : Opcode) : ∀ v w : Value,
    liftBinary opcode (v.move ρ) (w.move ρ) = (liftBinary opcode v w).map (move ρ)
  | v, w => by
    cases v with
    | composite vs =>
      cases w with
      | composite ws =>
        rw [move, move, liftBinary, liftBinary, liftBinaryAll_move opcode vs ws]
        simp only [moveAll_eq_map, List.length_map]
        split
        · cases liftBinaryAll opcode vs ws <;> rfl
        · rfl
      | _ => rfl
    | pointer p => cases w <;> rfl
    | undefined => cases w <;> rfl
    | _ => exact binary_move opcode _ w

theorem liftBinaryAll_move (opcode : Opcode) : ∀ vs ws : List Value,
    liftBinaryAll opcode (moveAll ρ vs) (moveAll ρ ws) = (liftBinaryAll opcode vs ws).map (moveAll ρ)
  | v :: vs, w :: ws => by
    rw [moveAll, moveAll, liftBinaryAll, liftBinaryAll, liftBinary_move opcode v w,
      liftBinaryAll_move opcode vs ws]
    cases liftBinary opcode v w with
    | error e => rfl
    | ok u => cases liftBinaryAll opcode vs ws <;> rfl
  | [], _ => by simp [liftBinaryAll, Except.map]
  | _ :: _, [] => by simp [liftBinaryAll, Except.map]

end

/-! ### Choices -/

mutual

theorem select_move : ∀ c v w : Value,
    select (c.move ρ) (v.move ρ) (w.move ρ) = (select c v w).map (move ρ)
  | c, v, w => by
    cases c with
    | bool b => cases b <;> rfl
    | composite cs =>
      cases v with
      | composite vs =>
        cases w with
        | composite ws =>
          rw [move, move, move, select, select, selectAll_move cs vs ws]
          simp only [moveAll_eq_map, List.length_map]
          split
          · cases selectAll cs vs ws with
            | error e => rfl
            | ok us => simp [Except.map, bind, Except.bind, pure, Except.pure]
          · rw [← move_composite, refuse_move]
            rfl
        | _ => rfl
      | _ => rfl
    | _ => rfl

theorem selectAll_move : ∀ cs vs ws : List Value,
    selectAll (moveAll ρ cs) (moveAll ρ vs) (moveAll ρ ws) = (selectAll cs vs ws).map (moveAll ρ)
  | c :: cs, v :: vs, w :: ws => by
    rw [moveAll, moveAll, moveAll, selectAll, selectAll, select_move c v w,
      selectAll_move cs vs ws]
    cases select c v w with
    | error e => rfl
    | ok u =>
      cases selectAll cs vs ws with
      | error e => rfl
      | ok us => rfl
  | [], _, _ => by simp [selectAll, Except.map]
  | _ :: _, [], _ => by simp [selectAll, Except.map]
  | _ :: _, _ :: _, [] => by simp [selectAll, Except.map]

end

/-! ### Vectors -/

theorem mapM_map_move {α β ε : Type} {f g : α → Except ε β} {h : β → β}
    (hfg : ∀ a, f a = (g a).map h) (as : List α) : as.mapM f = (as.mapM g).map (List.map h) := by
  induction as with
  | nil => rfl
  | cons a as ih =>
    rw [List.mapM_cons, List.mapM_cons, hfg, ih]
    cases g a with
    | error e => rfl
    | ok b => cases as.mapM g <;> rfl

theorem timesScalar_move (v w : Value) :
    timesScalar (v.move ρ) (w.move ρ) = (timesScalar v w).map (move ρ) := by
  cases v with
  | composite vs =>
    rw [move_composite]
    unfold timesScalar
    dsimp only
    rw [List.mapM_map, mapM_map_move (f := (fun lane => binary .fMul lane (w.move ρ)) ∘ move ρ)
      fun v => binary_move .fMul v w]
    cases vs.mapM fun lane => binary .fMul lane w with
    | error e => rfl
    | ok us => simp [Except.map, bind, Except.bind, pure, Except.pure]
  | _ => rfl

theorem dotFrom_move (sum : Real32) (vs ws : List Value) :
    dotFrom sum (vs.map (move ρ)) (ws.map (move ρ)) = dotFrom sum vs ws := by
  induction vs generalizing sum ws with
  | nil => rw [List.map_nil, dotFrom, dotFrom] <;> exact nofun
  | cons v vs ih =>
    cases ws with
    | nil => rw [List.map_nil, dotFrom, dotFrom] <;> exact nofun
    | cons w ws =>
      rw [List.map_cons, List.map_cons]
      cases v with
      | real x =>
        cases w with
        | real y => exact ih _ _
        | _ => rfl
      | _ => rfl

theorem dot_move (v w : Value) : dot (v.move ρ) (w.move ρ) = dot v w := by
  cases v with
  | composite vs =>
    cases w with
    | composite ws =>
      rw [move_composite, move_composite]
      unfold dot
      dsimp only
      rw [List.length_map, List.length_map, dotFrom_move]
      rfl
    | _ => rfl
  | _ => rfl

theorem truths_move (opcode : Opcode) (v : Value) : truths opcode (v.move ρ) = truths opcode v := by
  cases v with
  | composite vs =>
    rw [move_composite]
    unfold truths
    dsimp only
    rw [List.mapM_map]
    congr 1
    funext v
    cases v <;> rfl
  | _ => rfl

/-! ### Components -/

theorem get?_move (v : Value) (path : List Nat) :
    (v.move ρ).get? path = (v.get? path).map (move ρ) := by
  induction path generalizing v with
  | nil => rw [get?, get?]; rfl
  | cons i path ih =>
    cases v with
    | composite vs =>
      rw [move_composite, get?, get?, List.getElem?_map]
      cases vs[i]? with
      | none => rfl
      | some v => exact ih v
    | _ => rfl

theorem set?_move (v new : Value) (path : List Nat) :
    (v.move ρ).set? path (new.move ρ) = (v.set? path new).map (move ρ) := by
  induction path generalizing v with
  | nil => rw [set?, set?]; rfl
  | cons i path ih =>
    cases v with
    | composite vs =>
      rw [move_composite, set?, set?, List.getElem?_map]
      cases vs[i]? with
      | none => rfl
      | some v =>
        dsimp only [Option.map_some]
        rw [ih v]
        cases v.set? path new with
        | none => rfl
        | some w => simp
    | _ => rfl

end Value

/-! ### Memory -/

namespace Memory

/-- **Moved memory.** Every slot of `m` is found in `M` at the place that `ρ` says, and the next slots
belong together. The other slots of `M` are those of `base`. -/
structure Placed (ρ : Nat → Nat) (base m M : Memory) : Prop where
  injective : Function.Injective ρ
  slot : ∀ i, M[ρ i]? = m[i]?.map (Value.move ρ)
  next : ∀ i, ρ (m.size + i) = M.size + i
  rest : ∀ i < base.size, (∀ j, ρ j ≠ i) → M[i]? = base[i]?

variable {ρ : Nat → Nat} {base m M : Memory}

theorem Placed.read? (h : Placed ρ base m M) (p : Pointer) :
    M.read? ⟨ρ p.slot, p.path⟩ = (m.read? p).map (Value.move ρ) := by
  rw [Memory.read?, Memory.read?, h.slot]
  cases m[p.slot]? with
  | none => rfl
  | some v => exact Value.get?_move v p.path

theorem Placed.write (h : Placed ρ base m M) (p : Pointer) (v : Value) :
    Placed ρ base (m.write p v) (M.write ⟨ρ p.slot, p.path⟩ (v.move ρ)) := by
  refine ⟨h.injective, fun i => ?_, fun i => ?_, fun i hi hrest => ?_⟩
  · rw [Memory.write, Memory.write, Array.getElem?_modify, Array.getElem?_modify]
    by_cases hslot : p.slot = i
    · rw [if_pos (congrArg ρ hslot), if_pos hslot, h.slot]
      cases m[i]? with
      | none => rfl
      | some w =>
        dsimp only [Option.map_some]
        rw [Value.set?_move]
        cases w.set? p.path v with
        | none => rfl
        | some u => rfl
    · rw [if_neg fun heq => hslot (h.injective heq), if_neg hslot]
      exact h.slot i
  · rw [Memory.write, Memory.write, Array.size_modify, Array.size_modify]
    exact h.next i
  · rw [Memory.write, Array.getElem?_modify, if_neg (hrest p.slot)]
    exact h.rest i hi hrest

theorem Placed.push (h : Placed ρ base m M) (v : Value) :
    Placed ρ base (m.push v) (M.push (v.move ρ)) := by
  have hsize : ρ m.size = M.size := h.next 0
  refine ⟨h.injective, fun i => ?_, fun i => ?_, fun i hi hrest => ?_⟩
  · rw [Array.getElem?_push, Array.getElem?_push]
    by_cases hi : i = m.size
    · rw [if_pos (hi ▸ hsize), if_pos hi]
      rfl
    · rw [if_neg fun heq => hi (h.injective (heq.trans hsize.symm)), if_neg hi]
      exact h.slot i
  · rw [Array.size_push, Array.size_push, Nat.add_right_comm, Nat.add_right_comm M.size]
    exact h.next (i + 1)
  · have hne : i ≠ M.size := fun heq => hrest m.size (hsize.trans heq.symm)
    rw [Array.getElem?_push, if_neg hne]
    exact h.rest i hi hrest

end Memory

/-! ### Frames and operations -/

namespace Frame

/-- The frame with the pointers in it moved. -/
def move (ρ : Nat → Nat) (frame : Frame) : Frame := frame.map fun p => (p.1, p.2.move ρ)

theorem move_id (frame : Frame) : frame.move id = frame :=
  (List.map_congr_left fun p _ => by rw [Value.move_id]; rfl).trans (List.map_id frame)

theorem lookup_set (frame : Frame) (id x : ValueId) (v : Value) :
    (frame.set id v).lookup x = if x = id then some v else frame.lookup x := by
  induction frame with
  | nil =>
    rw [set, List.lookup_cons, List.lookup_nil]
    by_cases h : x = id
    · rw [if_pos h, beq_iff_eq.mpr h]
    · rw [if_neg h, beq_false_of_ne h]
  | cons p frame ih =>
    obtain ⟨i, w⟩ := p
    rw [set]
    by_cases hi : i = id
    · rw [if_pos hi, List.lookup_cons, List.lookup_cons, hi]
      by_cases h : x = id
      · rw [if_pos h, beq_iff_eq.mpr h]
      · rw [if_neg h, beq_false_of_ne h]
    · rw [if_neg hi, List.lookup_cons, List.lookup_cons, ih]
      by_cases h : x = id
      · rw [if_pos h, if_pos h, beq_false_of_ne fun heq => hi (heq.symm.trans h)]
      · rw [if_neg h, if_neg h]

variable {ρ : Nat → Nat}

theorem lookup_move (frame : Frame) (id : ValueId) :
    (frame.move ρ).lookup id = (frame.lookup id).map (Value.move ρ) := by
  induction frame with
  | nil => rfl
  | cons p frame ih =>
    obtain ⟨i, v⟩ := p
    rw [move, List.map_cons, List.lookup_cons, List.lookup_cons]
    cases id == i with
    | true => rfl
    | false => exact ih

theorem set_move (frame : Frame) (id : ValueId) (v : Value) :
    (frame.move ρ).set id (v.move ρ) = (frame.set id v).move ρ := by
  induction frame with
  | nil => rfl
  | cons p frame ih =>
    obtain ⟨i, w⟩ := p
    rw [move, List.map_cons, set, set]
    split
    · rfl
    · rw [move, List.map_cons, ← move, ← move, ih]

end Frame

/-- Where a run goes whose values have been moved. -/
def Flow.move (ρ : Nat → Nat) : Flow → Flow
  | .jump b => .jump b
  | .leave r => .leave (r.map (Value.move ρ))

namespace Machine

variable {ρ : Nat → Nat} (l : Library) (frame : Frame) (op : Op)

variable {l frame op} in
/-- An operand is moved if the result that it names is; constants have no pointers. -/
theorem operand_move_of_lookup {frame' : Frame} {index : Nat}
    (h : ∀ id, op.operands[index]? = some (.value id) →
      frame'.lookup id = (frame.lookup id).map (Value.move ρ)) :
    operand l frame' op index = (operand l frame op index).map (Value.move ρ) := by
  unfold operand
  split
  · next id hid =>
    rw [h id hid]
    cases frame.lookup id with
    | none => rfl
    | some v => rfl
  · next id _ =>
    cases l.constant? id with
    | none => rfl
    | some c => exact congrArg Except.ok (Value.move_ofLiteral c.value).symm
  · rfl

theorem operand_move (index : Nat) :
    operand l (frame.move ρ) op index = (operand l frame op index).map (Value.move ρ) :=
  operand_move_of_lookup fun id _ => Frame.lookup_move frame id

theorem terminate?_move :
    terminate? l (frame.move ρ) op =
      (terminate? l frame op).map fun flow => flow.map (Flow.move ρ) := by
  obtain ⟨opcode, result, resultType, operands, name⟩ := op
  cases opcode with
  | retValue =>
    unfold terminate?
    dsimp only
    rw [operand_move]
    cases operand l frame _ 0 with
    | error e => rfl
    | ok v => rfl
  | branch =>
    unfold terminate?
    dsimp only
    cases blockOperand _ 0 with
    | error e => rfl
    | ok b => rfl
  | branchConditional =>
    unfold terminate?
    dsimp only
    rw [operand_move]
    cases operand l frame _ 0 with
    | error e => rfl
    | ok v =>
      cases v with
      | bool taken =>
        simp only [Except.map, Value.move_bool, bind, Except.bind]
        cases blockOperand _ (if taken then 1 else 2) with
        | error e => rfl
        | ok b => rfl
      | _ => rfl
  | _ => rfl

section Operands

variable {l frame op} {frame' : Frame}
  (hmove : ∀ i, operand l frame' op i = (operand l frame op i).map (Value.move ρ))
include hmove

theorem operandsFrom_move (start : Nat) :
    operandsFrom l frame' op start =
      (operandsFrom l frame op start).map (List.map (Value.move ρ)) :=
  Value.mapM_map_move hmove _

theorem indices_move (start : Nat) :
    indices l frame' op start = indices l frame op start := by
  unfold indices
  congr 1
  funext i
  rw [hmove]
  cases operand l frame op i with
  | error e => rfl
  | ok v => cases v <;> rfl

/-- Combines two operands. -/
theorem operands_move {f g : Value → Value → Except RunError Value} (i j : Nat)
    (hf : ∀ v w, f (v.move ρ) (w.move ρ) = (g v w).map (Value.move ρ)) :
    (do let v ← operand l frame' op i; f v (← operand l frame' op j)) =
      (do let v ← operand l frame op i; g v (← operand l frame op j)).map (Value.move ρ) := by
  rw [hmove, hmove]
  cases operand l frame op i with
  | error e => rfl
  | ok v =>
    cases operand l frame op j with
    | error e => rfl
    | ok w => exact hf v w

theorem operand_move_bind {f g : Value → Except RunError Value} (i : Nat)
    (hf : ∀ v, f (v.move ρ) = (g v).map (Value.move ρ)) :
    (do f (← operand l frame' op i)) =
      (do g (← operand l frame op i)).map (Value.move ρ) := by
  rw [hmove]
  cases operand l frame op i with
  | error e => rfl
  | ok v => exact hf v

/-- **Moved operands give a moved result.** -/
theorem compute_move :
    compute l frame' op = (compute l frame op).map (Value.move ρ) := by
  unfold compute
  dsimp only
  cases op.opcode with
  | undef => rfl
  | accessChain =>
    -- the one operation that looks into a pointer, and it leaves the slot alone
    refine operand_move_bind hmove 0 fun v => ?_
    cases v with
    | pointer p =>
      dsimp only [Value.move_pointer]
      rw [indices_move hmove]
      cases indices l frame op 1 with
      | error e => rfl
      | ok path => rfl
    | _ => rfl
  | compositeConstruct =>
    dsimp only
    rw [operandsFrom_move hmove]
    cases operandsFrom l frame op 0 with
    | error e => rfl
    | ok vs => simp [Except.map, bind, Except.bind, pure, Except.pure]
  | select =>
    dsimp only
    rw [hmove, hmove, hmove]
    cases operand l frame op 0 with
    | error e => rfl
    | ok c =>
      cases operand l frame op 1 with
      | error e => rfl
      | ok v =>
        cases operand l frame op 2 with
        | error e => rfl
        | ok w => exact Value.select_move c v w
  | vectorTimesScalar =>
    exact operands_move hmove 0 1 Value.timesScalar_move
  | dot =>
    refine operands_move hmove 0 1 fun v w => ?_
    rw [Value.dot_move]
    cases v with
    | composite vs =>
      cases w with
      | composite ws =>
        unfold Value.dot
        dsimp only
        split
        · cases Value.dotFrom .zero vs ws with
          | error e => rfl
          | ok x => rfl
        · rfl
      | _ => rfl
    | _ => rfl
  | any =>
    refine operand_move_bind hmove 0 fun v => ?_
    rw [Value.truths_move]
    cases v.truths .any with
    | error e => rfl
    | ok bs => rfl
  | all =>
    refine operand_move_bind hmove 0 fun v => ?_
    rw [Value.truths_move]
    cases v.truths .all with
    | error e => rfl
    | ok bs => rfl
  | fNegate | sNegate | logicalNot | convertFToS | convertSToF | bitcast =>
    exact operand_move_bind hmove 0 (Value.liftUnary_move _)
  | _ => exact operands_move hmove 0 1 (Value.liftBinary_move _)

end Operands

end Machine

end Shader
