import Shader.Proofs.Machine.Embed
import Mathlib.Order.Interval.Set.Defs
import Mathlib.Data.Set.Insert

/-!
# Calls touch only what their arguments reach

A call gets hold of a slot in three ways: an argument points to it, a slot that it can already reach
holds a pointer to it, or the call allocates it. No operation makes up a pointer. Hence, if a set `R`
of slots holds whatever the arguments point to and is closed under following pointers, a call changes
no old slot outside `R`, and it leaves no pointer but to `R` and to what it has allocated itself,
however it ends.

* `Value.refersTo_iff_move` — a value refers to a set exactly if it does not notice that all other
  slots are moved. Every operation commutes with moving slots (`Machine.compute_move` and its
  companions), so what it makes of such values is such a value again. This one argument takes the
  place of a case analysis over the opcodes.
-/

namespace Shader

open Outcome

/-! ### Pointers in values -/

variable {p : Pointer}

namespace Value

/-- All pointers in the value go to slots of a set. -/
def RefersTo (S : Set Nat) (v : Value) : Prop := ∀ p ∈ v.pointers, p.slot ∈ S

variable {v : Value} {S : Set Nat}

theorem RefersTo.mono {S S' : Set Nat} (h : v.RefersTo S) (hS : S ⊆ S') :
    v.RefersTo S' := fun p hp => hS (h p hp)

theorem refersTo_of_pointers_eq_nil (h : v.pointers = []) : v.RefersTo S := by
  intro p hp
  rw [h] at hp
  nomatch hp

theorem refersTo_pointer : (pointer p).RefersTo S ↔ p.slot ∈ S := by
  simp [RefersTo, pointers]

open Classical in
/-- Moves all slots outside a set. -/
noncomputable def evade (S : Set Nat) (i : Nat) : Nat := if i ∈ S then i else i + 1

theorem evade_eq_self_iff {i : Nat} : evade S i = i ↔ i ∈ S := by
  unfold evade
  by_cases h : i ∈ S
  · simp [h]
  · simp [h]

/-- **Staying in a set** is not to notice what happens to the slots outside of it. -/
theorem refersTo_iff_move : v.RefersTo S ↔ v.move (evade S) = v := by
  rw [move_eq_self_iff]
  simp only [evade_eq_self_iff]
  exact Iff.rfl

theorem RefersTo.get? {w : Value} {path : List Nat} (hv : v.RefersTo S) (h : v.get? path = some w) :
    w.RefersTo S := by
  have hmove := get?_move (ρ := evade S) v path
  rw [refersTo_iff_move.mp hv, h] at hmove
  exact refersTo_iff_move.mpr (Option.some.inj hmove).symm

theorem RefersTo.set? {new w : Value} {path : List Nat} (hv : v.RefersTo S) (hnew : new.RefersTo S)
    (h : v.set? path new = some w) : w.RefersTo S := by
  have hmove := set?_move (ρ := evade S) v new path
  rw [refersTo_iff_move.mp hv, refersTo_iff_move.mp hnew, h] at hmove
  exact refersTo_iff_move.mpr (Option.some.inj hmove).symm

end Value

/-! ### Confined memory -/

namespace Memory

/-- The slots in reach once there are `n` of them: those of `R`, and what is new since `base`. -/
def reach (R : Set Nat) (base : Memory) (n : Nat) : Set Nat := R ∪ Set.Ico base.size n

theorem reach_mono {R : Set Nat} {base : Memory} {n k : Nat} (h : n ≤ k) :
    reach R base n ⊆ reach R base k := by
  rintro i (hi | hi)
  · exact .inl hi
  · exact .inr ⟨hi.1, Nat.lt_of_lt_of_le hi.2 h⟩

/-- **Confined memory.** Since `base`, memory has not shrunk, old slots outside `R` are what they
were, and from the slots in reach no pointer leads out of reach. -/
structure Confined (R : Set Nat) (base m : Memory) : Prop where
  size : base.size ≤ m.size
  kept : ∀ i < base.size, i ∉ R → m[i]? = base[i]?
  closed : ∀ i v, i ∈ R ∨ base.size ≤ i → m[i]? = some v → v.RefersTo (reach R base m.size)

section Confined

variable {R : Set Nat} {base m : Memory}

/-- Memory is confined by any set that is closed under following pointers. -/
theorem confined_self (hR : ∀ i ∈ R, ∀ v, base[i]? = some v → v.RefersTo R) :
    Confined R base base where
  size := Nat.le_refl _
  kept _ _ _ := rfl
  closed i v hi hv := by
    rcases hi with hi | hi
    · exact (hR i hi v hv).mono Set.subset_union_left
    · rw [Array.getElem?_eq_none hi] at hv
      nomatch hv

theorem Confined.push (h : Confined R base m) {v : Value}
    (hv : v.RefersTo (reach R base m.size)) : Confined R base (m.push v) := by
  have hgrow : reach R base m.size ⊆ reach R base (m.push v).size := by
    rw [Array.size_push]
    exact reach_mono (Nat.le_succ _)
  refine ⟨?_, fun i hi hR => ?_, fun i w hi hw => ?_⟩
  · rw [Array.size_push]
    exact Nat.le_succ_of_le h.size
  · rw [Array.getElem?_push, if_neg (Nat.ne_of_lt (Nat.lt_of_lt_of_le hi h.size))]
    exact h.kept i hi hR
  · rw [Array.getElem?_push] at hw
    split at hw
    · cases hw
      exact hv.mono hgrow
    · exact (h.closed i w hi hw).mono hgrow

/-- A slot in reach is old and in `R`, or it is new. -/
theorem mem_reach_cases {i n : Nat} (h : i ∈ reach R base n) : i ∈ R ∨ base.size ≤ i :=
  h.imp_right And.left

theorem Confined.write (h : Confined R base m) {new : Value} (hp : p.slot ∈ reach R base m.size)
    (hnew : new.RefersTo (reach R base m.size)) :
    Confined R base (m.write p new) := by
  have hsize : (m.write p new).size = m.size := Array.size_modify
  refine ⟨hsize ▸ h.size, fun i hi hR => ?_, fun i w hi hw => ?_⟩
  · -- the slot that is written to is in reach, so it is not this one
    have hne : p.slot ≠ i := by
      rintro rfl
      exact (mem_reach_cases hp).elim hR fun hle => absurd hi (Nat.not_lt_of_le hle)
    rw [Memory.write, Array.getElem?_modify, if_neg hne]
    exact h.kept i hi hR
  · rw [hsize]
    rw [Memory.write, Array.getElem?_modify] at hw
    split at hw
    · obtain ⟨v, hv, rfl⟩ := Option.map_eq_some_iff.mp hw
      have hold := h.closed i v hi hv
      cases hset : v.set? p.path new with
      | none => exact hold
      | some u => exact hold.set? hnew hset
    · exact h.closed i w hi hw

theorem Confined.read? (h : Confined R base m) {v : Value} (hp : p.slot ∈ reach R base m.size)
    (hv : m.read? p = some v) :
    v.RefersTo (reach R base m.size) := by
  obtain ⟨w, hslot, hget⟩ := exists_slot hv
  exact (h.closed p.slot w (mem_reach_cases hp) hslot).get? hget

end Confined

end Memory

/-! ### Steps on confined memory -/

namespace Machine

open Memory (reach Confined reach_mono)

/-- A machine with confined memory beside itself. The worlds are the numbers of its slots, and the
moves those that a value in reach does not notice. -/
def confining (R : Set Nat) (base : Memory) : Pairing Nat where
  le := (· ≤ ·)
  pair n m M := M = m ∧ m.memory.size = n ∧ Confined R base m.memory
  moves n := {ρ | ∀ i ∈ reach R base n, ρ i = i}
  counts _ n n' := n' = n
  stops _ := False

section Confining

variable {R : Set Nat} {base : Memory} {n : Nat}

theorem evade_mem_moves : Value.evade (reach R base n) ∈ (confining R base).moves n :=
  fun _ => Value.evade_eq_self_iff.mpr

/-- What the two runs have in common are the values in reach. -/
theorem moved_confining {v v' : Value} :
    (confining R base).Moved n Value.move v v' ↔ v' = v ∧ v.RefersTo (reach R base n) := by
  constructor
  · intro h
    have hv : v' = v := (h id fun _ _ => rfl).trans v.move_id
    exact ⟨hv, Value.refersTo_iff_move.mpr ((h _ evade_mem_moves).symm.trans hv)⟩
  · rintro ⟨rfl, hv⟩ ρ hρ
    exact ((Value.move_eq_self_iff v').mpr fun p hp => hρ _ (hv p hp)).symm

/-- Steps of a machine beside the same steps. -/
theorem steps_confining {α : Type} {g : (Nat → Nat) → α → α} {x : RunM α}
    (h : ∀ m : Machine, m.memory.size = n → Confined R base m.memory →
      n ≤ (x m).2.memory.size ∧ Confined R base (x m).2.memory ∧
      ∀ a, (x m).1 = .ok a → (confining R base).Moved (x m).2.memory.size g a a) :
    (confining R base).Steps n g x x := by
  rintro m _ ⟨rfl, hn, hm⟩
  obtain ⟨hgrow, hm', hresult⟩ := h _ hn hm
  refine .inr ⟨_, hgrow, ⟨rfl, rfl, hm'⟩, fun ρ hρ => ?_⟩
  cases hr : (x _).1 with
  | error e => rfl
  | ok a => exact congrArg Except.ok (hresult a hr ρ hρ)

theorem sound_confining (limit : Nat) : (confining R base).Sound limit limit where
  refl := Nat.le_refl
  trans := Nat.le_trans
  anti hw _ hρ i hi := hρ i (reach_mono hw hi)
  nonempty _ := ⟨id, fun _ _ => rfl⟩
  allocate {_ _ v} hv := by
    obtain ⟨rfl, hv⟩ := moved_confining.mp hv
    refine steps_confining fun m hn hm => ?_
    have hsize : (m.memory.push v).size = m.memory.size + 1 := Array.size_push v
    refine ⟨hn ▸ hsize ▸ Nat.le_succ _, hm.push (hn ▸ hv), fun p hp => ?_⟩
    obtain rfl : Value.pointer ⟨m.memory.size, []⟩ = p := Except.ok.inj hp
    -- the new slot comes after all others
    exact moved_confining.mpr ⟨rfl,
      Value.refersTo_pointer.mpr (.inr ⟨hm.size, hsize ▸ Nat.lt_succ_self _⟩)⟩
  read {_ _ p} hp := by
    obtain ⟨rfl, hp⟩ := moved_confining.mp hp
    refine steps_confining fun m hn hm => ⟨Nat.le_of_eq hn.symm, hm, fun v hv => ?_⟩
    change m.read p = .ok v at hv
    cases p with
    | pointer p =>
      unfold Machine.read at hv
      dsimp only at hv
      split at hv
      · next w hw =>
        cases hv
        exact moved_confining.mpr ⟨rfl, hm.read? (hn ▸ Value.refersTo_pointer.mp hp) hw⟩
      · nomatch hv
    | _ => nomatch hv
  write {_ _ p _ v} hp hv := by
    obtain ⟨rfl, hp⟩ := moved_confining.mp hp
    obtain ⟨rfl, hv⟩ := moved_confining.mp hv
    refine steps_confining fun m hn hm => ?_
    cases p with
    | pointer p =>
      unfold write
      dsimp only
      rw [Memory.write?_eq]
      cases m.memory.read? p with
      | none => exact ⟨Nat.le_of_eq hn.symm, hm, fun _ _ _ _ => rfl⟩
      | some _ =>
        have hsize : (m.memory.write p v).size = m.memory.size := Array.size_modify
        exact ⟨Nat.le_of_eq (hsize.trans hn).symm,
          hm.write (hn ▸ Value.refersTo_pointer.mp hp) (hn ▸ hv), fun _ _ _ _ => rfl⟩
    | _ => exact ⟨Nat.le_of_eq hn.symm, hm, fun _ _ _ _ => rfl⟩
  record _ f := steps_confining fun m hn hm => ⟨Nat.le_of_eq hn.symm, hm, fun _ _ _ _ => rfl⟩
  tick f b h := by
    rintro m _ ⟨rfl, hn, hm⟩
    rw [bind_apply, bind_apply, tick_apply]
    split_ifs
    · exact .inr ⟨_, Nat.le_refl _, ⟨rfl, hn, hm⟩, fun _ _ => rfl⟩
    · exact h _ (Nat.le_refl _) (fun _ _ => Nat.succ.inj) _ _ ⟨rfl, hn, hm⟩
  counts hn := Nat.le_of_eq hn
  later _ hn := hn
  spent hn root a frame b := by
    obtain rfl := hn
    exact steps_confining fun m hn hm => ⟨Nat.le_of_eq hn.symm, hm, fun _ h => nomatch h⟩

/-- Calls side by side with themselves. -/
theorem calls_confining (root : Library) (limit n : Nat) :
    (confining R base).Calls n (call root limit) (call root limit) := by
  rintro n' - f vs vs' hvs m _ ⟨rfl, hn, hm⟩
  rw [call_eq_callWithin root limit f vs (Nat.le_refl _),
    call_eq_callWithin root limit f vs' (Nat.le_refl _)]
  exact (sound_confining limit).callWithin rfl hvs root f _ _ ⟨rfl, hn, hm⟩

end Confining

/-- A call keeps memory confined. -/
theorem confined_call (root : Library) (limit : Nat) (f : FunctionRef) {vs : List Value}
    {m : Machine} {R : Set Nat} (hvs : ∀ v ∈ vs, v.RefersTo R)
    (hR : ∀ i ∈ R, ∀ v, m.memory[i]? = some v → v.RefersTo R) :
    Confined R m.memory (call root limit f vs m).2.memory ∧
      ∀ v, (call root limit f vs m).1 = .ok (some v) →
        v.RefersTo (reach R m.memory (call root limit f vs m).2.memory.size) := by
  have hmoved : (confining R m.memory).Moved m.memory.size (fun ρ => List.map (Value.move ρ)) vs vs :=
    fun ρ hρ => by
      refine ((List.map_congr_left fun v hv => ?_).trans (List.map_id vs)).symm
      exact (moved_confining.mpr ⟨rfl, (hvs v hv).mono Set.subset_union_left⟩ ρ hρ).symm
  rcases calls_confining root limit _ _ (Nat.le_refl _) f vs vs hmoved m m
    ⟨rfl, rfl, Memory.confined_self hR⟩ with ⟨_, _, _, hstop⟩ | ⟨n, _, ⟨_, rfl, hconfined⟩, hresult⟩
  · exact hstop.elim
  · refine ⟨hconfined, fun v hv => ?_⟩
    have hmove := hresult _ evade_mem_moves
    rw [hv] at hmove
    exact Value.refersTo_iff_move.mpr (Option.some.inj (Except.ok.inj hmove)).symm

/-- **A call touches only memory that its arguments reach.** Let `R` hold the slots that the
arguments point to, and the slots that slots of `R` point to. However the call ends, memory has not
shrunk, old slots outside `R` hold what they held, and no pointer in the returned value, in a slot of
`R` or in a new slot goes anywhere but to `R` and to new slots. A call without pointers among its
arguments changes nothing that was there before. -/
theorem call_touches_only_reach (root : Library) (limit : Nat) (f : FunctionRef) (vs : List Value)
    (m : Machine) (R : Set Nat) (hvs : ∀ v ∈ vs, ∀ p ∈ v.pointers, p.slot ∈ R)
    (hR : ∀ i ∈ R, ∀ v, m.memory[i]? = some v → ∀ p ∈ v.pointers, p.slot ∈ R) :
    let m' := (call root limit f vs m).2
    m.memory.size ≤ m'.memory.size ∧
    (∀ i < m.memory.size, i ∉ R → m'.memory[i]? = m.memory[i]?) ∧
    (∀ v, (call root limit f vs m).1 = .ok (some v) →
      ∀ p ∈ v.pointers, p.slot ∈ R ∨ m.memory.size ≤ p.slot ∧ p.slot < m'.memory.size) ∧
    (∀ i v, i ∈ R ∨ m.memory.size ≤ i → m'.memory[i]? = some v →
      ∀ p ∈ v.pointers, p.slot ∈ R ∨ m.memory.size ≤ p.slot ∧ p.slot < m'.memory.size) ∧
    ((∀ v ∈ vs, v.pointers = []) → ∀ i < m.memory.size, m'.memory[i]? = m.memory[i]?) := by
  obtain ⟨hconfined, hreturn⟩ := confined_call root limit f hvs hR
  refine ⟨hconfined.size, hconfined.kept, hreturn, hconfined.closed, fun hnone i hi => ?_⟩
  -- without pointers among the arguments, the empty set will do
  have hempty := confined_call (m := m) (R := ∅) root limit f
    (fun v hv => Value.refersTo_of_pointers_eq_nil (hnone v hv)) fun _ h => h.elim
  exact hempty.1.kept i hi (Set.notMem_empty i)

/-- A library with one function, which has a parameter and a variable. It stores something and returns
a pointer to the variable. -/
def storing (target value : ValueId) : Library where
  id := ⟨0⟩
  name := "A"
  types := ⟨[{ name := "Integer", kind := .int, count := 1, component := none }]⟩
  routines :=
    [{ name := "F", owner := ⟨0⟩, functionType := ⟨0⟩, parameters := [⟨⟨0⟩, ⟨0⟩, "x"⟩],
       blocks :=
        [{ id := ⟨0⟩, name := "entry",
           locals := [{ opcode := .declare, result := some ⟨1⟩, resultType := some ⟨0⟩ }],
           ops := [{ opcode := .store, operands := [.value target, .value value] },
                   { opcode := .retValue, operands := [.value ⟨1⟩] }] }],
       order := [⟨0⟩], nextValue := 2 }]

/-- The pointer to the variable is put into the place that is given. -/
def keeper : Library := storing ⟨0⟩ ⟨1⟩

/-- A machine with a pair, a pointer to it, and a number to which the pair points. -/
def keeping : Machine where
  memory := #[.composite [.pointer ⟨2, []⟩, .int 5], .pointer ⟨0, []⟩, .int 7]

/-- The pointer to the pair is out of reach of a call that is given the second part of the pair. It
stays what it was, while the call leaves a pointer to the fourth slot in the pair. -/
theorem call_touches_only_reach_keeper :
    (∀ v ∈ [Value.pointer ⟨0, [1]⟩], ∀ p ∈ v.pointers, p.slot ∈ ({0, 2} : Set Nat)) ∧
    (∀ i ∈ ({0, 2} : Set Nat), ∀ v, keeping.memory[i]? = some v →
      ∀ p ∈ v.pointers, p.slot ∈ ({0, 2} : Set Nat)) ∧
    (call keeper 1 ⟨⟨0⟩, 0⟩ [.pointer ⟨0, [1]⟩] keeping).2.memory[1]? = some (.pointer ⟨0, []⟩) ∧
    ((call keeper 1 ⟨⟨0⟩, 0⟩ [.pointer ⟨0, [1]⟩] keeping).2.memory[0]?.map Value.pointers =
      some [⟨2, []⟩, ⟨3, []⟩]) := by
  have hvs : ∀ v ∈ [Value.pointer ⟨0, [1]⟩], ∀ p ∈ v.pointers, p.slot ∈ ({0, 2} : Set Nat) := by
    simp [Value.pointers]
  have hR : ∀ i ∈ ({0, 2} : Set Nat), ∀ v, keeping.memory[i]? = some v →
      ∀ p ∈ v.pointers, p.slot ∈ ({0, 2} : Set Nat) := by
    rintro i (rfl | rfl) v hv
    · obtain rfl : Value.composite [.pointer ⟨2, []⟩, .int 5] = v := Option.some.inj hv
      simp [Value.pointers, Value.pointersAll]
    · obtain rfl : Value.int 7 = v := Option.some.inj hv
      simp [Value.pointers]
  obtain ⟨-, hkept, -⟩ := call_touches_only_reach keeper 1 ⟨⟨0⟩, 0⟩ _ keeping _ hvs hR
  exact ⟨hvs, hR, hkept 1 (by decide) (by simp), by decide +kernel⟩

end Machine

end Shader
