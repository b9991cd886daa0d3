import Shader.Proofs.Machine.Confined

/-!
# Calls do not depend on what came before

A call without pointers among its arguments does on a machine that has been used what it does on a
fresh one, unless it hits the limit: it cannot tell how many slots there are, nor what is in them,
nor what has been recorded. So two calls of the same function with the same arguments end alike,
whatever the histories of the two machines are. Only the numbers of the new slots differ, all by the
same amount.
-/

namespace Shader

open Outcome

namespace Value

variable {ρ : Nat → Nat}

mutual

/-- The pointers of a moved value are the moved pointers. -/
theorem pointers_move : ∀ v : Value,
    (v.move ρ).pointers = v.pointers.map fun p => ⟨ρ p.slot, p.path⟩
  | .pointer p => rfl
  | .composite vs => by rw [move, pointers, pointers, pointersAll_moveAll vs]
  | .bool _ => rfl
  | .int _ => rfl
  | .real _ => rfl
  | .undefined => rfl

theorem pointersAll_moveAll : ∀ vs : List Value,
    pointersAll (moveAll ρ vs) = (pointersAll vs).map fun p => ⟨ρ p.slot, p.path⟩
  | [] => rfl
  | v :: vs => by
    rw [moveAll, pointersAll, pointersAll, List.map_append, pointers_move v, pointersAll_moveAll vs]

end

theorem move_of_pointers_eq_nil {v : Value} (h : v.pointers = []) : v.move ρ = v := by
  rw [move_eq_self_iff, h]
  exact nofun

theorem map_move_of_pointers_eq_nil {vs : List Value} (h : ∀ v ∈ vs, v.pointers = []) :
    vs.map (move ρ) = vs := by
  calc vs.map (move ρ)
      = vs.map id := List.map_congr_left fun v hv => move_of_pointers_eq_nil (h v hv)
    _ = vs := List.map_id vs

end Value

namespace Machine

/-- **A machine after some further work.** The work is described by the machine that it would have
made of a fresh one: its slots come after those that are there, its pointers move along, and what it
has recorded comes last. -/
def followedBy (m work : Machine) : Machine where
  memory := m.memory ++ work.memory.map (Value.move (m.memory.size + ·))
  executed := m.executed ++ work.executed
  calls := m.calls ++ work.calls

variable {m M work : Machine}

/-- A fresh machine lies behind every machine. -/
theorem placed_behind (m : Machine) : Placed (m.memory.size + ·) m {} m where
  memory := by
    refine ⟨fun i j h => Nat.add_left_cancel h, fun i => ?_, fun i => ?_, fun _ _ _ => rfl⟩
    · rw [Array.getElem?_eq_none (Nat.le_add_right _ _), Array.getElem?_eq_none (Nat.zero_le i)]
      rfl
    · exact congrArg (m.memory.size + ·) (Nat.zero_add i)
  executed := Array.append_empty.symm
  calls := Array.append_empty.symm

/-- What lies behind a machine is the work that it is followed by. -/
theorem Placed.eq_followedBy (h : Placed (m.memory.size + ·) m work M) : M = m.followedBy work := by
  obtain ⟨hmemory, hexecuted, hcalls⟩ := h
  obtain ⟨memory, executed, calls⟩ := M
  have heq : memory = m.memory ++ work.memory.map (Value.move (m.memory.size + ·)) := by
    refine Array.ext_getElem? fun i => ?_
    by_cases hi : i < m.memory.size
    · -- an old slot is none of those that have been moved
      rw [hmemory.rest i hi fun j hj => Nat.not_lt_of_le (Nat.le_add_right _ j) (hj ▸ hi),
        Array.getElem?_append_left hi]
    · obtain ⟨j, rfl⟩ : ∃ j, i = m.memory.size + j := ⟨i - m.memory.size, by omega⟩
      rw [hmemory.slot j, Array.getElem?_append_right (Nat.le_add_right _ _),
        Nat.add_sub_cancel_left, Array.getElem?_map]
  subst heq hexecuted hcalls
  rfl

/-- **A call does what it does on a fresh machine**, if it has no pointers to start with and does
not hit the limit. -/
theorem call_followedBy (root : Library) {limit : Nat} (limit' : Nat) {f : FunctionRef}
    {vs : List Value} (hvs : ∀ v ∈ vs, v.pointers = []) (m : Machine)
    (hlimit : limit ≤ m.executed.size + limit')
    (hends : (call root limit f vs m).1 ≠ .error (.stepLimit limit)) :
    call root limit f vs m =
      ((call root limit' f vs {}).1.map (Option.map (Value.move (m.memory.size + ·))),
        m.followedBy (call root limit' f vs {}).2) := by
  have hplaced := call_placed root f vs (placed_behind m) hlimit
  rw [Value.map_move_of_pointers_eq_nil hvs] at hplaced
  rcases hplaced with ⟨M', hstop⟩ | ⟨hresult, hp⟩
  · rw [hstop] at hends
    exact absurd rfl hends
  · exact Prod.ext hresult hp.eq_followedBy

/-- A result without pointers does not notice how its pointers are moved. -/
theorem map_move_congr {ρ ρ' : Nat → Nat} {r : Except RunError (Option Value)}
    (h : ∀ v, r.map (Option.map (Value.move ρ)) = .ok (some v) → v.pointers = []) :
    r.map (Option.map (Value.move ρ')) = r.map (Option.map (Value.move ρ)) := by
  rcases r with e | _ | v
  · rfl
  · rfl
  · have hmoved := h (v.move ρ) rfl
    rw [Value.pointers_move, List.map_eq_nil_iff] at hmoved
    change Except.ok (some (v.move ρ')) = Except.ok (some (v.move ρ))
    rw [Value.move_of_pointers_eq_nil hmoved, Value.move_of_pointers_eq_nil hmoved]

/-- **Calls are independent of history.** Two machines call the same function with the same
arguments, which hold no pointers, and neither hits its limit. Then both calls come to the same
result, up to the numbers of the new slots, and do the same work: they enter the same blocks, call
the same functions and allocate the same slots with the same contents. All pointers in the result
and in the new slots are to new slots. A result without pointers, or an error, is the same. -/
theorem call_independent_of_history (root : Library) (f : FunctionRef) (vs : List Value)
    (hvs : ∀ v ∈ vs, v.pointers = []) (m₁ m₂ : Machine) (limit₁ limit₂ : Nat)
    (h₁ : (call root limit₁ f vs m₁).1 ≠ .error (.stepLimit limit₁))
    (h₂ : (call root limit₂ f vs m₂).1 ≠ .error (.stepLimit limit₂)) :
    ∃ (r : Except RunError (Option Value)) (work : Machine),
      call root limit₁ f vs m₁ =
        (r.map (Option.map (Value.move (m₁.memory.size + ·))), m₁.followedBy work) ∧
      call root limit₂ f vs m₂ =
        (r.map (Option.map (Value.move (m₂.memory.size + ·))), m₂.followedBy work) ∧
      (∀ v, r = .ok (some v) ∨ v ∈ work.memory → ∀ p ∈ v.pointers, p.slot < work.memory.size) ∧
      ((∀ v, (call root limit₁ f vs m₁).1 = .ok (some v) → v.pointers = []) →
        (call root limit₂ f vs m₂).1 = (call root limit₁ f vs m₁).1) := by
  -- both calls are compared with one on a fresh machine that has room for either
  have hrun₁ := call_followedBy root (limit₁ + limit₂) hvs m₁ (by omega) h₁
  have hrun₂ := call_followedBy root (limit₁ + limit₂) hvs m₂ (by omega) h₂
  obtain ⟨hconfined, hreturn⟩ := confined_call (m := {}) (R := ∅) root (limit₁ + limit₂) f
    (fun v hv => Value.refersTo_of_pointers_eq_nil (hvs v hv)) fun _ h => h.elim
  refine ⟨_, _, hrun₁, hrun₂, fun v hv p hp => ?_, fun hnone => ?_⟩
  · -- nothing but new slots is in reach of the call on the fresh machine
    rcases hv with hv | hv
    · exact ((hreturn v hv p hp).resolve_left (Set.notMem_empty _)).2
    · obtain ⟨i, hi, rfl⟩ := Array.mem_iff_getElem.mp hv
      have hslot := hconfined.closed i _ (.inr (Nat.zero_le i)) (Array.getElem?_eq_getElem hi) p hp
      exact (hslot.resolve_left (Set.notMem_empty _)).2
  · rw [hrun₁] at hnone
    rw [hrun₁, hrun₂]
    exact map_move_congr hnone

/-- The argument is put into the variable. -/
def maker : Library := storing ⟨1⟩ ⟨0⟩

/-- The pointer that a call returns. -/
def returned? (p : Except RunError (Option Value) × Machine) : Option Pointer :=
  match p.1 with
  | .ok (some (.pointer p)) => some p
  | _ => none

theorem ends_of_returned? {p : Except RunError (Option Value) × Machine} {limit : Nat}
    (h : (returned? p).isSome = true) : p.1 ≠ .error (.stepLimit limit) := by
  intro hp
  rw [returned?, hp] at h
  nomatch h

/-- The slot that the function makes is the first one of a fresh machine and the fourth one of a
machine with three slots. Both calls enter the same block. -/
theorem call_independent_of_history_maker :
    returned? (call maker 1 ⟨⟨0⟩, 0⟩ [.int 8] {}) = some ⟨0, []⟩ ∧
    returned? (call maker 1 ⟨⟨0⟩, 0⟩ [.int 8] keeping) = some ⟨3, []⟩ ∧
    ∃ work, (call maker 1 ⟨⟨0⟩, 0⟩ [.int 8] {}).2 = ({} : Machine).followedBy work ∧
      (call maker 1 ⟨⟨0⟩, 0⟩ [.int 8] keeping).2 = keeping.followedBy work := by
  have hfresh : returned? (call maker 1 ⟨⟨0⟩, 0⟩ [.int 8] {}) = some ⟨0, []⟩ := by decide +kernel
  have hused : returned? (call maker 1 ⟨⟨0⟩, 0⟩ [.int 8] keeping) = some ⟨3, []⟩ := by
    decide +kernel
  obtain ⟨r, work, h₁, h₂, -, -⟩ := call_independent_of_history maker ⟨⟨0⟩, 0⟩ [.int 8]
    (by simp [Value.pointers]) {} keeping 1 1 (ends_of_returned? (by rw [hfresh]; rfl))
    (ends_of_returned? (by rw [hused]; rfl))
  exact ⟨hfresh, hused, work, by rw [h₁], by rw [h₂]⟩

end Machine

end Shader
