import Shader.Proofs.Machine.Course

/-!
# Calls do not see the rest of the memory

A call gives the same on a machine that has been used as on a fresh one that holds only what its
arguments point to: it cannot reach the rest of the memory, and what it records is appended. Only the
limit can make a difference, since the blocks entered before count as well.
-/

namespace Shader

open Outcome

namespace Machine

/-- **A machine within another one.** The memory of `m` is part of that of `M`, at the places that `ρ`
says, and what `m` has recorded comes after what `base` has. -/
structure Placed (ρ : Nat → Nat) (base m M : Machine) : Prop where
  memory : base.memory.Placed ρ m.memory M.memory
  executed : M.executed = base.executed ++ m.executed
  calls : M.calls = base.calls ++ m.calls

/-- A machine within another one, which may hit the limit on its own. -/
def placing (limit : Nat) (ρ : Nat → Nat) (base : Machine) : Pairing Unit where
  le _ _ := True
  pair _ m M := Placed ρ base m M
  moves _ := {ρ}
  counts _ n n' := n' ≤ n
  stops e := e = .stepLimit limit

variable {limit limit' : Nat} {ρ : Nat → Nat} {base : Machine}

/-- The steps on the larger machine do what those on the smaller one do. -/
theorem steps_placing {α : Type} {g : (Nat → Nat) → α → α} {x y : RunM α}
    (h : ∀ m M, Placed ρ base m M →
      (y M).1 = (x m).1.map (g ρ) ∧ Placed ρ base (x m).2 (y M).2) :
    (placing limit ρ base).Steps () g x y :=
  fun m M hp => .inr ⟨(), True.intro, (h m M hp).2, fun _ hρ => hρ ▸ (h m M hp).1⟩

/-- A limit that is hit ends a run for good, so it needs no more than one clause. -/
theorem sound_placing (hlimit : limit ≤ base.executed.size + limit') :
    (placing limit ρ base).Sound limit' limit where
  refl _ := True.intro
  trans _ _ := True.intro
  anti _ := fun _ hρ => hρ
  nonempty _ := ⟨ρ, rfl⟩
  allocate {_ v _} hv := steps_placing fun m M hp => by
    obtain rfl := hv ρ rfl
    refine ⟨?_, hp.memory.push v, hp.executed, hp.calls⟩
    unfold allocate
    rw [modifyGet_apply, modifyGet_apply]
    dsimp only
    rw [show M.memory.size = ρ m.memory.size from (hp.memory.next 0).symm]
    rfl
  read {_ p _} hp' := steps_placing fun m M hp => by
    obtain rfl := hp' ρ rfl
    rw [bind_apply, bind_apply]
    dsimp only [get_apply]
    rw [lift_apply, lift_apply]
    cases p with
    | pointer p =>
      rw [Value.move_pointer]
      unfold read
      dsimp only
      rw [hp.memory.read?]
      cases m.memory.read? p with
      | none => exact ⟨rfl, hp⟩
      | some v => exact ⟨rfl, hp⟩
    | _ => exact ⟨rfl, hp⟩
  write {_ p _ v _} hp' hv := steps_placing fun m M hp => by
    obtain rfl := hp' ρ rfl
    obtain rfl := hv ρ rfl
    cases p with
    | pointer p =>
      rw [Value.move_pointer]
      unfold write
      dsimp only
      rw [Memory.write?_eq, Memory.write?_eq, hp.memory.read?]
      cases m.memory.read? p with
      | none => exact ⟨rfl, hp⟩
      | some _ => exact ⟨rfl, hp.memory.write p v, hp.executed, hp.calls⟩
    | _ => exact ⟨rfl, hp⟩
  record _ f := steps_placing fun m M hp => ⟨rfl, hp.memory, hp.executed, by
    rw [modify_apply, modify_apply, hp.calls, Array.push_append]⟩
  tick f b h := fun m M hp => by
    have hsize : M.executed.size = base.executed.size + m.executed.size := by
      rw [hp.executed, Array.size_append]
    rw [bind_apply, bind_apply, tick_apply, tick_apply]
    -- the machine that has run before is the first to hit its limit
    by_cases hM : limit ≤ M.executed.size
    · rw [if_pos hM]
      exact .inl ⟨_, _, rfl, rfl⟩
    · rw [if_neg hM, if_neg (by omega)]
      refine h () True.intro (fun _ _ => Nat.le_of_succ_le_succ) _ _
        ⟨hp.memory, ?_, hp.calls⟩
      rw [hp.executed, Array.push_append]
  counts hn := hn
  later _ hn := hn
  spent _ _ _ _ _ := fun _ _ _ => .inl ⟨_, _, rfl, rfl⟩

/-- A call with a count of the blocks that it can still enter. -/
theorem callWithin_placed (root : Library) {n n' : Nat} (hn : n ≤ n') (f : FunctionRef)
    (vs : List Value) {m M : Machine} (hp : Placed ρ base m M)
    (hlimit : limit ≤ base.executed.size + limit') :
    (∃ M', callWithin root limit n f (vs.map (Value.move ρ)) M = (.error (.stepLimit limit), M')) ∨
    (callWithin root limit n f (vs.map (Value.move ρ)) M).1 =
        (callWithin root limit' n' f vs m).1.map (Option.map (Value.move ρ)) ∧
      Placed ρ base (callWithin root limit' n' f vs m).2
        (callWithin root limit n f (vs.map (Value.move ρ)) M).2 := by
  have hvs : (placing limit ρ base).Moved () (fun ρ => List.map (Value.move ρ)) vs
      (vs.map (Value.move ρ)) := by
    rintro _ rfl
    rfl
  rcases (sound_placing hlimit).callWithin hn hvs root f m M hp with
    ⟨_, M', hstop, rfl⟩ | ⟨_, _, hp', hresult⟩
  · exact .inl ⟨M', hstop⟩
  · exact .inr ⟨hresult ρ rfl, hp'⟩

/-- **Calls do not see the rest of the memory.** A call on the larger machine either hits the limit,
or it does what it does on the smaller one, if the limit there is large enough. -/
theorem call_placed (root : Library) (f : FunctionRef) (vs : List Value) {m M : Machine}
    (hp : Placed ρ base m M) (hlimit : limit ≤ base.executed.size + limit') :
    (∃ M', Machine.call root limit f (vs.map (Value.move ρ)) M = (.error (.stepLimit limit), M')) ∨
    (Machine.call root limit f (vs.map (Value.move ρ)) M).1 =
        (Machine.call root limit' f vs m).1.map (Option.map (Value.move ρ)) ∧
      Placed ρ base (Machine.call root limit' f vs m).2
        (Machine.call root limit f (vs.map (Value.move ρ)) M).2 := by
  have hsize : M.executed.size = base.executed.size + m.executed.size := by
    rw [hp.executed, Array.size_append]
  have hcount : limit - M.executed.size ≤ limit' - m.executed.size := by omega
  have h := callWithin_placed root hcount f vs hp hlimit
  rwa [← call_eq_callWithin root limit _ _ (Nat.le_refl _),
    ← call_eq_callWithin root limit' _ _ (Nat.le_refl _)] at h

end Machine

end Shader
