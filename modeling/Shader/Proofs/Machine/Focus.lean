import Shader.Machine.Memory

/-!
# Reading and writing parts of values

A place in memory is a slot and a path into the value there. These are the laws of such places: what is
written is read back, a later write replaces an earlier one, and to write a part of a value is to write
the value with that part replaced.
-/

namespace Shader

namespace Value

theorem get?_append (v : Value) (path more : List Nat) :
    v.get? (path ++ more) = (v.get? path).bind (Value.get? · more) := by
  induction path generalizing v with
  | nil => rfl
  | cons i path ih =>
    cases v with
    | composite vs =>
      simp only [List.cons_append, get?]
      cases vs[i]? with
      | none => rfl
      | some x => exact ih x
    | _ => rfl

variable {path : List Nat} {v x : Value}

/-- To replace a part of a component is to replace the component. -/
theorem set?_append (hx : v.get? path = some x) (more : List Nat) (y : Value) :
    v.set? (path ++ more) y = (x.set? more y).bind (v.set? path ·) := by
  induction path generalizing v with
  | nil =>
    obtain rfl : v = x := Option.some.inj hx
    have hset : (fun y => v.set? [] y) = some := funext fun _ => by simp only [set?]
    rw [hset, Option.bind_fun_some, List.nil_append]
  | cons i path ih =>
    cases v with
    | composite vs =>
      simp only [List.cons_append, get?, set?] at hx ⊢
      cases hi : vs[i]? with
      | none =>
        rw [hi] at hx
        nomatch hx
      | some u =>
        rw [hi] at hx
        dsimp only at hx ⊢
        rw [ih hx]
        cases x.set? more y with
        | none => rfl
        | some _ => rfl
    | _ => nomatch hx

/-- A component can be replaced, and then it is the new one, which can be replaced in turn. -/
theorem exists_set? (hx : v.get? path = some x) (y : Value) :
    ∃ v', v.set? path y = some v' ∧ v'.get? path = some y ∧ ∀ z, v'.set? path z = v.set? path z := by
  induction path generalizing v with
  | nil => exact ⟨y, by simp only [set?], by simp only [get?], fun z => by simp only [set?]⟩
  | cons i path ih =>
    cases v with
    | composite vs =>
      simp only [get?, set?] at hx ⊢
      cases hi : vs[i]? with
      | none =>
        rw [hi] at hx
        nomatch hx
      | some u =>
        rw [hi] at hx
        obtain ⟨u', hset, hget, hagain⟩ := ih hx
        have hlt : i < vs.length := (List.getElem?_eq_some_iff.mp hi).1
        refine ⟨.composite (vs.set i u'), by dsimp only; rw [hset]; rfl, ?_, fun z => ?_⟩
        · simp only [get?, List.getElem?_set_self hlt]
          exact hget
        · simp only [set?, List.getElem?_set_self hlt, List.set_set]
          rw [hagain]
    | _ => nomatch hx

/-- What can be replaced is what is there. -/
theorem isSome_set? (v : Value) (path : List Nat) (y : Value) :
    (v.set? path y).isSome = (v.get? path).isSome := by
  induction path generalizing v with
  | nil => simp only [set?, get?, Option.isSome_some]
  | cons i path ih =>
    cases v with
    | composite vs =>
      simp only [get?, set?]
      cases vs[i]? with
      | none => rfl
      | some u => exact Option.isSome_map.trans (ih u)
    | _ => rfl

/-- A component can be replaced by itself. -/
theorem set?_get? (hx : v.get? path = some x) : v.set? path x = some v := by
  induction path generalizing v with
  | nil =>
    obtain rfl : v = x := Option.some.inj hx
    simp only [set?]
  | cons i path ih =>
    cases v with
    | composite vs =>
      simp only [get?, set?] at hx ⊢
      cases hi : vs[i]? with
      | none =>
        rw [hi] at hx
        nomatch hx
      | some u =>
        rw [hi] at hx
        obtain ⟨hlt, rfl⟩ := List.getElem?_eq_some_iff.mp hi
        dsimp only at hx ⊢
        rw [ih hx, Option.map_some, List.set_getElem_self]
    | _ => nomatch hx

end Value

/-- The place of a part of what a pointer names. -/
def Pointer.part (p : Pointer) (more : List Nat) : Pointer := ⟨p.slot, p.path ++ more⟩

namespace Memory

variable {m : Memory} {p : Pointer} {x : Value}

theorem exists_slot (hx : m.read? p = some x) :
    ∃ v, m[p.slot]? = some v ∧ v.get? p.path = some x := by
  unfold read? at hx
  cases hv : m[p.slot]? with
  | none =>
    rw [hv] at hx
    nomatch hx
  | some v =>
    rw [hv] at hx
    exact ⟨v, rfl, hx⟩

/-- Memory with the value that a pointer names replaced; a pointer that names nothing changes
nothing. -/
def write (m : Memory) (p : Pointer) (new : Value) : Memory :=
  m.modify p.slot fun v => (v.set? p.path new).getD v

/-- Memory with the value in a slot replaced. -/
theorem write_eq {v v' y : Value} (hv : m[p.slot]? = some v) (hset : v.set? p.path y = some v') :
    m.write p y = m.setIfInBounds p.slot v' := by
  refine Array.ext_getElem? fun i => ?_
  rw [write, Array.getElem?_modify, Array.getElem?_setIfInBounds]
  obtain ⟨hlt, -⟩ := Array.getElem?_eq_some_iff.mp hv
  by_cases hi : p.slot = i
  · subst hi
    rw [if_pos rfl, if_pos rfl, if_pos hlt, hv, Option.map_some, hset]
    rfl
  · rw [if_neg hi, if_neg hi]

/-- **A write succeeds exactly where a read does.** -/
theorem write?_eq (m : Memory) (p : Pointer) (y : Value) :
    m.write? p y = (m.read? p).map fun _ => m.write p y := by
  unfold write? read?
  cases hv : m[p.slot]? with
  | none => rfl
  | some v =>
    dsimp only
    have hsome := v.isSome_set? p.path y
    cases hget : v.get? p.path with
    | none =>
      rw [hget] at hsome
      rw [Option.not_isSome_iff_eq_none.mp (ne_true_of_eq_false hsome)]
      rfl
    | some x =>
      obtain ⟨v', hset, -⟩ := Value.exists_set? hget y
      rw [write_eq hv hset, hset]
      rfl

section

variable (hx : m.read? p = some x)
include hx

/-- What is written is read back. -/
theorem read?_write (y : Value) : (m.write p y).read? p = some y := by
  obtain ⟨v, hv, hget⟩ := exists_slot hx
  obtain ⟨v', hset, hget', -⟩ := Value.exists_set? hget y
  obtain ⟨hlt, -⟩ := Array.getElem?_eq_some_iff.mp hv
  rw [write_eq hv hset, read?, Array.getElem?_setIfInBounds_self_of_lt hlt]
  exact hget'

/-- A later write replaces an earlier one. -/
theorem write_write (y z : Value) :
    (m.write p y).write p z = m.write p z := by
  obtain ⟨v, hv, hget⟩ := exists_slot hx
  obtain ⟨v', hset, -, hagain⟩ := Value.exists_set? hget y
  obtain ⟨v'', hset'', -⟩ := Value.exists_set? hget z
  obtain ⟨hlt, -⟩ := Array.getElem?_eq_some_iff.mp hv
  have hv' : (m.setIfInBounds p.slot v')[p.slot]? = some v' :=
    Array.getElem?_setIfInBounds_self_of_lt hlt
  rw [write_eq hv hset, write_eq hv' ((hagain z).trans hset''), write_eq hv hset'',
    Array.setIfInBounds_setIfInBounds]

/-- Writing what is there changes nothing. -/
theorem write_read? : m.write p x = m := by
  obtain ⟨v, hv, hget⟩ := exists_slot hx
  rw [write_eq hv (Value.set?_get? hget)]
  obtain ⟨hlt, rfl⟩ := Array.getElem?_eq_some_iff.mp hv
  rw [Array.setIfInBounds_def, dif_pos hlt, Array.set_getElem_self]

theorem read?_part (more : List Nat) :
    m.read? (p.part more) = x.get? more := by
  obtain ⟨v, hv, hget⟩ := exists_slot hx
  rw [read?, Pointer.part, hv]
  dsimp only
  rw [Value.get?_append, hget, Option.bind_some]

/-- To write a part of a value is to write the value with this part replaced. -/
theorem write_part {more : List Nat} {y x' : Value} (hset : x.set? more y = some x') :
    m.write (p.part more) y = m.write p x' := by
  obtain ⟨v, hv, hget⟩ := exists_slot hx
  obtain ⟨v', hset', -⟩ := Value.exists_set? hget x'
  have hpart : v.set? (p.part more).path y = some v' := by
    rw [Pointer.part, Value.set?_append hget, hset, Option.bind_some, hset']
  rw [write_eq hv hset', write_eq (p := p.part more) hv hpart]
  rfl

end

end Memory

end Shader
