import Shader.Machine.Run
import Shader.Proofs.Machine.Focus

/-!
# The laws of memory

What a write through one pointer does to what is read through another (`Machine.write_lawful`). The two
may name the same place, one of them a part of what the other names, or places apart from each other.
-/

namespace Shader

namespace Value

/-- `x'` is `x` with the component at a path, and no other, replaced by `y`. -/
inductive Replaced (y : Value) : List Nat → Value → Value → Prop
  | here (x : Value) : Replaced y [] x y
  | inside {vs : List Value} {i : Nat} {path : List Nat} {x x' : Value} (hi : vs[i]? = some x)
    (h : Replaced y path x x') : Replaced y (i :: path) (.composite vs) (.composite (vs.set i x'))

variable {path : List Nat} {x x' y : Value}

theorem replaced_of_set? (h : x.set? path y = some x') : Replaced y path x x' := by
  induction path generalizing x x' with
  | nil =>
    rw [set?] at h
    exact Option.some.inj h ▸ .here x
  | cons i path ih =>
    cases x with
    | composite vs =>
      rw [set?] at h
      cases hi : vs[i]? with
      | none =>
        rw [hi] at h
        cases h
      | some u =>
        rw [hi] at h
        obtain ⟨u', hu', rfl⟩ := Option.map_eq_some_iff.mp h
        exact .inside hi (ih hu')
    | _ => cases h

/-- Replacing a proper part of a composite leaves a composite of the same length. -/
theorem Replaced.length {vs : List Value} (h : Replaced y path (.composite vs) x')
    (hpath : path ≠ []) :
    ∃ vs', x' = .composite vs' ∧ vs'.length = vs.length := by
  cases h with
  | here => exact absurd rfl hpath
  | inside hi h => exact ⟨_, rfl, List.length_set⟩

/-- **Components apart.** Replacing a component leaves alone the ones whose paths diverge from its
own. -/
theorem Replaced.get?_of_apart (h : Replaced y path x x') {other : List Nat}
    (hout : ¬ path <+: other) (hin : ¬ other <+: path) : x'.get? other = x.get? other := by
  induction h generalizing other with
  | here => exact absurd List.nil_prefix hout
  | @inside vs i path x x' hi _ ih =>
    -- the paths take the same way up to where they diverge
    cases other with
    | nil => exact absurd List.nil_prefix hin
    | cons j other =>
      rw [get?, get?]
      by_cases hij : i = j
      · subst hij
        rw [List.cons_prefix_cons, not_and] at hout hin
        rw [List.getElem?_set_self (List.getElem?_eq_some_iff.mp hi).1, hi]
        exact ih (hout rfl) (hin rfl)
      · rw [List.getElem?_set_ne hij]

end Value

/-- Two places of which neither is a part of the other. -/
def Pointer.Apart (p q : Pointer) : Prop :=
  p.slot ≠ q.slot ∨ ¬ p.path <+: q.path ∧ ¬ q.path <+: p.path

namespace Memory

variable {m : Memory} {p q : Pointer} {x : Value}

theorem read?_write_of_apart (hx : m.read? p = some x) (y : Value) (h : p.Apart q) :
    (m.write p y).read? q = m.read? q := by
  obtain ⟨v, hv, hget⟩ := exists_slot hx
  obtain ⟨v', hset, -⟩ := Value.exists_set? hget y
  rw [write_eq hv hset, read?, read?]
  by_cases hslot : p.slot = q.slot
  · obtain ⟨hout, hin⟩ := h.resolve_left (absurd hslot)
    rw [← hslot, Array.getElem?_setIfInBounds_self_of_lt (Array.getElem?_eq_some_iff.mp hv).1, hv]
    exact (Value.replaced_of_set? hset).get?_of_apart hout hin
  · rw [Array.getElem?_setIfInBounds_ne hslot]

/-- Writing a part of a value replaces exactly this part of it. -/
theorem read?_write_part {more : List Nat} (hx : m.read? (q.part more) = some x) (y : Value) :
    ∃ z z', m.read? q = some z ∧ Value.Replaced y more z z' ∧
      (m.write (q.part more) y).read? q = some z' := by
  obtain ⟨v, hv, hget⟩ := exists_slot hx
  obtain ⟨z, hz, hpart⟩ : ∃ z, v.get? q.path = some z ∧ z.get? more = some x :=
    Option.bind_eq_some_iff.mp ((v.get?_append q.path more).symm.trans hget)
  have hread : m.read? q = some z := by
    have hslot : m[q.slot]? = some v := hv
    rw [read?, hslot]
    exact hz
  obtain ⟨z', hset, -⟩ := Value.exists_set? hpart y
  refine ⟨z, z', hread, Value.replaced_of_set? hset, ?_⟩
  rw [write_part hread hset]
  exact read?_write hread z'

/-- A composite that does not lie in the place of a write keeps its length. -/
theorem length_write (hx : m.read? p = some x) (y : Value)
    (hq : ¬ (p.slot = q.slot ∧ p.path <+: q.path)) {vs : List Value}
    (hvs : m.read? q = some (.composite vs)) :
    ∃ vs', (m.write p y).read? q = some (.composite vs') ∧ vs'.length = vs.length := by
  by_cases haround : p.slot = q.slot ∧ q.path <+: p.path
  · obtain ⟨hslot, more, hmore⟩ := haround
    obtain rfl : p = q.part more := by rw [Pointer.part, hmore, ← hslot]
    obtain ⟨z, z', hz, hreplaced, hz'⟩ := read?_write_part hx y
    cases hvs.symm.trans hz
    have hproper : more ≠ [] := by
      rintro rfl
      exact hq ⟨rfl, [], by simp [Pointer.part]⟩
    obtain ⟨vs', rfl, hlength⟩ := hreplaced.length hproper
    exact ⟨vs', hz', hlength⟩
  · refine ⟨vs, (read?_write_of_apart hx y ?_).trans hvs, rfl⟩
    by_cases hslot : p.slot = q.slot
    · exact .inr ⟨fun hout => hq ⟨hslot, hout⟩, fun hin => haround ⟨hslot, hin⟩⟩
    · exact .inl hslot

end Memory

namespace Machine

variable {m : Machine} {p : Pointer} {x : Value}

theorem read_eq (m : Machine) (p : Pointer) :
    m.read (.pointer p) = (m.memory.read? p).elim (.error .invalidPointer) .ok := by
  unfold read
  cases h : m.memory.read? p <;> simp [h]

theorem read_eq_ok : m.read (.pointer p) = .ok x ↔ m.memory.read? p = some x := by
  rw [read_eq]
  cases m.memory.read? p <;> simp

theorem write_of_read (h : m.memory.read? p = some x) (v : Value) :
    write (.pointer p) v m = (.ok (), { m with memory := m.memory.write p v }) := by
  unfold write
  dsimp only
  rw [Memory.write?_eq, h]
  rfl

theorem write_of_none (h : m.memory.read? p = none) (v : Value) :
    write (.pointer p) v m = (.error .invalidPointer, m) := by
  unfold write
  dsimp only
  rw [Memory.write?_eq, h]
  rfl

/-- **Memory obeys the laws of places.** A write succeeds exactly where a read does, and changes
nothing if it fails. After it the new value is read at its place and its components at the parts of
this place; places apart from it read as before; in a value around it exactly the component there is
replaced. No slot is added, and no composite but the replaced one changes its length. Writing what was
read changes nothing. -/
theorem write_lawful (m : Machine) (p : Pointer) (v : Value) :
    ((write (.pointer p) v m).1 = .ok () ↔ ∃ x, m.read (.pointer p) = .ok x) ∧
    (∀ e m', write (.pointer p) v m = (.error e, m') → e = .invalidPointer ∧ m' = m) ∧
    (∀ m', write (.pointer p) v m = (.ok (), m') →
      m'.read (.pointer p) = .ok v ∧
      (∀ more, m'.read (.pointer (p.part more)) =
        (v.get? more).elim (.error .invalidPointer) .ok) ∧
      (∀ q, p.Apart q → m'.read (.pointer q) = m.read (.pointer q)) ∧
      (∀ q more, more ≠ [] → p = q.part more → ∃ z z', m.read (.pointer q) = .ok z ∧
        Value.Replaced v more z z' ∧ m'.read (.pointer q) = .ok z') ∧
      m'.memory.size = m.memory.size ∧
      (∀ q vs, ¬ (p.slot = q.slot ∧ p.path <+: q.path) → m.read (.pointer q) = .ok (.composite vs) →
        ∃ vs', m'.read (.pointer q) = .ok (.composite vs') ∧ vs'.length = vs.length) ∧
      m'.executed = m.executed ∧ m'.calls = m.calls) ∧
    ∀ x, m.read (.pointer p) = .ok x → write (.pointer p) x m = (.ok (), m) := by
  cases hx : m.memory.read? p with
  | none =>
    have hwrite := write_of_none hx v
    have hread : ∀ x, m.read (.pointer p) ≠ .ok x := fun x h => by
      rw [read_eq_ok.mp h] at hx
      cases hx
    refine ⟨⟨fun h => ?_, fun ⟨x, h⟩ => absurd h (hread x)⟩, fun e m' h => ?_, fun m' h => ?_,
      fun x h => absurd h (hread x)⟩
    · rw [hwrite] at h
      cases h
    · rw [hwrite] at h
      cases h
      exact ⟨rfl, rfl⟩
    · rw [hwrite] at h
      cases h
  | some x =>
    have hwrite := write_of_read hx v
    refine ⟨⟨fun _ => ⟨x, read_eq_ok.mpr hx⟩, fun _ => by rw [hwrite]⟩, fun e m' h => ?_,
      fun m' h => ?_, fun y h => ?_⟩
    · rw [hwrite] at h
      cases h
    · rw [hwrite] at h
      cases h
      have hself := Memory.read?_write hx v
      refine ⟨read_eq_ok.mpr hself, fun more => ?_, fun q hq => ?_, ?_, Array.size_modify,
        fun q vs hq hvs => ?_, rfl, rfl⟩
      · rw [read_eq, Memory.read?_part hself]
      · rw [read_eq, read_eq, Memory.read?_write_of_apart hx v hq]
      · rintro q more - rfl
        obtain ⟨z, z', hz, hreplaced, hz'⟩ := Memory.read?_write_part hx v
        exact ⟨z, z', read_eq_ok.mpr hz, hreplaced, read_eq_ok.mpr hz'⟩
      · obtain ⟨vs', hvs', hlength⟩ := Memory.length_write hx v hq (read_eq_ok.mp hvs)
        exact ⟨vs', read_eq_ok.mpr hvs', hlength⟩
    · have hy := read_eq_ok.mp h
      rw [write_of_read hy, Memory.write_read? hy]

/-- Two slots, the first of which holds a composite within a composite. -/
def nestedSlots : Machine where
  memory := #[.composite [.int 1, .composite [.int 2, .int 3]], .bool false]

theorem write_lawful_nestedSlots :
    ∃ m', write (.pointer ⟨0, [1, 0]⟩) (.composite [.bool true]) nestedSlots = (.ok (), m') ∧
      m'.read (.pointer ⟨0, [1, 0, 0]⟩) = .ok (.bool true) ∧
      m'.read (.pointer ⟨0, [1, 1]⟩) = .ok (.int 3) ∧ m'.read (.pointer ⟨1, []⟩) = .ok (.bool false) ∧
      (∃ z', Value.Replaced (.composite [.bool true]) [1, 0]
        (.composite [.int 1, .composite [.int 2, .int 3]]) z' ∧ m'.read (.pointer ⟨0, []⟩) = .ok z') ∧
      ∃ vs', m'.read (.pointer ⟨0, [1]⟩) = .ok (.composite vs') ∧ vs'.length = 2 := by
  obtain ⟨-, -, hafter, -⟩ := write_lawful nestedSlots ⟨0, [1, 0]⟩ (.composite [.bool true])
  obtain ⟨-, hparts, hapart, haround, -, hlength, -⟩ := hafter _ rfl
  obtain ⟨z, z', hz, hreplaced, hz'⟩ := haround ⟨0, []⟩ [1, 0] (by decide) rfl
  cases hz
  exact ⟨_, rfl, hparts [0], hapart ⟨0, [1, 1]⟩ (by unfold Pointer.Apart; decide),
    hapart ⟨1, []⟩ (by unfold Pointer.Apart; decide), ⟨z', hreplaced, hz'⟩,
    hlength ⟨0, [1]⟩ _ (by decide) rfl⟩

end Machine

end Shader
