import Shader.Library.Search
import Mathlib.Logic.Basic

/-!
# The libraries behind a library

A look-up goes through a library and everything it depends on. `Library.Within` is membership in
that collection, and the look-ups are described by it alone:

* `Library.exists_within_of_search?` — an answer is the own answer of some library within.
* `Library.within_of_search?_eq_none` — if there is no answer, no library within has one of its own.
-/

namespace Shader

/-- What a look-up in a table finds is an entry of the table. -/
theorem mem_of_lookup_eq_some {κ α : Type} [BEq κ] [LawfulBEq κ] {table : List (κ × α)} {key : κ}
    {a : α} (h : table.lookup key = some a) : (key, a) ∈ table := by
  obtain ⟨l₁, l₂, rfl, -⟩ := List.lookup_eq_some_iff.mp h
  exact List.mem_append_right l₁ List.mem_cons_self

namespace Library

/-- A library is within another one if it is that library or within one of its dependencies. -/
inductive Within (m : Library) : Library → Prop
  | self : Within m m
  | dependency {l d : Library} (hd : d ∈ l.dependencies) (h : Within m d) : Within m l

variable {α : Type} {own : Library → Option α} {a : α}

theorem search?_eq (l : Library) :
    l.search? own = match own l with
      | some a => some a
      | none => searchAll? own l.dependencies := by
  cases l
  unfold search?
  rfl

variable {l : Library}

theorem search?_of_own (h : own l = some a) : l.search? own = some a := by
  rw [search?_eq, h]

theorem search?_of_none (h : own l = none) :
    l.search? own = searchAll? own l.dependencies := by
  rw [search?_eq, h]

/-- Only the own answer of a library and its dependencies make a difference. -/
theorem search?_congr {l' : Library} (hown : own l' = own l)
    (hdependencies : l'.dependencies = l.dependencies) : l'.search? own = l.search? own := by
  rw [search?_eq, search?_eq, hown, hdependencies]

mutual

theorem exists_within_of_search? :
    ∀ l : Library, l.search? own = some a →
    ∃ m : Library, m.Within l ∧ own m = some a
  | ⟨_, _, _, _, _, _, dependencies, _, _, _, _⟩, h => by
    rw [search?] at h
    split at h
    · next b hb =>
      exact ⟨_, .self, hb.trans h⟩
    · obtain ⟨d, hd, m, hm, ha⟩ := exists_within_of_searchAll? dependencies h
      exact ⟨m, .dependency hd hm, ha⟩

/-- An answer of the first library that has one comes from within one of them. -/
theorem exists_within_of_searchAll? : ∀ ls : List Library, searchAll? own ls = some a →
    ∃ d ∈ ls, ∃ m : Library, m.Within d ∧ own m = some a
  | [], h => nomatch h
  | l :: ls, h => by
    rw [searchAll?] at h
    split at h
    · next b hb =>
      obtain ⟨m, hm, ha⟩ := exists_within_of_search? l (hb.trans h)
      exact ⟨l, List.mem_cons_self, m, hm, ha⟩
    · obtain ⟨d, hd, hm⟩ := exists_within_of_searchAll? ls h
      exact ⟨d, List.mem_cons_of_mem l hd, hm⟩

end

theorem searchAll?_eq_none {ls : List Library} (h : searchAll? own ls = none) :
    ∀ l ∈ ls, l.search? own = none := by
  induction ls with
  | nil => exact nofun
  | cons l ls ih =>
    rw [searchAll?] at h
    split at h
    · cases h
    · next hl =>
      intro d hd
      rcases List.mem_cons.mp hd with rfl | hd
      · exact hl
      · exact ih h d hd

theorem within_of_search?_eq_none {m : Library} (hm : m.Within l) (h : l.search? own = none) :
    own m = none := by
  induction hm with
  | self =>
    rw [search?_eq] at h
    split at h
    · cases h
    · next hn => exact hn
  | @dependency l d hd _ ih =>
    rw [search?_eq] at h
    split at h
    · cases h
    · exact ih (searchAll?_eq_none h d hd)

variable {l l' : Library} {f : FunctionRef} {r : Routine}

/-- Only functions of a library have a body in it. -/
theorem library_of_routine? (h : l.routine? f = some r) : f.library = l.id := by
  unfold routine? at h
  split at h
  · assumption
  · cases h

theorem resolveRoutine?_eq (l : Library) (f : FunctionRef) :
    l.resolveRoutine? f =
      if f.library = l.id then l.routine? f else resolveRoutineAll? l.dependencies f := by
  cases l
  unfold resolveRoutine?
  rfl

theorem resolveRoutine?_of_own (h : l.routine? f = some r) : l.resolveRoutine? f = some r := by
  rw [resolveRoutine?_eq, if_pos (library_of_routine? h), h]

theorem resolveRoutine?_congr (hid : l'.id = l.id) (hdependencies : l'.dependencies = l.dependencies)
    (hown : f.library = l.id → l'.routine? f = l.routine? f) :
    l'.resolveRoutine? f = l.resolveRoutine? f := by
  rw [resolveRoutine?_eq, resolveRoutine?_eq, hid, hdependencies]
  split
  · next heq => exact hown heq
  · rfl

/-- A library whose number cannot be found is not within. -/
theorem Within.id_ne {m : Library} {id : LibraryId} (hm : m.Within l)
    (h : l.findLibrary? id = none) : m.id ≠ id := by
  have hn := within_of_search?_eq_none hm h
  intro hid
  rw [if_pos hid] at hn
  nomatch hn

theorem findLibrary?_eq_none {id : LibraryId}
    (h : ∀ m : Library, m.Within l → m.id ≠ id) : l.findLibrary? id = none := by
  refine Option.eq_none_iff_forall_ne_some.mpr fun k hk => ?_
  obtain ⟨m, hm, heq⟩ := exists_within_of_search? l hk
  rw [if_neg (h m hm)] at heq
  nomatch heq

end Library

end Shader
