import Mathlib.Order.Lattice.Nat
import Shader.Project
import Shader.Proofs.Scoping.Safety

/-!
# Flattened dependencies

Flattening goes through a queue to whose end every library that is taken sends its dependencies, so
that a library may wait there many times. What comes out has a description without a queue: the
libraries behind the roots, each once, nearest first.

* `Library.flatten_resolves` — **flattening does not change what is found.** A look-up goes down before
  it goes on to the next dependency, but then the roots come first in what has been flattened, and
  everything else is behind them.
-/

namespace Shader

namespace Library

variable {roots taken near far queue ls : List Library} {l m : Library} {k : Nat}

/-! ### What is collected -/

/-- **What flattening collects.** All that has been taken and one library for each number that waits.
What is new comes from behind those that wait, with its own dependencies. -/
theorem flattenFrom_collects (h : flattenFrom taken queue = .ok ls) :
    (∀ l ∈ taken, l ∈ ls) ∧ (∀ l ∈ queue, ∃ m ∈ ls, m.id = l.id) ∧
      ∀ l ∈ ls, l ∈ taken ∨
        (∃ q ∈ queue, l.Within q) ∧ ∀ d ∈ l.dependencies, ∃ m ∈ ls, m.id = d.id := by
  fun_induction flattenFrom taken queue with
  | case1 taken =>
    cases h
    exact ⟨fun _ hl => hl, nofun, fun l hl => .inl hl⟩
  | case2 taken l queue htaken ih =>
    obtain ⟨hkept, hqueue, hnew⟩ := ih h
    refine ⟨hkept, List.forall_mem_cons.mpr ⟨?_, hqueue⟩, fun m hm => ?_⟩
    · obtain ⟨m, hm, hid⟩ := List.any_eq_true.mp htaken
      exact ⟨m, hkept m hm, of_decide_eq_true hid⟩
    · refine (hnew m hm).imp_right fun ⟨⟨q, hq, hwithin⟩, hdependencies⟩ => ⟨⟨q, ?_, hwithin⟩, ?_⟩
      · exact List.mem_cons_of_mem _ hq
      · exact hdependencies
  | case3 taken l queue _ _ ih =>
    obtain ⟨hkept, hqueue, hnew⟩ := ih h
    have hl : l ∈ ls := hkept l (List.mem_append_right _ List.mem_cons_self)
    refine ⟨fun m hm => hkept m (List.mem_append_left _ hm), ?_, fun m hm => ?_⟩
    · exact List.forall_mem_cons.mpr
        ⟨⟨l, hl, rfl⟩, fun q hq => hqueue q (List.mem_append_left _ hq)⟩
    · rcases hnew m hm with hold | ⟨⟨q, hq, hwithin⟩, hdependencies⟩
      · rcases List.mem_append.mp hold with hold | hself
        · exact .inl hold
        · obtain rfl := List.mem_singleton.mp hself
          exact .inr ⟨⟨m, List.mem_cons_self, .self⟩,
            fun d hd => hqueue d (List.mem_append_right _ hd)⟩
      · rcases List.mem_append.mp hq with hq | hq
        · exact .inr ⟨⟨q, List.mem_cons_of_mem _ hq, hwithin⟩, hdependencies⟩
        · exact .inr ⟨⟨l, List.mem_cons_self, .dependency hq hwithin⟩, hdependencies⟩
  | case4 => nomatch h

/-- Flattened libraries come from behind the roots. -/
theorem flatten_within (h : flatten roots = .ok ls) (hl : l ∈ ls) : ∃ root ∈ roots, l.Within root :=
  (((flattenFrom_collects h).2.2 l hl).resolve_left (List.not_mem_nil)).1

/-- **Flattened dependencies are closed.** Whatever is behind one of them is one of them. -/
theorem flatten_closed (hroots : CoherentAll roots) (h : flatten roots = .ok ls) (hl : l ∈ ls)
    (hm : m.Within l) : m ∈ ls := by
  induction hm with
  | self => exact hl
  | @dependency l d hd _ ih =>
    -- a library with the number of the dependency has been taken, and there is only one
    obtain ⟨root, hroot, hwithin⟩ := flatten_within h hl
    obtain ⟨d', hd', hid⟩ :=
      (((flattenFrom_collects h).2.2 l hl).resolve_left (List.not_mem_nil)).2 d hd
    obtain ⟨root', hroot', hwithin'⟩ := flatten_within h hd'
    have heq := hroots root' hroot' root hroot d' d hwithin'
      (hwithin.trans (.dependency hd .self)) hid
    exact ih (heq ▸ hd')

/-- The core library and a library on top of it are flat already. -/
theorem flatten_core {id : LibraryId} (hl : l.dependencies = [Core.library id])
    (hne : l.id ≠ id) (hcomplete : l.complete = true) :
    flatten [Core.library id, l] = .ok [Core.library id, l] := by
  simp [flatten, flattenFrom, hl, hcomplete, hne.symm, Core.library]

/-- **Exactly what is behind the roots** is collected. -/
theorem mem_flatten_iff (hroots : CoherentAll roots) (h : flatten roots = .ok ls) :
    m ∈ ls ↔ ∃ root ∈ roots, m.Within root := by
  refine ⟨flatten_within h, fun ⟨root, hroot, hm⟩ => ?_⟩
  obtain ⟨root', hroot', hid⟩ := (flattenFrom_collects h).2.1 root hroot
  obtain ⟨_, hmem, hwithin⟩ := flatten_within h hroot'
  obtain rfl := hroots _ hmem root hroot root' root hwithin .self hid
  exact flatten_closed hroots h hroot' hm

/-- What is taken is complete and has a number of its own. -/
theorem flattenFrom_complete (h : flattenFrom taken queue = .ok ls)
    (hcomplete : ∀ l ∈ taken, l.complete = true) (hids : (taken.map id).Nodup) :
    (∀ l ∈ ls, l.complete = true) ∧ (ls.map id).Nodup := by
  fun_induction flattenFrom taken queue with
  | case1 taken =>
    cases h
    exact ⟨hcomplete, hids⟩
  | case2 taken l queue _ ih => exact ih h hcomplete hids
  | case3 taken l queue hnew hl ih =>
    refine ih h ?_ ?_
    · exact List.forall_mem_append.mpr ⟨hcomplete, List.forall_mem_singleton.mpr hl⟩
    · rw [List.map_append, List.map_singleton, List.nodup_append]
      refine ⟨hids, List.nodup_singleton _, fun a ha b hb hab => hnew ?_⟩
      obtain ⟨m, hm, rfl⟩ := List.mem_map.mp ha
      obtain rfl := List.mem_singleton.mp hb
      exact List.any_eq_true.mpr ⟨m, hm, decide_eq_true hab⟩
  | case4 => nomatch h

/-- Flattening stops only at a library that waits, or is behind one that waits, and is not complete. -/
theorem flattenFrom_error (h : flattenFrom taken queue = .error l) :
    (∃ q ∈ queue, l.Within q) ∧ l.complete = false := by
  fun_induction flattenFrom taken queue with
  | case1 => nomatch h
  | case2 taken l' queue _ ih =>
    obtain ⟨⟨q, hq, hwithin⟩, hcomplete⟩ := ih h
    exact ⟨⟨q, List.mem_cons_of_mem _ hq, hwithin⟩, hcomplete⟩
  | case3 taken l' queue _ _ ih =>
    obtain ⟨⟨q, hq, hwithin⟩, hcomplete⟩ := ih h
    refine ⟨?_, hcomplete⟩
    rcases List.mem_append.mp hq with hq | hq
    · exact ⟨q, List.mem_cons_of_mem _ hq, hwithin⟩
    · exact ⟨l', List.mem_cons_self, .dependency hq hwithin⟩
  | case4 taken l' queue _ hcomplete =>
    cases h
    exact ⟨⟨_, List.mem_cons_self, .self⟩, Bool.eq_false_of_not_eq_true hcomplete⟩

/-- What has been taken stays in front. -/
theorem flattenFrom_keeps (h : flattenFrom taken queue = .ok ls) : taken <+: ls := by
  fun_induction flattenFrom taken queue with
  | case1 taken => exact Except.ok.inj h ▸ List.prefix_refl taken
  | case2 taken l queue _ ih => exact ih h
  | case3 taken l queue _ _ ih => exact (List.prefix_append taken [l]).trans (ih h)
  | case4 => nomatch h

/-- The libraries that wait come next, without those that have been there before. -/
theorem flattenFrom_heads {more : List Library} (h : flattenFrom taken (queue ++ more) = .ok ls)
    (htaken : (taken.map id).eraseDups = taken.map id) :
    ((taken ++ queue).map id).eraseDups <+: ls.map id := by
  induction queue generalizing taken more with
  | nil =>
    rw [List.append_nil, htaken]
    exact (flattenFrom_keeps h).map id
  | cons l queue ih =>
    rw [List.cons_append, flattenFrom] at h
    split at h
    · next hany =>
      have hmem : l.id ∈ taken.map id := by
        obtain ⟨m, hm, hid⟩ := List.any_eq_true.mp hany
        exact List.mem_map.mpr ⟨m, hm, of_decide_eq_true hid⟩
      -- an element that has been there before is erased
      have hskip : ((taken ++ l :: queue).map id).eraseDups = ((taken ++ queue).map id).eraseDups := by
        rw [List.map_append, List.map_append, List.eraseDups_append, List.eraseDups_append,
          List.map_cons, List.cons_removeAll, List.contains_iff_mem.mpr hmem]
        rfl
      rw [hskip]
      exact ih h htaken
    · next hany =>
      split at h
      · have hmem : l.id ∉ taken.map id := by
          intro hmem
          obtain ⟨m, hm, hid⟩ := List.mem_map.mp hmem
          exact hany (List.any_eq_true.mpr ⟨m, hm, decide_eq_true hid⟩)
        rw [List.append_cons]
        rw [List.append_assoc] at h
        refine ih h ?_
        rw [List.map_append, List.eraseDups_append, htaken, List.map_singleton, List.cons_removeAll,
          List.nil_removeAll, if_pos (by simpa using hmem)]
        rfl
      · cases h

/-! ### Distances -/

/-- The libraries some steps behind the roots: the roots, what they depend on directly, and so on. -/
def layer (roots : List Library) : Nat → List Library
  | 0 => roots
  | n + 1 => (layer roots n).flatMap dependencies

/-- **How far a library is behind the roots.** -/
noncomputable def distance (roots : List Library) (l : Library) : Nat := sInf {n | l ∈ layer roots n}

theorem within_of_mem_layer {n : Nat} (h : m ∈ layer roots n) : ∃ root ∈ roots, m.Within root := by
  induction n generalizing m with
  | zero => exact ⟨m, h, .self⟩
  | succ n ih =>
    obtain ⟨l, hl, hm⟩ := List.mem_flatMap.mp h
    obtain ⟨root, hroot, hwithin⟩ := ih hl
    exact ⟨root, hroot, hwithin.trans (.dependency hm .self)⟩

theorem exists_mem_layer {n : Nat} (h : l ∈ layer roots n) (hm : m.Within l) :
    ∃ k, m ∈ layer roots k := by
  induction hm generalizing n with
  | self => exact ⟨n, h⟩
  | dependency hd _ ih => exact ih (n := n + 1) (List.mem_flatMap.mpr ⟨_, h, hd⟩)

theorem distance_le {n : Nat} (h : l ∈ layer roots n) : distance roots l ≤ n := Nat.sInf_le h

theorem mem_layer_distance (h : ∃ root ∈ roots, m.Within root) :
    m ∈ layer roots (distance roots m) := by
  obtain ⟨root, hroot, hm⟩ := h
  exact Nat.sInf_mem (exists_mem_layer (n := 0) hroot hm)

/-! ### The order of the search -/

/-- **How far a search has come.** All libraries nearer than `k` steps have been taken. Of those that
wait, the first ones are `k` steps behind the roots, the others one step more. -/
structure Reached (roots taken near far : List Library) (k : Nat) : Prop where
  ofNear : ∀ l ∈ near, l ∈ layer roots k
  ofFar : ∀ l ∈ far, l ∈ layer roots (k + 1)
  nearer : ∀ n < k, ∀ l ∈ layer roots n, l ∈ taken
  level : ∀ l ∈ layer roots k, l ∈ taken ∨ l ∈ near
  next : ∀ l ∈ taken, ∀ d ∈ l.dependencies, d ∈ taken ∨ d ∈ near ∨ d ∈ far
  bounded : ∀ l ∈ taken, distance roots l ≤ k
  sorted : taken.Pairwise fun l m => distance roots l ≤ distance roots m

namespace Reached

theorem start (roots : List Library) : Reached roots [] roots [] 0 :=
  ⟨fun _ h => h, nofun, nofun, fun _ h => .inr h, nofun, nofun, .nil⟩

/-- When a layer has been gone through, the next one begins. -/
theorem advance (h : Reached roots taken [] far k) : Reached roots taken far [] (k + 1) := by
  have htaken : ∀ l ∈ layer roots k, l ∈ taken := fun l hl => (h.level l hl).resolve_right nofun
  refine ⟨h.ofFar, nofun, fun n hn l hl => ?_, fun l hl => ?_, fun l hl d hd => ?_,
    fun l hl => Nat.le_succ_of_le (h.bounded l hl), h.sorted⟩
  · rcases Nat.lt_succ_iff_lt_or_eq.mp hn with hn | rfl
    · exact h.nearer n hn l hl
    · exact htaken l hl
  · obtain ⟨m, hm, hl⟩ := List.mem_flatMap.mp hl
    exact (h.next m (htaken m hm) l hl).imp_right fun h => h.resolve_left nofun
  · exact (h.next l hl d hd).imp_right fun h => .inl (h.resolve_left nofun)

/-- The library that waits longest is of the nearer layer, if that is taken to be the next one when
there is none. -/
theorem exists_near (h : Reached roots taken near far k) (hqueue : l :: queue = near ++ far) :
    ∃ near' far' k', Reached roots taken (l :: near') far' k' ∧ queue = near' ++ far' := by
  cases near with
  | nil =>
    cases far with
    | nil => nomatch hqueue
    | cons d far =>
      cases hqueue
      exact ⟨_, [], k + 1, h.advance, (List.append_nil _).symm⟩
  | cons d near =>
    cases hqueue
    exact ⟨near, far, k, h, rfl⟩

theorem skip (h : Reached roots taken (l :: near) far k) (hl : l ∈ taken) :
    Reached roots taken near far k := by
  have hnear : ∀ m ∈ l :: near, m ∈ taken ∨ m ∈ near :=
    List.forall_mem_cons.mpr ⟨.inl hl, fun m hm => .inr hm⟩
  exact { h with
    ofNear := fun m hm => h.ofNear m (List.mem_cons_of_mem _ hm)
    level := fun m hm => (h.level m hm).elim .inl (hnear m)
    next := fun m hm d hd => by
      rcases h.next m hm d hd with hd | hd | hd
      · exact .inl hd
      · exact (hnear d hd).imp_right .inl
      · exact .inr (.inr hd) }

/-- A library that is taken is as far as the layer says, because all nearer ones have been taken. -/
theorem take (h : Reached roots taken (l :: near) far k) (hl : l ∉ taken) :
    Reached roots (taken ++ [l]) near (far ++ l.dependencies) k := by
  have hlayer := h.ofNear l List.mem_cons_self
  -- were it nearer, it would have been taken with its own layer
  have hdistance : k ≤ distance roots l := by
    by_contra hlt
    exact hl (h.nearer _ (Nat.not_le.mp hlt) l (mem_layer_distance (within_of_mem_layer hlayer)))
  refine ⟨fun m hm => h.ofNear m (List.mem_cons_of_mem _ hm), ?_, ?_, ?_, ?_, ?_, ?_⟩
  · refine List.forall_mem_append.mpr ⟨h.ofFar, fun d hd => ?_⟩
    exact List.mem_flatMap.mpr ⟨l, hlayer, hd⟩
  · exact fun n hn m hm => List.mem_append_left _ (h.nearer n hn m hm)
  · intro m hm
    have := h.level m hm
    grind
  · intro m hm d hd
    rcases List.mem_append.mp hm with hm | hm
    · have := h.next m hm d hd
      grind
    · obtain rfl := List.mem_singleton.mp hm
      exact .inr (.inr (List.mem_append_right _ hd))
  · exact List.forall_mem_append.mpr ⟨h.bounded, List.forall_mem_singleton.mpr (distance_le hlayer)⟩
  · refine List.pairwise_append.mpr ⟨h.sorted, List.pairwise_singleton _ _, fun m hm n hn => ?_⟩
    obtain rfl := List.mem_singleton.mp hn
    exact (h.bounded m hm).trans hdistance

end Reached

/-- A library whose number has been taken has been taken. -/
theorem CoherentAll.mem_of_any (hroots : CoherentAll roots)
    (htaken : ∀ l ∈ taken, ∃ root ∈ roots, l.Within root) (hl : ∃ root ∈ roots, l.Within root)
    (h : taken.any (·.id = l.id) = true) : l ∈ taken := by
  obtain ⟨m, hm, hid⟩ := List.any_eq_true.mp h
  obtain ⟨root, hroot, hwithin⟩ := hl
  obtain ⟨root', hroot', hwithin'⟩ := htaken m hm
  exact hroots _ hroot' _ hroot _ _ hwithin' hwithin (of_decide_eq_true hid) ▸ hm

/-- **The nearest libraries come first.** -/
theorem flattenFrom_sorted (hroots : CoherentAll roots) (h : flattenFrom taken queue = .ok ls)
    (htaken : ∀ l ∈ taken, ∃ root ∈ roots, l.Within root)
    (hreached : Reached roots taken near far k) (hqueue : queue = near ++ far) :
    ls.Pairwise fun l m => distance roots l ≤ distance roots m := by
  fun_induction flattenFrom taken queue generalizing near far k with
  | case1 taken => exact Except.ok.inj h ▸ hreached.sorted
  | case2 taken l queue hany ih =>
    obtain ⟨near', far', k', hreached, rfl⟩ := hreached.exists_near hqueue
    have hl := within_of_mem_layer (hreached.ofNear l List.mem_cons_self)
    exact ih h htaken (hreached.skip (hroots.mem_of_any htaken hl hany)) rfl
  | case3 taken l queue hany _ ih =>
    obtain ⟨near', far', k', hreached, rfl⟩ := hreached.exists_near hqueue
    have hl := within_of_mem_layer (hreached.ofNear l List.mem_cons_self)
    refine ih h ?_ (hreached.take fun hmem => hany ?_) (List.append_assoc _ _ _)
    · exact List.forall_mem_append.mpr ⟨htaken, List.forall_mem_singleton.mpr hl⟩
    · exact List.any_eq_true.mpr ⟨l, hmem, decide_eq_true rfl⟩
  | case4 => nomatch h

/-- What is no root depends on something nearer, which comes first. -/
theorem mem_dependencies_of_sorted {before after : List Library}
    (hsorted : (before ++ l :: after).Pairwise fun l m => distance roots l ≤ distance roots m)
    (hmem : ∀ m, m ∈ before ++ l :: after ↔ ∃ root ∈ roots, m.Within root) (hl : l ∉ roots) :
    ∃ m ∈ before, l ∈ m.dependencies := by
  have hlayer := mem_layer_distance
    ((hmem l).mp (List.mem_append_right _ List.mem_cons_self))
  cases hn : distance roots l with
  | zero =>
    rw [hn] at hlayer
    exact absurd hlayer hl
  | succ n =>
    rw [hn] at hlayer
    obtain ⟨m, hm, hdependency⟩ := List.mem_flatMap.mp hlayer
    have hlt : distance roots m < distance roots l := by
      rw [hn]
      exact Nat.lt_succ_of_le (distance_le hm)
    refine ⟨m, ?_, hdependency⟩
    rcases List.mem_append.mp ((hmem m).mpr (within_of_mem_layer hm)) with hbefore | hafter
    · exact hbefore
    · rcases List.mem_cons.mp hafter with rfl | hafter
      · exact absurd hlt (Nat.lt_irrefl _)
      · have hle := (List.pairwise_cons.mp (List.pairwise_append.mp hsorted).2.1).1 m hafter
        exact absurd hlt (Nat.not_lt_of_le hle)

/-- **Flattening gives exactly what is behind the roots.** It stops exactly if something there is not
complete, and a build then fails for this reason. Otherwise it gives each library once, nearest first:
the roots come in order, without repeats, and every other library is a direct dependency of one before
it. -/
theorem flatten_exact (hroots : CoherentAll roots) :
    ((∃ l, flatten roots = .error l) ↔
        ∃ root ∈ roots, ∃ m : Library, m.Within root ∧ m.complete = false) ∧
      (∀ l, flatten roots = .error l → ∀ (p : Project) next,
        (p.build roots next).result = .error (.internal (.incompleteDependency l.name))) ∧
      ∀ ls, flatten roots = .ok ls →
        (∀ m, m ∈ ls ↔ ∃ root ∈ roots, m.Within root) ∧ (ls.map id).Nodup ∧
        ls.Pairwise (fun l m => distance roots l ≤ distance roots m) ∧
        ∃ heads rest, ls = heads ++ rest ∧ heads.map id = (roots.map id).eraseDups ∧
          ∀ before l after, rest = before ++ l :: after →
            ∃ m ∈ heads ++ before, l ∈ m.dependencies := by
  refine ⟨⟨fun ⟨l, hl⟩ => ?_, fun ⟨root, hroot, m, hm, hcomplete⟩ => ?_⟩, fun l hl p next => ?_,
    fun ls hls => ?_⟩
  · obtain ⟨⟨root, hroot, hwithin⟩, hcomplete⟩ := flattenFrom_error hl
    exact ⟨root, hroot, l, hwithin, hcomplete⟩
  · cases hls : flatten roots with
    | error l => exact ⟨l, rfl⟩
    | ok ls =>
      have hmem := (mem_flatten_iff hroots hls).mpr ⟨root, hroot, hm⟩
      rw [(flattenFrom_complete hls nofun List.nodup_nil).1 m hmem] at hcomplete
      nomatch hcomplete
  · unfold Project.build
    rw [hl]
  · have hmem := fun m => mem_flatten_iff (m := m) hroots hls
    have hnodup := (flattenFrom_complete hls nofun List.nodup_nil).2
    have hsorted := flattenFrom_sorted hroots hls nofun (.start roots) (List.append_nil _).symm
    refine ⟨hmem, hnodup, hsorted, ?_⟩
    rw [← List.append_nil roots] at hls
    obtain ⟨ids, hids⟩ := flattenFrom_heads hls rfl
    obtain ⟨heads, rest, rfl, hheads, -⟩ := List.map_eq_append_iff.mp hids.symm
    refine ⟨heads, rest, rfl, hheads, ?_⟩
    rintro before l after rfl
    rw [← List.append_assoc] at hsorted hmem
    refine mem_dependencies_of_sorted hsorted hmem fun hl => ?_
    -- the numbers of all roots are among the first ones, and no number comes twice
    have hfirst : l.id ∈ heads.map id := by
      rw [hheads]
      exact List.mem_eraseDups.mpr (List.mem_map_of_mem hl)
    rw [List.map_append, List.nodup_append] at hnodup
    exact hnodup.2.2 _ hfirst _ (List.mem_map_of_mem (List.mem_append_right _ List.mem_cons_self)) rfl

/-! ### Look-ups -/

section Search

variable {α κ : Type} {own : Library → Option α}

theorem searchAll?_eq (own : Library → Option α) (ls : List Library) :
    searchAll? own ls = ls.findSome? fun l => l.search? own := by
  induction ls with
  | nil => rfl
  | cons l ls ih =>
    rw [searchAll?, List.findSome?_cons, ih]
    cases search? own l <;> rfl

/-- What a library does not answer is not answered behind it. -/
theorem findSome?_dependencies (h : l.search? own = none) :
    l.dependencies.findSome? (fun d => d.search? own) = none := by
  rw [search?_eq] at h
  split at h
  · cases h
  · rw [← searchAll?_eq, h]

/-- **Flattening does not change the first answer.** A library that is left out has been asked before,
and a library that is taken has asked its dependencies already. -/
theorem findSome?_flattenFrom (hroots : CoherentAll roots) (h : flattenFrom taken queue = .ok ls)
    (htaken : ∀ l ∈ taken, ∃ root ∈ roots, l.Within root)
    (hqueue : ∀ l ∈ queue, ∃ root ∈ roots, l.Within root) :
    ls.findSome? (fun l => l.search? own) = (taken ++ queue).findSome? fun l => l.search? own := by
  fun_induction flattenFrom taken queue with
  | case1 taken =>
    cases h
    rw [List.append_nil]
  | case2 taken l queue hany ih =>
    obtain ⟨hl, hqueue⟩ := List.forall_mem_cons.mp hqueue
    rw [ih h htaken hqueue, List.findSome?_append, List.findSome?_append, List.findSome?_cons]
    cases hfirst : taken.findSome? fun l => l.search? own with
    | some a => rfl
    | none => rw [List.findSome?_eq_none_iff.mp hfirst l (hroots.mem_of_any htaken hl hany)]
  | case3 taken l queue _ _ ih =>
    obtain ⟨⟨root, hroot, hwithin⟩, hqueue⟩ := List.forall_mem_cons.mp hqueue
    have hdependencies : ∀ d ∈ l.dependencies, ∃ root ∈ roots, d.Within root :=
      fun d hd => ⟨root, hroot, hwithin.trans (.dependency hd .self)⟩
    rw [ih h (List.forall_mem_append.mpr
      ⟨htaken, List.forall_mem_singleton.mpr ⟨root, hroot, hwithin⟩⟩)
      (List.forall_mem_append.mpr ⟨hqueue, hdependencies⟩)]
    simp only [List.append_assoc, List.findSome?_append, List.findSome?_cons, List.findSome?_nil]
    cases hl : l.search? own with
    | some a => simp
    | none => simp [findSome?_dependencies hl]
  | case4 => nomatch h

theorem searchAll?_flatten (hroots : CoherentAll roots) (h : flatten roots = .ok ls) :
    searchAll? own ls = searchAll? own roots := by
  rw [searchAll?_eq, searchAll?_eq]
  exact findSome?_flattenFrom hroots h nofun fun l hl => ⟨l, hl, .self⟩

theorem isSome_search?_iff :
    (l.search? own).isSome ↔ ∃ m : Library, m.Within l ∧ (own m).isSome := by
  constructor
  · intro h
    obtain ⟨a, ha⟩ := Option.isSome_iff_exists.mp h
    obtain ⟨m, hm, hown⟩ := exists_within_of_search? l ha
    exact ⟨m, hm, Option.isSome_iff_exists.mpr ⟨a, hown⟩⟩
  · rintro ⟨m, hm, hown⟩
    cases h : l.search? own with
    | some a => rfl
    | none =>
      rw [within_of_search?_eq_none hm h] at hown
      nomatch hown

/-- The library on top of these ones. -/
def on (l : Library) (dependencies : List Library) : Library := { l with dependencies }

/-- **A look-up resolves alike in two libraries**, up to which answers count as the same. It has an
answer exactly if the library or one behind it has one of its own. -/
def ResolvesAlike (l l' : Library) (same : α → α → Prop) (find own : Library → κ → Option α) : Prop :=
  ∀ key, Option.Rel same (find l key) (find l' key) ∧
    ∀ k ∈ [l, l'], (find k key).isSome ↔ ∃ m : Library, m.Within k ∧ (own m key).isSome

/-- The same library, where a library counts as the same on top of other ones. -/
def SameIn (l l' m m' : Library) : Prop := m' = m ∨ m = l ∧ m' = l'

theorem resolvesAlike_of_own (hroots : CoherentAll roots) (h : flatten roots = .ok ls)
    {same : α → α → Prop} (hsame : ∀ a, same a a) {own : Library → κ → Option α}
    (hown : ∀ key, Option.Rel same (own (l.on roots) key) (own (l.on ls) key)) :
    (l.on roots).ResolvesAlike (l.on ls) same (fun m key => m.search? (own · key)) own := by
  refine fun key => ⟨?_, fun k _ => isSome_search?_iff⟩
  beta_reduce
  rw [search?_eq, search?_eq]
  generalize hx : own (l.on roots) key = x
  generalize hy : own (l.on ls) key = y
  have hxy := hown key
  rw [hx, hy] at hxy
  cases hxy with
  | some hab => exact .some hab
  | none =>
    dsimp only [on]
    rw [searchAll?_flatten hroots h]
    cases searchAll? (own · key) roots with
    | none => exact .none
    | some a => exact .some (hsame a)

/-- Answers that do not depend on the dependencies of a library. -/
theorem resolvesAlike (hroots : CoherentAll roots) (h : flatten roots = .ok ls)
    {own : Library → κ → Option α} (hown : ∀ key, own (l.on roots) key = own (l.on ls) key) :
    (l.on roots).ResolvesAlike (l.on ls) (· = ·) (fun m key => m.search? (own · key)) own := by
  refine resolvesAlike_of_own hroots h (fun _ => rfl) fun key => ?_
  rw [hown key]
  cases own (l.on ls) key with
  | none => exact .none
  | some a => exact .some rfl

end Search

theorem coherentAll_flatten (hroots : CoherentAll roots) (h : flatten roots = .ok ls) :
    CoherentAll ls := by
  intro d hd d' hd' m m' hm hm' hid
  obtain ⟨root, hroot, hwithin⟩ := flatten_within h hd
  obtain ⟨root', hroot', hwithin'⟩ := flatten_within h hd'
  exact hroots root hroot root' hroot' m m' (hwithin.trans hm) (hwithin'.trans hm') hid

theorem CoherentAll.coherent (h : CoherentAll ls) : ∀ l ∈ ls, l.Coherent :=
  fun l hl m m' hm hm' => h l hl l hl m m' hm hm'

theorem resolveRoutine?_flatten (hroots : CoherentAll roots) (h : flatten roots = .ok ls) (l : Library)
    (f : FunctionRef) : (l.on roots).resolveRoutine? f = (l.on ls).resolveRoutine? f := by
  rw [resolveRoutine?_eq, resolveRoutine?_eq]
  dsimp only [on]
  rw [resolveRoutineAll?_eq _ hroots.coherent,
    resolveRoutineAll?_eq _ (coherentAll_flatten hroots h).coherent, searchAll?_flatten hroots h]
  rfl

/-- **Flattening never changes what is found.** A library gives the same answers on top of the roots
and on top of the flattened roots, to every look-up and for every key, even if several libraries have
an answer. That a function is found wherever it is takes a library with a number of its own, since
the library that a reference names answers for itself alone. -/
theorem flatten_resolves (hroots : CoherentAll roots) (h : flatten roots = .ok ls) (l : Library) :
    let before := l.on roots
    let after := l.on ls
    before.ResolvesAlike after (· = ·) findFunction? (fun m id => m.functions.lookup id) ∧
    (∀ f, before.resolveRoutine? f = after.resolveRoutine? f) ∧
    ((∀ root ∈ roots, root.findLibrary? l.id = none) →
      before.ResolvesAlike after (· = ·) resolveRoutine? routine?) ∧
    before.ResolvesAlike after (fun p q => before.SameIn after p.1 q.1 ∧ p.2 = q.2) findClassType?
      (fun m c => (m.classType? c).map fun ty => (m, ty)) ∧
    before.ResolvesAlike after (· = ·) findRecord? record? ∧
    before.ResolvesAlike after (· = ·) binaryRule? (fun m key => m.rules.binary.lookup key) ∧
    before.ResolvesAlike after (· = ·) unaryRule? (fun m key => m.rules.unary.lookup key) ∧
    before.ResolvesAlike after (· = ·) conversionRule? (fun m key => m.rules.conversions.lookup key) ∧
    before.ResolvesAlike after (· = ·) intrinsicRule? (fun m key => m.rules.intrinsics.lookup key) ∧
    before.ResolvesAlike after (before.SameIn after) findLibrary?
      (fun m id => if m.id = id then some m else none) := by
  intro before after
  refine ⟨resolvesAlike hroots h fun _ => rfl, resolveRoutine?_flatten hroots h l, fun hfresh f => ?_,
    ?_, resolvesAlike hroots h fun _ => rfl, resolvesAlike hroots h fun _ => rfl,
    resolvesAlike hroots h fun _ => rfl, resolvesAlike hroots h fun _ => rfl,
    resolvesAlike hroots h fun _ => rfl, ?_⟩
  · refine ⟨?_, fun k hk => ?_⟩
    · rw [resolveRoutine?_flatten hroots h l f]
      cases (l.on ls).resolveRoutine? f with
      | none => exact .none
      | some r => exact .some rfl
    · have hcoherent : k.Coherent := by
        rcases List.mem_pair.mp hk with rfl | rfl
        · exact coherent_of_fresh hroots hfresh
        · refine coherent_of_fresh (coherentAll_flatten hroots h) fun d hd => ?_
          obtain ⟨root, hroot, hwithin⟩ := flatten_within h hd
          exact findLibrary?_eq_none fun m hm => (hwithin.trans hm).id_ne (hfresh root hroot)
      rw [Coherent.resolveRoutine?_eq k hcoherent]
      exact isSome_search?_iff
  · refine resolvesAlike_of_own hroots h (fun p => ⟨.inl rfl, rfl⟩) fun c => ?_
    change Option.Rel _ (Option.map _ (l.classType? c)) (Option.map _ (l.classType? c))
    cases l.classType? c with
    | none => exact .none
    | some ty => exact .some ⟨.inr ⟨rfl, rfl⟩, rfl⟩
  · refine resolvesAlike_of_own hroots h (fun m => .inl rfl) fun id => ?_
    change Option.Rel _ (if l.id = id then some before else none) (if l.id = id then some after else none)
    split
    · exact .some (.inr ⟨rfl, rfl⟩)
    · exact .none

end Library

/-! ### Two libraries on a common one -/

namespace Library

/-- A library that both others depend on. -/
def ground : Library where
  id := ⟨0⟩
  name := "Ground"
  functions := [(⟨7⟩, ⟨⟨0⟩, 0⟩)]
  complete := true

def leftWing : Library where
  id := ⟨1⟩
  name := "Left"
  dependencies := [ground]
  functions := [(⟨8⟩, ⟨⟨1⟩, 0⟩)]
  complete := true

def rightWing : Library where
  id := ⟨2⟩
  name := "Right"
  dependencies := [ground]
  functions := [(⟨7⟩, ⟨⟨2⟩, 0⟩), (⟨8⟩, ⟨⟨2⟩, 1⟩)]
  complete := true

/-- A library on top of both. -/
def roof : Library where
  id := ⟨3⟩
  name := "Roof"

/-- Both wings, one of them twice. -/
def wings : List Library := [leftWing, rightWing, leftWing]

theorem coherentAll_wings : CoherentAll wings := by
  refine coherentAll_of_nodup [ground, leftWing, rightWing] ?_ (by decide) ?_ <;>
    simp [wings, ground, leftWing, rightWing]

theorem flatten_wings : flatten wings = .ok [leftWing, rightWing, ground] := by
  simp [flatten, flattenFrom, wings, ground, leftWing, rightWing]

/-- What is named twice is taken once, and what both depend on comes last. -/
theorem flatten_exact_wings :
    CoherentAll wings ∧ flatten wings = .ok [leftWing, rightWing, ground] ∧
      [leftWing, rightWing, ground].Pairwise fun l m => distance wings l ≤ distance wings m :=
  ⟨coherentAll_wings, flatten_wings, ((flatten_exact coherentAll_wings).2.2 _ flatten_wings).2.2.1⟩

/-- A function that the second wing has is found behind the first one, flattened or not. -/
theorem flatten_resolves_wings :
    CoherentAll wings ∧ flatten wings = .ok [leftWing, rightWing, ground] ∧
      (roof.on wings).findFunction? ⟨7⟩ = some ⟨⟨0⟩, 0⟩ ∧
      (roof.on [leftWing, rightWing, ground]).findFunction? ⟨7⟩ = some ⟨⟨0⟩, 0⟩ := by
  have hbefore : (roof.on wings).findFunction? ⟨7⟩ = some ⟨⟨0⟩, 0⟩ := by decide
  have halike := ((flatten_resolves coherentAll_wings flatten_wings roof).1 ⟨7⟩).1
  rw [hbefore] at halike
  generalize (roof.on _).findFunction? ⟨7⟩ = answer at halike ⊢
  cases halike with
  | some heq => exact ⟨coherentAll_wings, flatten_wings, hbefore, congrArg some heq.symm⟩

end Library

end Shader
