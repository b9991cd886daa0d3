import Shader.Lowering.Error
import Shader.Proofs.Outcome
import Shader.Proofs.References.Dependence
import Mathlib.Algebra.Order.BigOperators.Group.List
import Mathlib.Algebra.Order.Group.Nat
import Mathlib.Data.List.Chain
import Mathlib.Data.List.Perm.Subperm

/-!
# The walk finds recursion exactly

The walk of a tree stops if and only if the reference graph of the tree has a cycle
(`Tree.recursion?_exact`).

The argument is the usual one about depth-first search. `Walk.Sound` is what every state of the walk
satisfies:

* the symbols that the walk is **inside** of form a path of the graph, so meeting one of them again
  closes a cycle;
* a symbol that has been **left** is accessible: no infinite path starts there, since all it refers
  to had been left before. Pruning such a symbol therefore hides no cycle.

One visit preserves the invariant (`Walk.visit_spec`), by induction on the depth that is left. The
depth never runs out: the symbols that the walk is inside of are distinct symbols of the tree, and
the depth starts above their number.
-/

namespace Shader

open Outcome Relation

variable {t : Tree} {w : Walk} {i : Item}

/-- The converse of `Tree.Refers`, along which depth-first search makes progress. -/
def Tree.Below (t : Tree) (a b : Symbol) : Prop := t.Refers b a

/-- What holds of every state of the walk of a tree. -/
structure Walk.Sound (t : Tree) (w : Walk) : Prop where
  inside_expanded : ∀ s ∈ w.inside, s ∈ w.expanded
  nodup : w.inside.Nodup
  declared : ∀ s ∈ w.inside, s ∈ t.items.map Item.symbol
  /-- Each symbol inside refers to the one entered after it. -/
  path : w.inside.IsChain t.Below
  /-- No infinite path starts at a symbol that has been left. -/
  left : ∀ s ∈ w.expanded, s ∉ w.inside → Acc t.Below s

/-- What a walk that was not stopped has done for the symbols `ss`. -/
structure Walk.Past (t : Tree) (w : Walk) (ss : List Symbol) (w' : Walk) : Prop where
  sound : w'.Sound t
  inside_eq : w'.inside = w.inside
  expanded_sub : w.expanded ⊆ w'.expanded
  past : ∀ s ∈ ss, s ∈ w'.expanded ∧ s ∉ w'.inside

/-! ### Cycles and accessible symbols -/

theorem reflTransGen_of_path {a b : Symbol} {l : List Symbol} (h : (a :: l).IsChain t.Below)
    (hb : b ∈ a :: l) : ReflTransGen t.Refers b a := by
  induction l generalizing a with
  | nil =>
    obtain rfl := List.mem_singleton.mp hb
    exact .refl
  | cons c l ih =>
    rcases List.mem_cons.mp hb with rfl | hb
    · exact .refl
    · rw [List.isChain_cons_cons] at h
      exact (ih h.2 hb).tail h.1

/-- A symbol that is met again while the walk is inside of it lies on a cycle. -/
theorem Walk.Sound.recursive (hw : w.Sound t) {s : Symbol} (hs : s ∈ w.inside)
    (hr : ∀ a ∈ w.inside.head?, t.Refers a s) : t.Recursive := by
  have hpath := hw.path
  cases hi : w.inside with
  | nil =>
    rw [hi] at hs
    exact absurd hs List.not_mem_nil
  | cons a l =>
    rw [hi] at hs hr hpath
    exact ⟨s, TransGen.tail' (reflTransGen_of_path hpath hs) (hr a rfl)⟩

theorem not_transGen_of_acc {s : Symbol} (h : Acc t.Below s) : ¬ TransGen t.Refers s s := by
  intro hc
  have hcycle : TransGen t.Below s s := transGen_swap.mpr hc
  have hacc : Acc (TransGen t.Below) s := h.transGen
  clear h hc
  induction hacc with
  | intro s _ ih => exact ih s hcycle hcycle

/-! ### One visit -/

namespace Walk

theorem visit_succ (d : Declarations) (n : Nat) (trace : List Location) (i : Item) (w : Walk) :
    visit d (n + 1) trace i w =
      if i.symbol ∈ w.inside then (.error ⟨trace ++ [i.location]⟩, w)
      else if i.symbol ∈ w.expanded then (.ok (), w)
      else
        match ((i.references d).forM fun r => visit d n (trace ++ [i.location] ++ r.via) r.item)
          (w.enter i.symbol) with
        | (.ok _, w') => (.ok (), w'.leave i.symbol)
        | (.error r, w') => (.error r, w') := by
  rw [visit]
  by_cases h₁ : i.symbol ∈ w.inside
  · simp [bind_apply, h₁]
  · by_cases h₂ : i.symbol ∈ w.expanded
    · simp [bind_apply, h₁, h₂]
    · simp only [bind_apply, get_apply, h₁, h₂, modify_apply, if_false]
      rcases ((i.references d).forM fun r => visit d n (trace ++ [i.location] ++ r.via) r.item)
        (w.enter i.symbol) with ⟨_ | _, _⟩ <;> rfl

/-- Going into a symbol that the innermost one refers to keeps the state sound. -/
theorem Sound.enter (hw : w.Sound t) (hi : i ∈ t.items)
    (hr : ∀ a ∈ w.inside.head?, t.Refers a i.symbol) (hn : i.symbol ∉ w.inside) :
    (w.enter i.symbol).Sound t where
  inside_expanded s hs := by
    rcases List.mem_cons.mp hs with rfl | hs
    · exact List.mem_append_right _ (List.mem_singleton_self _)
    · exact List.mem_append_left _ (hw.inside_expanded s hs)
  nodup := List.nodup_cons.mpr ⟨hn, hw.nodup⟩
  declared s hs := by
    rcases List.mem_cons.mp hs with rfl | hs
    · exact List.mem_map_of_mem hi
    · exact hw.declared s hs
  path := List.isChain_cons.mpr ⟨hr, hw.path⟩
  left s hs hout := by
    rcases List.mem_append.mp hs with hs | hs
    · exact hw.left s hs fun h => hout (List.mem_cons_of_mem _ h)
    · obtain rfl := List.mem_singleton.mp hs
      exact absurd List.mem_cons_self hout

/-- Coming out of a symbol keeps the state sound once all it refers to has been left. -/
theorem Past.leave (hd : t.Distinct) {w w' : Walk} (hi : i ∈ t.items) (hn : i.symbol ∉ w.inside)
    (h : Past t (w.enter i.symbol) ((i.references (.ofTree t)).map fun r => r.item.symbol) w') :
    Past t w [i.symbol] (w'.leave i.symbol) := by
  have hinside : (w'.leave i.symbol).inside = w.inside := by
    change w'.inside.erase i.symbol = w.inside
    rw [h.inside_eq]
    exact List.erase_cons_head i.symbol w.inside
  have hexpanded : i.symbol ∈ w'.expanded :=
    h.expanded_sub (List.mem_append_right _ (List.mem_singleton_self _))
  have hsub : ∀ s ∈ w.inside, s ∈ w'.inside := by
    intro s hs
    rw [h.inside_eq]
    exact List.mem_cons_of_mem _ hs
  -- all that the symbol refers to has been left, so it is accessible itself
  have hacc : Acc t.Below i.symbol := by
    refine ⟨_, fun s hs => ?_⟩
    obtain ⟨j, hj, hji, r, hr, rfl⟩ := hs
    obtain rfl := hd.eq_of_symbol hj hi hji
    obtain ⟨h₁, h₂⟩ := h.past _ (List.mem_map_of_mem hr)
    exact h.sound.left _ h₁ h₂
  refine ⟨⟨?_, ?_, ?_, ?_, ?_⟩, hinside, ?_, ?_⟩
  · rw [hinside]
    exact fun s hs => h.sound.inside_expanded s (hsub s hs)
  · rw [hinside]
    exact (List.nodup_cons.mp (h.inside_eq ▸ h.sound.nodup)).2
  · rw [hinside]
    exact fun s hs => h.sound.declared s (hsub s hs)
  · rw [hinside]
    have hpath := h.sound.path
    rw [h.inside_eq] at hpath
    exact (List.isChain_cons.mp hpath).2
  · intro s hs hout
    by_cases hsi : s = i.symbol
    · exact hsi ▸ hacc
    · refine h.sound.left s hs fun hin => ?_
      rw [h.inside_eq] at hin
      rcases List.mem_cons.mp hin with hin | hin
      · exact hsi hin
      · exact hout (hinside ▸ hin)
  · exact fun s hs => h.expanded_sub (List.mem_append_left _ hs)
  · intro s hs
    obtain rfl := List.mem_singleton.mp hs
    exact ⟨hexpanded, hinside ▸ hn⟩

/-- What a walk that was stopped tells. -/
def Stopped (t : Tree) (r : Recursion) : Prop := t.Recursive ∧ 2 ≤ r.stack.length

/-- The outcome of a walk is as it should be for the symbols `ss`. -/
def Expected (t : Tree) (w : Walk) (ss : List Symbol) : Except Recursion Unit × Walk → Prop
  | (.ok _, w') => Past t w ss w'
  | (.error r, _) => Stopped t r

/-- A list of visits is as expected if each visit is, whatever the ones before it expanded. -/
theorem forM_expected {rs : List Reference} {f : Reference → WalkM Unit} (hw : w.Sound t)
    (step : ∀ r ∈ rs, ∀ w', w'.Sound t → w'.inside = w.inside →
      Expected t w' [r.item.symbol] (f r w')) :
    Expected t w (rs.map fun r => r.item.symbol) (rs.forM f w) := by
  induction rs generalizing w with
  | nil => exact ⟨hw, rfl, fun _ h => h, fun s hs => absurd hs List.not_mem_nil⟩
  | cons r rs ih =>
    rw [forM_cons, bind_apply]
    have hfirst := step r List.mem_cons_self w hw rfl
    generalize f r w = x at hfirst ⊢
    match x, hfirst with
    | (.error _, _), hstop => exact hstop
    | (.ok _, w₁), hp =>
      have hp : Past t w [r.item.symbol] w₁ := hp
      have hrest := ih hp.sound fun r' h w' hw' hi =>
        step r' (List.mem_cons_of_mem _ h) w' hw' (hi.trans hp.inside_eq)
      change Expected t w _ (rs.forM f w₁)
      generalize rs.forM f w₁ = y at hrest ⊢
      match y, hrest with
      | (.error _, _), hstop => exact hstop
      | (.ok _, w₂), hq =>
        have hq : Past t w₁ (rs.map fun r => r.item.symbol) w₂ := hq
        refine ⟨hq.sound, hq.inside_eq.trans hp.inside_eq,
          fun s hs => hq.expanded_sub (hp.expanded_sub hs), fun s hs => ?_⟩
        rcases List.mem_cons.mp hs with rfl | hs
        · obtain ⟨h₁, h₂⟩ := hp.past _ (List.mem_singleton_self _)
          exact ⟨hq.expanded_sub h₁, hq.inside_eq ▸ h₂⟩
        · exact hq.past s hs

/-- Different symbols of a tree are no more than its items. -/
theorem length_le_itemCount {ss : List Symbol} (hnodup : ss.Nodup)
    (hdeclared : ∀ s ∈ ss, s ∈ t.items.map Item.symbol) : ss.length ≤ t.itemCount := by
  have h₁ : ss.length ≤ (t.items.map Item.symbol).length :=
    (List.Nodup.subperm hnodup hdeclared).length_le
  have h₂ : ∀ (cs : List ClassDecl) (n : Nat), n + (cs.flatMap ClassDecl.items).length ≤
      cs.foldl (fun n c => n + 1 + c.constructors.length + c.functions.length +
        c.members.length + (c.members.flatMap VariableDecl.accessors).length) n := by
    intro cs
    induction cs with
    | nil => intro n; exact Nat.le_refl n
    | cons c cs ih =>
      intro n
      refine le_trans ?_ (ih _)
      have h₃ : c.preConstructor.toList.length ≤ 1 := by cases c.preConstructor <;> simp
      simp only [List.flatMap_cons, ClassDecl.items, List.length_append, List.length_map]
      omega
  rw [List.length_map] at h₁
  exact h₁.trans (by simpa [Tree.items, Tree.itemCount] using h₂ t.classes 0)

/-- **One visit.** From a sound state, a visit of an item that the innermost symbol refers to either
passes the item or finds a cycle, provided that enough depth is left. -/
theorem visit_spec (hd : t.Distinct) (depth : Nat) (trace : List Location) (i : Item) (w : Walk)
    (hw : w.Sound t) (hi : i ∈ t.items) (hr : ∀ a ∈ w.inside.head?, t.Refers a i.symbol)
    (hdepth : t.itemCount < depth + w.inside.length) (htrace : w.inside ≠ [] → trace ≠ []) :
    Expected t w [i.symbol] (visit (.ofTree t) depth trace i w) := by
  induction depth generalizing trace i w with
  | zero =>
    have := length_le_itemCount hw.nodup hw.declared
    omega
  | succ depth ih =>
    rw [visit_succ]
    split
    · next hin =>
      -- the walk is inside of the symbol, hence inside of something, and the way has two places
      refine ⟨hw.recursive hin hr, ?_⟩
      have hne : trace ≠ [] := htrace (List.ne_nil_of_mem hin)
      have := List.length_pos_of_ne_nil hne
      simp only [List.length_append, List.length_singleton]
      omega
    · next hout =>
      split
      · next hexp =>
        refine ⟨hw, rfl, fun _ h => h, fun s hs => ?_⟩
        obtain rfl := List.mem_singleton.mp hs
        exact ⟨hexp, hout⟩
      · have hwe := hw.enter hi hr hout
        have hrest : Expected t (w.enter i.symbol)
            ((i.references (.ofTree t)).map fun r => r.item.symbol)
            ((i.references (.ofTree t)).forM
            (fun r => visit (.ofTree t) depth (trace ++ [i.location] ++ r.via) r.item)
            (w.enter i.symbol)) := by
          refine forM_expected hwe fun r hrm w' hw' hin => ?_
          refine ih _ r.item w' hw' (Item.holds_references hi r hrm) ?_ ?_ ?_
          · rw [hin]
            intro a ha
            obtain rfl : i.symbol = a := Option.some.inj ha
            exact ⟨i, hi, rfl, r, hrm, rfl⟩
          · rw [hin]
            simp only [enter, List.length_cons]
            omega
          · simp
        generalize (i.references (.ofTree t)).forM
          (fun r => visit (.ofTree t) depth (trace ++ [i.location] ++ r.via) r.item)
          (w.enter i.symbol) = x at hrest ⊢
        match x, hrest with
        | (.error _, _), hstop => exact hstop
        | (.ok _, w'), hp => exact Past.leave hd hi hout hp

end Walk

/-! ### The walk of a tree -/

namespace Tree

theorem mem_items_of_declared {c : ClassDecl} (hc : c ∈ t.classes) {r : Reference}
    (hr : r ∈ c.declared) : r.item ∈ t.items := by
  simp only [ClassDecl.declared, List.mem_append, List.mem_map, List.mem_flatMap] at hr
  obtain ((h | ⟨k, hk, rfl⟩) | ⟨f, hf, rfl⟩) | ⟨f, ⟨v, hv, hf⟩, rfl⟩ := hr
  · exact Holds.ofClass hc r h
  · exact mem_items_of_constructor hc hk
  · exact mem_items_of_function hc hf
  · exact mem_items_of_accessor hc hv hf

/-- The outcome of the whole walk is as expected for everything that the classes declare. -/
theorem walk_expected (hd : t.Distinct) :
    Walk.Expected t {} ((t.classes.flatMap ClassDecl.declared).map fun r => r.item.symbol)
      (t.walk {}) := by
  have hempty : Walk.Sound t {} :=
    ⟨nofun, List.nodup_nil, nofun, List.isChain_nil, nofun⟩
  refine Walk.forM_expected hempty fun r hr w hw hin => ?_
  obtain ⟨c, hc, hr⟩ := List.mem_flatMap.mp hr
  refine Walk.visit_spec hd _ _ _ _ hw (mem_items_of_declared hc hr) ?_ ?_ ?_
  · rw [hin]
    nofun
  · omega
  · intro hne
    exact absurd hin hne

/-- An item is declared by a class, or is a member that its pre-constructor refers to. -/
theorem exists_declared (hi : i ∈ t.items) :
    ∃ r ∈ t.classes.flatMap ClassDecl.declared,
      r.item = i ∨ ∃ r' ∈ r.item.references (.ofTree t), r'.item = i := by
  obtain ⟨c, hc, hic⟩ := mem_items.mp hi
  have hdeclared : ∀ via, (⟨via, i⟩ : Reference) ∈ c.declared → ∃ r ∈
      t.classes.flatMap ClassDecl.declared,
        r.item = i ∨ ∃ r' ∈ r.item.references (.ofTree t), r'.item = i :=
    fun via h => ⟨⟨via, i⟩, List.mem_flatMap.mpr ⟨c, hc, h⟩, .inl rfl⟩
  rcases ClassDecl.mem_items.mp hic with
    ⟨id, hid, rfl⟩ | ⟨k, hk, rfl⟩ | ⟨f, hf, rfl⟩ | ⟨v, hv, f, hf, rfl⟩ | ⟨v, hv, rfl⟩
  · exact hdeclared [] (by simp [ClassDecl.declared, Reference.ofClass, hid])
  · exact hdeclared [] (by simp [ClassDecl.declared, hk])
  · exact hdeclared [] (by simp [ClassDecl.declared, hf])
  · refine hdeclared [] ?_
    simp only [ClassDecl.declared, List.mem_append, List.mem_map, List.mem_flatMap]
    exact .inr ⟨f, ⟨v, hv, hf⟩, rfl⟩
  · cases hpre : c.preConstructor with
    | none =>
      exact hdeclared ([] ++ [c.location]) (by simp [ClassDecl.declared, Reference.ofClass, hpre, hv])
    | some id =>
      refine ⟨⟨[], .preConstructor id c⟩, List.mem_flatMap.mpr ⟨c, hc, ?_⟩,
        .inr ⟨⟨[], .memberVariable v⟩, List.mem_map_of_mem hv, rfl⟩⟩
      simp [ClassDecl.declared, Reference.ofClass, hpre]

/-- After a walk that was not stopped, no infinite path starts anywhere in the tree. -/
theorem acc_of_walk_ok (hd : t.Distinct) {u : Unit} (h : t.walk {} = (.ok u, w))
    (hi : i ∈ t.items) :
    Acc t.Below i.symbol := by
  have hp : Walk.Past t {} _ w := h ▸ walk_expected hd
  have hdeclared : ∀ r ∈ t.classes.flatMap ClassDecl.declared, Acc t.Below r.item.symbol := by
    intro r hr
    obtain ⟨h₁, h₂⟩ := hp.past r.item.symbol
      (List.mem_map_of_mem (f := fun r : Reference => r.item.symbol) hr)
    exact hp.sound.left _ h₁ h₂
  obtain ⟨r, hr, rfl | ⟨r', hr', rfl⟩⟩ := exists_declared hi
  · exact hdeclared r hr
  · obtain ⟨c, hc, hrc⟩ := List.mem_flatMap.mp hr
    exact (hdeclared r hr).inv ⟨_, mem_items_of_declared hc hrc, rfl, r', hr', rfl⟩

/-- A tree whose walk is not stopped is not recursive. -/
theorem not_recursive_of_walk_ok (hd : t.Distinct) {u : Unit} (h : t.walk {} = (.ok u, w)) :
    ¬ t.Recursive := by
  rintro ⟨s, hs⟩
  obtain ⟨b, hsb, -⟩ := TransGen.head'_iff.mp hs
  obtain ⟨i, hi, rfl, -⟩ := hsb
  exact not_transGen_of_acc (acc_of_walk_ok hd h hi) hs

theorem recursion?_eq_some {r : Recursion} :
    t.recursion? = some r ↔ ∃ w, t.walk {} = (.error r, w) := by
  unfold recursion?
  rcases t.walk {} with ⟨e | u, w⟩
  · simp
  · simp

theorem recursion?_eq_none : t.recursion? = none ↔ ∃ u w, t.walk {} = (.ok u, w) := by
  unfold recursion?
  rcases t.walk {} with ⟨e | u, w⟩
  · simp
  · simp

/-- A walk that is stopped has found a cycle, and the way to it has at least two places. -/
theorem recursive_of_recursion? (hd : t.Distinct) {r : Recursion} (h : t.recursion? = some r) :
    t.Recursive ∧ 2 ≤ r.stack.length := by
  obtain ⟨w, hw⟩ := recursion?_eq_some.mp h
  have hstop : Walk.Expected t {} _ (t.walk {}) := walk_expected hd
  rw [hw] at hstop
  exact hstop

theorem recursion?_isSome_iff (hd : t.Distinct) : t.recursion?.isSome ↔ t.Recursive := by
  cases h : t.recursion? with
  | some r => exact ⟨fun _ => (recursive_of_recursion? hd h).1, fun _ => rfl⟩
  | none =>
    obtain ⟨u, w, hw⟩ := recursion?_eq_none.mp h
    exact ⟨nofun, fun hr => absurd hr (not_recursive_of_walk_ok hd hw)⟩

/-- A walk is stopped if and only if some symbol depends on itself. -/
theorem recursion?_isSome_iff_dependsOn (hd : t.Distinct)
    (hc : (t.classes.map ClassDecl.id).Nodup) :
    t.recursion?.isSome ↔ ∃ s, TransGen t.DependsOn s s := by
  rw [recursion?_isSome_iff hd, Recursive, refers_eq_dependsOn hd hc]

/-- **The walk is exact.** It finds a recursion if and only if some symbol depends on itself. The way
that it gives has at least two places and starts at the place of the error, and the error is the one
diagnostic of a report that was empty. -/
theorem recursion?_exact (hd : t.Distinct) (hc : (t.classes.map ClassDecl.id).Nodup) :
    (t.recursion?.isSome ↔ ∃ s, TransGen t.DependsOn s s) ∧
    ∀ r, t.recursion? = some r →
      2 ≤ r.stack.length ∧ r.stack.head? = some r.toError.location ∧
      r.toError.diagnostic.location = r.toError.location ∧
      r.toError.diagnostic.stack = r.stack ∧
      ∀ report : Report, report.diagnostics = [] →
        (report.add r.toError.diagnostic).diagnostics = [r.toError.diagnostic] := by
  refine ⟨recursion?_isSome_iff_dependsOn hd hc, fun r hr => ?_⟩
  have hlen := (recursive_of_recursion? hd hr).2
  refine ⟨hlen, ?_, rfl, rfl, fun report hempty => ?_⟩
  · cases hstack : r.stack with
    | nil => simp [hstack] at hlen
    | cons l ls => simp [Recursion.toError, LowerError.location, Recursion.location, hstack]
  · have hfailed : report.failed = false := by
      simp [Report.failed, Report.errors, Report.count, hempty]
    have haccepts : report.accepts r.toError.diagnostic = true := by
      simp [Report.accepts, Recursion.toError, LowerError.diagnostic, Diagnostic.error, hfailed]
    rw [Report.add, if_pos haccepts, hempty, List.nil_append]

/-- Two classes that store an object of each other; the second one has a pre-constructor. -/
def mutualObjects : Tree where
  classes :=
    [{ id := ⟨1⟩, name := "Node", members := [{ id := ⟨1⟩, name := "leaf", ty := .ofClass ⟨2⟩ }] },
     { id := ⟨2⟩, name := "Leaf", preConstructor := some ⟨7⟩,
       members := [{ id := ⟨2⟩, name := "node", ty := .ofClass ⟨1⟩ }] }]

theorem recursion?_mutualObjects :
    mutualObjects.Distinct ∧ (mutualObjects.classes.map ClassDecl.id).Nodup ∧
      ∃ s, TransGen mutualObjects.DependsOn s s := by
  have hd : mutualObjects.Distinct := by unfold Distinct; decide
  have hc : (mutualObjects.classes.map ClassDecl.id).Nodup := by decide
  exact ⟨hd, hc, (recursion?_exact hd hc).1.mp (by decide)⟩

end Tree

end Shader
