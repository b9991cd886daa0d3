import Shader.Proofs.References.Recursion

/-!
# The walk step by step

The walk of a tree ends, whatever the tree is like, and expands each symbol once
(`Tree.walk_expands_once`).

Between two steps the walk is at a `Walk.Stage`: a list of what is left to do, and the symbols that it
has expanded and is inside of. A stage knows no bound on the depth, so that the end of the walk is
something to prove.

* `Walk.Stage.Step.proper` is the step lemma for what holds at every stage. In particular the symbols
  that are still to be left are those that the walk is inside of.
* `Walk.visit_arrives` — visits make the same way as steps do, by induction on the depth. The depth
  never runs out, since the walk is inside of different symbols of the tree.
-/

namespace Shader

open Outcome Relation

variable {t : Tree} {i : Item} {w : Walk}

namespace Walk

/-- Something left to do. -/
inductive Task where
  | visit (trace : List Location) (item : Item)
  | leave (s : Symbol)

/-- The symbol that a task leaves. -/
def Task.left? : Task → Option Symbol
  | .visit _ _ => none
  | .leave s => some s

/-- A point of a walk. -/
structure Stage where
  agenda : List Task
  walk : Walk

/-- The visits of references from a place on. -/
def visits (trace : List Location) (rs : List Reference) : List Task :=
  rs.map fun r => .visit (trace ++ r.via) r.item

namespace Stage

/-- One step of a walk. -/
inductive Step (d : Declarations) : Stage → Stage → Prop
  | pass {trace i rest w} (hout : i.symbol ∉ w.inside) (hin : i.symbol ∈ w.expanded) :
    Step d ⟨.visit trace i :: rest, w⟩ ⟨rest, w⟩
  | enter {trace i rest w} (hout : i.symbol ∉ w.inside) (hnew : i.symbol ∉ w.expanded) :
    Step d ⟨.visit trace i :: rest, w⟩
      ⟨visits (trace ++ [i.location]) (i.references d) ++ .leave i.symbol :: rest, w.enter i.symbol⟩
  | leave {s rest w} : Step d ⟨.leave s :: rest, w⟩ ⟨rest, w.leave s⟩

/-- The steps from one stage to another. -/
abbrev Reaches (d : Declarations) : Stage → Stage → Prop := ReflTransGen (Step d)

/-- How a walk ends at a stage, if it does. -/
def outcome? : Stage → Option (Except Recursion Unit)
  | ⟨[], _⟩ => some (.ok ())
  | ⟨.visit trace i :: _, w⟩ =>
    if i.symbol ∈ w.inside then some (.error ⟨trace ++ [i.location]⟩) else none
  | ⟨.leave _ :: _, _⟩ => none

/-- What holds at every stage of the walk of a tree. -/
structure Proper (t : Tree) (a : Stage) : Prop where
  nodup : a.walk.expanded.Nodup
  declared : ∀ s ∈ a.walk.expanded, s ∈ t.items.map Item.symbol
  inside_sub : a.walk.inside ⊆ a.walk.expanded
  nodup_inside : a.walk.inside.Nodup
  leaves : a.agenda.filterMap Task.left? = a.walk.inside
  items : ∀ trace i, .visit trace i ∈ a.agenda → i ∈ t.items

/-- A symbol has been expanded or is to be visited. -/
def Due (a : Stage) (s : Symbol) : Prop :=
  s ∈ a.walk.expanded ∨ ∃ trace i, .visit trace i ∈ a.agenda ∧ i.symbol = s

end Stage

theorem left?_visits (trace : List Location) (rs : List Reference) :
    (visits trace rs).filterMap Task.left? = [] :=
  List.filterMap_eq_nil_iff.mpr fun _ h => by obtain ⟨r, -, rfl⟩ := List.mem_map.mp h; rfl

theorem visit_mem_visits {trace trace' : List Location} {rs : List Reference}
    (h : .visit trace' i ∈ visits trace rs) : ∃ r ∈ rs, r.item = i := by
  obtain ⟨r, hr, heq⟩ := List.mem_map.mp h
  cases heq
  exact ⟨r, hr, rfl⟩

variable {rest : List Task} {trace : List Location}

namespace Stage

variable {d : Declarations} {a b c : Stage} {s : Symbol}

/-! ### One step -/

theorem Step.deterministic (hb : Step d a b) (hc : Step d a c) : b = c := by
  cases hb with
  | pass hout hin =>
    cases hc with
    | pass => rfl
    | enter _ hnew => exact absurd hin hnew
  | enter hout hnew =>
    cases hc with
    | pass _ hin => exact absurd hin hnew
    | enter => rfl
  | leave =>
    cases hc
    rfl

theorem Step.outcome?_eq_none (h : Step d a b) : a.outcome? = none := by
  cases h with
  | pass hout => exact if_neg hout
  | enter hout => exact if_neg hout
  | leave => rfl

theorem Step.expanded_sub (h : Step d a b) : a.walk.expanded ⊆ b.walk.expanded := by
  cases h with
  | enter => exact List.subset_append_left _ _
  | _ => exact List.Subset.refl _

/-- **The step lemma.** -/
theorem Step.proper (h : Step (.ofTree t) a b) (ha : a.Proper t) : b.Proper t := by
  cases h with
  | pass hout hin =>
    exact ⟨ha.nodup, ha.declared, ha.inside_sub, ha.nodup_inside, ha.leaves,
      fun trace i hi => ha.items trace i (List.mem_cons_of_mem _ hi)⟩
  | @enter trace i rest w hout hnew =>
    have hi : i ∈ t.items := ha.items trace i List.mem_cons_self
    refine ⟨List.nodup_append.mpr ⟨ha.nodup, List.nodup_singleton _, ?_⟩,
      List.forall_mem_append.mpr ⟨ha.declared, ?_⟩, ?_, List.nodup_cons.mpr ⟨hout, ha.nodup_inside⟩,
      ?_, fun trace' j hj => ?_⟩
    · rintro s hs _ hi' rfl
      exact hnew (List.mem_singleton.mp hi' ▸ hs)
    · exact List.forall_mem_singleton.mpr (List.mem_map_of_mem hi)
    · exact List.cons_subset.mpr ⟨List.mem_append_right _ List.mem_cons_self,
        List.Subset.trans ha.inside_sub (List.subset_append_left _ _)⟩
    · have hleaves : rest.filterMap Task.left? = w.inside := ha.leaves
      change (_ ++ Task.leave i.symbol :: rest).filterMap Task.left? = i.symbol :: w.inside
      rw [List.filterMap_append, left?_visits, List.nil_append, ← hleaves]
      rfl
    · rcases List.mem_append.mp hj with hj | hj
      · obtain ⟨r, hr, rfl⟩ := visit_mem_visits hj
        exact Item.holds_references hi r hr
      · exact ha.items trace' j (List.mem_cons_of_mem _ ((List.mem_cons.mp hj).resolve_left nofun))
  | @leave s rest w =>
    -- what is left is the innermost symbol
    have hinside : w.inside = s :: rest.filterMap Task.left? := ha.leaves.symm
    have herase : (w.leave s).inside = rest.filterMap Task.left? := by
      change w.inside.erase s = _
      rw [hinside, List.erase_cons_head]
    refine ⟨ha.nodup, ha.declared, ?_, ?_, herase.symm,
      fun trace i hi => ha.items trace i (List.mem_cons_of_mem _ hi)⟩
    · exact List.Subset.trans List.erase_subset ha.inside_sub
    · exact ha.nodup_inside.erase s

theorem Step.visited (h : Step d ⟨.visit trace i :: rest, w⟩ b) :
    i.symbol ∈ b.walk.expanded := by
  cases h with
  | pass hout hin => exact hin
  | enter hout hnew => exact List.mem_append_right _ List.mem_cons_self

theorem Step.due (h : Step d a b) (ha : a.Due s) : b.Due s := by
  rcases ha with hs | ⟨trace, i, hi, rfl⟩
  · exact .inl (h.expanded_sub hs)
  obtain ⟨agenda, w⟩ := a
  cases agenda with
  | nil => nomatch hi
  | cons task rest =>
    rcases List.mem_cons.mp hi with rfl | hrest
    · exact .inl h.visited
    · refine .inr ⟨trace, i, ?_, rfl⟩
      cases h with
      | enter => exact List.mem_append_right _ (List.mem_cons_of_mem _ hrest)
      | _ => exact hrest

/-! ### Runs -/

theorem Reaches.proper (h : Reaches (.ofTree t) a b) (ha : a.Proper t) : b.Proper t := by
  induction h with
  | refl => exact ha
  | tail _ hstep ih => exact hstep.proper ih

theorem Reaches.due (h : Reaches d a b) (ha : a.Due s) : b.Due s := by
  induction h with
  | refl => exact ha
  | tail _ hstep ih => exact hstep.due ih

theorem Reaches.expanded_sub (h : Reaches d a b) : a.walk.expanded ⊆ b.walk.expanded := by
  induction h with
  | refl => exact List.Subset.refl _
  | tail _ hstep ih => exact List.Subset.trans ih hstep.expanded_sub

/-- From a stage where the walk ends, no infinite run leads back. -/
theorem Reaches.acc (h : Reaches d a b) (hb : b.outcome?.isSome) : Acc (fun a b => Step d b a) a := by
  induction h using ReflTransGen.head_induction_on with
  | refl =>
    refine ⟨_, fun c hc => ?_⟩
    rw [hc.outcome?_eq_none] at hb
    nomatch hb
  | head hstep _ ih => exact ⟨_, fun c hc => hstep.deterministic hc ▸ ih⟩

/-- Every expanded symbol has been entered. -/
theorem Reaches.exists_enter (h : Reaches d a b) (hs : s ∈ b.walk.expanded)
    (ha : s ∉ a.walk.expanded) : ∃ trace i rest w, i.symbol = s ∧ s ∉ w.inside ∧ s ∉ w.expanded ∧
      Reaches d a ⟨.visit trace i :: rest, w⟩ ∧
      Reaches d ⟨visits (trace ++ [i.location]) (i.references d) ++ .leave s :: rest, w.enter s⟩ b := by
  induction h with
  | refl => exact absurd hs ha
  | @tail b c hab hbc ih =>
    by_cases hb : s ∈ b.walk.expanded
    · obtain ⟨trace, i, rest, w, hi, hout, hnew, hbefore, hafter⟩ := ih hb
      exact ⟨trace, i, rest, w, hi, hout, hnew, hbefore, hafter.tail hbc⟩
    · cases hbc with
      | @enter trace i rest w hout hnew =>
        obtain rfl : s = i.symbol := by
          rcases List.mem_append.mp hs with hs | hs
          · exact absurd hs hb
          · exact List.mem_singleton.mp hs
        exact ⟨trace, i, rest, w, rfl, hout, hnew, hab, .refl⟩
      | _ => exact absurd hs hb

end Stage

/-! ### Visits make the same way -/

/-- The outcome of visits is where the steps from a stage lead. -/
def Arrives (d : Declarations) (a : Stage) (rest : List Task) : Except Recursion Unit × Walk → Prop
  | (.ok _, w) => a.Reaches d ⟨rest, w⟩
  | (.error r, w) => ∃ b, a.Reaches d b ∧ b.outcome? = some (.error r) ∧ b.walk = w

theorem Arrives.head {d : Declarations} {a b : Stage} {x : Except Recursion Unit × Walk}
    (hab : a.Reaches d b) (h : Arrives d b rest x) :
    Arrives d a rest x := by
  obtain ⟨r | _, w⟩ := x
  · obtain ⟨c, hbc, hc⟩ := h
    exact ⟨c, hab.trans hbc, hc⟩
  · exact hab.trans h

/-- A list of visits arrives if each visit does, whatever the ones before it expanded. -/
theorem forM_arrives {rs : List Reference} {f : Reference → WalkM Unit}
    (hp : Stage.Proper t ⟨visits trace rs ++ rest, w⟩)
    (step : ∀ r ∈ rs, ∀ rest' w', Stage.Proper t ⟨.visit (trace ++ r.via) r.item :: rest', w'⟩ →
      w'.inside = w.inside →
      Arrives (.ofTree t) ⟨.visit (trace ++ r.via) r.item :: rest', w'⟩ rest' (f r w')) :
    Arrives (.ofTree t) ⟨visits trace rs ++ rest, w⟩ rest (rs.forM f w) := by
  induction rs generalizing w with
  | nil => exact ReflTransGen.refl
  | cons r rs ih =>
    rw [forM_cons, bind_apply]
    have hfirst := step r List.mem_cons_self (visits trace rs ++ rest) w hp rfl
    generalize f r w = x at hfirst ⊢
    obtain ⟨_ | _, w₁⟩ := x
    · exact hfirst
    · have hreach : Stage.Reaches (.ofTree t) _ ⟨visits trace rs ++ rest, w₁⟩ := hfirst
      have hp₁ := hreach.proper hp
      have hinside : w₁.inside = w.inside := hp₁.leaves.symm.trans hp.leaves
      exact .head hreach (ih hp₁ fun r' hr' rest' w' hp' hin =>
        step r' (List.mem_cons_of_mem _ hr') rest' w' hp' (hin.trans hinside))

/-- **A visit arrives**, provided that enough depth is left. -/
theorem visit_arrives (depth : Nat) (hp : Stage.Proper t ⟨.visit trace i :: rest, w⟩)
    (hdepth : t.itemCount < depth + w.inside.length) :
    Arrives (.ofTree t) ⟨.visit trace i :: rest, w⟩ rest (visit (.ofTree t) depth trace i w) := by
  induction depth generalizing trace i rest w with
  | zero =>
    have := length_le_itemCount hp.nodup_inside fun s hs => hp.declared s (hp.inside_sub hs)
    dsimp only at this
    omega
  | succ depth ih =>
    rw [visit_succ]
    split
    · next hin => exact ⟨_, .refl, if_pos hin, rfl⟩
    next hout =>
    split
    · next hexp => exact ReflTransGen.single (.pass hout hexp)
    next hnew =>
    have henter : Stage.Step (.ofTree t) ⟨.visit trace i :: rest, w⟩ _ := .enter hout hnew
    have hinner := forM_arrives (henter.proper hp)
      (f := fun r => visit (.ofTree t) depth (trace ++ [i.location] ++ r.via) r.item)
      fun r _ rest' w' hp' hin => ih hp' (by rw [hin, enter, List.length_cons]; omega)
    generalize (i.references (.ofTree t)).forM
      (fun r => visit (.ofTree t) depth (trace ++ [i.location] ++ r.via) r.item)
      (w.enter i.symbol) = x at hinner ⊢
    obtain ⟨_ | _, w'⟩ := x
    · exact .head (.single henter) hinner
    · exact ((ReflTransGen.single henter).trans hinner).tail .leave

end Walk

namespace Tree

/-- The beginning of the walk of a tree. -/
def start (t : Tree) : Walk.Stage :=
  ⟨Walk.visits [] (t.classes.flatMap ClassDecl.declared), {}⟩

theorem proper_start (t : Tree) : t.start.Proper t := by
  refine ⟨List.nodup_nil, nofun, nofun, List.nodup_nil, Walk.left?_visits _ _, fun trace i hi => ?_⟩
  obtain ⟨r, hr, rfl⟩ := Walk.visit_mem_visits hi
  obtain ⟨c, hc, hr⟩ := List.mem_flatMap.mp hr
  exact mem_items_of_declared hc hr

theorem walk_arrives (t : Tree) : Walk.Arrives (.ofTree t) t.start [] (t.walk {}) := by
  have hstart : t.start = ⟨Walk.visits [] (t.classes.flatMap ClassDecl.declared) ++ [], {}⟩ := by
    rw [List.append_nil, start]
  rw [hstart]
  exact Walk.forM_arrives (hstart ▸ t.proper_start) fun r _ rest w hp _ =>
    Walk.visit_arrives _ hp (by omega)

/-- In a tree whose identities are distinct, a walk that is over has expanded every item. -/
theorem expanded_of_over (hd : t.Distinct) (h : Walk.Stage.Reaches (.ofTree t) t.start ⟨[], w⟩)
    (hi : i ∈ t.items) :
    i.symbol ∈ w.expanded := by
  have hover : ∀ {a : Walk.Stage} {s : Symbol}, a.Reaches (.ofTree t) ⟨[], w⟩ → a.Due s →
      s ∈ w.expanded := fun ha hs => (ha.due hs).resolve_right fun ⟨_, _, hmem, _⟩ => nomatch hmem
  have hdeclared : ∀ r ∈ t.classes.flatMap ClassDecl.declared, r.item.symbol ∈ w.expanded :=
    fun r hr => hover h (.inr ⟨_, r.item, List.mem_map_of_mem hr, rfl⟩)
  obtain ⟨r, hr, rfl | ⟨r', hr', rfl⟩⟩ := exists_declared hi
  · exact hdeclared r hr
  · obtain ⟨trace, j, rest, v, hj, -, -, hbefore, hafter⟩ := h.exists_enter (hdeclared r hr) nofun
    obtain ⟨c, hc, hrc⟩ := List.mem_flatMap.mp hr
    have hjt : j ∈ t.items := (hbefore.proper t.proper_start).items trace j List.mem_cons_self
    obtain rfl := hd.eq_of_symbol hjt (mem_items_of_declared hc hrc) hj
    exact hover hafter (.inr ⟨_, r'.item, List.mem_append_left _ (List.mem_map_of_mem hr'), rfl⟩)

/-- **The walk ends and expands each symbol once.** From its beginning there is no infinite run of
steps, and the walk as it is computed ends where the steps end. At every stage no symbol has been
expanded twice, the expanded symbols are those of the items visited so far, and the walk is inside of
expanded symbols only. When it is not stopped it is inside of nothing in the end, and if identities are
distinct it has expanded exactly the declared items. -/
theorem walk_expands_once (t : Tree) :
    Acc (fun a b => Walk.Stage.Step (.ofTree t) b a) t.start ∧
    (∃ a, t.start.Reaches (.ofTree t) a ∧ a.outcome? = some (t.walk {}).1 ∧ a.walk = (t.walk {}).2) ∧
    (∀ a, t.start.Reaches (.ofTree t) a →
      a.walk.expanded.Nodup ∧ a.walk.inside ⊆ a.walk.expanded ∧
      ∀ s, s ∈ a.walk.expanded ↔ ∃ trace i rest w, i.symbol = s ∧
        t.start.Reaches (.ofTree t) ⟨.visit trace i :: rest, w⟩ ∧
        TransGen (Walk.Stage.Step (.ofTree t)) ⟨.visit trace i :: rest, w⟩ a) ∧
    ∀ w, t.walk {} = (.ok (), w) → w.inside = [] ∧
      (t.Distinct → w.expanded.Perm (t.items.map Item.symbol)) := by
  have harrives := t.walk_arrives
  have hend : ∃ a, t.start.Reaches (.ofTree t) a ∧ a.outcome? = some (t.walk {}).1 ∧
      a.walk = (t.walk {}).2 := by
    generalize t.walk {} = x at harrives ⊢
    obtain ⟨r | _, w⟩ := x
    · exact harrives
    · exact ⟨⟨[], w⟩, harrives, rfl, rfl⟩
  refine ⟨?_, hend, fun a ha => ?_, fun w hw => ?_⟩
  · obtain ⟨a, ha, hout, -⟩ := hend
    exact ha.acc (by rw [hout]; rfl)
  · have hp := ha.proper t.proper_start
    refine ⟨hp.nodup, hp.inside_sub, fun s => ⟨fun hs => ?_, ?_⟩⟩
    · obtain ⟨trace, i, rest, w, rfl, hout, hnew, hbefore, hafter⟩ := ha.exists_enter hs nofun
      exact ⟨trace, i, rest, w, rfl, hbefore, .head' (.enter hout hnew) hafter⟩
    · rintro ⟨trace, i, rest, w, rfl, -, hafter⟩
      obtain ⟨b, hstep, hreach⟩ := TransGen.head'_iff.mp hafter
      exact Walk.Stage.Reaches.expanded_sub hreach hstep.visited
  · rw [hw] at harrives
    have hreach : t.start.Reaches (.ofTree t) ⟨[], w⟩ := harrives
    have hp := hreach.proper t.proper_start
    refine ⟨hp.leaves.symm, fun hd => (List.perm_ext_iff_of_nodup hp.nodup hd).mpr fun s => ?_⟩
    refine ⟨hp.declared s, fun hs => ?_⟩
    obtain ⟨i, hi, rfl⟩ := List.mem_map.mp hs
    exact expanded_of_over hd hreach hi

/-- Two ways lead from the first class to the last one. -/
def diamond : Tree where
  classes :=
    [{ id := ⟨1⟩, name := "Whole",
       members :=
        [{ id := ⟨1⟩, name := "left", ty := .ofClass ⟨2⟩ },
         { id := ⟨2⟩, name := "right", ty := .ofClass ⟨3⟩ }] },
     { id := ⟨2⟩, name := "Left", members := [{ id := ⟨3⟩, name := "corner", ty := .ofClass ⟨4⟩ }] },
     { id := ⟨3⟩, name := "Right", members := [{ id := ⟨4⟩, name := "corner", ty := .ofClass ⟨4⟩ }] },
     { id := ⟨4⟩, name := "Corner", preConstructor := some ⟨7⟩,
       members := [{ id := ⟨5⟩, name := "number", ty := .integer }] }]

theorem walk_expands_once_diamond :
    diamond.Distinct ∧ ∃ w, diamond.walk {} = (.ok (), w) ∧ w.inside = [] ∧
      w.expanded.Perm (diamond.items.map Item.symbol) := by
  have hd : diamond.Distinct := by unfold Distinct; decide
  obtain ⟨w, hw⟩ : ∃ w, diamond.walk {} = (.ok (), w) := ⟨_, rfl⟩
  obtain ⟨hinside, hperm⟩ := (walk_expands_once diamond).2.2.2 w hw
  exact ⟨hd, w, hw, hinside, hperm hd⟩

end Tree

end Shader
