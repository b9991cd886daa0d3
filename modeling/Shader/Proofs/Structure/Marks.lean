import Shader.Proofs.Structure.Finished

/-!
# The marks of compiled functions

Every function of a compiled library is drawn by the outline of what the tree says about it
(`ClassDecl.Plans`). So all marks are complete: heads of selections and loops name placed blocks, and
heads of loops branch. That heads of selections branch as well is a matter of the tree. A condition
that follows a `return`, a `break` or a `continue` marks a block that has already been left, and its
own branch is dropped with everything else that follows.
-/

namespace Shader

open Outcome

/-! ### Plans -/

/-- The outlines of all that is emitted with a class. -/
def ClassDecl.outlines (s : Scope) (c : ClassDecl) : List Outline :=
  (if ((s.classes.lookup c.id).bind ClassShape.preConstructor).isSome then
    [initializersOutline s c.members] else []) ++
    c.definitions.filterMap fun d => d.body.map (stmtsOutline s)

/-- **Live trees.** No body makes a selection in a block that it has left. -/
def Tree.Live (t : Tree) (s : Scope) : Prop :=
  ∀ c ∈ t.classes, ∀ o ∈ c.outlines s, o.live none = true

instance (t : Tree) (s : Scope) : Decidable (t.Live s) :=
  inferInstanceAs (Decidable (∀ c ∈ t.classes, ∀ o ∈ c.outlines s, o.live none = true))

/-- The scope in which the functions of a tree are emitted. -/
def Tree.declared (t : Tree) (l : Library) : Scope := (Scope.declareTree t { library := l }).2

/-- What a class says about a function. -/
inductive ClassDecl.Plans (s₀ : Scope) (c : ClassDecl) (g : FunctionRef) : Outline → Prop
  | initializers {shape : ClassShape} (hshape : s₀.classes.lookup c.id = some shape)
    (hpre : shape.preConstructor = some g) : Plans s₀ c g (initializersOutline s₀ c.members)
  | body {d : Definition} {xs : List Stmt} (hd : d ∈ c.definitions) (hbody : d.body = some xs)
    (hid : s₀.Names d.id g) : Plans s₀ c g (stmtsOutline s₀ xs)

/-- The function is drawn by what some class of the tree says about it. -/
def Tree.Draws (t : Tree) (s₀ : Scope) (g : FunctionRef) (r : Routine) : Prop :=
  ∃ c ∈ t.classes, ∃ o, c.Plans s₀ g o ∧ r.Drawn o

section Plans

variable {t : Tree} {own : LibraryId} {ds : List Library} {s₀ : Scope} {g : FunctionRef}

variable {o : Outline} {c : ClassDecl}

theorem ClassDecl.Plans.mem_outlines (h : c.Plans s₀ g o) : o ∈ c.outlines s₀ := by
  cases h with
  | initializers hshape hpre => simp [ClassDecl.outlines, hshape, hpre]
  | body hd hbody _ =>
    refine List.mem_append_right _ (List.mem_filterMap.mpr ⟨_, hd, ?_⟩)
    rw [hbody]
    rfl

/-- What is planned for a class is emitted with the class. -/
theorem ClassDecl.Plans.emits (h : c.Plans s₀ g o) : c.Emits s₀ g := by
  cases h with
  | initializers hshape hpre => exact .inl ⟨_, hshape, hpre⟩
  | @body d xs hd hbody hid =>
    refine .inr ⟨d.id, ?_, hid⟩
    simp only [ClassDecl.definitions, List.mem_append, List.mem_map, List.mem_flatMap] at hd
    simp only [ClassDecl.bodyIds, List.mem_append, List.mem_map, List.mem_flatMap]
    rcases hd with ⟨id, -, rfl⟩ | ⟨k, hk, rfl⟩ | ⟨f, hf, rfl⟩ | ⟨v, hv, f, hf, rfl⟩
    · cases hbody
    · exact .inl ⟨k, hk, rfl⟩
    · exact .inr (.inl ⟨f, hf, rfl⟩)
    · exact .inr (.inr ⟨v, hv, f, hf, rfl⟩)

/-- A class has a plan for each of its outlines, if all identities of the tree are found. -/
theorem ClassDecl.exists_plans (hc : c ∈ t.classes)
    (hids : ∀ id ∈ t.functionIds, ∃ g, s₀.Names id g) (ho : o ∈ c.outlines s₀) :
    ∃ g, c.Plans s₀ g o := by
  rcases List.mem_append.mp ho with ho | ho
  · split at ho
    · next hsome =>
      obtain rfl := List.mem_singleton.mp ho
      obtain ⟨g, hg⟩ := Option.isSome_iff_exists.mp hsome
      obtain ⟨shape, hshape, hpre⟩ := Option.bind_eq_some_iff.mp hg
      exact ⟨g, .initializers hshape hpre⟩
    · nomatch ho
  · obtain ⟨d, hd, ho⟩ := List.mem_filterMap.mp ho
    obtain ⟨xs, hxs, rfl⟩ := Option.map_eq_some_iff.mp ho
    have hid : d.id ∈ t.functionIds := by
      rw [← Tree.map_id_definitions]
      exact List.mem_map_of_mem (Tree.mem_definitions hc hd)
    obtain ⟨g, hg⟩ := hids d.id hid
    exact ⟨g, .body hd hxs hg⟩

/-- **What a tree writes** is drawn by what the tree says. -/
theorem Tree.Writes.draws {s : Scope} {r : Routine} (h : t.Writes s₀ s g r)
    (h₀ : s₀.Awaiting t own ds []) : t.Draws s₀ g r := by
  obtain ⟨c, hc, d, hd, hbecomes⟩ := h
  have hsound : (Emit.tracedStages s₀ (fun _ _ => True) true).Sound :=
    Emit.tracedStages_sound h₀.toDeclaring
  have hgranted : ∀ ps, Emit.PositionsGranted s₀ (fun _ _ => True) ps :=
    Emit.positionsGranted_of_forall fun _ _ => True.intro
  have hstmts : ∀ xs w, (Emit.tracedStages s₀ (fun _ _ => True) true).Emits w (Emit.stmts none xs)
      (stmtsOutline s₀ xs) fun _ _ => True :=
    fun xs w => Emit.Stages.stmts_emits hsound xs none w nofun (hgranted _)
  cases hd with
  | preConstructor hfinds hg =>
    obtain ⟨shape, hshape⟩ := h₀.shaped c hc
    obtain rfl := hfinds.eq h₀.toDeclaring hshape
    exact ⟨c, hc, _, .initializers hshape hg, hbecomes.drawn fun w =>
      Emit.Stages.initializers_emits hsound fun v _ => ⟨hgranted _, fun _ _ _ _ _ _ _ _ _ => True.intro⟩⟩
  | @constructor _ k _ _ hk hg =>
    refine ⟨c, hc, _, .body (d := ⟨k.id, true, k.parameters, some k.body⟩) ?_ rfl hg,
      hbecomes.drawn fun w => Emit.Stages.constructorBody_emits hsound (hgranted _) fun _ _ => True.intro⟩
    exact List.mem_append_right _ (List.mem_append_left _ (List.mem_map_of_mem hk))
  | @function _ f _ _ hf hg =>
    refine ⟨c, hc, _, .body (d := ⟨f.id, !f.isStatic, f.parameters, some f.body⟩) ?_ rfl hg,
      hbecomes.drawn (hstmts f.body)⟩
    exact List.mem_append_right _ (List.mem_append_right _ (List.mem_append_left _
      (List.mem_map_of_mem hf)))
  | @accessor _ v f _ _ hv hf hg =>
    refine ⟨c, hc, _, .body (d := ⟨f.id, true, f.parameters, some f.body⟩) ?_ rfl hg,
      hbecomes.drawn (hstmts f.body)⟩
    exact List.mem_append_right _ (List.mem_append_right _ (List.mem_append_right _
      (List.mem_flatMap.mpr ⟨v, hv, List.mem_map_of_mem hf⟩)))

/-- **If identities are apart, a function has one plan.** -/
theorem Scope.Declaring.plans_unique (h₀ : s₀.Declaring t own ds) (ht : t.Apart)
    (hown : g.library = own) {c' : ClassDecl} (hc : c ∈ t.classes) (hc' : c' ∈ t.classes)
    {o' : Outline} (h : c.Plans s₀ g o) (h' : c'.Plans s₀ g o') : o = o' := by
  have hmem : ∀ {id : FunctionId}, s₀.Names id g → (id, g) ∈ s₀.library.functions :=
    fun hid => h₀.mem_functions hid (hown.trans h₀.id.symm)
  have hnobody : ∀ {c : ClassDecl} {shape : ClassShape}, s₀.classes.lookup c.id = some shape →
      shape.preConstructor = some g → ∀ {d : Definition}, d ∈ t.definitions → s₀.Names d.id g →
        d.body = none := by
    intro c shape hshape hpre d hd hid
    obtain ⟨id, rfl⟩ := h₀.definition_of_initializer ht hown hd (hmem hid)
      (mem_of_lookup_eq_some hshape) hpre
    rfl
  cases h with
  | initializers hshape hpre =>
    cases h' with
    | initializers hshape' hpre' =>
      have hid := h₀.shape_inj _ _ _ _ g (mem_of_lookup_eq_some hshape)
        (mem_of_lookup_eq_some hshape') hpre hpre' hown
      rw [List.inj_on_of_nodup_map ht.classes hc hc' hid]
    | body hd' hbody' hid' =>
      rw [hnobody hshape hpre (Tree.mem_definitions hc' hd') hid'] at hbody'
      nomatch hbody'
  | body hd hbody hid =>
    cases h' with
    | initializers hshape' hpre' =>
      rw [hnobody hshape' hpre' (Tree.mem_definitions hc hd) hid] at hbody
      nomatch hbody
    | body hd' hbody' hid' =>
      have heq := ht.eq_of_id (Tree.mem_definitions hc hd) (Tree.mem_definitions hc' hd')
        (h₀.named_inj _ _ g (hmem hid) (hmem hid'))
      rw [heq, hbody'] at hbody
      rw [Option.some.inj hbody]

end Plans

/-! ### Compiled functions -/

/-- The functions of an accepted tree are drawn by what the tree says about them, and all that the
tree says is drawn. -/
theorem lowerTree_draws {t : Tree} {id : LibraryId} {name : String} {dependencies : List Library}
    {report : Report} (hforeign : Library.Foreign id dependencies)
    (h : (lowerTree t { id, name, dependencies } report).2.failed = false) :
    (t.declared { id, name, dependencies }).Declaring t id dependencies ∧
    (∀ r ∈ (lowerTree t { id, name, dependencies } report).1.routines,
      r.placed = [] ∨ ∃ i, t.Draws (t.declared { id, name, dependencies }) ⟨id, i⟩ r) ∧
    ∀ c ∈ t.classes, ∀ o ∈ c.outlines (t.declared { id, name, dependencies }),
      ∃ r ∈ (lowerTree t { id, name, dependencies } report).1.routines, ∃ g,
        g.library = id ∧ c.Plans (t.declared { id, name, dependencies }) g o ∧
          t.Draws (t.declared { id, name, dependencies }) g r := by
  obtain ⟨u, s₀, s, hdeclare, h₀, -, hresult, hend⟩ := lowerTree_written hforeign h
  have hdeclared : t.declared { id, name, dependencies } = s₀ := congrArg Prod.snd hdeclare
  have hawaiting := Scope.declareTree_awaiting (Scope.sketching_empty hforeign) hdeclare
  have hid : s.library.id = id := (hend.reaches.emitting h₀).id.trans h₀.id
  rw [hresult, hdeclared]
  refine ⟨h₀, fun r hr => ?_, fun c hc o ho => ?_⟩
  · obtain ⟨i, hi, rfl⟩ := List.mem_iff_getElem.mp hr
    have hroutine : s.library.routine? ⟨id, i⟩ = some s.library.routines[i] := by
      rw [Library.routine?, if_pos hid.symm]
      exact List.getElem?_eq_getElem hi
    rcases hend.bodies _ _ hroutine with hold | hwrites
    · have hblocks := h₀.bodies _ (Library.mem_routines_of_routine? hold)
      refine .inl (List.filterMap_eq_nil_iff.mpr fun c _ => ?_)
      rw [Routine.block?, hblocks]
      rfl
    · exact .inr ⟨i, hwrites.draws hawaiting⟩
  · have hids : ∀ fid ∈ t.functionIds, ∃ g, s₀.Names fid g := by
      intro fid hfid
      have hkeys : fid ∈ s₀.library.functions.map Prod.fst := by
        rw [Scope.declareTree_gives t _ _ _ hdeclare]
        simpa using hfid
      obtain ⟨p, hp, rfl⟩ := List.mem_map.mp hkeys
      cases hlookup : s₀.library.functions.lookup p.1 with
      | some g => exact ⟨g, Library.search?_of_own hlookup⟩
      | none => simpa using List.lookup_eq_none_iff.mp hlookup p hp
    obtain ⟨g, hplans⟩ := ClassDecl.exists_plans hc hids ho
    obtain ⟨r, hr, hwrites⟩ := hend.written g ⟨c, hc, hplans.emits⟩
    exact ⟨r, Library.mem_routines_of_routine? hr, g, (Library.library_of_routine? hr).trans hid,
      hplans, hwrites.draws hawaiting⟩

namespace Tree

/-- **The marks of compiled functions.** Let a tree be accepted on top of compiled libraries. The marks
of all placed blocks of the resulting library are complete. If the tree is live, the heads of all
selections branch; and if its identities are apart, so that no body is written over another one, they
branch only then. -/
theorem lowerTree_marked {t : Tree} {id : LibraryId} {name : String} {dependencies : List Library}
    {report : Report} (hcompiled : ∀ d ∈ dependencies, d.Compiled)
    (hfresh : ∀ d ∈ dependencies, d.findLibrary? id = none)
    (h : (lowerTree t { id, name, dependencies } report).2.failed = false) :
    (∀ r ∈ (lowerTree t { id, name, dependencies } report).1.routines, ∀ b ∈ r.placed, b.Marked r) ∧
    (t.Live (t.declared { id, name, dependencies }) →
      ∀ r ∈ (lowerTree t { id, name, dependencies } report).1.routines, ∀ b ∈ r.placed, b.Forks) ∧
    (t.Apart →
      (∀ r ∈ (lowerTree t { id, name, dependencies } report).1.routines, ∀ b ∈ r.placed, b.Forks) →
      t.Live (t.declared { id, name, dependencies })) := by
  have hforeign := Library.foreign_of_owned (fun d hd => (hcompiled d hd).owned) hfresh
  obtain ⟨h₀, hroutines, houtlines⟩ := lowerTree_draws hforeign h
  refine ⟨fun r hr b hb => ?_, fun hlive r hr b hb => ?_, fun ht hforks c hc o ho => ?_⟩
  · rcases hroutines r hr with hempty | ⟨i, c, hc, o, hplans, hdrawn⟩
    · rw [hempty] at hb
      nomatch hb
    · exact hdrawn.marked hb
  · rcases hroutines r hr with hempty | ⟨i, c, hc, o, hplans, hdrawn⟩
    · rw [hempty] at hb
      nomatch hb
    · exact hdrawn.forks_iff.mpr (hlive c hc o hplans.mem_outlines) b hb
  · -- the function that the outline is planned for is drawn by it, since it has no other plan
    obtain ⟨r, hr, g, hown, hplans, c', hc', o', hplans', hdrawn⟩ := houtlines c hc o ho
    obtain rfl := h₀.plans_unique ht hown hc hc' hplans hplans'
    exact hdrawn.forks_iff.mp (hforks r hr)

/-- A class with one function of a truth value. -/
def search (body : List Stmt) : Tree where
  classes :=
    [{ id := ⟨1⟩, name := "Search",
       functions :=
        [{ id := ⟨1⟩, name := "Find", isStatic := true, parameters := [⟨⟨1⟩, "found", .boolean⟩],
           result := .integer, body := body }] }]

/-- A return of a number. -/
def returned (n : Int32) : Stmt :=
  ⟨.ret (some ⟨.literal (.int n), .integer, .unknown⟩), .unknown⟩

/-- A loop that is left early under a condition with two parts. -/
def searchLoop : List Stmt :=
  let found : Expr := ⟨.localVar ⟨1⟩, .boolean, .unknown⟩
  [⟨.whileLoop found
      [⟨.ifChain [⟨some ⟨.binary .logicalOr found found, .boolean, .unknown⟩,
          [⟨.breakLoop, .unknown⟩]⟩], .unknown⟩,
       returned 1], .unknown⟩,
   returned 2]

/-- A condition behind a return. -/
def searchBehindReturn : List Stmt :=
  [returned 1,
   ⟨.ifChain [⟨some ⟨.literal (.bool true), .boolean, .unknown⟩, [returned 2]⟩], .unknown⟩,
   returned 3]

/-- Code with early exits keeps its marks, as long as no condition follows them. -/
theorem lowerTree_marked_searchLoop :
    (lowerTree (search searchLoop) .blank {}).1.routines.any
          (fun r => r.placed.any (·.role = .loop) && r.placed.any (·.role = .selection)) = true ∧
      ∀ r ∈ (lowerTree (search searchLoop) .blank {}).1.routines, ∀ b ∈ r.placed,
        b.Marked r ∧ b.Forks := by
  have hlive : (search searchLoop).Live ((search searchLoop).declared .blank) := by decide +kernel
  unfold Library.blank at hlive ⊢
  obtain ⟨hmarked, hforks, -⟩ := @lowerTree_marked (search searchLoop) ⟨1⟩ "A" [Core.library ⟨0⟩] {}
    (by simpa using .core ⟨0⟩) (by simp; decide) (by decide +kernel)
  exact ⟨by decide +kernel, fun r hr b hb => ⟨hmarked r hr b hb, hforks hlive r hr b hb⟩⟩

/-- **A condition that is never reached.** It marks the block that a return has left, which then
claims to head a selection but returns. -/
theorem lowerTree_deadCondition :
    (lowerTree (search searchBehindReturn) .blank {}).2.failed = false ∧
      (lowerTree (search searchBehindReturn) .blank {}).1.routines.any
          (fun r => r.placed.any fun b => b.role = .selection && b.EndsIn .retValue) = true := by
  decide +kernel

end Tree

end Shader
