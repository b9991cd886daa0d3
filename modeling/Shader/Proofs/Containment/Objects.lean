import Shader.Proofs.Containment.Layering
import Shader.Proofs.Scoping.Safety
import Shader.Proofs.Types.Measured

/-!
# No object contains itself

The refusal of recursion is what keeps a class from containing itself. A field without an initializer
depends on all that initializes the object in it, so that a circle of classes would be a circle of
dependences. A field with an initializer depends on what the initializer uses, and that need not have
to do with the class of the field: a function may return an object that nothing has initialized. So the
argument needs that initializers construct what they give (`Tree.InitializersBuild`).

* `Tree.lowerTree_finite` — so no type of the library holds itself; zero values and layouts exist.
* `Tree.lowerTree_emptyNode` — initializers matter: there is an accepted tree with a class that
  contains itself.
-/

namespace Shader

open Outcome Relation Registry

/-! ### Classes that store each other -/

/-- **Initializers build what they give.** A stored object with an initializer depends on all that
initializes the objects of its class. -/
def Tree.InitializersBuild (t : Tree) : Prop :=
  ∀ c ∈ t.classes, ∀ v ∈ c.members, v.isField = true → v.initial ≠ none →
    ∀ c' ∈ t.classes, v.ty = .ofClass c'.id → ∀ b, c'.InitializedBy b →
      TransGen t.DependsOn (.property v.id) b

namespace Tree

variable {t : Tree}

/-- **Constructing an object.** An initializer in which an object of a class is constructed depends on
all that initializes the objects of the class. -/
theorem dependsOn_of_construct {c d : ClassDecl} (hc : c ∈ t.classes) (hd : d ∈ t.classes)
    {v : VariableDecl} (hv : v ∈ c.members) {initial : Expr} (hinitial : v.initial = some initial)
    {constructor : Option FunctionId} {arguments : List Expr} {location : Location}
    (hmem : ⟨.construct constructor arguments, .ofClass d.id, location⟩ ∈ initial.nodes)
    (hconstructor : ∀ k owner, .constructor k owner ∈ t.items → constructor = some k.id → owner = d)
    {b : Symbol} (hb : d.InitializedBy b) : TransGen t.DependsOn (.property v.id) b := by
  have hitem := Tree.mem_items_of_member hc hv
  by_cases hdeclared : ∃ k owner, .constructor k owner ∈ t.items ∧ constructor = some k.id
  · obtain ⟨k, owner, hk, hid⟩ := hdeclared
    obtain rfl := hconstructor k owner hk hid
    exact .head ⟨_, hitem, rfl, .initializer hinitial hmem (.constructor hk hid)⟩
      (.single ⟨_, hk, rfl, .initialization hb⟩)
  · refine .single ⟨_, hitem, rfl, .initializer hinitial hmem (.initialization ?_ hd hb)⟩
    exact fun k owner hk hid => hdeclared ⟨k, owner, hk, hid⟩

/-- One class of the tree stores objects of another one. -/
def Stores (t : Tree) (c c' : ClassDecl) : Prop := c ∈ t.classes ∧ c' ∈ t.classes ∧ c.Stores c'.id

/-- What initializes the objects of a class depends on what initializes those that it stores. -/
theorem dependsOn_of_stores (ht : t.InitializersBuild) {c c' : ClassDecl} (h : t.Stores c c') :
    ∃ a, c.InitializedBy a ∧ ∀ b, c'.InitializedBy b → TransGen t.DependsOn a b := by
  obtain ⟨hc, hc', v, hv, hfield, hty⟩ := h
  have hproperty : ∀ b, c'.InitializedBy b → TransGen t.DependsOn (.property v.id) b := by
    intro b hb
    cases hinitial : v.initial with
    | none =>
      exact .single ⟨_, Tree.mem_items_of_member hc hv, rfl, .object hinitial hfield hty hc' hb⟩
    | some e =>
      have hsome : v.initial ≠ none := by simp [hinitial]
      exact ht c hc v hv hfield hsome c' hc' hty b hb
  cases hpre : c.preConstructor with
  | none => exact ⟨_, .member hpre hv, hproperty⟩
  | some id =>
    refine ⟨_, .preConstructor hpre, fun b hb => .head ?_ (hproperty b hb)⟩
    exact ⟨_, Tree.mem_items_of_preConstructor hc hpre, rfl, .preConstructor hv⟩

/-- **Classes do not store each other in a circle**, if nothing depends on itself. -/
theorem not_stores_cycle (ht : t.InitializersBuild) (h : ¬ ∃ a, TransGen t.DependsOn a a)
    (c : ClassDecl) : ¬ TransGen t.Stores c c := by
  have hpath : ∀ c', TransGen t.Stores c c' →
      ∃ a, c.InitializedBy a ∧ ∀ b, c'.InitializedBy b → TransGen t.DependsOn a b := by
    intro c' hpath
    induction hpath with
    | single hstep => exact dependsOn_of_stores ht hstep
    | tail _ hstep ih =>
      obtain ⟨a, ha, hab⟩ := ih
      obtain ⟨b, hb, hbc⟩ := dependsOn_of_stores ht hstep
      exact ⟨a, ha, fun y hy => (hab b hb).trans (hbc y hy)⟩
  intro hcycle
  obtain ⟨a, ha, hdepends⟩ := hpath c hcycle
  exact h ⟨a, hdepends a ha⟩

end Tree

/-! ### Types that hold each other -/

namespace Scope

variable {t : Tree} {ds : List Library} {s : Scope}

/-- A type that holds itself is the struct of a class of the tree. -/
theorem Layering.exists_class (hs : s.Layering t ds) {ty : TypeRef}
    (h : TransGen s.library.types.Holds ty ty) :
    ∃ c ∈ t.classes, s.library.types.Named ty c.name := by
  obtain ⟨u, -, hu⟩ := TransGen.tail'_iff.mp h
  have hlt := hs.orderly.closed.index_lt_of_holds hu
  by_contra hnone
  refine (hs.firm ty hlt ?_).not_cycle h
  rintro name hn ⟨c, hc, rfl⟩
  exact hnone ⟨c, hc, hn⟩

/-- **From types to classes.** Along a circle of types, the classes store each other. -/
theorem Layering.stores_of_cycle (hs : s.Layering t ds) {ty u : TypeRef}
    (h : TransGen s.library.types.Holds ty u) (hback : ReflTransGen s.library.types.Holds u ty) :
    ∃ c c', c ∈ t.classes ∧ s.library.types.Named ty c.name ∧ s.library.types.Named u c'.name ∧
      TransGen t.Stores c c' := by
  induction h with
  | single hstep =>
    obtain ⟨c, hc, hn⟩ := hs.exists_class (TransGen.head' hstep hback)
    obtain ⟨c', hc', hn'⟩ := hs.exists_class (TransGen.tail' hback hstep)
    exact ⟨c, c', hc, hn, hn', .single ⟨hc, hc', hs.stores c hc c' hc' _ _ hn hstep hn'⟩⟩
  | tail hpath hstep ih =>
    obtain ⟨c, d, hc, hn, hd, hstores⟩ := ih (.head hstep hback)
    obtain ⟨_, -, -, hdmem, -⟩ := TransGen.tail'_iff.mp hstores
    obtain ⟨c', hc', hn'⟩ :=
      hs.exists_class (TransGen.tail' (hback.trans hpath.to_reflTransGen) hstep)
    have hstore : d.Stores c'.id := hs.stores d hdmem c' hc' _ _ hd hstep hn'
    exact ⟨c, c', hc, hn, hn', hstores.tail ⟨hdmem, hc', hstore⟩⟩

/-- No type holds itself, if classes do not store each other in a circle. -/
theorem Layering.acyclic (ht : t.NamesOwn ds) (hs : s.Layering t ds)
    (hstores : ∀ c, ¬ TransGen t.Stores c c) (ty : TypeRef) :
    ¬ TransGen s.library.types.Holds ty ty := by
  intro hcycle
  obtain ⟨c, c', hc, hn, hn', hpath⟩ := hs.stores_of_cycle hcycle .refl
  obtain ⟨-, -, -, hc', -⟩ := TransGen.tail'_iff.mp hpath
  obtain rfl := List.inj_on_of_nodup_map ht.names hc hc' (hn.unique hn')
  exact hstores c hpath

end Scope

/-! ### Accepted trees -/

/-- **Trees of finite objects.** Identities are apart, names are too, and initializers build what they
give. -/
structure Tree.Contained (t : Tree) (ds : List Library) : Prop extends t.NamesOwn ds where
  distinct : t.Distinct
  builds : t.InitializersBuild

/-- An accepted tree becomes a layered library. -/
theorem lowerTree_layered {t : Tree} {id : LibraryId} {name : String} {dependencies : List Library}
    {report : Report} (hforeign : Library.Foreign id dependencies)
    (hlayered : ∀ d ∈ dependencies, ∀ m : Library, m.Within d → m.Layered)
    (ht : t.Contained dependencies)
    (h : (lowerTree t { id, name, dependencies } report).2.failed = false) :
    (lowerTree t { id, name, dependencies } report).1.Layered := by
  obtain ⟨u, s₀, s, hdeclare, -, hrecursion, hresult, hwritten⟩ := lowerTree_written hforeign h
  have hs := hwritten.reaches.layering ht.toNamesOwn hlayered
    (Scope.declareTree_layering ht.toNamesOwn hlayered hdeclare)
  have hdepends : ¬ ∃ a, TransGen t.DependsOn a a := by
    rw [← Tree.recursion?_isSome_iff_dependsOn ht.distinct ht.ids, hrecursion]
    exact nofun
  rw [hresult]
  refine ⟨hs.orderly, hs.acyclic ht.toNamesOwn (Tree.not_stores_cycle ht.builds hdepends), ?_⟩
  intro p hp pname hn
  obtain ⟨pname', hn', hvalue⟩ := hs.classTypes p hp
  exact hn'.unique hn ▸ hvalue

/-- **Compiled libraries are layered**, and so is everything within them. -/
theorem Library.CompiledFrom.layered {l : Library} (h : l.CompiledFrom fun t ds _ => t.Contained ds) :
    ∀ m : Library, m.Within l → m.Layered := by
  refine h.within (fun id => ⟨orderly_empty, fun ty hcycle => ?_, nofun⟩)
    (fun hforeign ih ht h => lowerTree_layered hforeign ih ht h) fun h hl => ?_
  · obtain ⟨u, -, hu⟩ := TransGen.tail'_iff.mp hcycle
    exact absurd (closed_empty.index_lt_of_holds hu) (Nat.not_lt_zero _)
  · obtain ⟨records, rfl, -⟩ := recordDefaults_ok h
    exact ⟨hl.orderly, hl.acyclic, hl.classTypes⟩

namespace Tree

/-- **No accepted class contains itself.** Let a tree be accepted on top of compiled libraries, where
names are apart and initializers build what they give. Then no type of the resulting library holds
itself, through members, lanes, columns or elements. So every type has a zero value, and no layout is
endless. -/
theorem lowerTree_finite {t : Tree} {id : LibraryId} {name : String} {dependencies : List Library}
    {report : Report} (hcompiled : ∀ d ∈ dependencies, d.CompiledFrom fun t ds _ => t.Contained ds)
    (hfresh : ∀ d ∈ dependencies, d.findLibrary? id = none) (ht : t.Contained dependencies)
    (h : (lowerTree t { id, name, dependencies } report).2.failed = false) :
    (∀ ty, ¬ TransGen (lowerTree t { id, name, dependencies } report).1.types.Holds ty ty) ∧
    ∀ ty, ty.index < (lowerTree t { id, name, dependencies } report).1.types.size →
      (∃ v, (lowerTree t { id, name, dependencies } report).1.types.zeroValue ty = .ok v) ∧
      ∀ u r, layout ty (lowerTree t { id, name, dependencies } report).1.types ≠
        (.error (.endless u), r) := by
  have hlayered := (Library.CompiledFrom.lowered (P := fun t ds _ => t.Contained ds) hcompiled hfresh
    ht h).layered _ .self
  refine ⟨hlayered.acyclic, fun ty hty => ⟨?_, fun u r =>
    layout_ne_endless hlayered.orderly hlayered.acyclic hty u r⟩⟩
  -- there is no other reason for a zero value not to exist
  cases hzero : (lowerTree t { id, name, dependencies } report).1.types.zeroValue ty with
  | ok v => exact ⟨v, rfl⟩
  | error e =>
    obtain ⟨-, u, hcycle⟩ := hlayered.orderly.closed.zeroValue_error hty hzero
    exact absurd hcycle (hlayered.acyclic u)

/-- A class whose objects store two parts, one of which is constructed by an initializer. -/
def wholeAndPart : Tree where
  classes :=
    [{ id := ⟨1⟩, name := "Part",
       members :=
        [{ id := ⟨1⟩, name := "Count", ty := .integer,
           initial := some ⟨.literal (.int 1), .integer, .unknown⟩ }] },
     { id := ⟨2⟩, name := "Whole",
       members :=
        [{ id := ⟨2⟩, name := "First", ty := .ofClass ⟨1⟩ },
         { id := ⟨3⟩, name := "Second", ty := .ofClass ⟨1⟩,
           initial := some ⟨.construct none [], .ofClass ⟨1⟩, .unknown⟩ }] }]

theorem wholeAndPart_contained (core : LibraryId) :
    wholeAndPart.Contained [Core.library core] where
  ids := by decide
  names := by decide
  className c hc := by
    fin_cases hc
    · exact className_of_head (c := 'P') (by decide) (by decide)
    · exact className_of_head (c := 'W') (by decide) (by decide)
  foreign d hd m hm c _ ty := by
    obtain rfl := List.mem_singleton.mp hd
    obtain rfl := hm.eq_core
    rintro ⟨i, hi, -⟩
    simp [Core.library, info?] at hi
  distinct := by unfold Distinct; decide
  builds c hc v hv _ hinitial c' hc' hty b hb := by
    fin_cases hc <;> fin_cases hv
    · fin_cases hc' <;> cases hty
    · exact absurd rfl hinitial
    · fin_cases hc'
      · refine dependsOn_of_construct (c := wholeAndPart.classes[1])
          (d := wholeAndPart.classes[0]) (by simp [wholeAndPart]) (by simp [wholeAndPart])
          (v := wholeAndPart.classes[1].members[1]) (by simp [wholeAndPart]) rfl
          List.mem_cons_self ?_ hb
        exact fun k owner _ h => by cases h
      · cases hty

/-- The objects of both classes are finite. -/
theorem lowerTree_finite_wholeAndPart :
    (∀ ty, ¬ TransGen (lowerTree wholeAndPart .blank {}).1.types.Holds ty ty) ∧
    ∀ ty, ty.index < (lowerTree wholeAndPart .blank {}).1.types.size →
      (∃ v, (lowerTree wholeAndPart .blank {}).1.types.zeroValue ty = .ok v) ∧
      ∀ u r, layout ty (lowerTree wholeAndPart .blank {}).1.types ≠ (.error (.endless u), r) := by
  unfold Library.blank
  refine lowerTree_finite ?_ (Library.fresh_core (by decide)) (wholeAndPart_contained ⟨0⟩)
    (by decide +kernel)
  simpa using .core ⟨0⟩

/-- A class with a field of its own type. The initializer calls a function that gives an object which
nothing has initialized. -/
def emptyNode : Tree where
  classes :=
    [{ id := ⟨1⟩, name := "Node",
       members :=
        [{ id := ⟨1⟩, name := "Next", ty := .ofClass ⟨1⟩,
           initial := some
            ⟨.call ⟨none, "Empty", .function ⟨1⟩, .read⟩ [], .ofClass ⟨1⟩, .unknown⟩ }],
       functions :=
        [{ id := ⟨1⟩, name := "Empty", isStatic := true, result := .ofClass ⟨1⟩,
           body :=
            [⟨.localVar ⟨1⟩ "n" (.ofClass ⟨1⟩) none, .unknown⟩,
             ⟨.ret (some ⟨.localVar ⟨1⟩, .ofClass ⟨1⟩, .unknown⟩), .unknown⟩] }] }]

/-- **Initializers matter.** The tree is accepted, and its class contains itself. -/
theorem lowerTree_emptyNode :
    (lowerTree emptyNode .blank {}).2.failed = false ∧
    (lowerTree emptyNode .blank {}).1.types.Holds ⟨0⟩ ⟨0⟩ := by
  refine ⟨by decide +kernel, ?_⟩
  have hparts : ((lowerTree emptyNode .blank {}).1.types.info? ⟨0⟩).map
        (fun i => (i.kind, i.parts)) = some (.struct, [⟨0⟩]) := by decide +kernel
  obtain ⟨i, hi, heq⟩ := Option.map_eq_some_iff.mp hparts
  obtain ⟨hkind, hmembers⟩ := Prod.mk.inj heq
  exact .member hi hkind (hmembers ▸ List.mem_singleton_self _)

end Tree

end Shader
