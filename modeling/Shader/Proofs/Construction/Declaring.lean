import Shader.Proofs.Construction.Defaults
import Shader.Proofs.Lowering.Charted

/-!
# Plain trees can be declared

Nothing about a plain tree is refused. Its classes are known here or by the dependencies, their
types can be entered, and a class has no two members of one name. What has been declared is charted
by the lemmas on accepted trees; it remains to see that every step succeeds.
-/

namespace Shader

open Outcome Relation Registry

/-! ### Plain trees on top of libraries -/

/-- **A plain tree over classes that are in sight.** -/
structure Tree.PlainOver (t foreign : Tree) : Prop where
  world : (t.merge foreign).Plain
  ids : (t.classes.map ClassDecl.id).Nodup
  new : ∀ c ∈ t.classes, c ∉ foreign.classes
  distinct : t.Distinct

namespace Tree

variable {t foreign : Tree} {c : ClassDecl}

theorem mem_merge : c ∈ (t.merge foreign).classes ↔ c ∈ t.classes ∨ c ∈ foreign.classes :=
  List.mem_append

theorem mem_merge_left (hc : c ∈ t.classes) : c ∈ (t.merge foreign).classes :=
  mem_merge.mpr (.inl hc)

theorem mem_merge_right (hc : c ∈ foreign.classes) : c ∈ (t.merge foreign).classes :=
  mem_merge.mpr (.inr hc)

theorem PlainOver.joins (ht : t.PlainOver foreign) : t.Joins (t.merge foreign).world :=
  ⟨fun _ hc => mem_merge_left hc, ht.ids⟩

/-- Classes of the tree do not have the identities of others. -/
theorem PlainOver.id_ne (ht : t.PlainOver foreign) (hc : c ∈ t.classes) {c' : ClassDecl}
    (hc' : c' ∈ foreign.classes) : c'.id ≠ c.id := by
  intro hid
  have heq := ht.world.apart.eq_of_id c' (mem_merge_right hc') c (mem_merge_left hc) hid
  exact ht.new c hc (heq ▸ hc')

/-- Only classes of the tree have their identities. -/
theorem PlainOver.eq_of_id (ht : t.PlainOver foreign) {c' : ClassDecl} (hc : c ∈ t.classes)
    (hc' : c' ∈ t.classes) (hid : c.id = c'.id) : c = c' :=
  List.inj_on_of_nodup_map ht.ids hc hc' hid

end Tree

/-! ### Scopes of plain trees -/

/-- A function type that returns nothing. -/
def Registry.ReturnsNothing (r : Registry) (i : TypeInfo) : Prop :=
  ∃ u ps j, i.parts = u :: ps ∧ r.info? u = some j ∧ j.kind = .void

namespace Scope

/-- What the dependencies say about the classes in sight: where the type of a class is to be found,
and which function prepares its objects. -/
def Supplied (foreign : Tree) (pre : ClassDecl → Option FunctionRef) (ds : List Library) : Prop :=
  ∀ c ∈ foreign.classes, ∃ source ty, ∀ s : Scope, s.library.dependencies = ds →
    s.foreignClass? c.id = some (source, ty, pre c)

/-- **Scopes in which nothing is in the way.** The classes of the tree have shapes, and all
functions return nothing. -/
structure Ready (t foreign : Tree) (pre : ClassDecl → Option FunctionRef) (s : Scope) : Prop where
  closed : s.library.types.Closed
  hasShapes : s.HasShapes t
  prepared : ∀ c ∈ foreign.classes, ∀ shape, s.classes.lookup c.id = some shape →
    shape.preConstructor = pre c
  procedures : ∀ ty i, s.library.types.info? ty = some i → i.kind = .function →
    s.library.types.ReturnsNothing i
  functions : ∀ r ∈ s.library.routines, ∃ i, s.library.types.info? r.functionType = some i ∧
    i.kind = .function

/-- **Scopes that chart the classes in sight**, in which nothing is in the way. -/
structure Charts (t foreign : Tree) (pre : ClassDecl → Option FunctionRef) (ds : List Library)
    (N : Set String) (s : Scope) : Prop extends
    Charting (t.merge foreign).world t N ds s, Ready t foreign pre s

/-- A scope with more types, more constants and more classes. -/
structure Grown (s s' : Scope) : Prop where
  classes : ∀ id shape, s.classes.lookup id = some shape → s'.classes.lookup id = some shape
  keeps : Keeps ∅ s.library.types s'.library.types
  constants : s.library.constants <+: s'.library.constants
  eq : s' = { s with
    classes := s'.classes
    library := { s.library with types := s'.library.types, constants := s'.library.constants } }

variable {t foreign : Tree} {pre : ClassDecl → Option FunctionRef} {ds : List Library}
  {N M : Set String} {s s' s'' : Scope}

theorem Grown.refl (s : Scope) : s.Grown s := by
  refine ⟨fun _ _ h => h, .refl ∅ _, List.prefix_refl _, ?_⟩
  obtain ⟨⟨⟩⟩ := s
  rfl

theorem Grown.trans (h : s.Grown s') (h' : s'.Grown s'') : s.Grown s'' where
  classes id shape hshape := h'.classes id shape (h.classes id shape hshape)
  keeps := h.keeps.trans h'.keeps
  constants := h.constants.trans h'.constants
  eq := by rw [h'.eq, h.eq]

variable {shape : ClassShape} {types : Registry} {c : ClassDecl} {i : TypeInfo} {owner : TypeRef}

/-- A class in sight has the struct with its name. -/
theorem Charts.named (hs : s.Charts t foreign pre ds N) (ht : t.PlainOver foreign)
    (hc : c ∈ (t.merge foreign).classes) (hshape : s.classes.lookup c.id = some shape) :
    s.library.types.Named shape.ty c.name := by
  obtain ⟨c', hc', hid, hn, -⟩ := hs.classes _ (mem_of_lookup_eq_some hshape)
  obtain rfl := ht.world.apart.eq_of_id c' hc' c hc hid
  exact hn

/-- What is known of functions stays if at most structs get new members. -/
theorem Ready.withTypes (hs : s.Ready t foreign pre)
    (hsuits : ∀ ty i, s.library.types.info? ty = some i → Suits i.kind i.name)
    (hclosed : types.Closed) (hkeeps : Keeps M s.library.types types)
    (hM : ∀ name ∈ M, ClassName name) (hfunctions : NoNewFunction s.library.types types) :
    (s.withTypes types).Ready t foreign pre where
  closed := hclosed
  hasShapes := hs.hasShapes
  prepared := hs.prepared
  procedures ty i hi hkind := by
    obtain ⟨j, hj, hj'⟩ := hfunctions ty i hi hkind
    obtain ⟨i', hi', ha⟩ := hkeeps ty j hj
    cases hi.symm.trans hi'
    have hname : j.name ∉ M := by
      intro hmem
      have hstruct := eq_struct_of_suits (hsuits ty j hj) (hM j.name hmem)
      nomatch hj'.symm.trans hstruct
    obtain ⟨u, ps, k, hparts, hk, hvoid⟩ := hs.procedures ty j hj hj'
    obtain ⟨k', hk', hak⟩ := hkeeps u k hk
    exact ⟨u, ps, k', (ha.parts hname).trans hparts, hk', hak.kind.trans hvoid⟩
  functions r hr := by
    obtain ⟨i, hi, hkind⟩ := hs.functions r hr
    obtain ⟨i', hi', ha⟩ := hkeeps _ i hi
    exact ⟨i', hi', ha.kind.trans hkind⟩

/-- **Operations on types** that keep the registry exact. -/
theorem Charts.withTypes (hs : s.Charts t foreign pre ds N)
    (hlater : Later (t.merge foreign).world N s.library.types types) (hclosed : types.Closed)
    (hfunctions : NoNewFunction s.library.types types) :
    (s.withTypes types).Charts t foreign pre ds N ∧ s.Grown (s.withTypes types) :=
  ⟨⟨hs.toCharting.withTypes hlater.exact hlater.keeps,
    hs.toReady.withTypes hs.types.suits hclosed hlater.keeps nofun hfunctions⟩,
    fun _ _ h => h, hlater.keeps, List.prefix_refl _, rfl⟩

theorem onTypes_succeeds {α : Type} {x : TypeM α} (location : Location) {a : α}
    {Q : α → Scope → Prop} (hx : x s.library.types = (.ok a, types)) (h : Q a (s.withTypes types)) :
    Succeeds (onTypes location x) s Q :=
  ⟨a, s.withTypes types, onTypes_ok.mpr ⟨types, hx, rfl⟩, h⟩

/-! ### Types and classes -/

section Steps

variable (ht : t.PlainOver foreign)
  (hcharted : ∀ d ∈ ds, ∀ m : Library, m.Within d → m.Charted (t.merge foreign).world)
  (hds : Supplied foreign pre ds)
include ht

section

variable (hs : s.Charts t foreign pre ds N)
include hs

/-- **Builtin types.** -/
theorem onTypes_lowerBuiltin {spec : TypeSpec}
    (hspec : (({} : Registry).enterBuiltin spec).isOk = true) (location : Location) :
    Succeeds (onTypes location (lowerBuiltin spec)) s fun ty s' => s'.Charts t foreign pre ds N ∧
      s.Grown s' ∧ s'.classes = s.classes ∧
      ∃ name, s'.library.types.Named ty name ∧ spec.builtinName = some name := by
  obtain ⟨ty, types, hrun, hfunctions⟩ := lowerBuiltin_succeeds (r := s.library.types) hspec
  obtain ⟨hlater, name, hname, hnamed⟩ :=
    enterBuiltin_later ht.world.apart hs.types (lowerBuiltin_cases hrun)
  have hclosed := (lowerBuiltin_enters spec _ _ _ hrun hs.closed).1.closed
  obtain ⟨hs', hgrown⟩ := hs.withTypes hlater hclosed hfunctions
  exact onTypes_succeeds location hrun ⟨hs', hgrown, rfl, name, hnamed, hname⟩

/-- **Pointer types.** -/
theorem onTypes_pointerType {ty : TypeRef} (hty : ty.index < s.library.types.size)
    (location : Location) :
    Succeeds (onTypes location (pointerType ty)) s fun p s' => s'.Charts t foreign pre ds N ∧
      s.Grown s' ∧ s'.classes = s.classes ∧ p.index < s'.library.types.size := by
  obtain ⟨p, types, hrun, hfunctions⟩ := pointerType_succeeds hty
  obtain ⟨hreach, hp⟩ := pointerType_enters ty _ _ _ hrun hs.closed
  obtain ⟨hs', hgrown⟩ :=
    hs.withTypes (pointerType_later ht.world.apart hs.types hrun) hreach.closed hfunctions
  exact onTypes_succeeds location hrun ⟨hs', hgrown, rfl, hp⟩

/-- **Function types that return nothing.** -/
theorem onTypes_functionType {void object : TypeRef} {j : TypeInfo}
    (hj : s.library.types.info? void = some j) (hvoid : j.kind = .void)
    (hobject : object.index < s.library.types.size) (location : Location) :
    Succeeds (onTypes location (functionType void [object])) s fun ty s' =>
      s'.Charts t foreign pre ds N ∧ s.Grown s' ∧ s'.classes = s.classes ∧
      ∃ i, s'.library.types.info? ty = some i ∧ i.kind = .function := by
  have hparts : ∀ p ∈ [void, object], p.index < s.library.types.size :=
    List.forall_mem_cons.mpr ⟨index_lt_of_info? hj, List.forall_mem_singleton.mpr hobject⟩
  obtain ⟨ty, types, hrun, h⟩ := functionType_succeeds hparts
  have hlater := functionType_later ht.world.apart hs.types hrun
  have hclosed := (functionType_enters void [object] _ _ _ hrun hs.closed).1.closed
  refine onTypes_succeeds location hrun ?_
  rcases h with ⟨rfl, name, names, hfind⟩ | ⟨name, rfl, rfl⟩
  · obtain ⟨hs', hgrown⟩ := hs.withTypes hlater hclosed (.refl _)
    obtain ⟨i, hi, hname⟩ := find?_eq_some hfind
    exact ⟨hs', hgrown, rfl, i, hi, hs.types.kind_of_signatureName hi hname⟩
  · refine ⟨⟨hs.toCharting.withTypes hlater.exact hlater.keeps, hclosed, hs.hasShapes, hs.prepared,
      fun ty i hi hkind => ?_, fun r hr => ?_⟩, ⟨fun _ _ h => h, hlater.keeps, List.prefix_refl _, rfl⟩, rfl,
      { name := name, kind := .function, count := 0, component := none, parts := [void, object] },
      ?_, rfl⟩
    · rcases info?_push_cases hi with ⟨-, rfl⟩ | hold
      · exact ⟨void, [object], j, rfl, info?_push_of_some hj _, hvoid⟩
      · obtain ⟨u, ps, k, hparts, hk, hkvoid⟩ := hs.procedures ty i hold hkind
        exact ⟨u, ps, k, hparts, info?_push_of_some hk _, hkvoid⟩
    · obtain ⟨i, hi, hkind⟩ := hs.functions r hr
      exact ⟨i, info?_push_of_some hi _, hkind⟩
    · show (s.library.types.push _).info? _ = _
      rw [info?_push, if_pos rfl]

end

include hcharted hds

section

variable (hs : s.Charts t foreign pre ds N)
include hs

/-- **Finding a class.** -/
theorem classShape_succeeds (hc : c ∈ (t.merge foreign).classes) (location : Location) :
    Succeeds (classShape c.id location) s fun shape s' =>
      s'.Charts t foreign pre ds N ∧ s.Grown s' ∧ s'.classes.lookup c.id = some shape := by
  cases hlookup : s.classes.lookup c.id with
  | some shape => exact ⟨shape, s, classShape_eq hlookup location, hs, .refl s, hlookup⟩
  | none =>
    have hforeign : c ∈ foreign.classes := by
      rcases Tree.mem_merge.mp hc with hown | hforeign
      · obtain ⟨shape, hshape⟩ := hs.hasShapes c hown
        nomatch hlookup.symm.trans hshape
      · exact hforeign
    obtain ⟨source, ty, hfind⟩ := hds c hforeign
    have hfind := hfind s hs.dependencies
    -- its struct can be copied
    obtain ⟨hsource, c', hc', hid, hnamed, -⟩ :=
      foreignClass?_charted (t := t) hcharted hs.dependencies hfind
    obtain rfl := ht.world.apart.eq_of_id c' hc' c hc hid
    have hvalue : ValueName c'.name := .inr (ht.world.apart.className c' hc)
    obtain ⟨ty', types, himport, -⟩ := hsource.types.importType_succeeds ht.world.apart hnamed hvalue
      (fun c hc => (ht.world.classes c hc).fields_eq ▸ (ht.world.classes c hc).names)
      (hsource.types.acyclic ht.world) hs.types
    have hclosed := (importType_enters source.types ty _ _ _ himport hs.closed).1.closed
    obtain ⟨hlater, hfunctions, -⟩ :=
      importType_later ht.world.apart hsource.types hnamed hvalue hs.types himport
    obtain ⟨hs', hgrown⟩ := hs.withTypes hlater hclosed hfunctions
    have hrun : classShape c'.id location s = (.ok ⟨ty', pre c'⟩,
        { s.withTypes types with classes := (c'.id, ⟨ty', pre c'⟩) :: s.classes }) := by
      unfold classShape
      refine bind_ok.mpr ⟨s, s, rfl, ?_⟩
      rw [hlookup]
      dsimp only
      rw [hfind]
      exact bind_ok.mpr ⟨ty', s.withTypes types, onTypes_ok.mpr ⟨types, himport, rfl⟩,
        bind_ok.mpr ⟨_, _, rfl, rfl⟩⟩
    have hne : ∀ id shape, s.classes.lookup id = some shape → id ≠ c'.id := by
      rintro id shape hshape rfl
      nomatch hlookup.symm.trans hshape
    refine ⟨_, _, hrun, ⟨(classShape_follows ht.world.apart hcharted hs.toCharting hrun).1.charting,
      hclosed, fun d hd => ?_, fun d hd shape hshape => ?_, hs'.procedures, hs'.functions⟩,
      ⟨fun id shape hshape => ?_, hgrown.keeps, List.prefix_refl _, rfl⟩, List.lookup_cons_self⟩
    · obtain ⟨shape, hshape⟩ := hs.hasShapes d hd
      exact ⟨shape, (lookup_cons_of_ne (hne _ _ hshape)).trans hshape⟩
    · by_cases hid : d.id = c'.id
      · obtain rfl := ht.world.apart.eq_of_id d (Tree.mem_merge_right hd) c' hc hid
        rw [List.lookup_cons_self] at hshape
        cases hshape
        rfl
      · rw [lookup_cons_of_ne hid] at hshape
        exact hs.prepared d hd shape hshape
    · exact (lookup_cons_of_ne (hne _ _ hshape)).trans hshape

/-- **The type of a field** can be lowered. -/
theorem lowerType_succeeds {v : VariableDecl} (hv : v.Plain (t.merge foreign)) (location : Location) :
    Succeeds (lowerType v.ty location) s fun _ s' => s'.Charts t foreign pre ds N ∧
      s.Grown s' := by
  have hbuiltin : (({} : Registry).enterBuiltin v.ty).isOk = true →
      Succeeds (lowerType v.ty location) s fun _ s' => s'.Charts t foreign pre ds N ∧
        s.Grown s' := by
    intro hty
    have hlower : lowerType v.ty location = onTypes location (lowerBuiltin v.ty) := by
      cases hspec : v.ty with
      | ofClass id =>
        rw [hspec] at hty
        nomatch hty
      | _ => rfl
    rw [hlower]
    exact (onTypes_lowerBuiltin ht hs hty location).mono fun _ _ h => ⟨h.1, h.2.1⟩
  cases hv with
  | literal hty _ =>
    refine hbuiltin ?_
    rw [hty]
    rfl
  | builtin hty _ => exact hbuiltin hty
  | object hc hty _ =>
    rw [hty]
    refine (classShape_succeeds ht hcharted hds hs hc location).bind fun shape s' h => ?_
    exact .pure ⟨h.1, h.2.1⟩

/-! ### Members -/

/-- **Declaring the next field of a class.** -/
theorem declareVariable_succeeds (hc : c ∈ t.classes) (hN : c.name ∈ N) {v : VariableDecl}
    (hv : v ∈ c.members) {vs : List VariableDecl} (hi : s.library.types.info? owner = some i)
    (hname : i.name = c.name) (hvs : s.library.types.Portrays (t.merge foreign).world i vs)
    (hnew : v.name ∉ vs.map VariableDecl.name) :
    Succeeds (declareVariable c owner v) s fun _ s' => s'.Ready t foreign pre := by
  have hclass := ht.world.classes c (Tree.mem_merge_left hc)
  obtain ⟨hfield, hstatic⟩ := hclass.stored v hv
  unfold declareVariable
  rw [hstatic, hfield]
  obtain ⟨ty, s₁, h₁, hs₁, hgrown⟩ :=
    lowerType_succeeds ht hcharted hds hs (hclass.members v hv) v.location
  obtain ⟨-, name, hnamed, hcalled⟩ :=
    lowerType_follows ht.world.apart hcharted hs.toCharting h₁
  -- the struct has got no members in the meantime
  obtain ⟨i₁, hi₁, ha⟩ := hgrown.keeps owner i hi
  have hvs₁ := hvs.keeps hgrown.keeps ha (Set.notMem_empty _)
  have hclassName : ClassName i₁.name :=
    (ha.name.trans hname) ▸ ht.world.apart.className c (Tree.mem_merge_left hc)
  obtain ⟨n, types, hadd, hfunctions⟩ := addMember_succeeds hi₁
    (eq_struct_of_suits (hs₁.types.suits _ i₁ hi₁) hclassName) (hvs₁.names ▸ hnew) hnamed.index_lt
  obtain ⟨-, hkeeps, -⟩ := addMember_exact hs₁.types hi₁ ((ha.name.trans hname) ▸ hN) hvs₁ hnamed
    hcalled hadd
  have hready := hs₁.toReady.withTypes hs₁.types.suits (addMember_reaches hadd hs₁.closed).closed
    hkeeps (fun name hmem => Set.mem_singleton_iff.mp hmem ▸ hclassName) hfunctions
  exact ⟨_, _, bind_ok.mpr ⟨ty, s₁, h₁, bind_ok.mpr ⟨n, s₁.withTypes types,
    onTypes_ok.mpr ⟨types, hadd, rfl⟩, rfl⟩⟩, { hready with }⟩

end

/-- **Declaring the fields of a class**, after some that have been declared. -/
theorem mapM_declareVariable_succeeds (hc : c ∈ t.classes) (hN : c.name ∈ N)
    {rest vs : List VariableDecl} (hrest : ∀ v ∈ rest, v ∈ c.members)
    (hnodup : ((vs ++ rest).map VariableDecl.name).Nodup) (hs : s.Charts t foreign pre ds N)
    (hi : s.library.types.info? owner = some i) (hname : i.name = c.name)
    (hvs : s.library.types.Portrays (t.merge foreign).world i vs) :
    Succeeds (rest.mapM (declareVariable c owner)) s fun _ s' => s'.Ready t foreign pre := by
  induction rest generalizing s vs i with
  | nil => exact .pure hs.toReady
  | cons v rest ih =>
    obtain ⟨hv, hrest⟩ := List.forall_mem_cons.mp hrest
    have hnew : v.name ∉ vs.map VariableDecl.name := by
      rw [List.map_append, List.map_cons] at hnodup
      exact fun hmem => (List.nodup_append.mp hnodup).2.2 _ hmem _ List.mem_cons_self rfl
    have hone : [v].filter VariableDecl.isField = [v] := by
      have hclass := ht.world.classes c (Tree.mem_merge_left hc)
      simp [(hclass.stored v hv).1]
    obtain ⟨f, s₁, h₁, hready₁⟩ :=
      declareVariable_succeeds ht hcharted hds hs hc hN hv hi hname hvs hnew
    have hdeclares := declareVariable_declares ht.world.apart hcharted hN hs.toCharting hi hname hvs h₁
    obtain ⟨i₁, hi₁, hname₁, hvs₁⟩ := hdeclares.portrays
    rw [hone] at hvs₁
    obtain ⟨fs, s₂, h₂, hready₂⟩ := ih hrest (by rwa [List.append_assoc])
      ⟨hdeclares.charting, hready₁⟩ hi₁ hname₁ hvs₁
    refine ⟨f :: fs, s₂, ?_, hready₂⟩
    rw [List.mapM_cons]
    exact bind_ok.mpr ⟨f, s₁, h₁, bind_ok.mpr ⟨fs, s₂, h₂, rfl⟩⟩

/-- The records have the names of their classes, which are not constructed by any function. -/
def Registered (t : Tree) (s : Scope) : Prop :=
  ∀ r ∈ s.library.records, ∃ c ∈ t.classes, r.id = c.id ∧ r.name = c.name ∧ r.defaultConstructor = none

/-- **Declaring the members of a class.** -/
theorem declareMembers_succeeds {rest : List ClassDecl} (hc : c ∈ t.classes)
    (hs : s.Filling (t.merge foreign).world t ds (c :: rest)) (hready : s.Ready t foreign pre)
    (hregistered : s.Registered t) :
    Succeeds (declareMembers c) s fun _ s' => s'.Ready t foreign pre ∧ s'.Registered t := by
  have hw : c ∈ (t.merge foreign).classes := Tree.mem_merge_left hc
  have hclass := ht.world.classes c hw
  unfold declareMembers
  obtain ⟨shape, s₁, h₁, hs₁, hgrown, hshape⟩ :=
    classShape_succeeds ht hcharted hds ⟨hs.toCharting, hready⟩ hw c.location
  obtain ⟨hfollows, hmem⟩ := classShape_follows ht.world.apart hcharted hs.toCharting h₁
  obtain ⟨i, hi, hname, hempty⟩ :=
    (hs.follows hfollows).blank_shape ht.world.apart List.mem_cons_self hw hmem
  have hN : c.name ∈ namesOf (c :: rest) := ⟨c, List.mem_cons_self, rfl⟩
  obtain ⟨fs, s₂, h₂, hready₂⟩ := mapM_declareVariable_succeeds ht hcharted hds hc hN
    (fun v hv => hv) (by rw [List.nil_append]; exact hclass.names) hs₁ hi hname hempty
  have hdeclares := mapM_declareVariable_declares ht.world.apart hcharted hN hs₁.toCharting hi hname
    hempty h₂
  refine ⟨(), _, bind_ok.mpr ⟨shape, s₁, h₁, bind_ok.mpr ⟨fs, s₂, h₂, rfl⟩⟩, { hready₂ with },
    fun r hr => ?_⟩
  rcases List.mem_append.mp hr with hr | hr
  · rw [hdeclares.records, hfollows.records] at hr
    exact hregistered r hr
  · obtain rfl := List.mem_singleton.mp hr
    exact ⟨c, hc, rfl, rfl, rfl⟩

end Steps

/-! ### Signatures -/

/-- **Creating a function** of a type that is there. -/
theorem createRoutine_succeeds (hs : s.Charts t foreign pre ds N)
    (howner : owner.index < s.library.types.size) (name : String) {functionType : TypeRef}
    (hi : s.library.types.info? functionType = some i) (hkind : i.kind = .function)
    (location : Location) :
    Succeeds (createRoutine owner name functionType location) s fun _ s' =>
      s'.Charts t foreign pre ds N ∧ s'.classes = s.classes ∧
      s'.library.records = s.library.records := by
  obtain ⟨u, types, hadd, hfunctions⟩ :=
    addFunction_succeeds howner ⟨s.library.id, s.library.routines.length⟩
  have hlater := addFunction_later hs.types hadd
  obtain ⟨hs', -⟩ := hs.withTypes hlater (addFunction_reaches hadd hs.closed).closed hfunctions
  refine ⟨⟨s.library.id, s.library.routines.length⟩, s.withRoutine types name owner functionType, ?_,
    { hs' with functions := fun r hr => ?_ }, rfl, rfl⟩
  · unfold createRoutine Library.createRoutine Library.onTypes
    dsimp only
    rw [hadd]
    rfl
  · rcases List.mem_append.mp hr with hr | hr
    · exact hs'.functions r hr
    · obtain rfl := List.mem_singleton.mp hr
      obtain ⟨i', hi', halike⟩ := hlater.keeps _ i hi
      exact ⟨i', hi', halike.kind.trans hkind⟩

/-- **Signed classes.** A class that has been through has a pre-constructor if there is something to
prepare, and a class that has not has none. -/
structure Signs (t : Tree) (done : List ClassDecl) (s : Scope) : Prop where
  signed : ∀ c ∈ done, ∀ shape, s.classes.lookup c.id = some shape →
    shape.preConstructor.isSome = c.isPrepared
  unsigned : ∀ c ∈ t.classes, c ∉ done → ∀ shape, s.classes.lookup c.id = some shape →
    shape.preConstructor = none

variable {done : List ClassDecl}

/-- One more class has been through, and the others are as before. -/
theorem Signs.concat (hs : s.Signs t done)
    (hdone : ∀ c ∈ done, c ∈ t.classes)
    (hother : ∀ c' ∈ t.classes, c' ≠ c → s'.classes.lookup c'.id = s.classes.lookup c'.id)
    (hown : ∀ shape, s'.classes.lookup c.id = some shape →
      shape.preConstructor.isSome = c.isPrepared) : s'.Signs t (done ++ [c]) where
  signed c' hc' shape hshape := by
    by_cases heq : c' = c
    · subst heq
      exact hown shape hshape
    · have hc' : c' ∈ done := (List.mem_append.mp hc').resolve_right (heq ∘ List.mem_singleton.mp)
      rw [hother c' (hdone c' hc') heq] at hshape
      exact hs.signed c' hc' shape hshape
  unsigned c' hc' hnew shape hshape := by
    obtain ⟨hnew, hne⟩ := not_or.mp (List.mem_append.not.mp hnew)
    rw [hother c' hc' (hne ∘ List.mem_singleton.mpr)] at hshape
    exact hs.unsigned c' hc' hnew shape hshape

/-- A class of the tree may be told its pre-constructor. -/
theorem Charts.tell (ht : t.PlainOver foreign) (hs : s.Charts t foreign pre ds N)
    (hc : c ∈ t.classes) (hshape : s.classes.lookup c.id = some shape) (f : FunctionRef) :
    Charts t foreign pre ds N
      { s with classes := (c.id, { shape with preConstructor := some f }) :: s.classes } := by
  refine { hs with classes := ?_, hasShapes := fun c' hc' => ?_, prepared := fun c' hc' shape' h => ?_ }
  · have hmem := hs.classes _ (mem_of_lookup_eq_some hshape)
    exact List.forall_mem_cons.mpr ⟨hmem, hs.classes⟩
  · by_cases hid : c'.id = c.id
    · exact ⟨_, by rw [hid, List.lookup_cons_self]⟩
    · rw [lookup_cons_of_ne hid]
      exact hs.hasShapes c' hc'
  · rw [lookup_cons_of_ne (ht.id_ne hc hc')] at h
    exact hs.prepared c' hc' shape' h

/-- Records may be changed as long as they keep to their classes. -/
theorem Registered.changeRecord (hs : s.Registered t) {id : ClassId}
    {change : ClassRecord → ClassRecord} {u : Unit} (h : changeRecord id change s = (.ok u, s'))
    (hid : ∀ r, (change r).id = r.id) (hname : ∀ r, (change r).name = r.name)
    (hdefault : ∀ r, (change r).defaultConstructor = r.defaultConstructor) : s'.Registered t := by
  obtain ⟨records, rfl, hrecords⟩ := changeRecord_ok h
  intro r hr
  rcases hrecords r hr with hr | ⟨r', hr', rfl⟩
  · exact hs r hr
  · rw [hid, hname, hdefault]
    exact hs r' hr'

/-- **Declaring a pre-constructor.** -/
theorem declarePreConstructor_succeeds (ht : t.PlainOver foreign) (hs : s.Charts t foreign pre ds N)
    (hregistered : s.Registered t) (hc : c ∈ t.classes)
    (hshape : s.classes.lookup c.id = some shape) {owner object void : TypeRef}
    (howner : owner.index < s.library.types.size) (hobject : object.index < s.library.types.size)
    (hi : s.library.types.info? void = some i) (hvoid : i.kind = .void) :
    Succeeds (declarePreConstructor c owner object void) s fun _ s' =>
      s'.Charts t foreign pre ds N ∧ s'.Registered t ∧
      ∃ f, s'.classes = (c.id, { shape with preConstructor := some f }) :: s.classes := by
  rw [declarePreConstructor_eq]
  refine (onTypes_functionType ht hs hi hvoid hobject c.location).bind ?_
  rintro functionType s₁ ⟨hs₁, hgrown, hsame, j, hj, hkind⟩
  have howner₁ : owner.index < s₁.library.types.size := by
    obtain ⟨name, hname⟩ := exists_named howner
    exact (hgrown.keeps.named hname).index_lt
  refine (createRoutine_succeeds hs₁ howner₁ "PreConstructor" hj hkind c.location).bind ?_
  rintro f s₂ ⟨hs₂, hclasses, hrecords⟩
  have hclasses₂ : s₂.classes = s.classes := hclasses.trans hsame
  -- its class is told, and so is the record of the class
  have htold := told_of_lookup f (hclasses₂ ▸ hshape)
  have hs₃ : (s₂.told c f).Charts t foreign pre ds N := by
    have htell := hs₂.tell ht hc (hclasses₂ ▸ hshape) f
    rw [← htold] at htell
    exact { htell with }
  have hregistered₃ : (s₂.told c f).Registered t := by
    rw [Registered, show (s₂.told c f).library.records = s₁.library.records from hrecords, hgrown.eq]
    exact hregistered
  refine Succeeds.bind (Q := fun _ s' => s' = s₂.told c f) ⟨(), _, rfl, rfl⟩ ?_
  rintro _ _ rfl
  obtain ⟨u, s₄, hrun⟩ : ∃ u s₄, changeRecord c.id (fun r => { r with preConstructor := some f })
    (s₂.told c f) = (.ok u, s₄) := ⟨_, _, rfl⟩
  have hregistered₄ := hregistered₃.changeRecord hrun (fun _ => rfl) (fun _ => rfl) fun _ => rfl
  obtain ⟨records, rfl, -⟩ := changeRecord_ok hrun
  exact ⟨u, _, hrun, { hs₃ with }, hregistered₄, f, htold.trans (congrArg _ hclasses₂)⟩

/-- **A plain class has no functions**, so that nothing else is declared. -/
theorem declareBodies_eq (c : ClassDecl) {w : Tree} (hc : c.Plain w) (owner : TypeRef) (s : Scope) :
    declareBodies c owner s = (.ok (), s) := by
  rw [declareBodies, hc.constructors, hc.functions]
  refine bind_ok.mpr ⟨(), s, rfl, bind_ok.mpr ⟨(), s, rfl, forM_done fun v hv => ?_⟩⟩
  obtain ⟨hgetter, hsetter⟩ := hc.no_accessors hv
  rw [hgetter, hsetter]
  rfl

/-- **Declaring the signatures of a class.** -/
theorem declareSignatures_succeeds (ht : t.PlainOver foreign) (hs : s.Charts t foreign pre ds N)
    (hregistered : s.Registered t) (hsigns : s.Signs t done)
    (hc : c ∈ t.classes) (hnew : c ∉ done) (hdone : ∀ c ∈ done, c ∈ t.classes) :
    Succeeds (declareSignatures c) s fun _ s' => s'.Ready t foreign pre ∧ s'.Registered t ∧
      s'.Signs t (done ++ [c]) := by
  have hw : c ∈ (t.merge foreign).classes := Tree.mem_merge_left hc
  have hclass := ht.world.classes c hw
  obtain ⟨shape, hshape⟩ := hs.hasShapes c hc
  have hnamed := hs.named ht hw hshape
  unfold declareSignatures
  refine Succeeds.bind (Q := fun shape' s' => shape = shape' ∧ s = s')
    ⟨_, _, classShape_eq hshape c.location, rfl, rfl⟩ ?_
  rintro _ _ ⟨rfl, rfl⟩
  refine (onTypes_pointerType ht hs hnamed.index_lt c.location).bind ?_
  rintro object s₁ ⟨hs₁, hgrown₁, hclasses₁, hobject⟩
  have hlower : lowerType .void c.location = onTypes c.location (lowerBuiltin .void) := rfl
  rw [hlower]
  refine (onTypes_lowerBuiltin ht hs₁ rfl c.location).bind ?_
  rintro void s₂ ⟨hs₂, hgrown₂, hclasses₂, name, ⟨j, hj, hjname⟩, hname⟩
  have hclasses : s₂.classes = s.classes := hclasses₂.trans hclasses₁
  have hkind : j.kind = .void := (hs₂.types.builtin void j .void hj (hjname ▸ hname)).kind
  have hregistered₂ : s₂.Registered t := by
    rw [Registered, hgrown₂.eq, hgrown₁.eq]
    exact hregistered
  have hprepared : (c.preConstructor.isSome = true ∨ c.needsPreConstructor = true) ↔
      c.isPrepared = true := by rw [ClassDecl.isPrepared, Bool.or_eq_true]
  by_cases hif : c.preConstructor.isSome = true ∨ c.needsPreConstructor = true
  · rw [if_pos hif]
    have howner₂ : shape.ty.index < s₂.library.types.size :=
      (hgrown₂.keeps.named (hgrown₁.keeps.named hnamed)).index_lt
    have hobject₂ : object.index < s₂.library.types.size := by
      obtain ⟨name, hn⟩ := exists_named hobject
      exact (hgrown₂.keeps.named hn).index_lt
    refine (declarePreConstructor_succeeds ht hs₂ hregistered₂ hc (hclasses ▸ hshape) howner₂ hobject₂
      hj hkind).bind ?_
    rintro _ s₃ ⟨hs₃, hregistered₃, f, hclasses₃⟩
    rw [hclasses] at hclasses₃
    refine ⟨(), s₃, declareBodies_eq c hclass _ s₃, hs₃.toReady, hregistered₃,
      hsigns.concat hdone (fun c' hc' hne => ?_) fun shape' hshape' => ?_⟩
    · rw [hclasses₃]
      exact lookup_cons_of_ne fun hid => hne (ht.eq_of_id hc' hc hid)
    · rw [hclasses₃, List.lookup_cons_self] at hshape'
      cases hshape'
      exact (hprepared.mp hif).symm
  · rw [if_neg hif]
    refine ⟨(), s₂, declareBodies_eq c hclass _ s₂, hs₂.toReady, hregistered₂,
      hsigns.concat hdone (fun c' _ _ => by rw [hclasses]) fun shape' hshape' => ?_⟩
    rw [hclasses] at hshape'
    rw [hsigns.unsigned c hc hnew shape' hshape']
    exact (Bool.eq_false_iff.mpr fun h => hif (hprepared.mpr h)).symm

/-! ### Whole trees -/

/-- A scope in which there are only the structs of some classes of the tree. -/
structure Bare (t : Tree) (s : Scope) : Prop where
  closed : s.library.types.Closed
  structs : ∀ ty i, s.library.types.info? ty = some i → i.kind = .struct
  classes : ∀ p ∈ s.classes, ∃ c ∈ t.classes, c.id = p.1
  routines : s.library.routines = []

theorem declareClass_bare (hc : c ∈ t.classes) :
    Upholds (Bare t) (declareClass c) fun _ => True := by
  refine Upholds.modify fun s hs => ⟨?_, fun ty i hi => ?_, ?_, hs.routines⟩
  · exact (hs.closed.intern c.name .struct 0 none nofun).1.closed
  · have hi : (s.library.types.intern c.name .struct 0 none).2.info? ty = some i := hi
    rcases s.library.types.intern_cases c.name .struct 0 none with ⟨_, -, heq⟩ | ⟨-, heq⟩
    · rw [heq] at hi
      exact hs.structs ty i hi
    · rw [heq] at hi
      rcases info?_push_cases hi with ⟨-, rfl⟩ | hold
      · rfl
      · exact hs.structs ty i hold
  · exact List.forall_mem_cons.mpr ⟨⟨c, hc, rfl⟩, hs.classes⟩

/-- The classes before a class are other classes. -/
theorem notMem_of_split {cs rest : List ClassDecl} (hids : (cs.map ClassDecl.id).Nodup)
    (h : cs = done ++ c :: rest) : c ∉ done := by
  rw [h, List.map_append] at hids
  intro hc
  exact (List.nodup_append.mp hids).2.2 _ (List.mem_map_of_mem hc) _ List.mem_cons_self rfl

/-- What a declared plain tree has come to. -/
structure Declared (t foreign : Tree) (pre : ClassDecl → Option FunctionRef) (ds : List Library)
    (s : Scope) : Prop extends Charted (t.merge foreign).world t ds s, Ready t foreign pre s where
  registered : s.Registered t
  signed : ∀ c ∈ t.classes, ∀ shape, s.classes.lookup c.id = some shape →
    shape.preConstructor.isSome = c.isPrepared

/-- **Declaring a plain tree succeeds.** -/
theorem declareTree_succeeds (ht : t.PlainOver foreign)
    (hcharted : ∀ d ∈ ds, ∀ m : Library, m.Within d → m.Charted (t.merge foreign).world)
    (hds : Supplied foreign pre ds) (id : LibraryId) (name : String) :
    Succeeds (declareTree t) { library := { id, name, dependencies := ds } } fun _ s' =>
      s'.Declared t foreign pre ds := by
  have hW := ht.world.apart
  have hmem : ∀ {done rest : List ClassDecl} {c : ClassDecl}, t.classes = done ++ c :: rest →
      c ∈ t.classes ∧ ∀ c ∈ done, c ∈ t.classes := fun h => by
    rw [h]
    exact ⟨List.mem_append_right _ List.mem_cons_self, fun _ hc => List.mem_append_left _ hc⟩
  -- the structs
  obtain ⟨_, s₁, h₁, -⟩ : Succeeds (t.classes.forM declareClass)
      { library := { id, name, dependencies := ds } } fun _ _ => True :=
    Succeeds.forM (I := fun _ _ => True) (fun _ _ _ _ _ _ => ⟨(), _, rfl, True.intro⟩) True.intro
  obtain ⟨hfilling, hfields, hrecords⟩ := forM_declareClass_filling hW ht.joins h₁
  have hbare : s₁.Bare t := by
    refine ((Upholds.forM fun c hc => declareClass_bare hc) _ _ _ h₁
      ⟨closed_empty, ?_, List.forall_mem_nil _, rfl⟩).1
    intro ty i hi
    simp [info?] at hi
  have hshapeless : s₁.Shapeless :=
    ((Upholds.forM fun c _ => declareClass_shapeless c) _ _ _ h₁
      ⟨by simp, by simp, rfl⟩).1
  have hready : s₁.Ready t foreign pre := by
    refine ⟨hbare.closed, fun c hc => forM_declareClass_shaped h₁ hc, fun c hc shape hshape => ?_,
      fun ty i hi hkind => ?_, ?_⟩
    · obtain ⟨c', hc', hid⟩ := hbare.classes _ (mem_of_lookup_eq_some hshape)
      exact absurd hid.symm (ht.id_ne hc' hc)
    · cases hkind.symm.trans (hbare.structs ty i hi)
    · rw [hbare.routines]
      exact List.forall_mem_nil _
  -- their members
  obtain ⟨_, s₂, h₂, -, hready₂, hregistered₂⟩ : Succeeds (t.classes.forM declareMembers) s₁
      fun _ s' => (∃ pending, t.classes = t.classes ++ pending ∧
        s'.Filling (t.merge foreign).world t ds pending) ∧ s'.Ready t foreign pre ∧
        s'.Registered t := by
    refine Succeeds.forM (I := fun done (s : Scope) => (∃ pending, t.classes = done ++ pending ∧
      s.Filling (t.merge foreign).world t ds pending) ∧ s.Ready t foreign pre ∧ s.Registered t) ?_
      ⟨⟨t.classes, rfl, hfilling⟩, hready, ?_⟩
    · rintro done c rest s has ⟨⟨pending, hpending, hs⟩, hready, hregistered⟩
      obtain rfl : c :: rest = pending := List.append_cancel_left (has.symm.trans hpending)
      obtain ⟨u, s', h, hready', hregistered'⟩ :=
        declareMembers_succeeds ht hcharted hds (hmem has).1 hs hready hregistered
      have hrest : c.name ∉ namesOf rest := by
        rintro ⟨c', hc', heq⟩
        have hnames := ht.joins.names hW
        rw [has, List.map_append, List.map_cons] at hnames
        have htail := (List.nodup_cons.mp (List.nodup_append.mp hnames).2.1).1
        exact htail (heq ▸ List.mem_map_of_mem hc')
      have hs' := (declareMembers_filling hW hcharted (Tree.mem_merge_left (hmem has).1) hrest hs h).1
      exact ⟨u, s', h, ⟨rest, by rw [has, List.append_assoc]; rfl, hs'⟩, hready', hregistered'⟩
    · rw [Registered, hrecords]
      exact List.forall_mem_nil _
  have hcharted₂ := forM_declareMembers_charted hW hcharted ht.joins hfilling hfields hrecords h₂
  have hunsigned : s₂.Unsigned t := by
    refine ((Upholds.forM fun c _ => declareMembers_unsigned c) _ _ _ h₂ ?_).1
    refine ⟨⟨hready.hasShapes, fun c _ => hshapeless.classTypes c.id, fun c _ shape _ r hr => ?_⟩,
      fun c _ => hshapeless.shapes c.id, ?_⟩
    · rw [Library.record?, hshapeless.records] at hr
      cases hr
    · rw [hshapeless.records]
      exact List.forall_mem_nil _
  -- their signatures
  obtain ⟨u, s₃, h₃, hs₃, hready₃, hregistered₃, hsigns₃⟩ := Succeeds.forM (g := declareSignatures)
    (I := fun done s => s.Charted (t.merge foreign).world t ds ∧ s.Ready t foreign pre ∧
      s.Registered t ∧ s.Signs t done)
    (by
      rintro done c rest s has ⟨hs, hready, hregistered, hsigns⟩
      obtain ⟨u, s', h, hready', hregistered', hsigns'⟩ := declareSignatures_succeeds ht
        ⟨hs.toCharting, hready⟩ hregistered hsigns (hmem has).1 (notMem_of_split ht.ids has)
        (hmem has).2
      have hs' := (declareSignatures_charted hW hcharted (hmem has).1 _ _ _ h hs).1
      exact ⟨u, s', h, hs', hready', hregistered', hsigns'⟩)
    ⟨hcharted₂, hready₂, hregistered₂, List.forall_mem_nil _,
      fun c hc _ => hunsigned.shapes c hc⟩
  exact ⟨u, s₃, bind_ok.mpr ⟨_, s₁, h₁, bind_ok.mpr ⟨_, s₂, h₂, h₃⟩⟩, hs₃, hready₃, hregistered₃,
    hsigns₃.signed⟩

end Scope

/-! ### No recursion -/

namespace Tree

variable {t foreign : Tree}

/-- **Plain trees are not recursive.** A class depends on the classes that it stores, and on nothing
else. -/
theorem PlainOver.recursion? (ht : t.PlainOver foreign) : t.recursion? = none := by
  have hsame : ∀ {i j : Item}, i ∈ t.items → j ∈ t.items → i.symbol = j.symbol → i = j :=
    fun hi hj heq => List.inj_on_of_nodup_map ht.distinct hi hj heq
  have hacc : ∀ c ∈ (t.merge foreign).classes, c ∈ t.classes →
      (∀ v ∈ c.members, Acc (flip t.DependsOn) (.property v.id)) ∧
      ∀ id, c.preConstructor = some id → Acc (flip t.DependsOn) (.function id) := by
    refine ht.world.induction fun c hw ih hc => ?_
    have hmembers : ∀ v ∈ c.members, Acc (flip t.DependsOn) (.property v.id) := by
      intro v hv
      refine .intro _ ?_
      rintro b ⟨i, hi, hsymbol, hb⟩
      obtain rfl := hsame hi (mem_items_of_member hc hv) hsymbol
      cases hb with
      | initializer hinitial he huses =>
        -- a literal uses nothing
        cases (ht.world.classes c hw).members v hv with
        | literal _ hinitial' =>
          cases hinitial.symm.trans hinitial'
          obtain rfl := List.mem_singleton.mp he
          cases huses
        | builtin _ hnone => cases hinitial.symm.trans hnone
        | object _ _ hnone => cases hinitial.symm.trans hnone
      | object _ _ hty hc' hinitialized =>
        obtain ⟨hproperties, hfunctions⟩ :=
          ih _ (ht.world.stores hw (mem_merge_left hc') hv hty) hc'
        cases hinitialized with
        | preConstructor hpre => exact hfunctions _ hpre
        | member _ hv' => exact hproperties _ hv'
    refine ⟨hmembers, fun id hid => .intro _ ?_⟩
    rintro b ⟨i, hi, hsymbol, hb⟩
    obtain rfl := hsame hi (mem_items_of_preConstructor hc hid) hsymbol
    cases hb with
    | preConstructor hv => exact hmembers _ hv
  have hall : ∀ a, Acc (flip t.DependsOn) a := by
    intro a
    refine .intro _ ?_
    rintro b ⟨i, hi, rfl, hb⟩
    obtain ⟨c, hc, hi⟩ := mem_items.mp hi
    obtain ⟨hproperties, hfunctions⟩ := hacc c (mem_merge_left hc) hc
    have hplain := ht.world.classes c (mem_merge_left hc)
    rcases ClassDecl.mem_items.mp hi with ⟨id, hid, rfl⟩ | ⟨k, hk, -⟩ | ⟨f, hf, -⟩ |
      ⟨v, hv, f, hf, -⟩ | ⟨v, hv, rfl⟩
    · exact (hfunctions id hid).inv ⟨_, mem_items_of_preConstructor hc hid, rfl, hb⟩
    · rw [hplain.constructors] at hk
      cases hk
    · rw [hplain.functions] at hf
      cases hf
    · obtain ⟨hgetter, hsetter⟩ := hplain.no_accessors hv
      simp [VariableDecl.accessors, hgetter, hsetter] at hf
    · exact (hproperties v hv).inv ⟨_, mem_items_of_member hc hv, rfl, hb⟩
  have hwf : WellFounded (flip t.DependsOn) := ⟨hall⟩
  refine Option.not_isSome_iff_eq_none.mp fun hsome => ?_
  obtain ⟨a, hcycle⟩ := (recursion?_isSome_iff_dependsOn ht.distinct ht.ids).mp hsome
  exact hwf.transGen.irrefl.irrefl a (transGen_swap.mp hcycle)

end Tree

end Shader
