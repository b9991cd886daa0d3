import Shader.Proofs.Scoping.Awaited
import Shader.Proofs.Types.Layers

/-!
# What the classes of a tree hold

A class becomes a struct that is entered first and gets its members later, so of all types only the
structs of the tree's own classes can end up holding themselves. While a tree is lowered, every other
type is solid, and what the struct of a class holds can be read off the tree
(`Scope.Layering`).

Types are found by their names. So the names of classes have to be apart from all other names
(`Tree.NamesOwn`): a class that is called like a type that is copied from a dependency would take its
place.
-/

namespace Shader

open Outcome Relation Registry

/-- The names of the classes of a tree. -/
def Tree.classNames (t : Tree) : Set String := {name | ∃ c ∈ t.classes, c.name = name}

/-- The class has a stored field of a class type. -/
def ClassDecl.Stores (c : ClassDecl) (id : ClassId) : Prop :=
  ∃ v ∈ c.members, v.isField = true ∧ v.ty = .ofClass id

/-- **Layered libraries.** Types are what their names say, and no type holds itself. -/
structure Library.Layered (l : Library) : Prop where
  orderly : l.types.Orderly
  acyclic : ∀ ty, ¬ TransGen l.types.Holds ty ty
  classTypes : ∀ p ∈ l.classTypes, ∀ name, l.types.Named p.2 name → ValueName name

/-- **Names of its own.** The classes of a tree have identities and names of their own, and no type of
a library behind the dependencies has one of these names. -/
structure Tree.NamesOwn (t : Tree) (ds : List Library) : Prop where
  ids : (t.classes.map ClassDecl.id).Nodup
  names : (t.classes.map ClassDecl.name).Nodup
  className : ∀ c ∈ t.classes, ClassName c.name
  foreign : ∀ d ∈ ds, ∀ m : Library, m.Within d → ∀ c ∈ t.classes, ∀ ty, ¬ m.types.Named ty c.name

theorem Tree.NamesOwn.className_of_mem {t : Tree} {ds : List Library} (h : t.NamesOwn ds) :
    ∀ name ∈ t.classNames, ClassName name := by
  rintro name ⟨c, hc, rfl⟩
  exact h.className c hc

namespace Scope

/-- The type of a class: the struct of a class of the tree, or the finished type of another one. -/
def Shaped (t : Tree) (r : Registry) (id : ClassId) (ty : TypeRef) : Prop :=
  (∃ c ∈ t.classes, c.id = id ∧ r.Named ty c.name) ∨
    (∀ c ∈ t.classes, c.id ≠ id) ∧ ∃ name, r.Named ty name ∧ ValueName name ∧ name ∉ t.classNames

/-- What holds from the first class on: all types are solid but the structs of the tree's own
classes. -/
structure Founding (t : Tree) (ds : List Library) (s : Scope) : Prop where
  orderly : s.library.types.Orderly
  firm : s.library.types.Firm t.classNames
  dependencies : s.library.dependencies = ds
  classes : ∀ p ∈ s.classes, Shaped t s.library.types p.1 p.2.ty
  classTypes : ∀ p ∈ s.library.classTypes, ∃ name, s.library.types.Named p.2 name ∧ ValueName name

/-- **The invariant of lowering.** The structs of all classes have been entered, and what these hold
of each other, the classes store. -/
structure Layering (t : Tree) (ds : List Library) (s : Scope) : Prop extends Founding t ds s where
  shaped : ∀ c ∈ t.classes, ∃ shape, s.classes.lookup c.id = some shape
  stores : ∀ c ∈ t.classes, ∀ c' ∈ t.classes, ∀ ty u, s.library.types.Named ty c.name →
    s.library.types.Holds ty u → s.library.types.Named u c'.name → c.Stores c'.id

variable {t : Tree} {ds : List Library} {s s' : Scope}

variable {ty : TypeRef} {r types : Registry} {c : ClassDecl} {id : ClassId} {name : String}

theorem Shaped.keeps {M : Set String} {r' : Registry} (h : Shaped t r id ty) (hk : Keeps M r r') :
    Shaped t r' id ty := by
  rcases h with ⟨c, hc, hid, hn⟩ | ⟨hid, name, hn, hname⟩
  · exact .inl ⟨c, hc, hid, hk.named hn⟩
  · exact .inr ⟨hid, name, hk.named hn, hname⟩

/-- Only a class of the tree has a type with the name of one. -/
theorem Shaped.eq_id (ht : t.NamesOwn ds) (h : Shaped t r id ty) (hc : c ∈ t.classes)
    (hn : r.Named ty c.name) : id = c.id := by
  rcases h with ⟨c', hc', rfl, hn'⟩ | ⟨-, name, hn', -, hname⟩
  · rw [List.inj_on_of_nodup_map ht.names hc' hc (hn'.unique hn)]
  · exact absurd ⟨c, hc, hn.unique hn'⟩ hname

/-- A class of the tree has its own name. -/
theorem Shaped.named (ht : t.NamesOwn ds) (hc : c ∈ t.classes) (h : Shaped t r c.id ty) :
    r.Named ty c.name := by
  rcases h with ⟨c', hc', hid, hn⟩ | ⟨hid, -⟩
  · rwa [← List.inj_on_of_nodup_map ht.ids hc' hc hid]
  · exact absurd rfl (hid c hc)

theorem Shaped.value (ht : t.NamesOwn ds) (h : Shaped t r id ty) :
    ∃ name, r.Named ty name ∧ ValueName name := by
  rcases h with ⟨c, hc, -, hn⟩ | ⟨-, name, hn, hvalue, -⟩
  · exact ⟨c.name, hn, .inr (ht.className c hc)⟩
  · exact ⟨name, hn, hvalue⟩

/-- The struct of a class is there. -/
theorem Layering.exists_struct (ht : t.NamesOwn ds) (hs : s.Layering t ds) (hc : c ∈ t.classes) :
    ∃ ty, s.library.types.Named ty c.name := by
  obtain ⟨shape, hshape⟩ := hs.shaped c hc
  exact ⟨shape.ty, (hs.classes _ (mem_of_lookup_eq_some hshape)).named ht hc⟩

theorem Founding.withTypes {M : Set String} (hs : s.Founding t ds)
    (h : Builds t.classNames M s.library.types types) : (s.withTypes types).Founding t ds where
  orderly := h.orderly
  firm := h.firm
  dependencies := hs.dependencies
  classes p hp := (hs.classes p hp).keeps h.keeps
  classTypes p hp := by
    obtain ⟨name, hn, hvalue⟩ := hs.classTypes p hp
    exact ⟨name, h.keeps.named hn, hvalue⟩

/-- Types may be entered. -/
theorem Layering.withTypes (ht : t.NamesOwn ds) (hs : s.Layering t ds)
    (h : Builds t.classNames ∅ s.library.types types) : (s.withTypes types).Layering t ds := by
  refine ⟨hs.toFounding.withTypes h, hs.shaped, fun c hc c' hc' ty u hty hu hn => ?_⟩
  -- the struct of the class was there before, under the same name
  obtain ⟨ty', hty'⟩ := hs.exists_struct ht hc
  obtain ⟨i, hi, hname⟩ := hty
  obtain ⟨i', hi', hname'⟩ := h.keeps.named hty'
  obtain rfl := h.orderly.unique ty ty' i i' hi hi' (hname.trans hname'.symm)
  have hu₀ := h.keeps.holds_back hty'.index_lt (fun _ _ => Set.notMem_empty _) hu
  exact hs.stores c hc c' hc' ty u hty' hu₀
    (h.keeps.named_back (hs.orderly.closed.index_lt_of_holds hu₀) hn)

theorem pointerType_layering (ht : t.NamesOwn ds) {location : Location} {pointer : TypeRef}
    (hs : s.Layering t ds) (h : onTypes location (pointerType ty) s = (.ok pointer, s')) :
    s'.Layering t ds := by
  obtain ⟨types, htypes, rfl⟩ := onTypes_ok.mp h
  exact hs.withTypes ht (pointerType_builds hs.orderly hs.firm htypes)

/-! ### Looking for types -/

section Steps

variable (ht : t.NamesOwn ds) (hds : ∀ d ∈ ds, ∀ m : Library, m.Within d → m.Layered)
include ht hds

/-- The type of a class of a dependency can be copied. -/
theorem foreignClass?_importable (hs : s.library.dependencies = ds) {source : Library}
    {ty : TypeRef} {pre : Option FunctionRef} (h : s.foreignClass? id = some (source, ty, pre)) :
    source.Layered ∧ source.types.Importable t.classNames ty := by
  obtain ⟨d, hd, hsource, hty, -⟩ := foreignClass?_ok h
  rw [hs] at hd
  have hlayered := hds d hd source hsource
  refine ⟨hlayered, fun name => hlayered.classTypes _ (mem_of_lookup_eq_some hty) name, ?_⟩
  rintro u name - hn ⟨c, hc, rfl⟩
  exact ht.foreign d hd source hsource c hc u hn

variable {location : Location} {c : ClassDecl}

/-- **The type of a class.** A class of a dependency is copied. -/
theorem classShape_layering {shape : ClassShape} (hs : s.Layering t ds)
    (h : classShape id location s = (.ok shape, s')) :
    s'.Layering t ds ∧ Keeps ∅ s.library.types s'.library.types ∧ (id, shape) ∈ s'.classes := by
  rcases classShape_ok h with ⟨hlookup, rfl⟩ | ⟨hlookup, source, ty, types, hforeign, htypes, rfl⟩
  · exact ⟨hs, .refl ∅ _, mem_of_lookup_eq_some hlookup⟩
  · obtain ⟨hlayered, himportable⟩ := foreignClass?_importable ht hds hs.dependencies hforeign
    obtain ⟨hbuilds, hnamed⟩ := importType_builds hlayered.orderly hlayered.acyclic himportable
      hs.orderly hs.firm htypes
    have hs₁ := hs.withTypes ht hbuilds
    have hid : ∀ c ∈ t.classes, c.id ≠ id := by
      rintro c hc rfl
      obtain ⟨shape, hshape⟩ := hs.shaped c hc
      cases hlookup.symm.trans hshape
    refine ⟨{ hs₁ with classes := ?_, shaped := ?_ }, hbuilds.keeps, List.mem_cons_self⟩
    · exact List.forall_mem_cons.mpr ⟨.inr ⟨hid, hnamed⟩, hs₁.classes⟩
    · exact fun c hc => exists_lookup_cons (id, _) (hs₁.shaped c hc)

/-- **The type that a language type becomes.** It has values, and if it is the struct of a class of the
tree, that class is meant. -/
theorem lowerType_layering {spec : TypeSpec} {ty : TypeRef} (hs : s.Layering t ds)
    (h : lowerType spec location s = (.ok ty, s')) :
    s'.Layering t ds ∧ Keeps ∅ s.library.types s'.library.types ∧
      ∃ name, s'.library.types.Named ty name ∧ ValueName name ∧
        ∀ c ∈ t.classes, c.name = name → spec = .ofClass c.id := by
  rcases lowerType_ok h with ⟨id, shape, rfl, rfl, hshape⟩ | ⟨types, htypes, rfl⟩
  · obtain ⟨hs₁, hkeeps, hmem⟩ := classShape_layering ht hds hs hshape
    have hshaped := hs₁.classes _ hmem
    obtain ⟨name, hn, hvalue⟩ := hshaped.value ht
    refine ⟨hs₁, hkeeps, name, hn, hvalue, ?_⟩
    rintro c hc rfl
    exact congrArg TypeSpec.ofClass (hshaped.eq_id ht hc hn)
  · obtain ⟨hbuilds, name, hspec, hn⟩ := enterBuiltin_builds hs.orderly hs.firm
      ht.className_of_mem (lowerBuiltin_cases htypes)
    refine ⟨hs.withTypes ht hbuilds, hbuilds.keeps, name, hn, .inl ⟨spec, hspec⟩, ?_⟩
    rintro c hc rfl
    exact absurd ⟨spec, hspec⟩ (ht.className c hc).builtin

/-! ### Declaring members -/

omit hds in
/-- A field of a class becomes a member of its struct. -/
theorem addMember_layering (hc : c ∈ t.classes) {owner ty : TypeRef} {v : VariableDecl}
    (hv : v ∈ c.members) (hfield : v.isField = true) (hs : s.Layering t ds)
    (howner : s.library.types.Named owner c.name) (hn : s.library.types.Named ty name)
    (hvalue : ValueName name) (hclass : ∀ c' ∈ t.classes, c'.name = name → v.ty = .ofClass c'.id)
    {n : Nat} (h : addMember owner ty v.name s.library.types = (.ok n, types)) :
    (s.withTypes types).Layering t ds ∧ types.Named owner c.name := by
  have hbuilds := addMember_builds hs.orderly hs.firm howner ⟨c, hc, rfl⟩ hn hvalue h
  refine ⟨⟨hs.toFounding.withTypes hbuilds, hs.shaped, fun c₁ hc₁ c₂ hc₂ ty₁ u hty₁ hu hnu => ?_⟩,
    hbuilds.keeps.named howner⟩
  have hsize : types.size = s.library.types.size := by
    obtain ⟨_, _, -, -, -, -, -, rfl⟩ := addMember_cases h
    exact size_modify ..
  have hback : ∀ {u name}, types.Named u name → s.library.types.Named u name := fun hu =>
    hbuilds.keeps.named_back (hsize ▸ hu.index_lt) hu
  rcases holds_addMember h hu with hold | ⟨rfl, rfl⟩
  · exact hs.stores c₁ hc₁ c₂ hc₂ ty₁ u (hback hty₁) hold (hback hnu)
  · -- the new member
    obtain rfl := List.inj_on_of_nodup_map ht.names hc hc₁ (howner.unique (hback hty₁))
    exact ⟨v, hv, hfield, hclass c₂ hc₂ ((hback hnu).unique hn)⟩

/-- Declaring a member variable. -/
theorem declareVariable_layering (hc : c ∈ t.classes) (owner : TypeRef) {v : VariableDecl}
    (hv : v ∈ c.members) :
    Upholds (fun s => s.Layering t ds ∧ s.library.types.Named owner c.name)
      (declareVariable c owner v) fun _ => True := by
  intro s field s' h hs
  obtain ⟨hs, howner⟩ := hs
  obtain ⟨ty, s₁, h₁, h⟩ := declareVariable_ok h
  obtain ⟨hs₁, hkeeps, name, hn, hvalue, hclass⟩ := lowerType_layering ht hds hs h₁
  have howner₁ := hkeeps.named howner
  rcases h with ⟨hfield, n, types, htypes, -, rfl⟩ | ⟨-, -, rfl⟩
  · obtain ⟨hs₂, howner₂⟩ := addMember_layering ht hc hv hfield hs₁ howner₁ hn hvalue hclass htypes
    exact ⟨⟨{ hs₂ with }, howner₂⟩, True.intro⟩
  · exact ⟨⟨{ hs₁ with }, howner₁⟩, True.intro⟩

theorem declareMembers_layering (hc : c ∈ t.classes) :
    Upholds (Layering t ds) (declareMembers c) fun _ => True := by
  intro s u s' h hs
  unfold declareMembers at h
  obtain ⟨shape, s₁, h₁, h⟩ := bind_ok.mp h
  obtain ⟨hs₁, -, hmem⟩ := classShape_layering ht hds hs h₁
  obtain ⟨fields, s₂, h₂, h⟩ := bind_ok.mp h
  have howner := (hs₁.classes _ hmem).named ht hc
  have hs₂ := ((Upholds.mapM (R := fun _ => True) fun v hv =>
    declareVariable_layering ht hds hc shape.ty hv) _ _ _ h₂ ⟨hs₁, howner⟩).1.1
  obtain ⟨-, rfl⟩ := ok_eq_ok.mp h
  exact ⟨{ hs₂ with }, True.intro⟩

/-! ### Declaring signatures -/

omit hds in
theorem createRoutine_layering {owner functionType : TypeRef} {f : FunctionRef}
    (hs : s.Layering t ds) (h : createRoutine owner name functionType location s = (.ok f, s')) :
    s'.Layering t ds := by
  obtain ⟨rfl, u, types, hadd, rfl⟩ := createRoutine_ok h
  have hs' := hs.withTypes ht (addFunction_builds hs.orderly hs.firm hadd)
  exact { hs' with }

omit hds in
theorem Initializing.layering (h : Initializing c s s') (hs : s.Layering t ds) :
    s'.Layering t ds := by
  obtain ⟨_, _, _, _, f, s₁, _, hcreate, hchange⟩ := h
  have hs₁ := createRoutine_layering ht hs hcreate
  obtain ⟨records, rfl, -⟩ := changeRecord_ok hchange
  cases hlookup : s₁.classes.lookup c.id with
  | none =>
    refine { hs₁ with classes := ?_, shaped := ?_ } <;> simp only [told, hlookup]
    · exact hs₁.classes
    · exact hs₁.shaped
  | some shape =>
    refine { hs₁ with classes := ?_, shaped := ?_ } <;> simp only [told, hlookup]
    · have hshaped := hs₁.classes _ (mem_of_lookup_eq_some hlookup)
      exact List.forall_mem_cons.mpr ⟨hshaped, hs₁.classes⟩
    · exact fun c' hc' => exists_lookup_cons _ (hs₁.shaped c' hc')

theorem Signing.layering {s₀ : Scope} {ids : List FunctionId} (h : Signing t c s₀ ids s)
    (hs₀ : s₀.Layering t ds) : s.Layering t ds := by
  induction h with
  | start => exact hs₀
  | lowerType _ h ih => exact (lowerType_layering ht hds ih h).1
  | pointerType _ h ih => exact pointerType_layering ht ih h
  | functionType _ h ih =>
    obtain ⟨types, htypes, rfl⟩ := onTypes_ok.mp h
    exact ih.withTypes ht (functionType_builds ih.orderly ih.firm htypes)
  | classShape _ h ih => exact (classShape_layering ht hds ih h).1
  | function _ _ _ h ih =>
    have hs := createRoutine_layering ht ih h
    exact { hs with }
  | defaultConstructor _ h ih =>
    obtain ⟨records, rfl, -⟩ := changeRecord_ok h
    exact { ih with }

end Steps

/-! ### Declaring a tree -/

/-- Before members are declared, nothing is held. -/
theorem declareClass_founding (hc : c ∈ t.classes) (hname : ClassName c.name) :
    Upholds (fun s => s.Founding t ds ∧ ∀ ty u, ¬ s.library.types.Holds ty u) (declareClass c)
      fun _ => True := by
  refine Upholds.modify fun s hs => ?_
  obtain ⟨hs, hnone⟩ := hs
  obtain ⟨hbuilds, hnamed⟩ : Builds t.classNames ∅ s.library.types
      (s.library.types.internStruct c.name).2 ∧ _ :=
    intern_builds hs.orderly hs.firm 0 none hname nofun
  have hs' := hs.withTypes hbuilds
  refine ⟨{ hs' with classes := ?_, classTypes := ?_ }, fun ty u hu => ?_⟩
  · exact List.forall_mem_cons.mpr ⟨.inl ⟨c, hc, rfl, hnamed⟩, hs'.classes⟩
  · exact List.forall_mem_cons.mpr ⟨⟨c.name, hnamed, .inr hname⟩, hs'.classTypes⟩
  · rcases s.library.types.intern_cases c.name .struct 0 none with ⟨_, -, heq⟩ | ⟨-, heq⟩
    · have hu : (s.library.types.internStruct c.name).2.Holds ty u := hu
      rw [internStruct, heq] at hu
      exact hnone ty u hu
    · have hu : (s.library.types.internStruct c.name).2.Holds ty u := hu
      rw [internStruct, heq] at hu
      rcases holds_push (fun _ => rfl) hu with hu | ⟨-, hcomponent⟩
      · exact hnone ty u hu
      · cases hcomponent

/-- **Declaring a tree** establishes the invariant. -/
theorem declareTree_layering (ht : t.NamesOwn ds)
    (hds : ∀ d ∈ ds, ∀ m : Library, m.Within d → m.Layered) {id : LibraryId} {u : Unit}
    (h : declareTree t { library := { id, name, dependencies := ds } } = (.ok u, s')) :
    s'.Layering t ds := by
  unfold declareTree at h
  obtain ⟨_, s₁, h₁, h⟩ := bind_ok.mp h
  obtain ⟨_, s₂, h₂, h₃⟩ := bind_ok.mp h
  have hempty : ∀ ty u, ¬ ({} : Registry).Holds ty u := by
    intro ty u hu
    cases hu with
    | component hi => simp [info?] at hi
    | member hi => simp [info?] at hi
  have hfounding : Founding t ds { library := { id, name, dependencies := ds } } :=
    ⟨orderly_empty, fun ty hty => absurd hty (Nat.not_lt_zero _), rfl, List.forall_mem_nil _,
      List.forall_mem_nil _⟩
  obtain ⟨hs₁, hnone⟩ := ((Upholds.forM fun c hc => declareClass_founding hc
    (ht.className c hc)) _ _ _ h₁ ⟨hfounding, hempty⟩).1
  have hlayering : s₁.Layering t ds :=
    ⟨hs₁, fun c hc => forM_declareClass_shaped h₁ hc,
      fun _ _ _ _ ty u _ hu => absurd hu (hnone ty u)⟩
  have hs₂ := ((Upholds.forM fun c hc => declareMembers_layering ht hds hc) _ _ _ h₂ hlayering).1
  exact ((Upholds.forM fun c hc => declareSignatures_keeps hc (Signing.layering ht hds)
    (Initializing.layering ht)) _ _ _ h₃ hs₂).1

/-- **Emission keeps the invariant.** -/
theorem Reaches.layering (ht : t.NamesOwn ds)
    (hds : ∀ d ∈ ds, ∀ m : Library, m.Within d → m.Layered) (h : s.Reaches s')
    (hs : s.Layering t ds) : s'.Layering t ds := by
  induction h with
  | start => exact hs
  | lowerType _ h ih => exact (lowerType_layering ht hds ih h).1
  | pointerType _ h ih => exact pointerType_layering ht ih h
  | classShape _ h ih => exact (classShape_layering ht hds ih h).1
  | @constant s s' ty value c _ h ih =>
    obtain ⟨-, rfl⟩ := ok_eq_ok.mp h
    cases s.library.constants.findIdx? (· = ⟨ty, value⟩) with
    | some i => exact ih
    | none => exact { ih with }
  | install _ h ih =>
    obtain ⟨rfl, -⟩ := Library.routine?_of_install? h
    exact { ih with }

end Scope

end Shader
