import Shader.Proofs.Construction.Catalogue
import Shader.Proofs.Types.Portrait

/-!
# What lowering says of classes

A class is known by its identity, and so are its properties. Lowering turns them into a struct and
numbers of members, and it writes down which is which: the scope lists the shapes of classes and the
numbers of the fields of its own tree, and the library keeps records for the libraries on top of it.
-/

namespace Shader

open Outcome Registry

/-! ### Numbers of fields -/

/-- The properties that are stored fields of a class, with the numbers of their members. -/
def ClassDecl.slots (c : ClassDecl) : List (PropertyId × Nat) :=
  (c.fields.map VariableDecl.id).zipIdx

/-- The properties of which a member is recorded, with its number. -/
def FieldRecord.slot? (f : FieldRecord) : Option (PropertyId × Nat) :=
  f.member.map fun k => (f.property, k)

/-- **A record describes a class.** It lists all its properties, and numbers the stored ones. -/
structure ClassRecord.Describes (r : ClassRecord) (c : ClassDecl) : Prop where
  id : r.id = c.id
  properties : r.fields.map FieldRecord.property = c.members.map VariableDecl.id
  slots : r.fields.filterMap FieldRecord.slot? = c.slots

variable {c : ClassDecl} {s : Scope} {t : Tree}

theorem ClassDecl.mem_slots {k : Nat} {v : VariableDecl} (h : c.fields[k]? = some v) :
    (v.id, k) ∈ c.slots := by
  rw [slots, List.mem_zipIdx_iff_getElem?, List.getElem?_map, h]
  rfl

/-- A stored property is one of the properties of the class. -/
theorem ClassDecl.mem_properties_of_mem_slots {p : PropertyId × Nat} (h : p ∈ c.slots) :
    p.1 ∈ c.members.map VariableDecl.id := by
  obtain ⟨v, hv, heq⟩ := List.mem_map.mp (List.fst_mem_of_mem_zipIdx h)
  exact List.mem_map.mpr ⟨v, (List.mem_filter.mp hv).1, heq⟩

/-! ### Exact scopes -/

/-- **Charted libraries.** The types are exact, the type of a class is the struct that portrays it, and
there is a record of it; all records describe classes. -/
structure Library.Charted (W : Set ClassDecl) (l : Library) : Prop where
  types : l.types.Exact W ∅
  classTypes : ∀ p ∈ l.classTypes, ∃ c ∈ W, c.id = p.1 ∧ l.types.Named p.2 c.name ∧
    ∃ r ∈ l.records, r.id = c.id
  records : ∀ r ∈ l.records, ∃ c ∈ W, r.Describes c

/-- A class is one of the tree, or there is a record of it behind the dependencies. -/
def Tree.Sees (t : Tree) (ds : List Library) (c : ClassDecl) : Prop :=
  c ∈ t.classes ∨ ∃ d ∈ ds, ∃ m : Library, m.Within d ∧ ∃ r ∈ m.records, r.id = c.id

namespace Scope

/-- **Exact scopes.** The types are exact up to the names in `N`, and the classes that have been
resolved have structs with their names. -/
structure Charting (W : Set ClassDecl) (t : Tree) (N : Set String) (ds : List Library) (s : Scope) :
    Prop where
  types : s.library.types.Exact W N
  dependencies : s.library.dependencies = ds
  classes : ∀ p ∈ s.classes, ∃ c ∈ W, c.id = p.1 ∧ s.library.types.Named p.2.ty c.name ∧
    t.Sees ds c
  classTypes : ∀ p ∈ s.library.classTypes, ∃ c ∈ t.classes, c.id = p.1 ∧
    s.library.types.Named p.2 c.name

/-- A later scope that is still exact. Nothing has been said of fields. -/
structure Follows (W : Set ClassDecl) (t : Tree) (N : Set String) (ds : List Library)
    (s s' : Scope) :
    Prop where
  charting : s'.Charting W t N ds
  keeps : Keeps ∅ s.library.types s'.library.types
  fields : s'.fields = s.fields
  records : s'.library.records = s.library.records

variable {W : Set ClassDecl} {t : Tree} {N M : Set String} {ds : List Library} {s s' s₀ : Scope}
  {location : Location} {id : ClassId} {u : Unit}

theorem Charting.withTypes (hs : s.Charting W t N ds) {types : Registry}
    (hexact : types.Exact W N) (hkeeps : Keeps M s.library.types types) :
    (s.withTypes types).Charting W t N ds where
  types := hexact
  dependencies := hs.dependencies
  classes p hp := by
    obtain ⟨c, hc, hid, hn, hsees⟩ := hs.classes p hp
    exact ⟨c, hc, hid, hkeeps.named hn, hsees⟩
  classTypes p hp := by
    obtain ⟨c, hc, hid, hn⟩ := hs.classTypes p hp
    exact ⟨c, hc, hid, hkeeps.named hn⟩

/-- Operations on types that keep the registry exact. -/
theorem onTypes_follows {α : Type} {x : TypeM α} {a : α} (hs : s.Charting W t N ds)
    (hx : ∀ types, x s.library.types = (.ok a, types) → Later W N s.library.types types)
    (h : onTypes location x s = (.ok a, s')) : Follows W t N ds s s' := by
  obtain ⟨types, htypes, rfl⟩ := onTypes_ok.mp h
  have hlater := hx types htypes
  exact ⟨hs.withTypes hlater.exact hlater.keeps, hlater.keeps, rfl, rfl⟩

section Steps

variable (hW : ClassesApart W) (hds : ∀ d ∈ ds, ∀ m : Library, m.Within d → m.Charted W)
include hW hds

omit hW in
/-- **Where a class of a dependency comes from.** -/
theorem foreignClass?_charted (hs : s.library.dependencies = ds) {source : Library} {ty : TypeRef}
    {pre : Option FunctionRef} (h : s.foreignClass? id = some (source, ty, pre)) :
    source.Charted W ∧ ∃ c ∈ W, c.id = id ∧ source.types.Named ty c.name ∧ t.Sees ds c := by
  obtain ⟨d, hd, hm, hty, -⟩ := foreignClass?_ok h
  rw [hs] at hd
  have hcharted := hds d hd source hm
  obtain ⟨c, hc, hid, hn, hrecorded⟩ := hcharted.classTypes _ (mem_of_lookup_eq_some hty)
  exact ⟨hcharted, c, hc, hid, hn, .inr ⟨d, hd, source, hm, hrecorded⟩⟩

/-- **Resolving a class.** A class of a dependency gets a copy of its struct. -/
theorem classShape_follows {shape : ClassShape} (hs : s.Charting W t N ds)
    (h : classShape id location s = (.ok shape, s')) :
    Follows W t N ds s s' ∧ (id, shape) ∈ s'.classes := by
  rcases classShape_ok h with ⟨hlookup, rfl⟩ | ⟨-, source, ty, types, hforeign, htypes, rfl⟩
  · exact ⟨⟨hs, .refl ∅ _, rfl, rfl⟩, mem_of_lookup_eq_some hlookup⟩
  obtain ⟨hsource, c, hc, hid, hn, hsees⟩ :=
    foreignClass?_charted (t := t) hds hs.dependencies hforeign
  obtain ⟨hlater, -, hnamed⟩ :=
    importType_later hW hsource.types hn (.inr (hW.className c hc)) hs.types htypes
  have hs₁ := hs.withTypes hlater.exact hlater.keeps
  refine ⟨⟨{ hs₁ with classes := ?_ }, hlater.keeps, rfl, rfl⟩, List.mem_cons_self⟩
  exact List.forall_mem_cons.mpr
    ⟨⟨c, hc, hid, hnamed, hsees⟩, hs₁.classes⟩

/-- **The type that a language type becomes** is called like it. -/
theorem lowerType_follows {spec : TypeSpec} {ty : TypeRef} (hs : s.Charting W t N ds)
    (h : lowerType spec location s = (.ok ty, s')) :
    Follows W t N ds s s' ∧ ∃ name, s'.library.types.Named ty name ∧ spec.Called W name := by
  rcases lowerType_ok h with ⟨id, shape, rfl, rfl, hshape⟩ | ⟨types, htypes, rfl⟩
  · obtain ⟨hfollows, hmem⟩ := classShape_follows hW hds hs hshape
    obtain ⟨c, hc, rfl, hn, -⟩ := hfollows.charting.classes _ hmem
    exact ⟨hfollows, c.name, hn, .inr ⟨c, hc, rfl, rfl⟩⟩
  · obtain ⟨hlater, name, hspec, hn⟩ := enterBuiltin_later hW hs.types (lowerBuiltin_cases htypes)
    exact ⟨⟨hs.withTypes hlater.exact hlater.keeps, hlater.keeps, rfl, rfl⟩, name, hn, .inl hspec⟩

/-! ### Declaring members -/

/-- What declaring some member variables of a class does, whose struct has the members `vs` already. -/
structure Declares (W : Set ClassDecl) (t : Tree) (N : Set String) (ds : List Library)
    (c : ClassDecl) (owner : TypeRef) (vs rest : List VariableDecl) (fs : List FieldRecord)
    (s s' : Scope) : Prop where
  charting : s'.Charting W t N ds
  keeps : Keeps {c.name} s.library.types s'.library.types
  portrays : ∃ i, s'.library.types.info? owner = some i ∧ i.name = c.name ∧
    s'.library.types.Portrays W i (vs ++ rest.filter VariableDecl.isField)
  properties : fs.map FieldRecord.property = rest.map VariableDecl.id
  slots : fs.filterMap FieldRecord.slot? =
    ((rest.filter VariableDecl.isField).map VariableDecl.id).zipIdx vs.length
  fields : s'.fields =
    (((rest.filter VariableDecl.isField).map VariableDecl.id).zipIdx vs.length).reverse ++ s.fields
  records : s'.library.records = s.library.records

variable {owner : TypeRef} {vs : List VariableDecl} {c : ClassDecl}

omit hW hds in
theorem Declares.trans {us ws : List VariableDecl} {fs gs : List FieldRecord} {s'' : Scope}
    (h : Declares W t N ds c owner vs us fs s s')
    (h' : Declares W t N ds c owner (vs ++ us.filter VariableDecl.isField) ws gs s' s'') :
    Declares W t N ds c owner vs (us ++ ws) (fs ++ gs) s s'' where
  charting := h'.charting
  keeps := h.keeps.trans h'.keeps
  portrays := by
    obtain ⟨i, hi, hname, hvs⟩ := h'.portrays
    rw [List.append_assoc, ← List.filter_append] at hvs
    exact ⟨i, hi, hname, hvs⟩
  properties := by rw [List.map_append, List.map_append, h.properties, h'.properties]
  slots := by
    rw [List.filterMap_append, h.slots, h'.slots, List.filter_append, List.map_append,
      List.zipIdx_append, List.length_map, List.length_append]
  fields := by
    rw [h'.fields, h.fields, List.filter_append, List.map_append, List.zipIdx_append,
      List.reverse_append, List.length_map, List.length_append, List.append_assoc]
  records := h'.records.trans h.records

/-- **Declaring a member variable.** -/
theorem declareVariable_declares (hN : c.name ∈ N) {v : VariableDecl} {f : FieldRecord}
    (hs : s.Charting W t N ds) {i : TypeInfo} (hi : s.library.types.info? owner = some i)
    (hname : i.name = c.name) (hvs : s.library.types.Portrays W i vs)
    (h : declareVariable c owner v s = (.ok f, s')) :
    Declares W t N ds c owner vs [v] [f] s s' := by
  obtain ⟨ty, s₁, h₁, hcases⟩ := declareVariable_ok h
  obtain ⟨hfollows, name, hn, hcalled⟩ := lowerType_follows hW hds hs h₁
  -- looking for its type does not touch the struct
  obtain ⟨i₁, hi₁, ha⟩ := hfollows.keeps owner i hi
  have hvs₁ := hvs.keeps hfollows.keeps ha (Set.notMem_empty _)
  have hname₁ : i₁.name = c.name := ha.name.trans hname
  have hkeeps₁ : Keeps {c.name} s.library.types s₁.library.types :=
    hfollows.keeps.mono fun _ _ _ => False.elim
  rcases hcases with ⟨hfield, n, types, htypes, rfl, rfl⟩ | ⟨hfield, rfl, rfl⟩
  · have hone : [v].filter VariableDecl.isField = [v] := by simp [hfield]
    obtain ⟨hexact, hkeeps₂, rfl, i₂, hi₂, hname₂, hvs₂⟩ := addMember_exact hfollows.charting.types
      hi₁ (hname₁ ▸ hN) hvs₁ hn hcalled htypes
    rw [hname₁] at hkeeps₂ hname₂
    refine ⟨{ hfollows.charting.withTypes hexact hkeeps₂ with }, hkeeps₁.trans hkeeps₂,
      ⟨i₂, hi₂, hname₂, ?_⟩, rfl, ?_, ?_, hfollows.records⟩
    · rw [hone]
      exact hvs₂
    · rw [hone]
      rfl
    · rw [hone, ← hfollows.fields]
      rfl
  · have hnone : [v].filter VariableDecl.isField = [] := by simp [hfield]
    refine ⟨{ hfollows.charting with }, hkeeps₁, ⟨i₁, hi₁, hname₁, ?_⟩, rfl, ?_, ?_,
      hfollows.records⟩
    · rw [hnone, List.append_nil]
      exact hvs₁
    · rw [hnone]
      rfl
    · rw [hnone]
      exact hfollows.fields

/-- **Declaring member variables**, one after the other. -/
theorem mapM_declareVariable_declares (hN : c.name ∈ N) {rest : List VariableDecl}
    {fs : List FieldRecord} (hs : s.Charting W t N ds) {i : TypeInfo}
    (hi : s.library.types.info? owner = some i) (hname : i.name = c.name)
    (hvs : s.library.types.Portrays W i vs)
    (h : rest.mapM (declareVariable c owner) s = (.ok fs, s')) :
    Declares W t N ds c owner vs rest fs s s' := by
  induction rest generalizing s vs fs i with
  | nil =>
    obtain ⟨rfl, rfl⟩ := ok_eq_ok.mp h
    refine ⟨hs, .refl _ _, ⟨i, hi, hname, ?_⟩, rfl, rfl, rfl, rfl⟩
    rw [List.filter_nil, List.append_nil]
    exact hvs
  | cons v rest ih =>
    rw [List.mapM_cons] at h
    obtain ⟨f, s₁, h₁, h⟩ := bind_ok.mp h
    obtain ⟨fs', s₂, h₂, rfl, rfl⟩ := return_ok.mp h
    have hfirst := declareVariable_declares hW hds hN hs hi hname hvs h₁
    obtain ⟨i₁, hi₁, hname₁, hvs₁⟩ := hfirst.portrays
    exact hfirst.trans (ih hfirst.charting hi₁ hname₁ hvs₁ h₂)

end Steps

/-- The names of classes. -/
def namesOf (cs : List ClassDecl) : Set String := {name | ∃ c ∈ cs, c.name = name}

/-- **Blank structs.** The structs of some classes have been entered but have no members yet; all the
others are finished. -/
structure Filling (W : Set ClassDecl) (t : Tree) (ds : List Library) (pending : List ClassDecl)
    (s : Scope) : Prop extends Charting W t (namesOf pending) ds s where
  blank : ∀ c ∈ pending, ∃ ty i, s.library.types.info? ty = some i ∧ i.name = c.name ∧
    s.library.types.Portrays W i []

/-- Looking for types and classes leaves blank structs blank. -/
theorem Filling.follows {pending : List ClassDecl} (hs : s.Filling W t ds pending)
    (h : Follows W t (namesOf pending) ds s s') : s'.Filling W t ds pending where
  toCharting := h.charting
  blank c hc := by
    obtain ⟨ty, i, hi, hname, hempty⟩ := hs.blank c hc
    obtain ⟨i', hi', ha⟩ := h.keeps ty i hi
    exact ⟨ty, i', hi', ha.name.trans hname, hempty.keeps h.keeps ha (Set.notMem_empty _)⟩

/-- The struct of a class that waits for its members is blank. -/
theorem Filling.blank_shape (hW : ClassesApart W) {pending : List ClassDecl}
    (hs : s.Filling W t ds pending) (hc : c ∈ pending) (hcW : c ∈ W) {shape : ClassShape}
    (hmem : (c.id, shape) ∈ s.classes) :
    ∃ i, s.library.types.info? shape.ty = some i ∧ i.name = c.name ∧
      s.library.types.Portrays W i [] := by
  obtain ⟨c', hc', hid, hn, -⟩ := hs.classes _ hmem
  obtain rfl := hW.eq_of_id c' hc' c hcW hid
  obtain ⟨ty, i, hi, hname, hempty⟩ := hs.blank c' hc
  obtain rfl := NamesApart.eq_of_named hs.types.unique ⟨i, hi, hname⟩ hn
  exact ⟨i, hi, hname, hempty⟩

section Members

variable (hW : ClassesApart W) (hds : ∀ d ∈ ds, ∀ m : Library, m.Within d → m.Charted W)
include hW hds

/-- **Declaring the members of a class** finishes its struct. -/
theorem declareMembers_filling {rest : List ClassDecl} (hc : c ∈ W) (hrest : c.name ∉ namesOf rest)
    (hs : s.Filling W t ds (c :: rest)) (h : declareMembers c s = (.ok u, s')) :
    s'.Filling W t ds rest ∧ s'.fields = c.slots.reverse ++ s.fields ∧
      ∃ r : ClassRecord, r.Describes c ∧ s'.library.records = s.library.records ++ [r] := by
  unfold declareMembers at h
  obtain ⟨shape, s₁, h₁, h⟩ := bind_ok.mp h
  obtain ⟨fs, s₂, h₂, h⟩ := bind_ok.mp h
  obtain ⟨-, rfl⟩ := ok_eq_ok.mp h
  obtain ⟨hfollows, hmem⟩ := classShape_follows hW hds hs.toCharting h₁
  have hs₁ := hs.follows hfollows
  obtain ⟨i, hi, hname, hempty⟩ := hs₁.blank_shape hW List.mem_cons_self hc hmem
  have hN : c.name ∈ namesOf (c :: rest) := ⟨c, List.mem_cons_self, rfl⟩
  have hdeclares := mapM_declareVariable_declares hW hds hN hfollows.charting hi hname hempty h₂
  obtain ⟨i₂, hi₂, hname₂, hfull⟩ := hdeclares.portrays
  have hnames : namesOf (c :: rest) = insert c.name (namesOf rest) := by
    ext name
    simp [namesOf, eq_comm]
  -- the struct is complete now, so its name need not be excepted any longer
  have hexact : s₂.library.types.Exact W (namesOf rest) :=
    (hnames ▸ hdeclares.charting.types).close hW hc hi₂ hname₂ hfull
  refine ⟨⟨⟨hexact, hdeclares.charting.dependencies, hdeclares.charting.classes,
    hdeclares.charting.classTypes⟩, fun c' hc' => ?_⟩, ?_,
    { id := c.id, name := c.name, ty := shape.ty, fields := fs },
    ⟨rfl, hdeclares.properties, hdeclares.slots⟩, ?_⟩
  · obtain ⟨ty, j, hj, hjname, hjempty⟩ := hs₁.blank c' (List.mem_cons_of_mem _ hc')
    obtain ⟨j₂, hj₂, ha⟩ := hdeclares.keeps ty j hj
    have hne : j.name ∉ ({c.name} : Set String) := fun heq =>
      hrest ⟨c', hc', hjname.symm.trans (Set.mem_singleton_iff.mp heq)⟩
    exact ⟨ty, j₂, hj₂, ha.name.trans hjname, hjempty.keeps hdeclares.keeps ha hne⟩
  · rw [← hfollows.fields]
    exact hdeclares.fields
  · rw [← hfollows.records, ← hdeclares.records]
    rfl

/-- **Declaring the members of all classes.** -/
theorem forM_declareMembers_filling {cs : List ClassDecl} (hcs : ∀ c ∈ cs, c ∈ W)
    (hnodup : (cs.map ClassDecl.name).Nodup) (hs : s.Filling W t ds cs)
    (h : cs.forM declareMembers s = (.ok u, s')) :
    s'.Filling W t ds [] ∧ s'.fields = (cs.flatMap ClassDecl.slots).reverse ++ s.fields ∧
      ∃ rs : List ClassRecord, s'.library.records = s.library.records ++ rs ∧
        (∀ r ∈ rs, ∃ c ∈ cs, r.Describes c) ∧ ∀ c ∈ cs, ∃ r ∈ rs, r.Describes c := by
  induction cs generalizing s with
  | nil =>
    obtain ⟨-, rfl⟩ := ok_eq_ok.mp h
    exact ⟨hs, rfl, [], (List.append_nil _).symm, nofun, nofun⟩
  | cons c cs ih =>
    rw [forM_cons] at h
    obtain ⟨_, s₁, h₁, h⟩ := bind_ok.mp h
    obtain ⟨hnew, hnodup⟩ := List.nodup_cons.mp hnodup
    have hrest : c.name ∉ namesOf cs := by
      rintro ⟨c', hc', heq⟩
      exact hnew (heq ▸ List.mem_map_of_mem hc')
    obtain ⟨hs₁, hfields₁, r, hr, hrecords₁⟩ :=
      declareMembers_filling hW hds (hcs c List.mem_cons_self) hrest hs h₁
    obtain ⟨hs', hfields, rs, hrecords, hsound, hcomplete⟩ :=
      ih (fun c hc => hcs c (List.mem_cons_of_mem _ hc)) hnodup hs₁ h
    refine ⟨hs', ?_, r :: rs, ?_, ?_, ?_⟩
    · rw [hfields, hfields₁, List.flatMap_cons, List.reverse_append, List.append_assoc]
    · rw [hrecords, hrecords₁, List.append_assoc]
      rfl
    · refine List.forall_mem_cons.mpr ⟨⟨c, List.mem_cons_self, hr⟩, fun r' hr' => ?_⟩
      obtain ⟨c', hc', hdescribes⟩ := hsound r' hr'
      exact ⟨c', List.mem_cons_of_mem _ hc', hdescribes⟩
    · refine List.forall_mem_cons.mpr ⟨⟨r, List.mem_cons_self, hr⟩, fun c' hc' => ?_⟩
      obtain ⟨r', hr', hdescribes⟩ := hcomplete c' hc'
      exact ⟨r', List.mem_cons_of_mem _ hr', hdescribes⟩

end Members

/-! ### Declaring a tree -/

/-- A scope in which only structs have been declared. -/
structure Opening (W : Set ClassDecl) (t : Tree) (ds : List Library) (s : Scope) : Prop extends
    Charting W t (namesOf t.classes) ds s where
  blank : ∀ ty i, s.library.types.info? ty = some i → s.library.types.Portrays W i []
  fields : s.fields = []
  records : s.library.records = []

/-- **Declaring a class** enters a struct without members. -/
theorem declareClass_opening (hW : ClassesApart W) (ht : ∀ c ∈ t.classes, c ∈ W)
    (hc : c ∈ t.classes) : Upholds (Opening W t ds) (declareClass c) fun _ => True := by
  refine Upholds.modify fun s hs => ?_
  obtain ⟨hlater, hnamed⟩ := internStruct_later hW hs.types (ht c hc) ⟨c, hc, rfl⟩
  have hs' := hs.toCharting.withTypes hlater.exact hlater.keeps
  refine ⟨{ hs' with classes := ?_, classTypes := ?_ }, fun ty i hi => ?_, hs.fields, hs.records⟩
  · exact List.forall_mem_cons.mpr ⟨⟨c, ht c hc, rfl, hnamed, .inl hc⟩, hs'.classes⟩
  · exact List.forall_mem_cons.mpr ⟨⟨c, hc, rfl, hnamed⟩, hs'.classTypes⟩
  · have hi : (s.library.types.internStruct c.name).2.info? ty = some i := hi
    rcases s.library.types.intern_cases c.name .struct 0 none with ⟨_, -, heq⟩ | ⟨-, heq⟩
    · rw [internStruct, heq] at hi
      exact (hs.blank ty i hi).keeps hlater.keeps (.refl ∅ _) (Set.notMem_empty _)
    · rw [internStruct, heq] at hi
      rcases info?_push_cases hi with ⟨-, rfl⟩ | hold
      · exact ⟨rfl, .nil⟩
      · exact (hs.blank ty i hold).keeps hlater.keeps (.refl ∅ _) (Set.notMem_empty _)

/-- **Charted scopes.** The types are exact, the fields of the tree have the numbers of their members,
and the records describe the classes of the tree. -/
structure Charted (W : Set ClassDecl) (t : Tree) (ds : List Library) (s : Scope) : Prop extends
    Charting W t ∅ ds s where
  fields : s.fields = (t.classes.flatMap ClassDecl.slots).reverse
  records : ∀ r ∈ s.library.records, ∃ c ∈ t.classes, r.Describes c
  recorded : ∀ c ∈ t.classes, (s.library.record? c.id).isSome = true

/-- Looking for types and classes leaves a scope charted. -/
theorem Charted.follows (hs : s.Charted W t ds) (h : Follows W t ∅ ds s s') : s'.Charted W t ds where
  toCharting := h.charting
  fields := h.fields.trans hs.fields
  records := by
    rw [h.records]
    exact hs.records
  recorded := by
    unfold Library.record?
    rw [h.records]
    exact hs.recorded

section Tree

variable (hW : ClassesApart W) (hds : ∀ d ∈ ds, ∀ m : Library, m.Within d → m.Charted W)
include hW hds

omit hW hds in
/-- Telling a record about a function changes nothing that it describes. -/
theorem Charted.changeRecord {change : ClassRecord → ClassRecord} (hs : s.Charted W t ds)
    (h : Scope.changeRecord id change s = (.ok u, s')) (hid : ∀ r, (change r).id = r.id)
    (hfields : ∀ r, (change r).fields = r.fields) :
    s'.Charted W t ds := by
  obtain ⟨-, -, hrecord⟩ := record?_changeRecord h hid
  obtain ⟨records, rfl, hrecords⟩ := changeRecord_ok h
  refine ⟨{ hs.toCharting with }, hs.fields, fun r hr => ?_, fun c hc => ?_⟩
  · rcases hrecords r hr with hr | ⟨r', hr', rfl⟩
    · exact hs.records r hr
    · obtain ⟨c, hc, hdescribes⟩ := hs.records r' hr'
      refine ⟨c, hc, (hid r').trans hdescribes.id, ?_, ?_⟩
      · rw [hfields]
        exact hdescribes.properties
      · rw [hfields]
        exact hdescribes.slots
  · rw [hrecord]
    split
    · next heq =>
      rw [Option.isSome_map, ← heq]
      exact hs.recorded c hc
    · exact hs.recorded c hc

omit hW hds in
/-- Creating a function enters types and nothing else that is charted. -/
theorem Charted.createRoutine {owner functionType : TypeRef} {name : String} {f : FunctionRef}
    (hs : s.Charted W t ds)
    (h : Scope.createRoutine owner name functionType location s = (.ok f, s')) :
    s'.Charted W t ds := by
  obtain ⟨-, u, types, hadd, rfl⟩ := createRoutine_ok h
  have hlater := addFunction_later hs.types hadd
  have hs' := hs.toCharting.withTypes hlater.exact hlater.keeps
  exact ⟨{ hs' with }, hs.fields, hs.records, hs.recorded⟩

/-- **Declaring the functions of a class** goes by such steps. -/
theorem Signing.charted {ids : List FunctionId} (h : Signing t c s₀ ids s)
    (hs₀ : s₀.Charted W t ds) :
    s.Charted W t ds := by
  induction h with
  | start => exact hs₀
  | lowerType _ h ih => exact ih.follows (lowerType_follows hW hds ih.toCharting h).1
  | pointerType _ h ih =>
    exact ih.follows (onTypes_follows ih.toCharting (fun _ => pointerType_later hW ih.types) h)
  | functionType _ h ih =>
    exact ih.follows (onTypes_follows ih.toCharting (fun _ => functionType_later hW ih.types) h)
  | classShape _ h ih => exact ih.follows (classShape_follows hW hds ih.toCharting h).1
  | function _ _ _ h ih => exact { ih.createRoutine h with }
  | defaultConstructor _ h ih => exact ih.changeRecord h (fun _ => rfl) fun _ => rfl

omit hW hds in
/-- A pre-constructor is entered in the shape of its class, whose struct stays the same. -/
theorem Initializing.charted (h : Initializing c s s') (hs : s.Charted W t ds) :
    s'.Charted W t ds := by
  obtain ⟨_, _, _, _, f, s₁, _, hcreate, hchange⟩ := h
  replace hs := hs.createRoutine hcreate
  refine Charted.changeRecord ?_ hchange (fun _ => rfl) fun _ => rfl
  cases hlookup : s₁.classes.lookup c.id with
  | none =>
    refine { hs with classes := ?_ }
    rw [told, hlookup]
    exact hs.classes
  | some shape =>
    refine { hs with classes := ?_ }
    rw [told_of_lookup f hlookup]
    have hshape := hs.classes _ (mem_of_lookup_eq_some hlookup)
    exact List.forall_mem_cons.mpr ⟨hshape, hs.classes⟩

/-- **Declaring signatures** changes nothing about types and fields. -/
theorem declareSignatures_charted (hc : c ∈ t.classes) :
    Upholds (Charted W t ds) (declareSignatures c) fun _ => True :=
  declareSignatures_keeps hc (Signing.charted hW hds) Initializing.charted

/-- **Emission** changes nothing about types and fields either. -/
theorem Reaches.charted (hs₀ : s₀.Charted W t ds) (h : s₀.Reaches s) : s.Charted W t ds := by
  induction h with
  | start => exact hs₀
  | lowerType _ h ih => exact ih.follows (lowerType_follows hW hds ih.toCharting h).1
  | pointerType _ h ih =>
    exact ih.follows (onTypes_follows ih.toCharting (fun _ => pointerType_later hW ih.types) h)
  | classShape _ h ih => exact ih.follows (classShape_follows hW hds ih.toCharting h).1
  | @constant s s' ty value c _ h ih =>
    obtain ⟨-, rfl⟩ := ok_eq_ok.mp h
    cases s.library.constants.findIdx? (· = ⟨ty, value⟩) with
    | some i => exact ih
    | none => exact { ih with }
  | install _ h ih =>
    obtain ⟨rfl, -⟩ := Library.routine?_of_install? h
    exact { ih with }

end Tree

end Scope

/-- **A tree joins classes.** Its classes are among them, and no two have the same identity. -/
structure Tree.Joins (t : Tree) (W : Set ClassDecl) : Prop where
  mem : ∀ c ∈ t.classes, c ∈ W
  ids : (t.classes.map ClassDecl.id).Nodup

theorem Tree.Joins.mono {W W' : Set ClassDecl} (ht : t.Joins W) (h : ∀ c ∈ W, c ∈ W') :
    t.Joins W' := ⟨fun c hc => h c (ht.mem c hc), ht.ids⟩

theorem Tree.Joins.names {W : Set ClassDecl} (hW : ClassesApart W) (ht : t.Joins W) :
    (t.classes.map ClassDecl.name).Nodup :=
  ht.ids.of_map.map_on fun c hc c' hc' => hW.eq_of_name c (ht.mem c hc) c' (ht.mem c' hc')

section

variable {W : Set ClassDecl} {t : Tree} {id : LibraryId} {name : String} {dependencies : List Library}
  (hW : ClassesApart W) (hds : ∀ d ∈ dependencies, ∀ m : Library, m.Within d → m.Charted W)
  (ht : t.Joins W)
include hW hds ht

variable {u : Unit}

omit hds in
/-- **Declaring the classes of a tree** enters a blank struct for each of them. -/
theorem Scope.forM_declareClass_filling
    (h : t.classes.forM declareClass { library := { id, name, dependencies } } = (.ok u, s)) :
    s.Filling W t dependencies t.classes ∧ s.fields = [] ∧ s.library.records = [] := by
  have hempty : Opening W t dependencies { library := { id, name, dependencies } } := by
    refine ⟨⟨exact_empty W _, rfl, nofun, nofun⟩, fun ty i hi => ?_, rfl, rfl⟩
    simp [info?] at hi
  have hs := ((Upholds.forM fun c hc => declareClass_opening hW ht.mem hc) _ _ _ h hempty).1
  refine ⟨⟨hs.toCharting, fun c hc => ?_⟩, hs.fields, hs.records⟩
  obtain ⟨shape, hshape⟩ := forM_declareClass_shaped h hc
  obtain ⟨c', hc', hid, ⟨i, hi, hname⟩, -⟩ := hs.classes _ (mem_of_lookup_eq_some hshape)
  obtain rfl := hW.eq_of_id c' hc' c (ht.mem c hc) hid
  exact ⟨shape.ty, i, hi, hname, hs.blank _ i hi⟩

/-- **Declaring the members of a tree** charts it. -/
theorem Scope.forM_declareMembers_charted {s s' : Scope} (hs : s.Filling W t dependencies t.classes)
    (hfields : s.fields = []) (hrecords : s.library.records = [])
    (h : t.classes.forM declareMembers s = (.ok u, s')) : s'.Charted W t dependencies := by
  obtain ⟨hs', hfields', rs, hrecords', hsound, hcomplete⟩ :=
    forM_declareMembers_filling hW hds ht.mem (ht.names hW) hs h
  rw [hfields, List.append_nil] at hfields'
  rw [hrecords, List.nil_append] at hrecords'
  have hnone : namesOf [] = ∅ := by
    ext name
    simp [namesOf]
  refine ⟨hnone ▸ hs'.toCharting, hfields', fun r hr => ?_, fun c hc => ?_⟩
  · rw [hrecords'] at hr
    exact hsound r hr
  · rw [Library.record?, hrecords', List.find?_isSome]
    obtain ⟨r, hr, hdescribes⟩ := hcomplete c hc
    exact ⟨r, hr, decide_eq_true hdescribes.id⟩

/-- **Declaring a tree** charts it. -/
theorem Scope.declareTree_charted
    (h : declareTree t { library := { id, name, dependencies } } = (.ok u, s)) :
    s.Charted W t dependencies := by
  unfold declareTree at h
  obtain ⟨_, s₁, h₁, h⟩ := bind_ok.mp h
  obtain ⟨_, s₂, h₂, h₃⟩ := bind_ok.mp h
  obtain ⟨hs₁, hfields, hrecords⟩ := forM_declareClass_filling hW ht h₁
  have hs₂ := forM_declareMembers_charted hW hds ht hs₁ hfields hrecords h₂
  exact ((Upholds.forM fun c hc => declareSignatures_charted hW hds hc) _ _ _ h₃ hs₂).1

/-- **An accepted tree is charted.** So are all the scopes that it is emitted in, up to the last
one. -/
theorem lowerTree_charted {report : Report} (hforeign : Library.Foreign id dependencies)
    (h : (lowerTree t { id, name, dependencies } report).2.failed = false) {s₀ : Scope}
    (hdeclare : Scope.declareTree t { library := { id, name, dependencies } } = (.ok u, s₀)) :
    (lowerClasses t.classes s₀ report).1.Charted W t dependencies := by
  obtain ⟨u', s₁, hdeclare', -, hclasses, -⟩ := lowerTree_accepted h
  obtain ⟨-, rfl⟩ := ok_eq_ok.mp (hdeclare.symm.trans hdeclare')
  have h₀ := (Scope.declareTree_declaring _ _ _ hdeclare (Scope.declaring_empty hforeign)).1
  exact (lowerClasses_written h₀ hclasses).reaches.charted hW hds
    (Scope.declareTree_charted hW hds ht hdeclare)

end

/-! ### Compiled libraries -/

/-- A charted scope leaves a charted library. -/
theorem Scope.Charted.library {W : Set ClassDecl} {ds : List Library} (hs : s.Charted W t ds)
    (ht : t.Joins W) :
    ({ s.library with complete := true } : Library).Charted W := by
  refine ⟨hs.types, fun p hp => ?_, fun r hr => ?_⟩
  · obtain ⟨c, hc, hid, hn⟩ := hs.classTypes p hp
    obtain ⟨r, hr⟩ := Option.isSome_iff_exists.mp (hs.recorded c hc)
    refine ⟨c, ht.mem c hc, hid, hn, r, List.mem_of_find?_eq_some hr, ?_⟩
    simpa using List.find?_some hr
  · obtain ⟨c, hc, hdescribes⟩ := hs.records r hr
    exact ⟨c, ht.mem c hc, hdescribes⟩

end Shader
