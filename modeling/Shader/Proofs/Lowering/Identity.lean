import Shader.Proofs.Library.Flattened
import Shader.Proofs.Lowering.Charted
import Mathlib.Tactic.FinCases

/-!
# Classes keep their identities

Lowering tells classes apart by their identities while types are told apart by their names. As long as
no two classes in sight have the same name, the two agree, over all libraries: each class is lowered
to a struct of its own, with the fields that it stores, and a property of it is found under the number
of its member.

A class that is called like one of another library takes its place: `Tree.lowerTree_namesake`.
-/

namespace Shader

open Outcome Registry

/-- **Identities apart.** Besides, no property belongs to two classes, and no class lists one twice. -/
structure IdentitiesApart (W : Set ClassDecl) : Prop extends ClassesApart W where
  eq_of_property : ∀ c ∈ W, ∀ c' ∈ W, ∀ p ∈ c.members.map VariableDecl.id,
    p ∈ c'.members.map VariableDecl.id → c = c'
  properties : ∀ c ∈ W, (c.members.map VariableDecl.id).Nodup

/-- A stored property has one number. -/
theorem IdentitiesApart.eq_of_slots {W : Set ClassDecl} (hW : IdentitiesApart W) {c c' : ClassDecl}
    (hc : c ∈ W) (hc' : c' ∈ W) {p : PropertyId} {k k' : Nat} (h : (p, k) ∈ c.slots)
    (h' : (p, k') ∈ c'.slots) : k = k' := by
  obtain rfl := hW.eq_of_property c hc c' hc' p (ClassDecl.mem_properties_of_mem_slots h)
    (ClassDecl.mem_properties_of_mem_slots h')
  have hnodup : (c.fields.map VariableDecl.id).Nodup :=
    (hW.properties c hc).sublist ((List.filter_sublist).map VariableDecl.id)
  obtain ⟨hk, heq⟩ := List.getElem?_eq_some_iff.mp (List.mem_zipIdx_iff_getElem?.mp h)
  obtain ⟨hk', heq'⟩ := List.getElem?_eq_some_iff.mp (List.mem_zipIdx_iff_getElem?.mp h')
  exact (hnodup.getElem_inj_iff).mp (heq.trans heq'.symm)

/-- Classes of a list are told apart if nothing occurs twice. -/
theorem identitiesApart_of_nodup {cs : List ClassDecl}
    (hclassName : ∀ c ∈ cs, Registry.ClassName c.name) (hnames : (cs.map ClassDecl.name).Nodup)
    (hids : (cs.map ClassDecl.id).Nodup)
    (hproperties : (cs.flatMap fun c => c.members.map VariableDecl.id).Nodup) :
    IdentitiesApart {c | c ∈ cs} where
  className := hclassName
  eq_of_name _ hc _ hc' h := List.inj_on_of_nodup_map hnames hc hc' h
  eq_of_id _ hc _ hc' h := List.inj_on_of_nodup_map hids hc hc' h
  eq_of_property c hc c' hc' p hp hp' := by
    by_contra hne
    have : Std.Symm (Function.onFun List.Disjoint fun c : ClassDecl => c.members.map VariableDecl.id) :=
      ⟨fun _ _ h _ ha hb => h hb ha⟩
    exact (List.nodup_flatMap.mp hproperties).2.forall hc hc' hne hp hp'
  properties := (List.nodup_flatMap.mp hproperties).1

/-! ### Compiled libraries -/

namespace Library

/-- Recording the value of a field keeps its identity and its number. -/
theorem withDefault_keeps {l : Library} {record : ClassRecord} {o : Object} {f f' : FieldRecord}
    (h : Project.withDefault l record o f = .ok f') :
    f'.property = f.property ∧ f'.slot? = f.slot? := by
  unfold Project.withDefault at h
  split at h
  · cases h
    exact ⟨rfl, rfl⟩
  · split at h
    · cases h
      exact ⟨rfl, rfl⟩
    · nomatch h

/-- Recording values of fields keeps what a record says of its class. -/
theorem withDefaults_describes {l : Library} {r r' : ClassRecord}
    (h : Project.withDefaults l r = .ok r') :
    r'.id = r.id ∧ ∀ c, r.Describes c → r'.Describes c := by
  obtain ⟨o, fields, -, hfields, rfl⟩ := withDefaults_ok h
  have hproperties := map_of_mapM (fun _ _ _ hf => (withDefault_keeps hf).1) hfields
  have hslots := map_of_mapM (fun _ _ _ hf => (withDefault_keeps hf).2) hfields
  refine ⟨rfl, fun c hc => ⟨hc.id, hproperties.trans hc.properties, ?_⟩⟩
  calc fields.filterMap FieldRecord.slot?
      = (fields.map FieldRecord.slot?).filterMap fun slot => slot := by rw [List.filterMap_map]; rfl
    _ = (r.fields.map FieldRecord.slot?).filterMap fun slot => slot := by rw [hslots]
    _ = r.fields.filterMap FieldRecord.slot? := by rw [List.filterMap_map]; rfl
    _ = c.slots := hc.slots

variable {W : Set ClassDecl} {l : Library}

/-- **Compiled libraries are charted**, and so is everything within them. -/
theorem CompiledFrom.charted (hW : ClassesApart W) (h : l.CompiledFrom fun t _ _ => t.Joins W) :
    ∀ m : Library, m.Within l → m.Charted W := by
  refine h.within (fun id => ⟨exact_empty W ∅, nofun, nofun⟩)
    (fun hforeign ih ht h => ?_) fun {l l'} h hl => ?_
  · obtain ⟨u, s₀, hdeclare, -, -, hresult⟩ := lowerTree_accepted h
    rw [hresult]
    exact (lowerTree_charted hW ih ht hforeign h hdeclare).library ht
  · obtain ⟨records, hrecords, rfl⟩ := recordDefaults_mapM h
    have hids : records.map ClassRecord.id = l.records.map ClassRecord.id :=
      map_of_mapM (fun _ _ _ hr => (withDefaults_describes hr).1) hrecords
    refine ⟨hl.types, fun p hp => ?_, fun r' hr' => ?_⟩
    · obtain ⟨c, hc, hid, hn, r, hr, hrid⟩ := hl.classTypes p hp
      have hmem : r.id ∈ records.map ClassRecord.id := hids ▸ List.mem_map_of_mem hr
      obtain ⟨r', hr', heq⟩ := List.mem_map.mp hmem
      exact ⟨c, hc, hid, hn, r', hr', heq.trans hrid⟩
    · obtain ⟨r, hr, hok⟩ := exists_of_mem_mapM hrecords r' hr'
      obtain ⟨c, hc, hdescribes⟩ := hl.records r hr
      exact ⟨c, hc, (withDefaults_describes hok).2 c hdescribes⟩

end Library

/-! ### Numbers of fields -/

namespace Scope

variable {W : Set ClassDecl} {t : Tree} {ds : List Library} {s : Scope}

/-- What a dependency says about a property. -/
def recordedIndex? (d : Library) (property : PropertyId) : Option Nat :=
  ((d.records.flatMap ClassRecord.fields).find? (·.property = property)).bind FieldRecord.member

theorem fieldIndex?_eq (s : Scope) (property : PropertyId) :
    s.fieldIndex? property = match s.fields.lookup property with
      | some i => some i
      | none => s.library.dependencies.findSome? fun d => recordedIndex? d property := rfl

variable {k : Nat} {p : PropertyId} {c : ClassDecl} {d : Library}

/-- A number that is recorded is the number of a field. -/
theorem mem_slots_of_recordedIndex? (hd : d.Charted W) (h : recordedIndex? d p = some k) :
    ∃ c ∈ W, (p, k) ∈ c.slots := by
  obtain ⟨f, hfind, hmember⟩ := Option.bind_eq_some_iff.mp h
  obtain ⟨r, hr, hf⟩ := List.mem_flatMap.mp (List.mem_of_find?_eq_some hfind)
  have hproperty : f.property = p := by simpa using List.find?_some hfind
  obtain ⟨c, hc, hdescribes⟩ := hd.records r hr
  refine ⟨c, hc, ?_⟩
  rw [← hdescribes.slots]
  refine List.mem_filterMap.mpr ⟨f, hf, ?_⟩
  rw [FieldRecord.slot?, hmember, hproperty]
  rfl

/-- **The fields of a recorded class are found.** -/
theorem recordedIndex?_of_mem_slots (hW : IdentitiesApart W) (hd : d.Charted W) (hc : c ∈ W)
    (hrecorded : ∃ r ∈ d.records, r.id = c.id) (hp : (p, k) ∈ c.slots) :
    ∃ k', recordedIndex? d p = some k' := by
  have hdescribes : ∀ r ∈ d.records, p ∈ r.fields.map FieldRecord.property → r.Describes c := by
    intro r hr hmem
    obtain ⟨c', hc', hdescribes⟩ := hd.records r hr
    rw [hdescribes.properties] at hmem
    exact (hW.eq_of_property c' hc' c hc p hmem (ClassDecl.mem_properties_of_mem_slots hp)) ▸ hdescribes
  have hslot : ∀ r : ClassRecord, r.Describes c → ∃ f ∈ r.fields, f.property = p ∧ f.member = some k := by
    intro r hr
    rw [← hr.slots] at hp
    obtain ⟨f, hf, hslot⟩ := List.mem_filterMap.mp hp
    obtain ⟨k', hk', heq⟩ := Option.map_eq_some_iff.mp hslot
    cases heq
    exact ⟨f, hf, rfl, hk'⟩
  -- some field has the property, in the record of the class
  obtain ⟨r, hr, hrid⟩ := hrecorded
  obtain ⟨c', hc', hr'⟩ := hd.records r hr
  obtain rfl := hW.eq_of_id c' hc' c hc (hr'.id.symm.trans hrid)
  obtain ⟨f, hf, hproperty, -⟩ := hslot r hr'
  have hsome : ((d.records.flatMap ClassRecord.fields).find? (·.property = p)).isSome = true := by
    rw [List.find?_isSome]
    exact ⟨f, List.mem_flatMap.mpr ⟨r, hr, hf⟩, decide_eq_true hproperty⟩
  -- the first one that has it is a field of that class as well, which lists the property once
  obtain ⟨g, hg⟩ := Option.isSome_iff_exists.mp hsome
  obtain ⟨r₁, hr₁, hg₁⟩ := List.mem_flatMap.mp (List.mem_of_find?_eq_some hg)
  have hgp : g.property = p := by simpa using List.find?_some hg
  have hr₁' := hdescribes r₁ hr₁ (hgp ▸ List.mem_map_of_mem hg₁)
  obtain ⟨f₁, hf₁, hf₁p, hmember⟩ := hslot r₁ hr₁'
  have hnodup : (r₁.fields.map FieldRecord.property).Nodup :=
    hr₁'.properties ▸ hW.properties c' hc'
  obtain rfl := List.inj_on_of_nodup_map hnodup hg₁ hf₁ (hgp.trans hf₁p.symm)
  exact ⟨k, Option.bind_eq_some_iff.mpr ⟨g, hg, hmember⟩⟩

/-- **Every answer is right.** A property that is found is found under the number of its member. -/
theorem Charted.fieldIndex?_sound (hW : IdentitiesApart W) (hs : s.Charted W t ds) (ht : t.Joins W)
    (hds : ∀ d ∈ ds, d.Charted W) (hc : c ∈ W) {k' : Nat} (hp : (p, k) ∈ c.slots)
    (h : s.fieldIndex? p = some k') : k' = k := by
  rw [fieldIndex?_eq] at h
  split at h
  · next i hlookup =>
    cases h
    have hmem := mem_of_lookup_eq_some hlookup
    rw [hs.fields, List.mem_reverse] at hmem
    obtain ⟨c', hc', hp'⟩ := List.mem_flatMap.mp hmem
    exact hW.eq_of_slots (ht.mem c' hc') hc hp' hp
  · obtain ⟨d, hd, hindex⟩ := List.exists_of_findSome?_eq_some h
    rw [hs.dependencies] at hd
    obtain ⟨c', hc', hp'⟩ := mem_slots_of_recordedIndex? (hds d hd) hindex
    exact hW.eq_of_slots hc' hc hp' hp

/-- **The fields of a class of the tree** are found. -/
theorem Charted.fieldIndex?_own (hs : s.Charted W t ds) (hc : c ∈ t.classes) (hp : (p, k) ∈ c.slots)
    : ∃ k', s.fieldIndex? p = some k' := by
  have hmem : (p, k) ∈ s.fields := by
    rw [hs.fields, List.mem_reverse]
    exact List.mem_flatMap.mpr ⟨c, hc, hp⟩
  cases hlookup : s.fields.lookup p with
  | some i => exact ⟨i, by rw [fieldIndex?_eq, hlookup]⟩
  | none =>
    have hnone := List.lookup_eq_none_iff.mp hlookup (p, k) hmem
    simp at hnone

/-- **The fields of a class of a dependency** are found, if it is recorded there. -/
theorem Charted.fieldIndex?_foreign (hW : IdentitiesApart W) (hs : s.Charted W t ds)
    (hds : ∀ d ∈ ds, d.Charted W) (hc : c ∈ W) (hd : d ∈ ds)
    (hrecorded : ∃ r ∈ d.records, r.id = c.id) (hp : (p, k) ∈ c.slots) :
    ∃ k', s.fieldIndex? p = some k' := by
  rw [fieldIndex?_eq]
  cases s.fields.lookup p with
  | some i => exact ⟨i, rfl⟩
  | none =>
    obtain ⟨k', hk'⟩ := recordedIndex?_of_mem_slots hW (hds d hd) hc hrecorded hp
    refine Option.isSome_iff_exists.mp (List.findSome?_isSome_iff.mpr ⟨d, ?_, ?_⟩)
    · rw [hs.dependencies]
      exact hd
    · rw [hk']
      rfl

/-- **Stored properties are found** under the numbers of their members, if the class can be seen and
nothing behind the dependencies is missing among them. -/
theorem Charted.fieldIndex?_of_sees (hW : IdentitiesApart W) (hs : s.Charted W t ds)
    (ht : t.Joins W) (hds : ∀ d ∈ ds, d.Charted W)
    (hclosed : ∀ d ∈ ds, ∀ m : Library, m.Within d → m ∈ ds) (hc : c ∈ W) (hsees : t.Sees ds c)
    {v : VariableDecl} (hv : c.fields[k]? = some v) : s.fieldIndex? v.id = some k := by
  have hp := ClassDecl.mem_slots hv
  obtain ⟨k', hk'⟩ : ∃ k', s.fieldIndex? v.id = some k' := by
    rcases hsees with hown | ⟨d, hd, m, hm, hrecorded⟩
    · exact hs.fieldIndex?_own hown hp
    · exact hs.fieldIndex?_foreign hW hds hc (hclosed d hd m hm) hrecorded hp
  rw [hk', hs.fieldIndex?_sound hW ht hds hc hp hk']

end Scope

/-! ### Lowering a tree -/

/-- **The struct of a class**: it has the name of the class, and the stored fields as its members. -/
def Registry.IsStructOf (W : Set ClassDecl) (r : Registry) (ty : TypeRef) (c : ClassDecl) : Prop :=
  ∃ i, r.info? ty = some i ∧ i.kind = .struct ∧ i.name = c.name ∧ r.Portrays W i c.fields

namespace Tree

/-- The scope in which lowering a tree ends. It has the shapes of all classes that were resolved. -/
def lastScope (t : Tree) (l : Library) (report : Report) : Scope :=
  match Scope.declareTree t { library := l } with
  | (.error _, s) => s
  | (.ok _, s) => (lowerClasses t.classes s report).1

/-- **Classes keep their identities.** Let classes be told apart by their identities, their names and
the identities of their properties, over a tree and all libraries that it is compiled on top of, whose
dependencies have been flattened. If the tree is accepted, then every class that has been resolved, be
it of the tree or of a dependency, has become a struct with its stored fields as members, in their
order, and these are found under the numbers of the members; and two classes have never become the
same struct. -/
theorem lowerTree_identity {W : Set ClassDecl} (hW : IdentitiesApart W) {t : Tree} {id : LibraryId}
    {name : String} {roots dependencies : List Library} {report : Report}
    (hcompiled : ∀ d ∈ roots, d.CompiledFrom fun t _ _ => t.Joins W)
    (hcoherent : Library.CoherentAll roots) (hflatten : Library.flatten roots = .ok dependencies)
    (hfresh : ∀ d ∈ roots, d.findLibrary? id = none) (ht : t.Joins W)
    (h : (lowerTree t { id, name, dependencies } report).2.failed = false) :
    let s := t.lastScope { id, name, dependencies } report
    (lowerTree t { id, name, dependencies } report).1 = { s.library with complete := true } ∧
      (∀ c ∈ t.classes, ∃ shape, s.classes.lookup c.id = some shape) ∧
      (∀ C shape, s.classes.lookup C = some shape → ∃ c ∈ W, c.id = C ∧
        s.library.types.IsStructOf W shape.ty c ∧
        ∀ k v, c.fields[k]? = some v → s.fieldIndex? v.id = some k) ∧
      ∀ C C' shape shape', s.classes.lookup C = some shape → s.classes.lookup C' = some shape' →
        C ≠ C' → shape.ty ≠ shape'.ty := by
  intro s
  have hwithin : ∀ d ∈ dependencies, ∀ m : Library, m.Within d → ∃ root ∈ roots, m.Within root := by
    intro d hd m hm
    obtain ⟨root, hroot, hd⟩ := Library.flatten_within hflatten hd
    exact ⟨root, hroot, hd.trans hm⟩
  have hcharted : ∀ d ∈ dependencies, ∀ m : Library, m.Within d → m.Charted W := by
    intro d hd m hm
    obtain ⟨root, hroot, hm⟩ := hwithin d hd m hm
    exact (hcompiled root hroot).charted hW.toClassesApart m hm
  have hforeign : Library.Foreign id dependencies := by
    intro d hd m hm
    obtain ⟨root, hroot, hm⟩ := hwithin d hd m hm
    exact ⟨hm.id_ne (hfresh root hroot), (hcompiled root hroot).compiled.owned m hm⟩
  obtain ⟨u, s₀, hdeclare, -, hclasses, hresult⟩ := lowerTree_accepted h
  have hlast : s = (lowerClasses t.classes s₀ report).1 := by
    show t.lastScope _ report = _
    rw [lastScope, hdeclare]
  have hs : s.Charted W t dependencies := by
    rw [hlast]
    exact lowerTree_charted hW.toClassesApart hcharted ht hforeign h hdeclare
  have hshapes : s.HasShapes t := by
    have h₀ := (Scope.declareTree_declaring _ _ _ hdeclare (Scope.declaring_empty hforeign)).1
    have hrecorded := Scope.declareTree_recorded hdeclare
    rw [hlast]
    exact ((lowerClasses_written h₀ hclasses).reaches.steady hrecorded.hasShapes).hasShapes
      hrecorded.hasShapes
  refine ⟨hlast ▸ hresult, hshapes, fun C shape hshape => ?_, fun C C' shape shape' hC hC' hne heq => ?_⟩
  · obtain ⟨c, hc, hid, ⟨i, hi, hname⟩, hsees⟩ := hs.classes _ (mem_of_lookup_eq_some hshape)
    have hkind : i.kind = .struct :=
      eq_struct_of_suits (hs.types.suits _ i hi) (hname ▸ hW.className c hc)
    have hwhole := hs.types.whole _ i c hc hi hname (Set.notMem_empty _)
    refine ⟨c, hc, hid, ⟨i, hi, hkind, hname, hwhole⟩, fun k v hv => ?_⟩
    exact hs.fieldIndex?_of_sees hW ht (fun d hd => hcharted d hd d .self)
      (fun d hd m hm => Library.flatten_closed hcoherent hflatten hd hm) hc hsees hv
  · obtain ⟨c, hc, hid, hn, -⟩ := hs.classes _ (mem_of_lookup_eq_some hC)
    obtain ⟨c', hc', hid', hn', -⟩ := hs.classes _ (mem_of_lookup_eq_some hC')
    have hnames : c.name = c'.name := hn.unique (heq ▸ hn')
    obtain rfl := hW.eq_of_name c hc c' hc' hnames
    exact hne (hid.symm.trans hid')

/-! ### Classes of two libraries -/

/-- A panel, and a picture that has one. -/
def gallery : Tree where
  classes :=
    [{ id := ⟨1⟩, name := "Panel",
       members := [{ id := ⟨1⟩, name := "Width", ty := .integer },
                   { id := ⟨2⟩, name := "Height", ty := .integer }] },
     { id := ⟨2⟩, name := "Picture",
       members := [{ id := ⟨3⟩, name := "Tint", ty := .vector .real 3 },
                   { id := ⟨4⟩, name := "Panel", ty := .ofClass ⟨1⟩ }] }]

/-- A class with fields of its own, and a function that has a picture and reads the height of a
panel. -/
def guest (className : String) : Tree where
  classes :=
    [{ id := ⟨3⟩, name := className,
       members := [{ id := ⟨5⟩, name := "Patience", ty := .real },
                   { id := ⟨6⟩, name := "Ticket", ty := .real }],
       functions :=
        [{ id := ⟨1⟩, name := "Run", isStatic := true, result := .integer,
           body :=
            [⟨.localVar ⟨1⟩ "picture" (.ofClass ⟨2⟩) none, .unknown⟩,
             ⟨.localVar ⟨2⟩ "panel" (.ofClass ⟨1⟩) none, .unknown⟩,
             ⟨.ret (some ⟨.member ⟨some ⟨.localVar ⟨2⟩, .ofClass ⟨1⟩, .unknown⟩, "Height",
                .property ⟨2⟩, .read⟩, .integer, .unknown⟩), .unknown⟩] }] }]

/-- The library of the first tree. -/
def galleryLibrary : Library := (lowerTree gallery .blank {}).1

/-- The library that the second tree is lowered into. -/
def guestLibrary : Library :=
  { id := ⟨2⟩, name := "B", dependencies := [Core.library ⟨0⟩, galleryLibrary] }

/-- The classes of both trees. -/
def exhibition : Set ClassDecl := {c | c ∈ gallery.classes ++ (guest "Guest").classes}

theorem identitiesApart_exhibition : IdentitiesApart exhibition := by
  refine identitiesApart_of_nodup (fun c hc => ?_) (by decide) (by decide) (by decide)
  have hnames : c.name ∈ ["Panel", "Picture", "Guest"] := by
    revert c
    simp [gallery, guest]
  generalize c.name = name at hnames
  fin_cases hnames
  · exact className_of_head (c := 'P') (by decide) (by decide)
  · exact className_of_head (c := 'P') (by decide) (by decide)
  · exact className_of_head (c := 'G') (by decide) (by decide)

theorem galleryLibrary_accepted : (lowerTree gallery .blank {}).2.failed = false := by
  decide +kernel

theorem compiledFrom_galleryLibrary :
    galleryLibrary.CompiledFrom fun t _ _ => t.Joins exhibition := by
  unfold galleryLibrary
  refine .lowered (fun d hd => ?_) (Library.fresh_core (by decide))
    ⟨fun c hc => List.mem_append_left _ hc, by decide⟩ galleryLibrary_accepted
  rw [List.mem_singleton.mp hd]
  exact .core ⟨0⟩

/-- A class of another library, which has been copied for the sake of a local variable. -/
theorem lowerTree_identity_guest :
    (lowerTree (guest "Guest") guestLibrary {}).2.failed = false ∧
      ∃ shape, ((guest "Guest").lastScope guestLibrary {}).classes.lookup ⟨1⟩ = some shape ∧
        ∃ c ∈ exhibition, c.id = ⟨1⟩ ∧
          ((guest "Guest").lastScope guestLibrary {}).library.types.IsStructOf exhibition
            shape.ty c ∧
          ∀ k v, c.fields[k]? = some v →
            ((guest "Guest").lastScope guestLibrary {}).fieldIndex? v.id = some k := by
  have haccepted : (lowerTree (guest "Guest") guestLibrary {}).2.failed = false := by
    decide +kernel
  have hresolved : (((guest "Guest").lastScope guestLibrary {}).classes.lookup ⟨1⟩).isSome :=
    by decide +kernel
  have hid : galleryLibrary.id ≠ ⟨0⟩ := by decide +kernel
  have hdependencies : galleryLibrary.dependencies = [Core.library ⟨0⟩] := by
    unfold galleryLibrary
    exact Library.dependencies_of_blank galleryLibrary_accepted
  have hcomplete : galleryLibrary.complete = true := by decide +kernel
  have hfresh : ((Core.library ⟨0⟩).findLibrary? ⟨2⟩).isNone ∧
      (galleryLibrary.findLibrary? ⟨2⟩).isNone := by decide +kernel
  obtain ⟨shape, hshape⟩ := Option.isSome_iff_exists.mp hresolved
  refine ⟨haccepted, shape, hshape, ?_⟩
  unfold guestLibrary at haccepted hshape ⊢
  refine (lowerTree_identity identitiesApart_exhibition (fun d hd => ?_)
    (Library.coherentAll_core hdependencies hid)
    (Library.flatten_core hdependencies hid hcomplete) (fun d hd => ?_)
    ⟨fun c hc => List.mem_append_right _ hc, by decide⟩ haccepted).2.2.1 ⟨1⟩ shape hshape
  · rcases List.mem_pair.mp hd with hd | hd
    · rw [hd]
      exact .core ⟨0⟩
    · rw [hd]
      exact compiledFrom_galleryLibrary
  · rcases List.mem_pair.mp hd with hd | hd
    · rw [hd]
      exact Option.isNone_iff_eq_none.mp hfresh.1
    · rw [hd]
      exact Option.isNone_iff_eq_none.mp hfresh.2

/-- **Two classes of one name.** A class that is called like a class of another library takes its
place: the panel has become the struct of the guest, and its height is found in the ticket. -/
theorem lowerTree_namesake :
    (lowerTree (guest "Panel") guestLibrary {}).2.failed = false ∧
      let s := (guest "Panel").lastScope guestLibrary {}
      (s.classes.lookup ⟨1⟩).map ClassShape.ty = (s.classes.lookup ⟨3⟩).map ClassShape.ty ∧
        ((s.classes.lookup ⟨1⟩).bind fun shape => s.library.types.info? shape.ty).map
          TypeInfo.memberNames = some ["Patience", "Ticket"] ∧
        s.fieldIndex? ⟨2⟩ = some 1 := by
  decide +kernel

end Tree

end Shader
