import Shader.Proofs.Construction.Served

/-!
# Default objects are structural

A default object of a plain class holds what the declarations say, all the way down, if the limit
allows for the pre-constructors that have to run. The values that a project records for the fields
of its classes are the parts of these objects.
-/

namespace Shader

open Outcome Registry

/-! ### Default objects of served classes -/

/-- Initializing an object in a fresh machine. -/
theorem Object.run_eq {l owner : Library} {limit : Nat} {ty : TypeRef} {z : Value}
    (hz : owner.types.zeroValue ty = .ok z) (initializer : Option FunctionRef) :
    (Object.run l limit owner ty initializer {}).1 =
      match initializer with
      | none => .ok z
      | some f =>
        match Machine.call l limit f [.pointer ⟨0, []⟩] { memory := #[z] } with
        | (.ok _, m) => m.read (.pointer ⟨0, []⟩)
        | (.error e, _) => .error e := by
  unfold Object.run
  rw [hz]
  cases initializer with
  | none => rfl
  | some f =>
    change ((do
      let _ ← Machine.call l limit f [.pointer ⟨0, []⟩]
      (← get).read (.pointer ⟨0, []⟩) : RunM Value) { memory := #[z] }).1 = _
    rw [bind_apply]
    dsimp only
    generalize Machine.call l limit f [.pointer ⟨0, []⟩] { memory := #[z] } = result
    rcases result with ⟨e | r, m⟩
    · rfl
    · change ((liftM (m.read (.pointer ⟨0, []⟩)) : RunM Value) m).1 = m.read (.pointer ⟨0, []⟩)
      cases m.read (.pointer ⟨0, []⟩) with
      | error e => rfl
      | ok v => rfl

variable {c : ClassDecl} {r : ClassRecord} {xs : List Value} {w : Tree} {n : Nat} {x : Value}

/-- **A default object is the structural default**, unless the limit is hit. -/
theorem Library.Serves.default {v : Tree} {l : Library} (hl : l.Serves v) (hcoherent : l.Coherent)
    (hc : c ∈ v.classes) (hx : IsDefault v c x n) (limit : Nat) :
    Object.default l limit c.id =
      if n ≤ limit then .ok ⟨c.id, c.name, x⟩
      else .error (.construction c.name (.stepLimit limit)) := by
  obtain ⟨⟨source, ty⟩, htype⟩ := Option.isSome_iff_exists.mp (hl.classType c hc)
  obtain ⟨hwithin, c', hc', hid, hnamed⟩ := hl.named htype
  obtain rfl := hl.plain.apart.eq_of_id c' hc' c hc hid
  obtain ⟨r, hr, hname, hdefault, hprepared, hfills⟩ := hl.record c' hc
  obtain ⟨z, hz, hzero⟩ := (hl.charted source hwithin).types.exists_zero hl.plain
    (hl.closed source hwithin) hc hnamed
  have hrun : (Object.run l limit source ty r.preConstructor {}).1 =
      if n ≤ limit then .ok x else .error (.stepLimit limit) := by
    rw [Object.run_eq hz]
    cases hpre : r.preConstructor with
    | none =>
      -- there is nothing to run, since the default is the zero value
      have hnone : c'.isPrepared = false := by
        rw [← hprepared, hpre]
        rfl
      obtain ⟨rfl, rfl⟩ := hl.plain.default_of_not_prepared hc hnone hzero hx
      rw [if_pos (Nat.zero_le limit)]
    | some f =>
      have hread : Memory.read? #[z] ⟨0, []⟩ = some z := by simp [Memory.read?, Value.get?]
      have hspends := hfills f hpre l v hcoherent.carries hl.plain (fun _ hc => hc)
        (M := { memory := #[z] }) (Nat.zero_le limit) hzero hx hread
      have hsize : (({ memory := #[z] } : Machine).executed).size + n = n := Nat.zero_add n
      dsimp only
      by_cases hn : n ≤ limit
      · obtain ⟨_, m, hcall, -, hmemory⟩ := hspends.ok (by omega)
        have hvalue : m.read (.pointer ⟨0, []⟩) = .ok x := by
          unfold Machine.read
          dsimp only
          rw [hmemory, Memory.read?_write hread]
        rw [hcall, if_pos hn]
        exact hvalue
      · obtain ⟨m, hcall⟩ := hspends.stops (by omega)
        rw [hcall, if_neg hn]
  rw [Object.default, hr, htype]
  dsimp only
  rw [hdefault, Option.none_or]
  generalize Object.run l limit source ty r.preConstructor {} = result at hrun ⊢
  obtain ⟨result, m⟩ := result
  dsimp only at hrun
  rw [hrun, hname]
  by_cases hn : n ≤ limit
  · rw [if_pos hn, if_pos hn]
  · rw [if_neg hn, if_neg hn]

/-! ### Recording defaults -/

/-- The record of a plain class numbers all its fields. -/
theorem ClassRecord.Describes.map_slot? (h : r.Describes c) (hc : c.fields = c.members) :
    r.fields.map FieldRecord.slot? = c.slots.map some := by
  have hlength : (r.fields.filterMap FieldRecord.slot?).length = r.fields.length := by
    rw [h.slots, ClassDecl.slots, List.length_zipIdx, hc, ← h.properties, List.length_map]
  have hsome := List.filterMap_length_eq_length.mp hlength
  rw [← h.slots]
  generalize r.fields = fs at hsome
  induction fs with
  | nil => rfl
  | cons f fs ih =>
    obtain ⟨hf, hfs⟩ := List.forall_mem_cons.mp hsome
    obtain ⟨p, hp⟩ := Option.isSome_iff_exists.mp hf
    rw [List.map_cons, List.filterMap_cons, hp, ih hfs]
    rfl

/-- The record of a plain class numbers its fields one by one, and finds each of them by its
property. -/
theorem ClassRecord.Describes.find?_property (h : r.Describes c) (hc : c.fields = c.members)
    (hnodup : (c.members.map VariableDecl.id).Nodup) {k : Nat} {f : FieldRecord}
    (hf : r.fields[k]? = some f) :
    f.member = some k ∧ r.fields.find? (·.property = f.property) = some f := by
  have hslot : (r.fields.map FieldRecord.slot?)[k]? = some f.slot? := by
    rw [List.getElem?_map, hf]
    rfl
  rw [h.map_slot? hc, List.getElem?_map] at hslot
  obtain ⟨⟨p, k'⟩, hslots, hslot⟩ := Option.map_eq_some_iff.mp hslot
  obtain ⟨m, hm, heq⟩ := Option.map_eq_some_iff.mp hslot.symm
  obtain ⟨-, rfl⟩ := Prod.mk.inj heq
  have hk : k = m := by
    rw [ClassDecl.slots, List.getElem?_zipIdx] at hslots
    obtain ⟨_, -, heq⟩ := Option.map_eq_some_iff.mp hslots
    rw [← (Prod.mk.inj heq).2, Nat.zero_add]
  -- there is only one field of this property
  refine ⟨hk ▸ hm, (find?_key_eq_some _ fun g hg g' hg' => ?_).mpr ⟨List.mem_of_getElem? hf, rfl⟩⟩
  exact List.inj_on_of_nodup_map (h.properties ▸ hnodup) hg hg'

theorem AreDefaults.length_eq {vs : List VariableDecl} (h : AreDefaults w vs xs n) :
    xs.length = vs.length := by
  induction vs generalizing xs n with
  | nil =>
    cases h
    rfl
  | cons v vs ih =>
    cases h with
    | literal _ _ h => rw [List.length_cons, List.length_cons, ih h]
    | builtin _ _ h => rw [List.length_cons, List.length_cons, ih h]
    | object _ _ _ _ h => rw [List.length_cons, List.length_cons, ih h]

theorem IsDefault.exists_composite (h : IsDefault w c x n) :
    ∃ xs, x = .composite xs := by
  obtain ⟨h⟩ := h
  exact ⟨_, rfl⟩

namespace Library

variable {l l' : Library} {v : Tree} {c : ClassDecl}

/-- **The properties of an object** of a plain class are its parts. -/
theorem Serves.property (hl : l.Serves v) (hc : c ∈ v.classes)
    (hnodup : (c.members.map VariableDecl.id).Nodup) (className : String) (hr : r.Describes c)
    {k : Nat} {f : FieldRecord} (hf : r.fields[k]? = some f) (hx : xs[k]? = some x) :
    f.member = some k ∧ Object.property l ⟨c.id, className, .composite xs⟩ f.property = .ok x := by
  have hfields := (hl.plain.classes c hc).fields_eq
  refine ⟨(hr.find?_property hfields hnodup hf).1, ?_⟩
  -- the property is looked up in the record that is found, which lists it at the same place
  obtain ⟨r₀, hr₀, -⟩ := hl.record c hc
  obtain ⟨c', hc', hid, hdescribes⟩ := hl.describes hr₀
  obtain rfl := hl.plain.apart.eq_of_id c' hc' c hc hid
  have hproperty : (r₀.fields.map FieldRecord.property)[k]? = some f.property := by
    rw [hdescribes.properties, ← hr.properties, List.getElem?_map, hf]
    rfl
  rw [List.getElem?_map] at hproperty
  obtain ⟨g, hg, hgf⟩ := Option.map_eq_some_iff.mp hproperty
  obtain ⟨hmember, hfind⟩ := hdescribes.find?_property hfields hnodup hg
  rw [hgf] at hfind
  have hlookup : (do
      let record ← l.findRecord? c'.id
      let field ← record.fields.find? (·.property = f.property)
      field.member) = some k := by
    rw [hr₀, Option.bind_eq_bind, Option.bind_some, hfind, Option.bind_eq_bind, Option.bind_some,
      hmember]
  rw [Object.property]
  dsimp only
  rw [hlookup]
  dsimp only
  rw [hx]

/-- **What is recorded of a class** are the parts of its default object, if the limit allows for it.
-/
theorem Serves.withDefaults (hl : l.Serves v) (hcoherent : l.Coherent) (hc : c ∈ v.classes)
    (hnodup : (c.members.map VariableDecl.id).Nodup) (hx : IsDefault v c (.composite xs) n)
    (hr : r.Describes c) :
    if n ≤ Machine.defaultLimit then
      ∃ r', Project.withDefaults l r = .ok r' ∧ r'.fields.map FieldRecord.initial = xs.map some
    else ∃ e, Project.withDefaults l r = .error e := by
  have hobject := hl.default hcoherent hc hx Machine.defaultLimit
  have hlength : r.fields.length = xs.length := by
    obtain ⟨hxs⟩ := hx
    rw [hxs.length_eq, ← List.length_map VariableDecl.id, ← hr.properties, List.length_map]
  unfold Project.withDefaults
  rw [hr.id, hobject]
  by_cases hn : n ≤ Machine.defaultLimit
  · rw [if_pos hn, if_pos hn]
    dsimp only
    -- every field takes the part with its number
    have hfield : ∀ f ∈ r.fields, ∃ x, f.member.bind (xs[·]?) = some x ∧
        Project.withDefault l r ⟨c.id, c.name, .composite xs⟩ f =
          .ok { f with initial := some x } := by
      intro f hf
      obtain ⟨k, hk⟩ := List.getElem?_of_mem hf
      have hlt : k < xs.length := hlength ▸ (List.getElem?_eq_some_iff.mp hk).1
      obtain ⟨hmember, hproperty⟩ := hl.property hc hnodup c.name hr hk
        (List.getElem?_eq_getElem hlt)
      refine ⟨xs[k], ?_, ?_⟩
      · rw [hmember, Option.bind_some, List.getElem?_eq_getElem hlt]
      · unfold Project.withDefault
        rw [hmember]
        dsimp only
        rw [hproperty, ← hmember]
    rcases mapM_cases (Project.withDefault l r ⟨c.id, c.name, .composite xs⟩) r.fields with
      ⟨fields, hfields⟩ | ⟨f, hf, e, he, -⟩
    · refine ⟨{ r with fields }, by rw [hfields, ← hr.id]; rfl, ?_⟩
      have hinitial : fields.map FieldRecord.initial =
          r.fields.map fun f => f.member.bind (xs[·]?) := by
        refine map_of_mapM (fun f hf f' hf' => ?_) hfields
        obtain ⟨x, hx, hok⟩ := hfield f hf
        cases hok.symm.trans hf'
        exact hx.symm
      refine hinitial.trans (List.ext_getElem? fun k => ?_)
      rw [List.getElem?_map, List.getElem?_map]
      cases hk : r.fields[k]? with
      | none =>
        have hge : xs.length ≤ k := hlength ▸ List.getElem?_eq_none_iff.mp hk
        rw [List.getElem?_eq_none hge]
        rfl
      | some f =>
        have hmember := (hr.find?_property (hl.plain.classes c hc).fields_eq hnodup hk).1
        have hlt : k < xs.length := hlength ▸ (List.getElem?_eq_some_iff.mp hk).1
        rw [Option.map_some, hmember, Option.bind_some, List.getElem?_eq_getElem hlt]
        rfl
    · obtain ⟨x, -, hok⟩ := hfield f hf
      nomatch hok.symm.trans he
  · rw [if_neg hn, if_neg hn]
    exact ⟨_, rfl⟩

/-- A record is found in its new form. -/
theorem record?_recorded (h : Project.recordDefaults l = .ok l') (id : ClassId) :
    Option.Rel (fun r r' => Project.withDefaults l r = .ok r') (l.record? id) (l'.record? id) := by
  obtain ⟨records, hrecords, rfl⟩ := recordDefaults_mapM h
  refine find?_rel (mapM_ok hrecords) fun r r' hr => ?_
  rw [(withDefaults_describes hr).1]

/-- **Recorded libraries** serve the same classes. -/
theorem Serves.recorded (hl : l.Serves v) (h : Project.recordDefaults l = .ok l') :
    l'.Serves v := by
  have hcompiled : l'.CompiledFrom fun t _ _ => t.Joins v.world := .recorded hl.compiled h
  have hrecord := record?_recorded h
  obtain ⟨records, -, rfl⟩ := recordDefaults_mapM h
  -- the code is the same
  have hcarries : ∀ {root : Library}, root.Carries { l with records } → root.Carries l := by
    intro root hroot m hm
    cases hm with
    | self => exact hroot { l with records } .self
    | dependency hd hm => exact hroot m (.dependency hd hm)
  refine ⟨hl.plain, hcompiled, fun m hm => ?_, fun c hc => ?_, fun c hc => ?_⟩
  · cases hm with
    | self => exact hl.closed l .self
    | dependency hd hm => exact hl.closed m (.dependency hd hm)
  · obtain ⟨⟨source, ty⟩, htype⟩ := Option.isSome_iff_exists.mp (hl.classType c hc)
    have hsame : Library.classType? { l with records } c.id = l.classType? c.id := rfl
    cases hown : l.classType? c.id with
    | none =>
      rw [findClassType?, search?_of_none (by rw [hown]; rfl)] at htype
      rw [findClassType?, search?_of_none (by rw [hsame, hown]; rfl), htype]
      rfl
    | some ty' =>
      rw [findClassType?, search?_of_own (by rw [hsame, hown]; rfl)]
      rfl
  · obtain ⟨r, hr, hname, hdefault, hprepared, hfills⟩ := hl.record c hc
    have hfills' : ∀ f, r.preConstructor = some f → Fills v { l with records } c f :=
      fun f hf root w hroot => hfills f hf root w (hcarries hroot)
    have hid := hrecord c.id
    cases hown : l.record? c.id with
    | none =>
      rw [hown] at hid
      generalize hown' : Library.record? { l with records } c.id = own' at hid
      cases hid
      refine ⟨r, ?_, hname, hdefault, hprepared, hfills'⟩
      rw [findRecord?, search?_of_none hown] at hr
      rw [findRecord?, search?_of_none hown']
      exact hr
    | some r₁ =>
      obtain rfl : r₁ = r := Option.some.inj ((search?_of_own hown).symm.trans hr)
      rw [hown] at hid
      generalize hown' : Library.record? { l with records } c.id = own' at hid
      cases hid with
      | some hr' =>
        obtain ⟨o, fields, -, -, rfl⟩ := withDefaults_ok hr'
        exact ⟨_, search?_of_own hown', hname, hdefault, hprepared, hfills'⟩

/-! ### Libraries of plain trees -/

/-- **The libraries of plain trees**, with the classes that are in sight there. -/
def PlainFrom : Tree → Library → Prop :=
  CompiledWith {} fun t ds visible _ v =>
    t.PlainOver (sight visible ds) ∧ v = t.merge (sight visible ds)

theorem serves_core (id : LibraryId) : (Core.library id).Serves {} := by
  have hplain : Tree.Plain {} := by
    refine ⟨nofun, ⟨nofun, nofun, nofun⟩, fun c h => ?_⟩
    obtain ⟨_, hc, -⟩ := Relation.TransGen.head'_iff.mp h
    nomatch hc.1
  refine ⟨hplain, .core id, fun m hm => ?_, nofun, nofun⟩
  rw [hm.eq_core]
  exact closed_empty

/-- **Libraries of plain trees serve** the classes in sight. -/
theorem PlainFrom.serves (h : PlainFrom v l) : l.Serves v := by
  induction h with
  | core id => exact serves_core id
  | @lowered t visible v id name dependencies report _ hfresh ht h ih =>
    obtain ⟨ht, rfl⟩ := ht
    obtain ⟨l, pre, hlower, -, -, -, -, hserves⟩ := lowerTree_serves name ih hfresh ht
    rw [hlower report (failed_of_accepted h)]
    exact hserves
  | recorded _ h ih => exact ih.recorded h

end Library

/-! ### Default objects -/

/-- The properties of a class of a tree are told apart. -/
theorem Tree.Distinct.properties {t : Tree} (h : t.Distinct) (hc : c ∈ t.classes) :
    (c.members.map VariableDecl.id).Nodup := by
  obtain ⟨before, behind, hclasses⟩ := List.append_of_mem hc
  have hsublist : (c.members.map Item.memberVariable).Sublist t.items := by
    rw [Tree.items, hclasses, List.flatMap_append, List.flatMap_cons]
    exact ((List.sublist_append_right _ _).trans (List.sublist_append_left _ _)).trans
      (List.sublist_append_right _ _)
  have hnodup := h.sublist (hsublist.map Item.symbol)
  have hsymbols : (c.members.map Item.memberVariable).map Item.symbol =
      (c.members.map VariableDecl.id).map Symbol.property := by
    rw [List.map_map, List.map_map]
    rfl
  rw [hsymbols] at hnodup
  exact hnodup.of_map Symbol.property

/-- **Values are recorded** for the fields of all classes of a tree, unless the limit is hit for one
of them. -/
theorem Library.Offers.recordDefaults {t foreign : Tree} {pre : ClassDecl → Option FunctionRef}
    {l : Library} (hl : l.Offers t foreign pre) (hserves : l.Serves (t.merge foreign))
    (hcoherent : l.Coherent) (ht : t.PlainOver foreign) :
    ((∃ l', Project.recordDefaults l = .ok l') ↔
      ∀ c ∈ t.classes, ∃ x n, IsDefault (t.merge foreign) c x n ∧ n ≤ Machine.defaultLimit) ∧
    ∀ l', Project.recordDefaults l = .ok l' → ∀ c ∈ t.classes,
      ∃ r xs n, l'.record? c.id = some r ∧ IsDefault (t.merge foreign) c (.composite xs) n ∧
        r.fields.map FieldRecord.property = c.members.map VariableDecl.id ∧
        r.fields.map FieldRecord.initial = xs.map some := by
  -- what a record of the library says, it says of a class of the tree
  have hrecord : ∀ r ∈ l.records, ∃ c ∈ t.classes, r.Describes c := by
    intro r hr
    obtain ⟨c, hc, hid, -⟩ := hl.records r hr
    obtain ⟨c', hc', hdescribes⟩ := (hserves.charted l .self).records r hr
    obtain rfl := ht.world.apart.eq_of_id c' hc' c (Tree.mem_merge_left hc)
      (hdescribes.id.symm.trans hid.symm)
    exact ⟨c', hc, hdescribes⟩
  have hwith : ∀ {c xs n r}, c ∈ t.classes → IsDefault (t.merge foreign) c (.composite xs) n →
      r.Describes c → if n ≤ Machine.defaultLimit then
        ∃ r', Project.withDefaults l r = .ok r' ∧ r'.fields.map FieldRecord.initial = xs.map some
      else ∃ e, Project.withDefaults l r = .error e := fun hc hx hr =>
    hserves.withDefaults hcoherent (Tree.mem_merge_left hc) (ht.distinct.properties hc) hx hr
  have hrecorded : ∀ l', Project.recordDefaults l = .ok l' → ∀ c ∈ t.classes,
      ∃ r xs n, l'.record? c.id = some r ∧ IsDefault (t.merge foreign) c (.composite xs) n ∧
        n ≤ Machine.defaultLimit ∧
        r.fields.map FieldRecord.property = c.members.map VariableDecl.id ∧
        r.fields.map FieldRecord.initial = xs.map some := by
    intro l' h c hc
    obtain ⟨r, hr, -⟩ := hl.record c hc
    obtain ⟨x, n, hx⟩ := ht.world.exists_default c (Tree.mem_merge_left hc)
    obtain ⟨c', hc', hdescribes⟩ := hrecord r (List.mem_of_find?_eq_some hr)
    have hid : r.id = c.id := by simpa using List.find?_some hr
    obtain rfl := ht.eq_of_id hc' hc (hdescribes.id.symm.trans hid)
    have hrel := Library.record?_recorded h c'.id
    rw [hr] at hrel
    generalize hr' : l'.record? c'.id = found at hrel
    cases hrel with
    | @some _ r' hok =>
      obtain ⟨xs, rfl⟩ := hx.exists_composite
      have hcases := hwith hc hx hdescribes
      by_cases hn : n ≤ Machine.defaultLimit
      · rw [if_pos hn] at hcases
        obtain ⟨r'', hok', hinitial⟩ := hcases
        cases hok.symm.trans hok'
        exact ⟨r', xs, n, rfl, hx, hn,
          ((Library.withDefaults_describes hok).2 c' hdescribes).properties, hinitial⟩
      · rw [if_neg hn] at hcases
        obtain ⟨e, he⟩ := hcases
        nomatch hok.symm.trans he
  refine ⟨⟨fun ⟨l', h⟩ c hc => ?_, fun hlimit => ?_⟩, fun l' h c hc => ?_⟩
  · obtain ⟨-, _, n, -, hx, hn, -⟩ := hrecorded l' h c hc
    exact ⟨_, n, hx, hn⟩
  · rcases mapM_cases (Project.withDefaults l) l.records with
      ⟨records, hrecords⟩ | ⟨r, hr, e, he, -⟩
    · exact ⟨{ l with records }, by rw [Project.recordDefaults, hrecords]; rfl⟩
    · -- a record that fails needs more than the limit
      obtain ⟨c, hc, hdescribes⟩ := hrecord r hr
      obtain ⟨x, n, hx, hn⟩ := hlimit c hc
      obtain ⟨xs, rfl⟩ := hx.exists_composite
      have hcases := hwith hc hx hdescribes
      rw [if_pos hn] at hcases
      obtain ⟨r', hok, -⟩ := hcases
      nomatch hok.symm.trans he
  · obtain ⟨r, xs, n, hr, hx, -, hproperties, hinitial⟩ := hrecorded l' h c hc
    exact ⟨r, xs, n, hr, hx, hproperties, hinitial⟩

namespace Tree

/-- **Default objects are structural.** Let a plain tree be lowered on top of libraries of plain
trees. It is accepted, and every class in sight has a default object, which holds in the order of
the members the value of the literal, the zero value of the type, or the default object of the class
of the member. Making it fails only by hitting the limit, which happens when fewer pre-constructors
may run than it takes. A project with this tree is built, unless a class of it takes more than the
limit for builds, and then the values that are recorded of its classes are the parts of these
objects. -/
theorem lowerTree_default {t : Tree} {visible : Library → Tree} {id : LibraryId} {name : String}
    {dependencies : List Library} {report : Report}
    (hdependencies : ∀ d ∈ dependencies, Library.PlainFrom (visible d) d)
    (hcoherent : Library.CoherentAll dependencies)
    (hfresh : ∀ d ∈ dependencies, d.findLibrary? id = none)
    (ht : t.PlainOver (Library.sight visible dependencies)) (hreport : report.failed = false) :
    let w := t.merge (Library.sight visible dependencies)
    let l := (lowerTree t { id, name, dependencies } report).1
    (lowerTree t { id, name, dependencies } report).2 = report ∧ l.complete = true ∧
      (∀ c ∈ w.classes, ∃ xs n, IsDefault w c (.composite xs) n ∧ ∀ limit,
        Object.default l limit c.id =
          if n ≤ limit then .ok ⟨c.id, c.name, .composite xs⟩
          else .error (.construction c.name (.stepLimit limit))) ∧
      ∀ (p : Project) roots, p.name = name → Library.flatten roots = .ok dependencies →
        Project.readSources {} p.sources = .ok t →
        ((∃ l', (p.build roots id.number).result = .ok l') ↔
          ∀ c ∈ t.classes, ∃ x n, IsDefault w c x n ∧ n ≤ Machine.defaultLimit) ∧
        ∀ l', (p.build roots id.number).result = .ok l' → ∀ c ∈ t.classes,
          ∃ r xs n, l'.record? c.id = some r ∧ IsDefault w c (.composite xs) n ∧
            r.fields.map FieldRecord.property = c.members.map VariableDecl.id ∧
            r.fields.map FieldRecord.initial = xs.map some := by
  intro w l
  have hserves : ∀ d ∈ dependencies, d.Serves (visible d) := fun d hd => (hdependencies d hd).serves
  obtain ⟨l₀, pre, hlower, hcomplete, hid, hds, hoffers, hl⟩ :=
    Library.lowerTree_serves name hserves hfresh ht
  have heq : l = l₀ := congrArg Prod.fst (hlower report hreport)
  have hl₀ : l₀.Coherent :=
    Library.coherent_of_fresh (hds ▸ hcoherent) (by rw [hds, hid]; exact hfresh)
  refine ⟨congrArg Prod.snd (hlower report hreport), heq ▸ hcomplete, fun c hc => ?_,
    fun p roots hname hflatten hsources => ?_⟩
  · obtain ⟨x, n, hx⟩ := ht.world.exists_default c hc
    obtain ⟨xs, rfl⟩ := hx.exists_composite
    refine ⟨xs, n, hx, fun limit => ?_⟩
    rw [heq]
    exact hl.default hl₀ hc hx limit
  · have hbuild : (p.build roots id.number).result = Project.recordDefaults l₀ := by
      unfold Project.build
      rw [hflatten, hsources]
      dsimp only
      rw [hname, hlower p.report.clear rfl]
      dsimp only
      rw [if_pos hcomplete]
    rw [hbuild]
    exact hoffers.recordDefaults hl hl₀ ht

/-! ### Desks with lamps -/

/-- A lamp, which declares a pre-constructor. -/
def lamp : ClassDecl where
  id := ⟨1⟩
  name := "Lamp"
  preConstructor := some ⟨1⟩
  members :=
    [{ id := ⟨1⟩, name := "Power", ty := .integer,
       initial := some ⟨.literal (.int 3), .integer, .unknown⟩ },
     { id := ⟨2⟩, name := "Color", ty := .vector .real 3 }]

/-- A desk with two lamps. -/
def desk : ClassDecl where
  id := ⟨2⟩
  name := "Desk"
  members :=
    [{ id := ⟨3⟩, name := "Height", ty := .integer },
     { id := ⟨4⟩, name := "Left", ty := .ofClass ⟨1⟩ },
     { id := ⟨5⟩, name := "Right", ty := .ofClass ⟨1⟩ }]

theorem lamp_plain : lamp.Plain w where
  constructors := rfl
  functions := rfl
  stored := by decide
  names := by decide
  members := by
    intro v hv
    rcases List.mem_pair.mp hv with rfl | rfl
    · exact .literal (l := .int 3) rfl rfl
    · exact .builtin (by decide) rfl
  count := by decide

theorem desk_plain (hw : lamp ∈ w.classes) : desk.Plain w where
  constructors := rfl
  functions := rfl
  stored := by decide
  names := by decide
  members := by
    intro v hv
    simp only [desk, List.mem_cons, List.not_mem_nil, or_false] at hv
    rcases hv with rfl | rfl | rfl
    · exact .builtin (by decide) rfl
    · exact .object hw rfl rfl
    · exact .object hw rfl rfl
  count := by decide

/-- Classes that store only classes of smaller numbers are plain. -/
theorem plain_of_numbers (hclasses : ∀ c ∈ w.classes, c.Plain w)
    (hnames : ∀ c ∈ w.classes, Registry.ClassName c.name)
    (hname : (w.classes.map ClassDecl.name).Nodup) (hid : (w.classes.map ClassDecl.id).Nodup)
    (hstores : ∀ c ∈ w.classes, ∀ v ∈ c.members, ∀ c' ∈ w.classes, v.ty = .ofClass c'.id →
      c'.id.number < c.id.number) : w.Plain where
  classes := hclasses
  apart := ⟨hnames, fun _ hc _ hc' h => List.inj_on_of_nodup_map hname hc hc' h,
    fun _ hc _ hc' h => List.inj_on_of_nodup_map hid hc hc' h⟩
  acyclic c h := by
    have hlt : ∀ {a b}, Relation.TransGen w.Stores a b → b.id.number < a.id.number := by
      intro a b h
      induction h with
      | single h =>
        obtain ⟨ha, hb, v, hv, -, hty⟩ := h
        exact hstores _ ha v hv _ hb hty
      | tail _ h ih =>
        obtain ⟨hb, hc, v, hv, -, hty⟩ := h
        exact (hstores _ hb v hv _ hc hty).trans ih
    exact Nat.lt_irrefl _ (hlt h)

theorem plain_lamp : Tree.Plain ⟨[lamp]⟩ := by
  refine plain_of_numbers (fun c hc => ?_) (fun c hc => ?_) (by decide) (by decide) (by decide)
  · rw [List.mem_singleton.mp hc]
    exact lamp_plain
  · rw [List.mem_singleton.mp hc]
    exact className_of_head (c := 'L') (by decide) (by decide)

theorem plain_desk : Tree.Plain ⟨[desk, lamp]⟩ := by
  refine plain_of_numbers (fun c hc => ?_) (fun c hc => ?_) (by decide) (by decide) (by decide)
  · rcases List.mem_pair.mp hc with rfl | rfl
    · exact desk_plain (by simp)
    · exact lamp_plain
  · rcases List.mem_pair.mp hc with rfl | rfl
    · exact className_of_head (c := 'D') (by decide) (by decide)
    · exact className_of_head (c := 'L') (by decide) (by decide)

/-- The library of the lamps. -/
def lampLibrary : Library := (lowerTree ⟨[lamp]⟩ .blank {}).1

theorem lampLibrary_accepted : (lowerTree ⟨[lamp]⟩ .blank {}).2.failed = false := by
  decide +kernel

theorem plainFrom_lampLibrary : Library.PlainFrom ⟨[lamp]⟩ lampLibrary := by
  have hplain : Tree.PlainOver ⟨[lamp]⟩ (Library.sight (fun _ => {}) [Core.library ⟨0⟩]) := by
    refine ⟨plain_lamp, by decide, nofun, ?_⟩
    unfold Distinct
    decide
  have hcore : ∀ d ∈ [Core.library ⟨0⟩], Library.PlainFrom {} d := by
    simpa using .core ⟨0⟩
  unfold lampLibrary
  exact .lowered hcore (Library.fresh_core (by decide)) ⟨hplain, rfl⟩ lampLibrary_accepted

/-- A desk has two lamps from another library. -/
theorem lowerTree_default_desk :
    let empty := { id := ⟨2⟩, name := "B", dependencies := [Core.library ⟨0⟩, lampLibrary] }
    (lowerTree ⟨[desk]⟩ empty {}).1.complete = true ∧
      ∃ xs n, IsDefault ⟨[desk, lamp]⟩ desk (.composite xs) n ∧ ∀ limit,
        Object.default (lowerTree ⟨[desk]⟩ empty {}).1 limit ⟨2⟩ =
          if n ≤ limit then .ok ⟨⟨2⟩, "Desk", .composite xs⟩
          else .error (.construction "Desk" (.stepLimit limit)) := by
  have hid : lampLibrary.id = ⟨1⟩ := by decide +kernel
  have hdependencies : lampLibrary.dependencies = [Core.library ⟨0⟩] := by
    unfold lampLibrary
    exact Library.dependencies_of_blank lampLibrary_accepted
  have hlamp := plainFrom_lampLibrary
  have hfresh : (lampLibrary.findLibrary? ⟨2⟩).isNone := by decide +kernel
  generalize lampLibrary = m at *
  have hsight : ∀ d ∈ [Core.library ⟨0⟩, m],
      Library.PlainFrom (if d.id = ⟨0⟩ then {} else ⟨[lamp]⟩) d := by
    intro d hd
    rcases List.mem_pair.mp hd with rfl | rfl
    · exact .core ⟨0⟩
    · rw [hid]
      exact hlamp
  have hworld : Library.sight (fun d => if d.id = ⟨0⟩ then {} else ⟨[lamp]⟩) [Core.library ⟨0⟩, m] =
      ⟨[lamp]⟩ := by
    simp [Library.sight, hid, Core.library]
  have hplain : Tree.PlainOver ⟨[desk]⟩ ⟨[lamp]⟩ := by
    refine ⟨plain_desk, by decide, fun c hc hc' => ?_, ?_⟩
    · rw [List.mem_singleton.mp hc] at hc'
      exact absurd (congrArg ClassDecl.id (List.mem_singleton.mp hc')) (by decide)
    · unfold Distinct
      decide
  have hnew : ∀ d ∈ [Core.library ⟨0⟩, m], d.findLibrary? ⟨2⟩ = none := by
    intro d hd
    rcases List.mem_pair.mp hd with rfl | rfl
    · decide
    · exact Option.isNone_iff_eq_none.mp hfresh
  obtain ⟨-, hcomplete, hdefault, -⟩ := @lowerTree_default ⟨[desk]⟩ _ ⟨2⟩ "B" _ {} hsight
    (Library.coherentAll_core hdependencies (by rw [hid]; decide)) hnew
    (by rw [hworld]; exact hplain) rfl
  rw [hworld] at hdefault
  exact ⟨hcomplete, hdefault desk List.mem_cons_self⟩

end Tree

end Shader
