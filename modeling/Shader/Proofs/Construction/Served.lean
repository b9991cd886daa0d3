import Shader.Proofs.Construction.Filled
import Shader.Proofs.Lowering.Identity

/-!
# Libraries of plain classes

A plain tree is accepted, and the library that it becomes knows all classes in sight: those of the
tree by itself, and the others through its dependencies. For each of them there is a type, a record,
and a function that fills objects, if there is something to fill.
-/

namespace Shader

open Outcome Registry

/-! ### What a plain tree becomes -/

/-- **What a library offers** that a plain tree has become: a type and a record for every class of
the tree, and code that prepares the objects. -/
structure Library.Offers (t foreign : Tree) (pre : ClassDecl → Option FunctionRef) (l : Library) :
    Prop where
  closed : l.types.Closed
  classType : ∀ c ∈ t.classes, (l.classType? c.id).isSome = true
  record : ∀ c ∈ t.classes, ∃ r, l.record? c.id = some r ∧ r.name = c.name ∧
    r.defaultConstructor = none ∧ r.preConstructor = pre c
  classTypes : ∀ p ∈ l.classTypes, ∃ c ∈ t.classes, c.id = p.1
  records : ∀ r ∈ l.records, ∃ c ∈ t.classes, c.id = r.id ∧ r.name = c.name
  prepared : ∀ c ∈ t.classes, (pre c).isSome = c.isPrepared
  code : ∀ c ∈ t.classes, ∀ f, pre c = some f → f.library = l.id ∧ ∃ head pointer ops n,
    l.routine? f = some (Emit.prepared head pointer ops n) ∧
    Prepares (t.merge foreign) pre l.constants c.members.zipIdx ops

section Offers

variable {t foreign : Tree} {pre : ClassDecl → Option FunctionRef} {l : Library} {id : ClassId}

theorem Library.Offers.noRecord (hl : l.Offers t foreign pre) (hid : ∀ c ∈ t.classes, c.id ≠ id) :
    l.record? id = none := by
  refine List.find?_eq_none.mpr fun r hr => ?_
  obtain ⟨c, hc, heq, -⟩ := hl.records r hr
  simpa using fun h => hid c hc (heq.trans h)

theorem Library.Offers.noClassType (hl : l.Offers t foreign pre)
    (hid : ∀ c ∈ t.classes, c.id ≠ id) :
    l.classType? id = none := by
  refine List.lookup_eq_none_iff.mpr fun p hp => ?_
  obtain ⟨c, hc, heq⟩ := hl.classTypes p hp
  simpa using fun h => hid c hc (heq.trans h.symm)

end Offers

/-- Classes that can all be emitted are emitted one after the other. -/
theorem lowerClasses_of_forM {cs : List ClassDecl} {s s' : Scope} {u : PUnit} (report : Report)
    (h : cs.forM Emit.classDecl s = (.ok u, s')) : lowerClasses cs s report = (s', report) := by
  induction cs generalizing s with
  | nil =>
    obtain ⟨-, rfl⟩ := ok_eq_ok.mp h
    rfl
  | cons c cs ih =>
    rw [forM_cons] at h
    obtain ⟨_, s₁, h₁, h⟩ := bind_ok.mp h
    rw [lowerClasses, h₁]
    exact ih h

variable {c : ClassDecl}

namespace Scope

variable {t foreign : Tree} {pre : ClassDecl → Option FunctionRef} {ds : List Library} {s : Scope}

/-- The functions that prepare objects, as they are known to a scope. -/
def preparing (s : Scope) (pre : ClassDecl → Option FunctionRef) (c : ClassDecl) :
    Option FunctionRef :=
  match s.classes.lookup c.id with
  | some shape => shape.preConstructor
  | none => pre c

theorem preparing_of_lookup {shape : ClassShape} (h : s.classes.lookup c.id = some shape) :
    s.preparing pre c = shape.preConstructor := by
  rw [preparing, h]

/-- The functions of other classes are those that had been known before. -/
theorem Ready.preparing_eq (hs : s.Ready t foreign pre) (hc : c ∈ foreign.classes) :
    s.preparing pre c = pre c := by
  rw [preparing]
  cases hshape : s.classes.lookup c.id with
  | none => rfl
  | some shape => exact hs.prepared c hc shape hshape

/-- **The record of a declared class.** -/
theorem Declared.record (ht : t.PlainOver foreign) (hs : s.Declared t foreign pre ds)
    (hrecorded : s.Recorded t) (hc : c ∈ t.classes) :
    ∃ r, s.library.record? c.id = some r ∧ r.name = c.name ∧ r.defaultConstructor = none ∧
      r.preConstructor = s.preparing pre c := by
  obtain ⟨r, hr⟩ := Option.isSome_iff_exists.mp (hs.recorded c hc)
  obtain ⟨shape, hshape⟩ := hs.hasShapes c hc
  obtain ⟨c', hc', hid, hname, hdefault⟩ := hs.registered r (List.mem_of_find?_eq_some hr)
  have hid' : r.id = c.id := by simpa using List.find?_some hr
  obtain rfl := ht.eq_of_id hc' hc (hid.symm.trans hid')
  refine ⟨r, hr, hname, hdefault, ?_⟩
  rw [hrecorded.preConstructor c' hc shape hshape r hr, preparing_of_lookup hshape]

end Scope

variable {pre : ClassDecl → Option FunctionRef} {ds : List Library} {t foreign : Tree}

/-- **Plain trees are accepted**, and the library offers what the tree says. -/
theorem lowerTree_offers {id : LibraryId} {name : String} (ht : t.PlainOver foreign)
    (hcharted : ∀ d ∈ ds, ∀ m : Library, m.Within d → m.Charted (t.merge foreign).world)
    (hds : Scope.Supplied foreign pre ds) (hforeign : Library.Foreign id ds) :
    ∃ l pre', (∀ report : Report, report.failed = false →
        lowerTree t { id, name, dependencies := ds } report = (l, report)) ∧
      l.complete = true ∧ l.id = id ∧ l.dependencies = ds ∧
      (∀ c ∈ foreign.classes, pre' c = pre c) ∧ l.Offers t foreign pre' := by
  obtain ⟨u, s₀, hdeclare, hs₀⟩ := Scope.declareTree_succeeds ht hcharted hds id name
  have hdeclaring := (Scope.declareTree_declaring _ _ _ hdeclare (Scope.declaring_empty hforeign)).1
  have hrecorded := Scope.declareTree_recorded hdeclare
  have hpre : ∀ c ∈ foreign.classes, s₀.preparing pre c = pre c := fun c hc => hs₀.preparing_eq hc
  have hrecord : ∀ c ∈ t.classes, _ := fun c hc => hs₀.record ht hrecorded hc
  -- the functions of the tree are its own, and no two classes have the same one
  have hown : ∀ c ∈ t.classes, ∀ f, s₀.preparing pre c = some f → f.library = id := by
    intro c hc f hf
    obtain ⟨r, hr, -, -, hpre⟩ := hrecord c hc
    exact hdeclaring.records r (List.mem_of_find?_eq_some hr) f (hpre.trans hf)
  have hmem : ∀ c ∈ t.classes, ∀ f, s₀.preparing pre c = some f →
      ∃ shape, (c.id, shape) ∈ s₀.classes ∧ shape.preConstructor = some f := by
    intro c hc f hf
    obtain ⟨shape, hshape⟩ := hs₀.hasShapes c hc
    exact ⟨shape, mem_of_lookup_eq_some hshape, (Scope.preparing_of_lookup hshape).symm.trans hf⟩
  have hinj : ∀ c ∈ t.classes, ∀ c' ∈ t.classes, ∀ f, s₀.preparing pre c = some f →
      s₀.preparing pre c' = some f → c = c' := by
    intro c hc c' hc' f hf hf'
    obtain ⟨shape, hshape, hpre⟩ := hmem c hc f hf
    obtain ⟨shape', hshape', hpre'⟩ := hmem c' hc' f hf'
    exact ht.eq_of_id hc hc'
      (hdeclaring.shape_inj _ _ _ _ f hshape hshape' hpre hpre' (hown c hc f hf))
  have hds' : Scope.Supplied foreign (s₀.preparing pre) ds := by
    intro c hc
    rw [hpre c hc]
    exact hds c hc
  have hequipped : s₀.Equipped t foreign (s₀.preparing pre) ds [] s₀ := by
    refine ⟨⟨hs₀.toCharted, { hs₀.toReady with
      prepared := fun c _ shape hshape => (Scope.preparing_of_lookup hshape).symm },
      fun c _ shape hshape => (Scope.preparing_of_lookup hshape).symm⟩, fun _ _ => rfl, rfl, rfl, rfl,
      fun c hc f hf => ?_, nofun⟩
    obtain ⟨shape, hshape, hpre⟩ := hmem c hc f hf
    have hlt := (hdeclaring.shape _ _ f hshape hpre (hown c hc f hf)).1
    refine ⟨s₀.library.routines[f.index], ?_⟩
    rw [Library.routine?, if_pos ((hown c hc f hf).trans hdeclaring.id.symm)]
    exact List.getElem?_eq_getElem hlt
  -- the classes are emitted one by one
  have hclasses : Succeeds (t.classes.forM Emit.classDecl) s₀ fun _ s =>
      s.Equipped t foreign (s₀.preparing pre) ds t.classes s₀ :=
    Succeeds.forM (I := fun done (s : Scope) => s.Equipped t foreign (s₀.preparing pre) ds done s₀)
      (fun done c rest s has hs => by
        have hsub : c ∈ t.classes ∧ ∀ c ∈ done, c ∈ t.classes := by
          rw [has]
          exact ⟨List.mem_append_right _ List.mem_cons_self, fun _ hc => List.mem_append_left _ hc⟩
        exact Emit.classDecl_succeeds ht hcharted hds' hinj hs hsub.1
          (Scope.notMem_of_split ht.ids has) hsub.2)
      hequipped
  obtain ⟨_, s, hrun, hs⟩ := hclasses
  have hid : s.library.id = id := hs.id.trans hdeclaring.id
  refine ⟨{ s.library with complete := true }, s₀.preparing pre, fun report hreport => ?_, rfl, hid,
    hs.dependencies, hpre, hs.closed, fun c hc => ?_, fun c hc => ?_, fun p hp => ?_, fun r hr => ?_,
    fun c hc => ?_, fun c hc f hf => ⟨(hown c hc f hf).trans hid.symm, hs.code c hc f hf⟩⟩
  · rw [lowerTree, hdeclare]
    dsimp only
    rw [ht.recursion?, lowerClasses_of_forM report hrun]
    dsimp only
    rw [hreport]
    rfl
  · obtain ⟨shape, hshape⟩ := hs₀.hasShapes c hc
    show (s.library.classTypes.lookup c.id).isSome = true
    rw [hs.sameTypes, hrecorded.classTypes c hc shape hshape]
    rfl
  · show ∃ r, s.library.records.find? _ = some r ∧ _
    rw [hs.sameRecords]
    exact hrecord c hc
  · obtain ⟨c, hc, hid, -⟩ := hs.classTypes p hp
    exact ⟨c, hc, hid⟩
  · obtain ⟨c, hc, hid, hname, -⟩ := hs₀.registered r (hs.sameRecords ▸ hr)
    exact ⟨c, hc, hid.symm, hname⟩
  · obtain ⟨shape, hshape⟩ := hs₀.hasShapes c hc
    rw [Scope.preparing_of_lookup hshape]
    exact hs₀.signed c hc shape hshape

theorem Tree.PlainOver.injOn_foreign (ht : t.PlainOver foreign) :
    Set.InjOn ClassDecl.id {c | c ∈ foreign.classes} := fun c hc c' hc' =>
  ht.world.apart.eq_of_id c (Tree.mem_merge_right hc) c' (Tree.mem_merge_right hc')

namespace Library

/-! ### What libraries serve -/

/-- A library has the code of all that is within another one. -/
def Carries (root l : Library) : Prop :=
  ∀ m : Library, m.Within l → ∃ m', root.findLibrary? m.id = some m' ∧ m'.id = m.id ∧
    m'.routines = m.routines ∧ m'.constants = m.constants

variable {l : Library}

theorem Coherent.carries (h : l.Coherent) : l.Carries l :=
  fun m hm => ⟨m, h.findLibrary? hm, rfl, rfl, rfl⟩

/-- A function fills the objects of a class, wherever the code of a library is at hand. -/
def Fills (v : Tree) (l : Library) (c : ClassDecl) (f : FunctionRef) : Prop :=
  ∀ (root : Library) (w : Tree), root.Carries l → w.Plain → (∀ c ∈ v.classes, c ∈ w.classes) →
    Machine.Fills root w c f

/-- **What a library serves**: a type and a record for each of some plain classes, and nothing else.
Nothing else is known to it, since it comes from trees of these classes. -/
structure Serves (v : Tree) (l : Library) : Prop where
  plain : v.Plain
  compiled : l.CompiledFrom fun t _ _ => t.Joins v.world
  closed : ∀ m : Library, m.Within l → m.types.Closed
  classType : ∀ c ∈ v.classes, (l.findClassType? c.id).isSome = true
  record : ∀ c ∈ v.classes, ∃ r, l.findRecord? c.id = some r ∧ r.name = c.name ∧
    r.defaultConstructor = none ∧ r.preConstructor.isSome = c.isPrepared ∧
    ∀ f, r.preConstructor = some f → l.Fills v c f

section Serves

variable {v : Tree} {l source : Library} {ty : TypeRef} {c : ClassDecl} {id : ClassId}

section

variable (hl : l.Serves v)
include hl

theorem Serves.charted : ∀ m : Library, m.Within l → m.Charted v.world :=
  hl.compiled.charted hl.plain.apart

/-- A type that is found belongs to a class. -/
theorem Serves.named (h : l.findClassType? id = some (source, ty)) :
    source.Within l ∧ ∃ c ∈ v.classes, c.id = id ∧ source.types.Named ty c.name := by
  obtain ⟨m, hm, h⟩ := exists_within_of_search? l h
  obtain ⟨_, hlookup, heq⟩ := Option.map_eq_some_iff.mp h
  obtain ⟨rfl, rfl⟩ := Prod.mk.inj heq
  obtain ⟨c, hc, hid, hnamed, -⟩ := (hl.charted m hm).classTypes _ (mem_of_lookup_eq_some hlookup)
  exact ⟨hm, c, hc, hid, hnamed⟩

/-- A record that is found describes a class. -/
theorem Serves.describes {r : ClassRecord} (h : l.findRecord? id = some r) :
    ∃ c ∈ v.classes, c.id = id ∧ r.Describes c := by
  obtain ⟨m, hm, h⟩ := exists_within_of_search? l h
  have hid : r.id = id := by simpa using List.find?_some h
  obtain ⟨c, hc, hdescribes⟩ := (hl.charted m hm).records r (List.mem_of_find?_eq_some h)
  exact ⟨c, hc, hdescribes.id.symm.trans hid, hdescribes⟩

theorem Serves.noClassType (hid : ∀ c ∈ v.classes, c.id ≠ id) :
    l.findClassType? id = none := by
  cases h : l.findClassType? id with
  | none => rfl
  | some p =>
    obtain ⟨-, c, hc, heq, -⟩ := hl.named h
    exact absurd heq (hid c hc)

theorem Serves.noRecord (hid : ∀ c ∈ v.classes, c.id ≠ id) :
    l.findRecord? id = none := by
  cases h : l.findRecord? id with
  | none => rfl
  | some r =>
    obtain ⟨c, hc, heq, -⟩ := hl.describes h
    exact absurd heq (hid c hc)

end

end Serves

/-- The classes in sight of some libraries. -/
def sight (visible : Library → Tree) (ds : List Library) : Tree :=
  ⟨ds.flatMap fun d => (visible d).classes⟩

variable {visible : Library → Tree}

theorem mem_sight :
    c ∈ (sight visible ds).classes ↔ ∃ d ∈ ds, c ∈ (visible d).classes := List.mem_flatMap

/-! ### Asking one library after the other -/

section Dependencies

variable {visible : Library → Tree} {ds : List Library} {c : ClassDecl}

theorem searchAll?_of_first {α : Type} {own : Library → Option α} {before behind : List Library}
    {d : Library} {a : α} (hbefore : ∀ d' ∈ before, d'.search? own = none)
    (hd : d.search? own = some a) : searchAll? own (before ++ d :: behind) = some a := by
  induction before with
  | nil => rw [List.nil_append, searchAll?, hd]
  | cons d' before ih =>
    rw [List.cons_append, searchAll?, hbefore d' List.mem_cons_self]
    exact ih fun d hd => hbefore d (List.mem_cons_of_mem _ hd)

/-- The function that prepares objects of a class, as the libraries tell it. -/
def preparing? (ds : List Library) (c : ClassDecl) : Option FunctionRef :=
  (searchAll? (fun m => m.record? c.id) ds).bind ClassRecord.preConstructor

variable (hids : Set.InjOn ClassDecl.id {c | c ∈ (sight visible ds).classes})
include hids

/-- A class in sight is served by the first library that knows its identity. -/
theorem exists_first (hc : c ∈ (sight visible ds).classes) :
    ∃ before d behind, ds = before ++ d :: behind ∧ c ∈ (visible d).classes ∧
      ∀ d' ∈ before, ∀ c' ∈ (visible d').classes, c'.id ≠ c.id := by
  induction ds with
  | nil => nomatch hc
  | cons d ds ih =>
    by_cases hd : ∃ c' ∈ (visible d).classes, c'.id = c.id
    · obtain ⟨c', hc', hid⟩ := hd
      obtain rfl := hids (mem_sight.mpr ⟨d, List.mem_cons_self, hc'⟩) hc hid
      exact ⟨[], d, ds, rfl, hc', nofun⟩
    · have hsub : ∀ c ∈ (sight visible ds).classes, c ∈ (sight visible (d :: ds)).classes := by
        intro c hc
        obtain ⟨d', hd', hc⟩ := mem_sight.mp hc
        exact mem_sight.mpr ⟨d', List.mem_cons_of_mem _ hd', hc⟩
      have hc' : c ∈ (sight visible ds).classes := by
        obtain ⟨d', hd', hd'c⟩ := mem_sight.mp hc
        rcases List.mem_cons.mp hd' with rfl | hd'
        · exact absurd ⟨c, hd'c, rfl⟩ hd
        · exact mem_sight.mpr ⟨d', hd', hd'c⟩
      obtain ⟨before, d', behind, rfl, hc, hbefore⟩ :=
        ih (hids.mono hsub) hc'
      refine ⟨d :: before, d', behind, rfl, hc, fun d'' hd'' => ?_⟩
      rcases List.mem_cons.mp hd'' with rfl | hd''
      · exact fun c' hc' hid => hd ⟨c', hc', hid⟩
      · exact hbefore d'' hd''

variable (hds : ∀ d ∈ ds, d.Serves (visible d))
include hds

/-- **A class in sight has its server**, which answers in the name of all. -/
theorem exists_server (hc : c ∈ (sight visible ds).classes) :
    ∃ d ∈ ds, c ∈ (visible d).classes ∧
      searchAll? (fun m => (m.classType? c.id).map fun ty => (m, ty)) ds = d.findClassType? c.id ∧
      searchAll? (fun m => m.record? c.id) ds = d.findRecord? c.id ∧
      ∀ s : Scope, s.library.dependencies = ds → s.foreignClass? c.id = do
        let (source, ty) ← d.findClassType? c.id
        return (source, ty, (d.findRecord? c.id).bind ClassRecord.preConstructor) := by
  obtain ⟨before, d, behind, rfl, hd, hbefore⟩ := exists_first hids hc
  have hmem : d ∈ before ++ d :: behind := List.mem_append_right _ List.mem_cons_self
  obtain ⟨⟨source, ty⟩, htype⟩ := Option.isSome_iff_exists.mp ((hds d hmem).classType c hd)
  obtain ⟨r, hr, -⟩ := (hds d hmem).record c hd
  have hnone : ∀ d' ∈ before, d'.findClassType? c.id = none ∧ d'.findRecord? c.id = none :=
    fun d' hd' =>
      have hserves := hds d' (List.mem_append_left _ hd')
      ⟨hserves.noClassType (hbefore d' hd'), hserves.noRecord (hbefore d' hd')⟩
  refine ⟨d, hmem, hd, ?_, ?_, fun s hs => ?_⟩
  · rw [htype]
    exact searchAll?_of_first (fun d' hd' => (hnone d' hd').1) htype
  · rw [hr]
    exact searchAll?_of_first (fun d' hd' => (hnone d' hd').2) hr
  · have hskip : before.findSome? (fun dependency => do
        let (source, ty) ← dependency.findClassType? c.id
        return (source, ty, (dependency.findRecord? c.id).bind ClassRecord.preConstructor)) = none := by
      refine List.findSome?_eq_none_iff.mpr fun d' hd' => ?_
      rw [(hnone d' hd').1]
      rfl
    rw [Scope.foreignClass?, hs, List.findSome?_append, hskip, Option.none_or, List.findSome?_cons,
      htype]
    rfl

/-- **The dependencies of a plain tree supply what it needs.** -/
theorem supplied : Scope.Supplied (sight visible ds) (preparing? ds) ds := by
  intro c hc
  obtain ⟨d, hd, hdc, -, hrecord, hforeign⟩ := exists_server hids hds hc
  obtain ⟨⟨source, ty⟩, htype⟩ := Option.isSome_iff_exists.mp ((hds d hd).classType c hdc)
  refine ⟨source, ty, fun s hs => ?_⟩
  rw [hforeign s hs, htype, preparing?, hrecord]
  rfl

end Dependencies

/-! ### One library on top of others -/

theorem Carries.of_dependency {root l d : Library} (h : root.Carries l) (hd : d ∈ l.dependencies) :
    root.Carries d := fun m hm => h m (.dependency hd hm)

theorem Fills.of_dependency {v v' : Tree} {l d : Library} {f : FunctionRef} (h : d.Fills v c f)
    (hd : d ∈ l.dependencies) (hsub : ∀ c ∈ v.classes, c ∈ v'.classes) :
    l.Fills v' c f :=
  fun root w hroot hw hw' => h root w (hroot.of_dependency hd) hw fun c hc => hw' c (hsub c hc)

/-- **The functions of an offered library fill objects.** -/
theorem Offers.fills (hl : l.Offers t foreign pre) (ht : (t.merge foreign).Plain)
    (hprepared : ∀ c ∈ foreign.classes, (pre c).isSome = c.isPrepared)
    (hforeign : ∀ c ∈ foreign.classes, ∀ f, pre c = some f → l.Fills (t.merge foreign) c f) :
    ∀ c ∈ (t.merge foreign).classes, ∀ f, pre c = some f → l.Fills (t.merge foreign) c f := by
  have hprepared' : ∀ c ∈ (t.merge foreign).classes, (pre c).isSome = c.isPrepared := by
    intro c hc
    rcases Tree.mem_merge.mp hc with hc | hc
    · exact hl.prepared c hc
    · exact hprepared c hc
  intro c hc f hf root w hroot hw hsub
  revert f
  -- what a pre-constructor calls are the pre-constructors of the classes that are stored
  refine ht.induction (P := fun c => ∀ f, pre c = some f → Machine.Fills root w c f)
    (fun c hc ih f hf => ?_) c hc
  rcases Tree.mem_merge.mp hc with hown | hown
  · obtain ⟨hlibrary, head, pointer, ops, n, hroutine, hops⟩ := hl.code c hown f hf
    obtain ⟨m, hfind, hid, hroutines, hconstants⟩ := hroot l .self
    have hisPrepared : c.isPrepared = true := by
      rw [← hprepared' c hc, hf]
      rfl
    have hroutine' : m.routine? f = some (Emit.prepared head pointer ops n) := by
      rw [← hroutine, routine?, routine?, hid, hroutines]
    exact Machine.fills_prepared hw hsub hprepared' (ht.classes c hc) hisPrepared
      (fun v hv c' hc' hty => ih c' (ht.stores hc hc' hv hty)) (hlibrary ▸ hfind) hroutine'
      (hconstants ▸ hops)
  · exact hforeign c hown f hf root w hroot hw hsub

/-- **A library that offers classes serves them**, along with those of its dependencies. -/
theorem Offers.serves {t : Tree} (hl : l.Offers t (sight visible ds) pre)
    (ht : t.PlainOver (sight visible ds)) (hds : ∀ d ∈ ds, d.Serves (visible d))
    (hcompiled : l.CompiledFrom fun t' _ _ => t'.Joins (t.merge (sight visible ds)).world)
    (hdependencies : l.dependencies = ds)
    (hpre : ∀ c ∈ (sight visible ds).classes, pre c = preparing? ds c) :
    l.Serves (t.merge (sight visible ds)) := by
  have hids := ht.injOn_foreign
  have hnew : ∀ c ∈ (sight visible ds).classes, ∀ c' ∈ t.classes, c'.id ≠ c.id :=
    fun c hc c' hc' hid => ht.id_ne hc' hc hid.symm
  have hsub : ∀ d ∈ ds, ∀ c ∈ (visible d).classes, c ∈ (t.merge (sight visible ds)).classes :=
    fun d hd c hc => Tree.mem_merge_right (mem_sight.mpr ⟨d, hd, hc⟩)
  -- a class of a dependency is looked up there
  have hforeign : ∀ c ∈ (sight visible ds).classes, ∃ d ∈ ds, c ∈ (visible d).classes ∧
      l.findClassType? c.id = d.findClassType? c.id ∧ l.findRecord? c.id = d.findRecord? c.id ∧
      pre c = (d.findRecord? c.id).bind ClassRecord.preConstructor := by
    intro c hc
    obtain ⟨d, hd, hdc, htype, hrecord, -⟩ := exists_server hids hds hc
    refine ⟨d, hd, hdc, ?_, ?_, ?_⟩
    · rw [← htype, findClassType?, search?_of_none, hdependencies]
      rw [hl.noClassType (hnew c hc)]
      rfl
    · rw [← hrecord, findRecord?, search?_of_none (hl.noRecord (hnew c hc)), hdependencies]
    · rw [hpre c hc, preparing?, hrecord]
  have hfills : ∀ c ∈ (t.merge (sight visible ds)).classes, ∀ f, pre c = some f →
      l.Fills (t.merge (sight visible ds)) c f := by
    refine hl.fills ht.world (fun c hc => ?_) fun c hc f hf => ?_
    · obtain ⟨d, hd, hdc, -, -, hpre⟩ := hforeign c hc
      obtain ⟨r, hr, -, -, hprepared, -⟩ := (hds d hd).record c hdc
      rw [hpre, hr]
      exact hprepared
    · obtain ⟨d, hd, hdc, -, -, hpre⟩ := hforeign c hc
      obtain ⟨r, hr, -, -, -, hfills⟩ := (hds d hd).record c hdc
      rw [hpre, hr] at hf
      exact (hfills f hf).of_dependency (hdependencies ▸ hd) (hsub d hd)
  refine ⟨ht.world, hcompiled, fun m hm => ?_, fun c hc => ?_, fun c hc => ?_⟩
  · cases hm with
    | self => exact hl.closed
    | dependency hd hm =>
      rw [hdependencies] at hd
      exact (hds _ hd).closed m hm
  · rcases Tree.mem_merge.mp hc with hown | hc
    · obtain ⟨ty, hty⟩ := Option.isSome_iff_exists.mp (hl.classType c hown)
      have hfound : l.findClassType? c.id = some (l, ty) := search?_of_own (by rw [hty]; rfl)
      rw [hfound]
      rfl
    · obtain ⟨d, hd, hdc, htype, -⟩ := hforeign c hc
      rw [htype]
      exact (hds d hd).classType c hdc
  · rcases Tree.mem_merge.mp hc with hown | hc'
    · obtain ⟨r, hr, hname, hdefault, hpre⟩ := hl.record c hown
      refine ⟨r, search?_of_own hr, hname, hdefault, ?_, fun f hf => ?_⟩
      · rw [hpre]
        exact hl.prepared c hown
      · exact hfills c hc f (hpre.symm.trans hf)
    · obtain ⟨d, hd, hdc, -, hrecord, hpre⟩ := hforeign c hc'
      obtain ⟨r, hr, hname, hdefault, hprepared, -⟩ := (hds d hd).record c hdc
      refine ⟨r, hrecord.trans hr, hname, hdefault, hprepared, fun f hf => ?_⟩
      refine hfills c hc f ?_
      rw [hpre, hr]
      exact hf

/-- **Plain trees are accepted**, and what they become serves all classes in sight. -/
theorem lowerTree_serves {t : Tree} {id : LibraryId} (name : String)
    (hserves : ∀ d ∈ ds, d.Serves (visible d)) (hfresh : ∀ d ∈ ds, d.findLibrary? id = none)
    (ht : t.PlainOver (sight visible ds)) :
    ∃ l pre, (∀ report : Report, report.failed = false →
        lowerTree t { id, name, dependencies := ds } report = (l, report)) ∧
      l.complete = true ∧ l.id = id ∧ l.dependencies = ds ∧
      l.Offers t (sight visible ds) pre ∧ l.Serves (t.merge (sight visible ds)) := by
  have hids := ht.injOn_foreign
  -- the dependencies come from trees of classes that are in sight
  have hcompiled : ∀ d ∈ ds, d.CompiledFrom fun t' _ _ => t'.Joins (t.merge (sight visible ds)).world :=
    fun d hd => (hserves d hd).compiled.compiledFrom fun ht' => ht'.mono fun c hc =>
      Tree.mem_merge_right (mem_sight.mpr ⟨d, hd, hc⟩)
  obtain ⟨l, pre, hlower, hcomplete, hid, hdependencies, hpre, hoffers⟩ :=
    lowerTree_offers (t := t) ht (fun d hd => (hcompiled d hd).charted ht.world.apart)
      (supplied hids hserves) (foreign_of_owned (fun d hd => (hserves d hd).compiled.owned) hfresh)
  have hl : l.CompiledFrom fun t' _ _ => t'.Joins (t.merge (sight visible ds)).world := by
    have hresult := hlower {} rfl
    have h := CompiledFrom.lowered (t := t) hcompiled hfresh ht.joins (by rw [hresult]; rfl)
    rw [hresult] at h
    exact h
  exact ⟨l, pre, hlower, hcomplete, hid, hdependencies, hoffers,
    hoffers.serves ht hserves hl hdependencies hpre⟩

end Library

end Shader
