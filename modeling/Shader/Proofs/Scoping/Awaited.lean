import Shader.Proofs.Scoping.Functions
import Shader.Proofs.Scoping.Runs

/-!
# Every declared function is awaited

Declaring a tree creates functions without bodies. Emission later finds them again by the identities
that stand for them, or as the pre-constructor of a class. If no identity is declared twice, each of
them is found (`Scope.Awaiting.awaited`), and so none stays without a body.
-/

namespace Shader

open Outcome

namespace Library

/-- What a library says about functions is about functions that are there. -/
structure Resolved (l : Library) : Prop where
  functions : ∀ p ∈ l.functions, l.Knows p.2
  preConstructors : ∀ r ∈ l.records, ∀ g, r.preConstructor = some g → l.Knows g

theorem Knows.mono {l m : Library} {f : FunctionRef} (hm : m.Within l) (h : m.Knows f) :
    l.Knows f := by
  obtain ⟨k, hk, hf⟩ := h
  exact ⟨k, hm.trans hk, hf⟩

end Library

variable {c : ClassDecl} {t : Tree}

namespace Scope

/-- **The invariant of declaring**, where `cs` are the classes whose pre-constructors are still to be
declared. -/
structure Awaiting (t : Tree) (own : LibraryId) (ds : List Library) (cs : List ClassDecl)
    (s : Scope) : Prop extends Declaring t own ds s, Grounded s where
  shaped : ∀ c ∈ t.classes, ∃ shape, s.classes.lookup c.id = some shape
  recorded : ∀ r ∈ s.library.records, ∀ g, r.preConstructor = some g →
    ∃ p ∈ s.classes, p.2.preConstructor = some g
  /-- If classes are distinct, the pre-constructor of a class is what is found for the class. -/
  settled : (t.classes.map ClassDecl.id).Nodup → ∀ p ∈ s.classes, ∀ g,
    p.2.preConstructor = some g → g.library = own →
      (∀ c ∈ cs, c.id ≠ p.1) ∧ s.classes.lookup p.1 = some p.2
  /-- Every function is named or is a pre-constructor. -/
  made : ∀ i < s.library.routines.length,
    (∃ c ∈ t.classes, ∃ id ∈ c.bodyIds, (id, ⟨own, i⟩) ∈ s.library.functions) ∨
    ∃ c ∈ t.classes, ∃ shape, (c.id, shape) ∈ s.classes ∧ shape.preConstructor = some ⟨own, i⟩

section Steps

variable {t : Tree} {own : LibraryId} {ds : List Library} {cs : List ClassDecl} {s s' : Scope}

theorem Awaiting.weaken {cs' : List ClassDecl} (hs : s.Awaiting t own ds cs)
    (h : ∀ c ∈ cs', c ∈ cs) : s.Awaiting t own ds cs' :=
  { hs with settled := fun hnodup p hp g hg hown =>
      (hs.settled hnodup p hp g hg hown).imp_left fun hne c hc => hne c (h c hc) }

/-- Types may be entered. -/
theorem Awaiting.withTypes (hs : s.Awaiting t own ds cs) {types : Registry}
    (ht : s.library.types.Reaches types) : (s.withTypes types).Awaiting t own ds cs :=
  { hs with
    types := ht.closed
    classes := fun p hp => Nat.lt_of_lt_of_le (hs.classes p hp) ht.size }

theorem onTypes_awaiting {α : Type} {location : Location} {x : TypeM α}
    (hx : ∀ r a r', x r = (.ok a, r') → r.Closed → r.Reaches r') :
    Upholds (Awaiting t own ds cs) (onTypes location x) fun _ => True := by
  intro s a s' h hs
  obtain ⟨types, htypes, rfl⟩ := onTypes_ok.mp h
  exact ⟨hs.withTypes (hx _ _ _ htypes hs.types), True.intro⟩

/-- The pre-constructor of a class of a dependency is there. -/
theorem initializes_knows (hds : ∀ d ∈ ds, ∀ m : Library, m.Within d → m.Resolved)
    {g : FunctionRef} (h : Library.Initializes ds g) : ∃ d ∈ ds, d.Knows g := by
  obtain ⟨d, hd, m, hm, r, hr, hg⟩ := h
  exact ⟨d, hd, ((hds d hd m hm).preConstructors r hr g hg).mono hm⟩

theorem exists_lookup_cons {id : ClassId} (p : ClassId × ClassShape)
    (h : ∃ shape, s.classes.lookup id = some shape) :
    ∃ shape, List.lookup id (p :: s.classes) = some shape := by
  rw [List.lookup_cons]
  split
  · exact ⟨p.2, rfl⟩
  · exact h

/-- A class for which nothing was found can be entered, if its pre-constructor is foreign. -/
theorem Awaiting.enterShape (hs : s.Awaiting t own ds cs) {id : ClassId} {shape : ClassShape}
    (hlookup : s.classes.lookup id = none) (hty : shape.ty.index < s.library.types.size)
    (hpre : ∀ g, shape.preConstructor = some g → Library.Initializes ds g) :
    Awaiting t own ds cs { s with classes := (id, shape) :: s.classes } := by
  refine { hs.toDeclaring.enterShape id shape hpre with
    types := hs.types, shaped := fun c hc => exists_lookup_cons _ (hs.shaped c hc),
    classes := List.forall_mem_cons.mpr ⟨hty, hs.classes⟩, recorded := ?_, settled := ?_, made := ?_ }
  · intro r hr g hg
    obtain ⟨p, hp, hpre⟩ := hs.recorded r hr g hg
    exact ⟨p, List.mem_cons_of_mem _ hp, hpre⟩
  · intro hnodup p hp g hg hown
    rcases List.mem_cons.mp hp with rfl | hp
    · exact absurd hown ((hpre g hg).library_ne hs.foreign)
    · obtain ⟨hne, hfound⟩ := hs.settled hnodup p hp g hg hown
      refine ⟨hne, ?_⟩
      have hid : p.1 ≠ id := fun heq => by
        rw [heq, hlookup] at hfound
        nomatch hfound
      change List.lookup p.1 ((id, shape) :: s.classes) = _
      rw [List.lookup_cons, beq_false_of_ne hid]
      exact hfound
  · intro i hi
    refine (hs.made i hi).imp_right fun ⟨c, hc, shape', hmem, h⟩ => ?_
    exact ⟨c, hc, shape', List.mem_cons_of_mem _ hmem, h⟩

theorem classShape_awaiting (id : ClassId) (location : Location) :
    Upholds (Awaiting t own ds cs) (classShape id location) fun _ => True := by
  intro s shape s' h hs
  rcases classShape_ok h with ⟨-, rfl⟩ | ⟨hlookup, source, ty, types, hforeign, htypes, rfl⟩
  · exact ⟨hs, True.intro⟩
  · obtain ⟨hreach, hlt⟩ := Registry.importType_enters source.types ty _ _ _ htypes hs.types
    refine ⟨(hs.withTypes hreach).enterShape hlookup hlt fun g hg => ?_, True.intro⟩
    exact foreignClass?_initializes hs.dependencies (hg ▸ hforeign)

theorem lowerType_awaiting (spec : TypeSpec) (location : Location) :
    Upholds (Awaiting t own ds cs) (lowerType spec location) fun _ => True := by
  unfold lowerType
  split
  · exact (classShape_awaiting _ location).bind fun _ _ => .pure True.intro
  · exact onTypes_awaiting fun r _ r' h hr => (Registry.lowerBuiltin_enters _ r _ r' h hr).1

variable {c : ClassDecl}

theorem declareVariable_awaiting (hc : c ∈ t.classes) (owner : TypeRef) {v : VariableDecl}
    (hv : v ∈ c.members) :
    Upholds (Awaiting t own ds cs) (declareVariable c owner v) fun _ => True := by
  intro s f s' h hs
  have hdeclaring := (declareVariable_declaring hc owner hv s f s' h hs.toDeclaring).1
  obtain ⟨ty, s₁, h₁, h⟩ := declareVariable_ok h
  have hs₁ := (lowerType_awaiting v.ty v.location _ _ _ h₁ hs).1
  rcases h with ⟨-, n, types, hadd, -, rfl⟩ | ⟨-, -, rfl⟩
  · have hs' := hs₁.withTypes (Registry.addMember_reaches hadd hs₁.types)
    exact ⟨{ hdeclaring, hs' with }, True.intro⟩
  · exact ⟨{ hdeclaring, hs₁ with }, True.intro⟩

theorem declareMembers_awaiting (hc : c ∈ t.classes) :
    Upholds (Awaiting t own ds cs) (declareMembers c) fun _ => True := by
  unfold declareMembers
  refine (classShape_awaiting c.id c.location).bind fun shape _ => ?_
  refine (Upholds.mapM fun v hv => declareVariable_awaiting hc shape.ty hv).bind
    fun fields _ => ?_
  refine Upholds.modify fun s hs => ?_
  -- the new record has no pre-constructor yet
  have hold : ∀ r ∈ (s.library.addRecord ⟨c.id, c.name, shape.ty, none, none, fields⟩).records,
      ∀ g, r.preConstructor = some g → r ∈ s.library.records := by
    intro r hr g hg
    refine (List.mem_append.mp hr).resolve_right fun hr => ?_
    obtain rfl := List.mem_singleton.mp hr
    nomatch hg
  exact { hs with
    records := fun r hr g hg => hs.records r (hold r hr g hg) g hg
    recorded := fun r hr g hg => hs.recorded r (hold r hr g hg) g hg }

/-! ### New functions -/

/-- A function that is named for a class is awaited. -/
theorem Awaiting.enterNamed (hs : s.Awaiting t own ds cs) {owner functionType : TypeRef}
    {name : String} {location : Location} {f : FunctionRef}
    (h : createRoutine owner name functionType location s = (.ok f, s')) (hc : c ∈ t.classes)
    {id : FunctionId} (hid : id ∈ c.bodyIds) {takesObject : Bool} {ps : List ParameterDecl}
    (hsigns : t.Signs id takesObject ps) : (s'.named id f takesObject).Awaiting t own ds cs := by
  have hdeclaring := (createRoutine_unused hs.toDeclaring h).declaring_named hsigns
  obtain ⟨rfl, u, types, hadd, rfl⟩ := createRoutine_ok h
  have hreach := Registry.addFunction_reaches hadd hs.types
  have hlength : (s.withRoutine types name owner functionType).library.routines.length =
      s.library.routines.length + 1 := List.length_append
  refine { hdeclaring with
    types := hreach.closed
    shaped := hs.shaped
    classes := fun p hp => Nat.lt_of_lt_of_le (hs.classes p hp) hreach.size
    recorded := hs.recorded
    settled := hs.settled
    made := fun i hi => ?_ }
  rcases Nat.lt_succ_iff_lt_or_eq.mp (Nat.lt_of_lt_of_eq hi hlength) with hi | rfl
  · refine (hs.made i hi).imp_left fun ⟨c', hc', id', hid', hmem⟩ => ?_
    exact ⟨c', hc', id', hid', mem_functions_named.mpr (.inr hmem)⟩
  · exact .inl ⟨c, hc, id, hid, mem_functions_named.mpr (.inl ⟨rfl, by rw [hs.id]⟩)⟩

/-- **Declaring a pre-constructor** takes the class off the list. -/
theorem Initializing.awaiting (hc : c ∈ t.classes)
    (hcs : (t.classes.map ClassDecl.id).Nodup → ∀ c' ∈ cs, c'.id ≠ c.id) (h : Initializing c s s')
    (hs : s.Awaiting t own ds (c :: cs)) : s'.Awaiting t own ds cs := by
  have hdeclaring := h.declaring hc hs.toDeclaring
  obtain ⟨owner, name, functionType, _, f, s₁, u, hcreate, hchange⟩ := h
  obtain ⟨shape, hshape⟩ := hs.shaped c hc
  obtain ⟨rfl, _, types, hadd, rfl⟩ := createRoutine_ok hcreate
  have hclasses := told_of_lookup (s := s.withRoutine types name owner functionType)
    ⟨s.library.id, s.library.routines.length⟩ hshape
  obtain ⟨records, rfl, hrecords⟩ := changeRecord_ok hchange
  have hreach := Registry.addFunction_reaches hadd hs.types
  have hlength : (s.withRoutine types name owner functionType).library.routines.length =
      s.library.routines.length + 1 := List.length_append
  refine { hdeclaring with types := hreach.closed, shaped := ?_, classes := ?_, recorded := ?_,
                           settled := ?_, made := ?_ }
  all_goals
    dsimp only
    rw [hclasses]
  · have hlt := fun p hp => Nat.lt_of_lt_of_le (hs.classes p hp) hreach.size
    exact List.forall_mem_cons.mpr ⟨hlt (c.id, shape) (mem_of_lookup_eq_some hshape), hlt⟩
  · exact fun c' hc' => exists_lookup_cons _ (hs.shaped c' hc')
  · intro r hr g hg
    rcases hrecords r hr with hr | ⟨r', -, rfl⟩
    · obtain ⟨p, hp, hpre⟩ := hs.recorded r hr g hg
      exact ⟨p, List.mem_cons_of_mem _ hp, hpre⟩
    · exact ⟨_, List.mem_cons_self, hg⟩
  · refine fun hnodup => List.forall_mem_cons.mpr
      ⟨fun g hg hown => ⟨hcs hnodup, List.lookup_cons_self⟩, fun p hp g hg hown => ?_⟩
    obtain ⟨hne, hfound⟩ := hs.settled hnodup p hp g hg hown
    refine ⟨fun c' hc' => hne c' (List.mem_cons_of_mem c hc'), ?_⟩
    rw [List.lookup_cons, beq_false_of_ne (hne c List.mem_cons_self).symm]
    exact hfound
  · intro i hi
    rcases Nat.lt_succ_iff_lt_or_eq.mp (Nat.lt_of_lt_of_eq hi hlength) with hi | rfl
    · rcases hs.made i hi with ⟨c', hc', id, hid, hmem⟩ | ⟨c', hc', shape', hmem, hpre⟩
      · exact .inl ⟨c', hc', id, hid, List.mem_append_right _ hmem⟩
      · exact .inr ⟨c', hc', shape', List.mem_cons_of_mem _ hmem, hpre⟩
    · exact .inr ⟨c, hc, _, List.mem_cons_self, by rw [hs.id]⟩

/-- Functions that are named for a class are awaited. -/
theorem Signing.awaiting (hc : c ∈ t.classes) {ids : List FunctionId} {s₀ : Scope}
    (h : Signing t c s₀ ids s) (hs₀ : s₀.Awaiting t own ds cs) : s.Awaiting t own ds cs := by
  induction h with
  | start => exact hs₀
  | lowerType _ h ih => exact (lowerType_awaiting _ _ _ _ _ h ih).1
  | pointerType _ h ih =>
    refine (onTypes_awaiting (fun r _ r' h hr => ?_) _ _ _ h ih).1
    exact (Registry.pointerType_enters _ r _ r' h hr).1
  | functionType _ h ih =>
    refine (onTypes_awaiting (fun r _ r' h hr => ?_) _ _ _ h ih).1
    exact (Registry.functionType_enters _ _ r _ r' h hr).1
  | classShape _ h ih => exact (classShape_awaiting _ _ _ _ _ h ih).1
  | function _ hid hsigns h ih => exact ih.enterNamed h hc hid hsigns
  | @defaultConstructor ids s s' f u _ h ih =>
    obtain ⟨records, rfl, hrecords⟩ := changeRecord_ok h
    have hold : ∀ r ∈ records, ∀ g, r.preConstructor = some g →
        ∃ r' ∈ s.library.records, r'.preConstructor = some g := by
      intro r hr g hg
      rcases hrecords r hr with hr | ⟨r', hr', rfl⟩
      · exact ⟨r, hr, hg⟩
      · exact ⟨r', hr', hg⟩
    refine { ih with records := fun r hr g hg => ?_, recorded := fun r hr g hg => ?_ }
    · obtain ⟨r', hr', hg'⟩ := hold r hr g hg
      exact ih.records r' hr' g hg'
    · obtain ⟨r', hr', hg'⟩ := hold r hr g hg
      exact ih.recorded r' hr' g hg'

/-- **Declaring the signatures of a class** takes the class off the list. -/
theorem declareSignatures_awaiting (hc : c ∈ t.classes)
    (hcs : (t.classes.map ClassDecl.id).Nodup → ∀ c' ∈ cs, c'.id ≠ c.id) :
    Turns (Awaiting t own ds (c :: cs)) (Awaiting t own ds cs) (declareSignatures c) := by
  intro s u s' h hs
  obtain ⟨s₁, s₂, h₁, h₂, h₃⟩ := declareSignatures_ok hc h
  have hs₁ := h₁.awaiting hc hs
  refine h₃.awaiting hc ?_
  rcases h₂ with ⟨-, rfl⟩ | h₂
  · exact hs₁.weaken fun c' hc' => List.mem_cons_of_mem c hc'
  · exact h₂.awaiting hc hcs hs₁

/-! ### Declaring a tree -/

/-- What holds while the structs of classes are declared. -/
structure Sketching (t : Tree) (own : LibraryId) (ds : List Library) (s : Scope) : Prop
    extends Declaring t own ds s where
  types : s.library.types.Closed
  classes : ∀ p ∈ s.classes, p.2.ty.index < s.library.types.size ∧ p.2.preConstructor = none
  noRoutines : s.library.routines = []
  noRecords : s.library.records = []

theorem declareClass_sketching (c : ClassDecl) :
    Upholds (Sketching t own ds) (declareClass c) fun _ => True := by
  intro s u s' h hs
  have hdeclaring := (declareClass_declaring c s u s' h hs.toDeclaring).1
  obtain ⟨-, rfl⟩ := ok_eq_ok.mp h
  obtain ⟨hreach, hlt⟩ := hs.types.intern c.name .struct 0 none nofun
  refine ⟨{ hdeclaring with
    types := hreach.closed, classes := ?_, noRoutines := hs.noRoutines, noRecords := hs.noRecords },
    True.intro⟩
  refine List.forall_mem_cons.mpr ⟨⟨hlt, rfl⟩, fun p hp => ?_⟩
  exact (hs.classes p hp).imp_left fun h => Nat.lt_of_lt_of_le h hreach.size

/-- All classes have a shape once they have been declared. -/
theorem forM_declareClass_shaped {cs : List ClassDecl} {u : PUnit}
    (h : cs.forM declareClass s = (.ok u, s')) (hc : c ∈ cs) :
    ∃ shape, s'.classes.lookup c.id = some shape := by
  have hkeep : ∀ c', Upholds (fun s : Scope => ∃ shape, s.classes.lookup c.id = some shape)
      (declareClass c') fun _ => True :=
    fun c' => Upholds.modify fun s hs => exists_lookup_cons _ hs
  refine Turns.forM (I := fun _ => True) hc (fun _ _ => fun _ _ _ _ _ => ⟨True.intro, True.intro⟩)
    (fun c' _ => hkeep c') (fun s u s' h _ => ?_) s u s' h True.intro
  obtain ⟨-, rfl⟩ := ok_eq_ok.mp h
  refine ⟨⟨(s.library.types.internStruct c.name).1, none⟩, ?_⟩
  change List.lookup c.id ((c.id, _) :: s.classes) = _
  rw [List.lookup_cons, beq_self_eq_true]

/-- **Declaring a tree** leaves no class on the list. -/
theorem declareTree_awaiting {u : Unit} (hs : s.Sketching t own ds)
    (h : declareTree t s = (.ok u, s')) :
    s'.Awaiting t own ds [] := by
  unfold declareTree at h
  obtain ⟨_, s₁, h₁, h⟩ := bind_ok.mp h
  obtain ⟨_, s₂, h₂, h₃⟩ := bind_ok.mp h
  have hs₁ := (Upholds.forM fun c _ => declareClass_sketching c) _ _ _ h₁ hs |>.1
  have hawaiting₁ : s₁.Awaiting t own ds t.classes := by
    refine { hs₁.toDeclaring with
      types := hs₁.types
      shaped := fun c hc => forM_declareClass_shaped h₁ hc
      classes := fun p hp => (hs₁.classes p hp).1
      recorded := fun r hr => ?_
      settled := fun _ p hp g hg => ?_
      made := fun i hi => ?_ }
    · rw [hs₁.noRecords] at hr
      nomatch hr
    · rw [(hs₁.classes p hp).2] at hg
      nomatch hg
    · rw [hs₁.noRoutines] at hi
      nomatch hi
  have hawaiting₂ := (Upholds.forM fun c hc => declareMembers_awaiting hc) _ _ _ h₂
    hawaiting₁ |>.1
  -- each class is taken off the list in turn
  have hall : ∀ (cs : List ClassDecl), (∀ c ∈ cs, c ∈ t.classes) →
      ((t.classes.map ClassDecl.id).Nodup → (cs.map ClassDecl.id).Nodup) →
      Turns (Awaiting t own ds cs) (Awaiting t own ds []) (cs.forM declareSignatures) := by
    intro cs hcs hnodup
    induction cs with
    | nil =>
      intro s u s' h hs
      obtain ⟨-, rfl⟩ := ok_eq_ok.mp h
      exact hs
    | cons c cs ih =>
      intro s u s'' h hs
      obtain ⟨_, s', h₁, h₂⟩ := bind_ok.mp h
      refine ih (fun c' hc' => hcs c' (List.mem_cons_of_mem c hc'))
        (fun hn => (List.nodup_cons.mp (hnodup hn)).2) _ _ _ h₂ ?_
      refine declareSignatures_awaiting (hcs c List.mem_cons_self) (fun hn c' hc' heq => ?_) _ _ _
        h₁ hs
      exact (List.nodup_cons.mp (hnodup hn)).1 (heq ▸ List.mem_map_of_mem hc')
  exact hall t.classes (fun _ hc => hc) (fun hn => hn) _ _ _ h₃ hawaiting₂

end Steps

/-! ### Names -/

theorem Signing.gives {s₀ s : Scope} {ids : List FunctionId} (h : Signing t c s₀ ids s) :
    s.library.functions.map Prod.fst =
      ids.reverse ++ s₀.library.functions.map Prod.fst := by
  induction h with
  | start => rfl
  | lowerType _ h ih =>
    obtain ⟨types, classes, rfl⟩ := lowerType_frame h
    exact ih
  | pointerType _ h ih | functionType _ h ih =>
    obtain ⟨types, -, rfl⟩ := onTypes_ok.mp h
    exact ih
  | classShape _ h ih =>
    obtain ⟨types, classes, rfl⟩ := classShape_frame h
    exact ih
  | function _ _ _ h ih =>
    obtain ⟨-, _, types, -, rfl⟩ := createRoutine_ok h
    rw [List.reverse_append, List.append_assoc, ← ih]
    rfl
  | defaultConstructor _ h ih =>
    obtain ⟨records, rfl, -⟩ := changeRecord_ok h
    exact ih

/-- The identities that are declared with a class. -/
theorem declareSignatures_gives (hc : c ∈ t.classes) {s s' : Scope} {u : Unit}
    (h : declareSignatures c s = (.ok u, s')) : s'.library.functions.map Prod.fst =
      (c.preConstructor.toList ++ c.bodyIds).reverse ++ s.library.functions.map Prod.fst := by
  obtain ⟨s₁, s₂, h₁, h₂, h₃⟩ := declareSignatures_ok hc h
  have hs₂ : s₂.library.functions.map Prod.fst =
      c.preConstructor.toList.reverse ++ s.library.functions.map Prod.fst := by
    rcases h₂ with ⟨hnone, rfl⟩ | ⟨_, _, _, _, f, s₃, _, hcreate, hchange⟩
    · rw [h₁.gives, hnone]
      rfl
    · obtain ⟨-, _, types, -, rfl⟩ := createRoutine_ok hcreate
      obtain ⟨records, rfl, -⟩ := changeRecord_ok hchange
      change List.map Prod.fst (c.preConstructor.toList.map (·, f) ++ s₁.library.functions) = _
      rw [List.map_append, h₁.gives]
      cases c.preConstructor <;> rfl
  rw [h₃.gives, hs₂, List.reverse_append, List.append_assoc]

end Scope

/-- The identities of everything in a tree that becomes a function. -/
def Tree.functionIds (t : Tree) : List FunctionId :=
  t.classes.flatMap fun c => c.preConstructor.toList ++ c.bodyIds

namespace Scope

theorem declareVariable_functions {owner : TypeRef} {v : VariableDecl} {s s' : Scope}
    {f : FieldRecord} (h : declareVariable c owner v s = (.ok f, s')) :
    s'.library.functions = s.library.functions := by
  obtain ⟨ty, s₁, h₁, h⟩ := declareVariable_ok h
  obtain ⟨types, classes, rfl⟩ := lowerType_frame h₁
  rcases h with ⟨-, n, types, -, -, rfl⟩ | ⟨-, -, rfl⟩ <;> rfl

/-- **Declaring a tree** gives each identity of the tree to a function. -/
theorem declareTree_gives (t : Tree) (s : Scope) (u : Unit) (s' : Scope)
    (h : declareTree t s = (.ok u, s')) : s'.library.functions.map Prod.fst =
      t.functionIds.reverse ++ s.library.functions.map Prod.fst := by
  obtain ⟨_, s₁, h₁, h⟩ := bind_ok.mp h
  obtain ⟨_, s₂, h₂, h₃⟩ := bind_ok.mp h
  let Same (s' : Scope) : Prop := s'.library.functions = s.library.functions
  have hclass : ∀ c, Upholds Same (declareClass c) fun _ => True := fun c =>
    Upholds.modify fun _ hs => hs
  have hs₁ : Same s₁ := ((Upholds.forM fun c _ => hclass c) _ _ _ h₁ rfl).1
  have hmembers : ∀ c, Upholds Same (declareMembers c) fun _ => True := by
    intro c s u s' h hs
    obtain ⟨shape, s₁, hshape, h⟩ := bind_ok.mp h
    obtain ⟨types, classes, rfl⟩ := classShape_frame hshape
    obtain ⟨fields, s₂, h₂, h⟩ := bind_ok.mp h
    obtain ⟨-, rfl⟩ := ok_eq_ok.mp h
    exact ⟨((Upholds.mapM (R := fun _ => True) fun v _ s f s' h hs =>
      ⟨(declareVariable_functions h).trans hs, True.intro⟩) _ _ _ h₂ hs).1, True.intro⟩
  have hs₂ : Same s₂ := ((Upholds.forM fun c _ => hmembers c) _ _ _ h₂ hs₁).1
  rw [← hs₂, Tree.functionIds]
  -- the classes one after the other
  have hall : ∀ cs : List ClassDecl, (∀ c ∈ cs, c ∈ t.classes) → ∀ s u s',
      cs.forM declareSignatures s = (.ok u, s') → s'.library.functions.map Prod.fst =
        (cs.flatMap fun c => c.preConstructor.toList ++ c.bodyIds).reverse ++
          s.library.functions.map Prod.fst := by
    intro cs hcs
    induction cs with
    | nil =>
      intro s u s' h
      obtain ⟨-, rfl⟩ := ok_eq_ok.mp h
      rfl
    | cons c cs ih =>
      intro s u s' h
      obtain ⟨hc, hcs⟩ := List.forall_mem_cons.mp hcs
      obtain ⟨_, s₁, h₁, h₂⟩ := bind_ok.mp h
      rw [ih hcs _ _ _ h₂, declareSignatures_gives hc h₁, List.flatMap_cons]
      simp only [List.reverse_append, List.append_assoc]
  exact hall t.classes (fun _ hc => hc) _ _ _ h₃

/-- What is listed once under a key is found. -/
theorem lookup_of_mem_of_nodup {κ α : Type} [BEq κ] [LawfulBEq κ] {table : List (κ × α)} {p : κ × α}
    (hnodup : (table.map Prod.fst).Nodup) (hp : p ∈ table) : table.lookup p.1 = some p.2 := by
  induction table with
  | nil => nomatch hp
  | cons q table ih =>
    obtain ⟨hq, hnodup⟩ := List.nodup_cons.mp hnodup
    rw [List.lookup_cons]
    rcases List.mem_cons.mp hp with rfl | hp
    · rw [beq_self_eq_true]
    · have hne : p.1 ≠ q.1 := fun heq => hq (heq ▸ List.mem_map_of_mem hp)
      rw [beq_false_of_ne hne]
      exact ih hnodup hp

/-- **Every declared function is awaited:** it is found as the pre-constructor of a class or by the
identity of one of the functions of a class. -/
theorem Awaiting.awaited {own : LibraryId} {ds : List Library} {s : Scope}
    (hs : s.Awaiting t own ds []) (hclasses : (t.classes.map ClassDecl.id).Nodup)
    (hnodup : (s.library.functions.map Prod.fst).Nodup) {i : Nat}
    (hi : i < s.library.routines.length) :
    ∃ c ∈ t.classes, c.Emits s ⟨own, i⟩ := by
  rcases hs.made i hi with ⟨c, hc, id, hid, hmem⟩ | ⟨c, hc, shape, hmem, hpre⟩
  · exact ⟨c, hc, .inr ⟨id, hid, Library.search?_of_own (lookup_of_mem_of_nodup hnodup hmem)⟩⟩
  · exact ⟨c, hc, .inl ⟨shape, (hs.settled hclasses _ hmem _ hpre rfl).2, hpre⟩⟩

end Scope

end Shader
