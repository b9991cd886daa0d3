import Shader.Library.Core
import Shader.Proofs.Calls.Discipline
import Shader.Proofs.Lowering.Declarations

/-!
# What a declared tree leaves behind

Declaring a tree gives every function, constructor, accessor and pre-constructor a new function of
the library. `Scope.Declaring` is the invariant of this phase: which functions identities stand for,
which functions initialize the objects of a class, and what is known of properties.

A function then stands for symbols of the tree (`Scope.Origin`): a named function for its identity,
and the pre-constructor of a class that gives it no identity for the member variables of the class.

Dependencies are `Foreign`: nothing that they say about functions is about the new library.
-/

namespace Shader

open Outcome

/-! ### Foreign libraries -/

namespace Rules

/-- No rule makes a call. -/
structure NoCalls (r : Rules) : Prop where
  binary : ∀ p ∈ r.binary, p.2 ≠ .instruction .functionCall
  unary : ∀ p ∈ r.unary, p.2 ≠ .instruction .functionCall
  conversions : ∀ p ∈ r.conversions,
    p.2 ≠ .instruction .functionCall ∧ ∀ zero, p.2 ≠ .toBool .functionCall zero
  intrinsics : ∀ p ∈ r.intrinsics, p.2 ≠ .instruction .functionCall

theorem noCalls_empty : NoCalls {} := ⟨nofun, nofun, nofun, nofun⟩

/-- The rules of the core library are single operations. -/
theorem noCalls_core : Core.rules.NoCalls where
  binary := by decide
  unary := by decide
  conversions := by simp [Core.rules, Core.dimensions, Core.conversionsIn]
  intrinsics := by decide

end Rules

/-- What a library says about functions is about its own ones. -/
structure Library.Owned (l : Library) : Prop where
  functions : ∀ p ∈ l.functions, p.2.library = l.id
  preConstructors : ∀ r ∈ l.records, ∀ g, r.preConstructor = some g → g.library = l.id
  noCalls : l.rules.NoCalls

/-- The libraries behind these ones speak of their own functions only and have other numbers. -/
def Library.Foreign (own : LibraryId) (ls : List Library) : Prop :=
  ∀ d ∈ ls, ∀ m : Library, m.Within d → m.id ≠ own ∧ m.Owned

theorem Library.Foreign.fresh {own : LibraryId} {ls : List Library} (h : Foreign own ls) :
    ∀ d ∈ ls, d.findLibrary? own = none :=
  fun d hd => findLibrary?_eq_none fun m hm => (h d hd m hm).1

/-- A library behind these ones records the function as what initializes the objects of a class. -/
def Library.Initializes (ls : List Library) (g : FunctionRef) : Prop :=
  ∃ d ∈ ls, ∃ m : Library, m.Within d ∧ ∃ r ∈ m.records, r.preConstructor = some g

theorem Library.Initializes.library_ne {own : LibraryId} {ls : List Library} {g : FunctionRef}
    (h : Library.Initializes ls g) (hf : Library.Foreign own ls) : g.library ≠ own := by
  obtain ⟨d, hd, m, hm, r, hr, hg⟩ := h
  obtain ⟨hne, howned⟩ := hf d hd m hm
  rw [howned.preConstructors r hr g hg]
  exact hne

/-! ### Signatures -/

theorem Tree.Signs.declares {t : Tree} {id : FunctionId} {takes : Bool} {ps : List ParameterDecl}
    (h : t.Signs id takes ps) : t.Declares id := by
  cases h with
  | function hc hf => exact ⟨_, Tree.mem_items_of_function hc hf, rfl⟩
  | accessor hc hv hf => exact ⟨_, Tree.mem_items_of_accessor hc hv hf, rfl⟩
  | constructor hc hk => exact ⟨_, Tree.mem_items_of_constructor hc hk, rfl⟩
  | preConstructor hc hid => exact ⟨_, Tree.mem_items_of_preConstructor hc hid, rfl⟩

/-! ### The invariant -/

namespace Scope

/-- What holds of the scope while a tree is declared into the library `own` on top of `ds`. -/
structure Declaring (t : Tree) (own : LibraryId) (ds : List Library) (s : Scope) : Prop where
  id : s.library.id = own
  dependencies : s.library.dependencies = ds
  foreign : Library.Foreign own ds
  noCalls : s.library.rules.NoCalls
  /-- An identity of the tree stands for a function of the library. -/
  named : ∀ id g, (id, g) ∈ s.library.functions →
    t.Declares id ∧ g.library = own ∧ g.index < s.library.routines.length
  /-- A function is named once. -/
  named_inj : ∀ id id' g, (id, g) ∈ s.library.functions → (id', g) ∈ s.library.functions → id = id'
  /-- What initializes the objects of a class is named by the class. -/
  shape : ∀ cid shape g, (cid, shape) ∈ s.classes → shape.preConstructor = some g →
    g.library = own → g.index < s.library.routines.length ∧ ∃ c ∈ t.classes, c.id = cid ∧
      (∀ id, c.preConstructor = some id → (id, g) ∈ s.library.functions) ∧
      (c.preConstructor = none → ∀ id, (id, g) ∉ s.library.functions)
  /-- A function initializes the objects of one class. -/
  shape_inj : ∀ cid cid' shape shape' g, (cid, shape) ∈ s.classes → (cid', shape') ∈ s.classes →
    shape.preConstructor = some g → shape'.preConstructor = some g → g.library = own → cid = cid'
  /-- Other classes are initialized as the dependencies say. -/
  imported : ∀ p ∈ s.classes, ∀ g, p.2.preConstructor = some g → g.library ≠ own →
    Library.Initializes ds g
  accessors : ∀ p ∈ s.accessors, ∃ v, .memberVariable v ∈ t.items ∧ v.id = p.1 ∧
    v.isField = false ∧ p.2 = (v.getter.map FunctionDecl.id, v.setter.map FunctionDecl.id)
  fields : ∀ p ∈ s.fields, ∃ v, .memberVariable v ∈ t.items ∧ v.id = p.1 ∧ v.isField = true
  /-- No function has a body yet. -/
  bodies : ∀ r ∈ s.library.routines, r.blocks = []
  records : ∀ r ∈ s.library.records, ∀ g, r.preConstructor = some g → g.library = own
  /-- What takes an object is said along with what is named. -/
  receivers : s.receivers.map Prod.fst = s.library.functions.map Prod.fst
  signed : ∀ p ∈ s.receivers, ∃ ps, t.Signs p.1 p.2 ps

/-- The symbols that a function stands for. -/
inductive Origin (t : Tree) (s : Scope) (g : FunctionRef) : Symbol → Prop
  | named {id : FunctionId} (h : (id, g) ∈ s.library.functions) : Origin t s g (.function id)
  | member {c : ClassDecl} {shape : ClassShape} {v : VariableDecl} (hc : c ∈ t.classes)
    (hpre : c.preConstructor = none) (hs : (c.id, shape) ∈ s.classes)
    (hg : shape.preConstructor = some g) (hv : v ∈ c.members) : Origin t s g (.property v.id)

variable {t : Tree} {own : LibraryId} {ds : List Library} {s : Scope} {c : ClassDecl}

namespace Declaring

variable {g : FunctionRef} {id : FunctionId}

section

variable (hs : s.Declaring t own ds)
include hs

section

variable (hc : (t.classes.map ClassDecl.id).Nodup)
include hc

/-- What is known of the function that initializes the objects of a class. -/
theorem shape_of_class (hmem : c ∈ t.classes) {shape : ClassShape}
    (hshape : (c.id, shape) ∈ s.classes) (hpre : shape.preConstructor = some g)
    (hown : g.library = own) :
    (∀ id, c.preConstructor = some id → (id, g) ∈ s.library.functions) ∧
      (c.preConstructor = none → ∀ id, (id, g) ∉ s.library.functions) := by
  obtain ⟨-, c', hmem', hid, h⟩ := hs.shape _ _ _ hshape hpre hown
  obtain rfl := List.inj_on_of_nodup_map hc hmem' hmem hid
  exact h

/-- A named function stands for its identity alone. -/
theorem origin_named {b : Symbol} (hg : (id, g) ∈ s.library.functions) (hb : s.Origin t g b) :
    b = .function id := by
  cases hb with
  | named h => exact congrArg Symbol.function (hs.named_inj _ _ _ h hg)
  | member hmem hpre hshape hshapeg =>
    have hown := (hs.named id g hg).2.1
    exact absurd hg ((hs.shape_of_class hc hmem hshape hshapeg hown).2 hpre id)

/-- The symbols that the pre-constructor of a class stands for initialize an object of the class. -/
theorem initializedBy {cid : ClassId} {shape : ClassShape} (hshape : (cid, shape) ∈ s.classes)
    (hpre : shape.preConstructor = some g) (hown : g.library = own) :
    ∃ c ∈ t.classes, c.id = cid ∧ ∀ b, s.Origin t g b → c.InitializedBy b := by
  obtain ⟨-, c, hmem, rfl, hnamed, hunnamed⟩ := hs.shape _ _ _ hshape hpre hown
  refine ⟨c, hmem, rfl, fun b hb => ?_⟩
  cases hid : c.preConstructor with
  | some id =>
    rw [hs.origin_named hc (hnamed id hid) hb]
    exact .preConstructor hid
  | none =>
    cases hb with
    | named h => exact absurd h (hunnamed hid _)
    | member hmem' _ hshape' hpre' hv =>
      have hcid := hs.shape_inj _ _ _ _ _ hshape' hshape hpre' hpre hown
      obtain rfl := List.inj_on_of_nodup_map hc hmem' hmem hcid
      exact .member hid hv

end

/-- A property is read by the getter and assigned by the setter that the tree declares for it. -/
theorem accessor_of_property {property : PropertyId} :
    (s.getter? (.property property) = some id →
      ∃ v, .memberVariable v ∈ t.items ∧ v.id = property ∧ ∃ g, v.getter = some g ∧ g.id = id) ∧
    (s.setter? (.property property) = some id →
      ∃ v, .memberVariable v ∈ t.items ∧ v.id = property ∧ ∃ g, v.setter = some g ∧ g.id = id) := by
  unfold getter? setter?
  dsimp only
  split
  · exact ⟨nofun, nofun⟩
  constructor
  all_goals
    intro h
    obtain ⟨p, hp, h⟩ := Option.bind_eq_some_iff.mp h
    obtain ⟨v, hv, hid, -, rfl⟩ := hs.accessors _ (mem_of_lookup_eq_some hp)
    exact ⟨v, hv, hid, Option.map_eq_some_iff.mp h⟩

end

end Declaring

/-! ### Steps of declaring keep the invariant -/

section Steps

/-- An operation on types does not touch what the invariant speaks of. -/
theorem onTypes_declaring {α : Type} (location : Location) (x : TypeM α) :
    Upholds (Declaring t own ds) (onTypes location x) fun _ => True := by
  intro s a s' h hs
  obtain ⟨types, -, rfl⟩ := onTypes_ok.mp h
  exact ⟨{ hs with }, True.intro⟩

/-- The pre-constructor of a class of a dependency is what the dependencies say. -/
theorem foreignClass?_initializes (hs : s.library.dependencies = ds) {id : ClassId}
    {source : Library} {ty : TypeRef} {g : FunctionRef}
    (h : s.foreignClass? id = some (source, ty, some g)) : Library.Initializes ds g := by
  obtain ⟨d, hd, -, -, hg⟩ := foreignClass?_ok h
  obtain ⟨r, hr, hg⟩ := Option.bind_eq_some_iff.mp hg
  obtain ⟨m, hm, hr⟩ := Library.exists_within_of_search? d hr
  exact ⟨d, hs ▸ hd, m, hm, r, List.mem_of_find?_eq_some hr, hg⟩

/-- A shape that is not of the library can be entered. -/
theorem Declaring.enterShape (hs : s.Declaring t own ds) (id : ClassId) (shape : ClassShape)
    (h : ∀ g, shape.preConstructor = some g → Library.Initializes ds g) :
    Declaring t own ds { s with classes := (id, shape) :: s.classes } := by
  -- a shape that is initialized by a function of the library is an old one
  have hold : ∀ {cid shape' g}, (cid, shape') ∈ (id, shape) :: s.classes →
      shape'.preConstructor = some g → g.library = own → (cid, shape') ∈ s.classes := by
    intro cid shape' g hmem hpre hown
    refine (List.mem_cons.mp hmem).resolve_left fun heq => ?_
    obtain ⟨-, rfl⟩ := Prod.mk.inj heq
    exact absurd hown ((h g hpre).library_ne hs.foreign)
  exact { hs with
    shape := fun cid shape' g hmem hpre hown => hs.shape cid shape' g (hold hmem hpre hown) hpre hown
    shape_inj := fun cid cid' a a' g hmem hmem' hpre hpre' hown =>
      hs.shape_inj cid cid' a a' g (hold hmem hpre hown) (hold hmem' hpre' hown) hpre hpre' hown
    imported := List.forall_mem_cons.mpr ⟨fun g hg _ => h g hg, hs.imported⟩ }

theorem classShape_declaring (id : ClassId) (location : Location) :
    Upholds (Declaring t own ds) (classShape id location) fun _ => True := by
  intro s shape s' h hs
  rcases classShape_ok h with ⟨-, rfl⟩ | ⟨-, source, ty, types, hforeign, -, rfl⟩
  · exact ⟨hs, True.intro⟩
  · have hs' : (s.withTypes types).Declaring t own ds := { hs with }
    refine ⟨hs'.enterShape id shape fun g hg => ?_, True.intro⟩
    exact foreignClass?_initializes hs.dependencies (hg ▸ hforeign)

theorem lowerType_declaring (spec : TypeSpec) (location : Location) :
    Upholds (Declaring t own ds) (lowerType spec location) fun _ => True := by
  unfold lowerType
  split
  · exact (classShape_declaring _ location).bind fun _ _ => .pure True.intro
  · exact onTypes_declaring location _

theorem declareClass_declaring (c : ClassDecl) :
    Upholds (Declaring t own ds) (declareClass c) fun _ => True := by
  refine Upholds.modify fun s hs => ?_
  have hs' : Declaring t own ds { s with classes := (c.id, ⟨(s.library.types.internStruct c.name).1,
      none⟩) :: s.classes } := hs.enterShape _ _ nofun
  exact { hs' with }

theorem declareVariable_declaring (hc : c ∈ t.classes) (owner : TypeRef) {v : VariableDecl}
    (hv : v ∈ c.members) :
    Upholds (Declaring t own ds) (declareVariable c owner v) fun _ => True := by
  have hitem : .memberVariable v ∈ t.items := Tree.mem_items_of_member hc hv
  intro s f s' h hs
  obtain ⟨ty, s₁, h₁, h⟩ := declareVariable_ok h
  have hs₁ := (lowerType_declaring v.ty v.location _ _ _ h₁ hs).1
  rcases h with ⟨hfield, n, types, -, -, rfl⟩ | ⟨hfield, -, rfl⟩
  · exact ⟨{ hs₁ with fields := List.forall_mem_cons.mpr ⟨⟨v, hitem, rfl, hfield⟩, hs₁.fields⟩ },
      True.intro⟩
  · exact ⟨{ hs₁ with
      accessors := List.forall_mem_cons.mpr ⟨⟨v, hitem, rfl, hfield, rfl⟩, hs₁.accessors⟩ }, True.intro⟩

theorem declareMembers_declaring (hc : c ∈ t.classes) :
    Upholds (Declaring t own ds) (declareMembers c) fun _ => True := by
  unfold declareMembers
  refine (classShape_declaring c.id c.location).bind fun shape _ => ?_
  refine (Upholds.mapM fun v hv => declareVariable_declaring hc shape.ty hv).bind fun fields _ => ?_
  refine Upholds.modify fun s hs => ?_
  refine { hs with records := fun r hr g hg => ?_ }
  rcases List.mem_append.mp hr with hr | hr
  · exact hs.records r hr g hg
  · obtain rfl := List.mem_singleton.mp hr
    nomatch hg

theorem changeRecord_declaring (id : ClassId) {change : ClassRecord → ClassRecord}
    (h : ∀ r g, (change r).preConstructor = some g → g.library = own ∨ r.preConstructor = some g) :
    Upholds (Declaring t own ds) (changeRecord id change) fun _ => True := by
  intro s u s' hrun hs
  obtain ⟨records, rfl, hrecords⟩ := changeRecord_ok hrun
  refine ⟨{ hs with records := fun r hr g hg => ?_ }, True.intro⟩
  rcases hrecords r hr with hr | ⟨r', hr', rfl⟩
  · exact hs.records r hr g hg
  · exact (h r' g hg).elim (fun h => h) (hs.records r' hr' g)

end Steps

/-! ### New functions -/

/-- **A new function is unused.** Nothing stands for a function that has just been created. -/
structure Unused (t : Tree) (own : LibraryId) (ds : List Library) (f : FunctionRef) (s : Scope) :
    Prop
    extends s.Declaring t own ds where
  library : f.library = own
  lt : f.index < s.library.routines.length
  not_named : ∀ id, (id, f) ∉ s.library.functions
  not_shape : ∀ cid shape, (cid, shape) ∈ s.classes → shape.preConstructor ≠ some f

variable {f : FunctionRef} {c : ClassDecl}

theorem createRoutine_unused {owner functionType : TypeRef} {name : String} {location : Location}
    {s s' : Scope} (hs : s.Declaring t own ds)
    (h : createRoutine owner name functionType location s = (.ok f, s')) :
    Unused t own ds f s' := by
  obtain ⟨rfl, _, types, -, rfl⟩ := createRoutine_ok h
  have hlength : (s.withRoutine types name owner functionType).library.routines.length =
      s.library.routines.length + 1 := by simp [withRoutine]
  refine { hs with named := ?_, shape := ?_, bodies := ?_, library := hs.id, lt := ?_,
                   not_named := ?_, not_shape := ?_ }
  · intro id g hg
    obtain ⟨h₁, h₂, h₃⟩ := hs.named id g hg
    exact ⟨h₁, h₂, by omega⟩
  · intro cid shape g hmem hpre hown
    obtain ⟨h₁, h₂⟩ := hs.shape cid shape g hmem hpre hown
    exact ⟨by omega, h₂⟩
  · intro r hr
    rcases List.mem_append.mp hr with hr | hr
    · exact hs.bodies r hr
    · obtain rfl := List.mem_singleton.mp hr
      rfl
  · simp [hlength]
  · intro id hid
    have := (hs.named id _ hid).2.2
    simp at this
  · intro cid shape hmem hpre
    have := (hs.shape cid shape _ hmem hpre hs.id).1
    simp at this

/-- An unused function can be named. -/
theorem Unused.declaring_named {id : FunctionId} (hs : Unused t own ds f s) {takesObject : Bool}
    {ps : List ParameterDecl} (hid : t.Signs id takesObject ps) :
    (s.named id f takesObject).Declaring t own ds := by
  refine { hs.toDeclaring with named := ?_, named_inj := ?_, shape := ?_,
                               receivers := congrArg (id :: ·) hs.receivers,
                               signed := List.forall_mem_cons.mpr ⟨⟨ps, hid⟩, hs.signed⟩ }
  · intro id' g hg
    rcases mem_functions_named.mp hg with ⟨rfl, rfl⟩ | hg
    · exact ⟨hid.declares, hs.library, hs.lt⟩
    · exact hs.named id' g hg
  · intro id₁ id₂ g h₁ h₂
    rcases mem_functions_named.mp h₁ with ⟨rfl, rfl⟩ | old₁
    · rcases mem_functions_named.mp h₂ with ⟨rfl, -⟩ | old₂
      · rfl
      · exact absurd old₂ (hs.not_named _)
    · rcases mem_functions_named.mp h₂ with ⟨rfl, rfl⟩ | old₂
      · exact absurd old₁ (hs.not_named _)
      · exact hs.named_inj _ _ _ old₁ old₂
  · intro cid shape g hmem hpre hown
    obtain ⟨hlt, c, hc, hcid, hnamed, hunnamed⟩ := hs.shape cid shape g hmem hpre hown
    refine ⟨hlt, c, hc, hcid, fun i hi => mem_functions_named.mpr (.inr (hnamed i hi)),
      fun hnone i hi => ?_⟩
    rcases mem_functions_named.mp hi with ⟨-, rfl⟩ | hi
    · exact hs.not_shape cid shape hmem hpre
    · exact hunnamed hnone i hi

/-- An unused function can initialize the objects of a class, once it has the name that the class
gives it. -/
theorem Unused.shaped {s s' : Scope} (hc : c ∈ t.classes) (hs : Unused t own ds f s)
    (hs' : s'.Declaring t own ds) (hclasses : s'.classes = s.classes)
    (hlt : f.index < s'.library.routines.length)
    (hfunctions : ∀ id, (id, f) ∈ s'.library.functions ↔ c.preConstructor = some id)
    (shape : ClassShape) :
    Declaring t own ds
      { s' with classes := (c.id, { shape with preConstructor := some f }) :: s'.classes } := by
  have hold : ∀ cid shape', (cid, shape') ∈ s'.classes → shape'.preConstructor ≠ some f := by
    rw [hclasses]
    exact hs.not_shape
  refine { hs' with shape := ?_, shape_inj := ?_, imported := ?_ }
  · intro cid shape' g hmem hpre hown
    rcases List.mem_cons.mp hmem with heq | hmem
    · cases heq
      cases hpre
      refine ⟨hlt, c, hc, rfl, fun id hid => (hfunctions id).mpr hid, fun hnone id hid => ?_⟩
      rw [(hfunctions id).mp hid] at hnone
      nomatch hnone
    · exact hs'.shape cid shape' g hmem hpre hown
  · intro cid cid' a a' g hmem hmem' hpre hpre' hown
    rcases List.mem_cons.mp hmem with heq | hmem
    · cases heq
      cases hpre
      rcases List.mem_cons.mp hmem' with heq' | hmem'
      · exact (Prod.mk.inj heq').1.symm
      · exact absurd hpre' (hold _ _ hmem')
    · rcases List.mem_cons.mp hmem' with heq' | hmem'
      · cases heq'
        cases hpre'
        exact absurd hpre (hold _ _ hmem)
      · exact hs'.shape_inj cid cid' a a' g hmem hmem' hpre hpre' hown
  · refine List.forall_mem_cons.mpr ⟨fun g hg hne => ?_, hs'.imported⟩
    cases hg
    exact absurd hs.library hne

/-- **Declaring a pre-constructor.** The function is named if the class names it, and then becomes part
of the shape of the class. -/
theorem Initializing.declaring (hc : c ∈ t.classes) {s' : Scope} (h : Initializing c s s')
    (hs : s.Declaring t own ds) : s'.Declaring t own ds := by
  obtain ⟨_, _, _, _, f, s₁, _, hcreate, hchange⟩ := h
  have hunused := createRoutine_unused hs hcreate
  refine (changeRecord_declaring c.id (fun r g hg => .inl ?_) _ _ _ hchange ?_).1
  · exact Option.some.inj hg ▸ hunused.library
  have hnamed : Declaring t own ds { s₁ with
      receivers := c.preConstructor.toList.map (·, true) ++ s₁.receivers
      library := { s₁.library with
        functions := c.preConstructor.toList.map (·, f) ++ s₁.library.functions } } := by
    cases hpre : c.preConstructor with
    | none => exact { hunused.toDeclaring with }
    | some id => exact hunused.declaring_named (.preConstructor hc hpre)
  unfold told
  cases s₁.classes.lookup c.id with
  | none => exact hnamed
  | some shape =>
    refine hunused.shaped hc hnamed rfl hunused.lt (fun id => ?_) shape
    simp [hunused.not_named id]

theorem Signing.declaring {ids : List FunctionId} {s₀ : Scope} (h : Signing t c s₀ ids s)
    (hs₀ : s₀.Declaring t own ds) : s.Declaring t own ds := by
  induction h with
  | start => exact hs₀
  | lowerType _ h ih => exact (lowerType_declaring _ _ _ _ _ h ih).1
  | pointerType _ h ih => exact (onTypes_declaring _ _ _ _ _ h ih).1
  | functionType _ h ih => exact (onTypes_declaring _ _ _ _ _ h ih).1
  | classShape _ h ih => exact (classShape_declaring _ _ _ _ _ h ih).1
  | function _ _ hsigns h ih => exact (createRoutine_unused ih h).declaring_named hsigns
  | defaultConstructor _ h ih =>
    refine (changeRecord_declaring _ ?_ _ _ _ h ih).1
    exact fun _ _ => .inr

/-! ### Declaring a tree -/

/-- An empty library on top of foreign ones. -/
theorem declaring_empty {name : String} (hf : Library.Foreign own ds) :
    Declaring t own ds { library := { id := own, name := name, dependencies := ds } } where
  id := rfl
  dependencies := rfl
  foreign := hf
  noCalls := Rules.noCalls_empty
  named := nofun
  named_inj := nofun
  shape := nofun
  shape_inj := nofun
  imported := nofun
  accessors := nofun
  fields := nofun
  bodies := nofun
  records := nofun
  receivers := rfl
  signed := nofun

/-- Declaring a tree keeps the invariant. -/
theorem declareTree_declaring :
    Upholds (Declaring t own ds) (declareTree t) fun _ => True := by
  refine (Upholds.forM fun c _ => declareClass_declaring c).bind fun _ _ => ?_
  refine (Upholds.forM fun c hc => declareMembers_declaring hc).bind fun _ _ => ?_
  exact Upholds.forM fun c hc => declareSignatures_keeps hc Signing.declaring
    (Initializing.declaring hc)

end Scope

end Shader
