import Shader.Lowering.Declare
import Shader.Proofs.Library.Within
import Shader.Proofs.Lowering.Steps

/-!
# What declaring does

Each operation that a tree is declared by is described by the scope that it leaves behind, so that what
is true of a declared tree can be read off step by step.

* `Scope.Signing` — the scopes that declaring the signatures of a class comes to, with the identities
  that have been given to functions; `Scope.Initializing` is the step that declares a pre-constructor.
-/

namespace Shader

open Outcome

/-- The identities of the functions that are emitted with a class. -/
def ClassDecl.bodyIds (c : ClassDecl) : List FunctionId :=
  c.constructors.map ConstructorDecl.id ++ (c.functions.map FunctionDecl.id ++
    c.members.flatMap fun v => v.accessors.map FunctionDecl.id)

/-- **Signatures.** What stands for a function in a tree, whether it takes an object, and its
parameters. An accessor takes one even if it is called static. -/
inductive Tree.Signs (t : Tree) : FunctionId → Bool → List ParameterDecl → Prop
  | function {c : ClassDecl} {f : FunctionDecl} (hc : c ∈ t.classes) (hf : f ∈ c.functions) :
    Signs t f.id (!f.isStatic) f.parameters
  | accessor {c : ClassDecl} {v : VariableDecl} {f : FunctionDecl} (hc : c ∈ t.classes)
    (hv : v ∈ c.members) (hf : f ∈ v.accessors) : Signs t f.id true f.parameters
  | constructor {c : ClassDecl} {k : ConstructorDecl} (hc : c ∈ t.classes)
    (hk : k ∈ c.constructors) : Signs t k.id true k.parameters
  | preConstructor {c : ClassDecl} {id : FunctionId} (hc : c ∈ t.classes)
    (hid : c.preConstructor = some id) : Signs t id true []

namespace Scope

variable {s s' : Scope}

/-! ### Looking for classes and types -/

variable {id : ClassId} {shape : ClassShape} {location : Location} {ty : TypeRef} {u : Unit}

/-- **A class of a dependency** has its type in a library behind the dependency. -/
theorem foreignClass?_ok {source : Library} {pre : Option FunctionRef}
    (h : s.foreignClass? id = some (source, ty, pre)) :
    ∃ d ∈ s.library.dependencies, source.Within d ∧ source.classTypes.lookup id = some ty ∧
      (d.findRecord? id).bind ClassRecord.preConstructor = pre := by
  obtain ⟨d, hd, h⟩ := List.exists_of_findSome?_eq_some h
  obtain ⟨⟨source', ty'⟩, hfind, h⟩ := Option.bind_eq_some_iff.mp h
  obtain ⟨rfl, rfl, hpre⟩ : source' = source ∧ ty' = ty ∧
      (d.findRecord? id).bind ClassRecord.preConstructor = pre := by simpa using h
  obtain ⟨m, hm, hfind⟩ := Library.exists_within_of_search? d hfind
  obtain ⟨_, hty, heq⟩ := Option.map_eq_some_iff.mp hfind
  cases heq
  exact ⟨d, hd, hm, hty, hpre⟩

/-- **Looking for a class** finds its shape, or copies its type from a dependency. -/
theorem classShape_ok (h : classShape id location s = (.ok shape, s')) :
    s.classes.lookup id = some shape ∧ s' = s ∨
    s.classes.lookup id = none ∧ ∃ source ty types,
      s.foreignClass? id = some (source, ty, shape.preConstructor) ∧
      Registry.importType source.types ty s.library.types = (.ok shape.ty, types) ∧
      s' = { s.withTypes types with classes := (id, shape) :: s.classes } := by
  replace h := after_ok h rfl
  cases hlookup : s.classes.lookup id with
  | some shape' =>
    rw [hlookup] at h
    obtain ⟨rfl, rfl⟩ := ok_eq_ok.mp h
    exact .inl ⟨rfl, rfl⟩
  | none =>
    rw [hlookup] at h
    dsimp only at h
    cases hforeign : s.foreignClass? id with
    | none =>
      rw [hforeign] at h
      exact absurd h error_ne_ok
    | some p =>
      rw [hforeign] at h
      obtain ⟨ty, s₁, h₁, h⟩ := bind_ok.mp h
      obtain ⟨types, htypes, rfl⟩ := onTypes_ok.mp h₁
      replace h := after_ok h rfl
      obtain ⟨rfl, rfl⟩ := ok_eq_ok.mp h
      exact .inr ⟨rfl, p.1, p.2.1, types, rfl, htypes, rfl⟩

/-- A class that has a shape is not looked for any further. -/
theorem classShape_eq (hlookup : s.classes.lookup id = some shape) (location : Location) :
    classShape id location s = (.ok shape, s) := by
  refine bind_ok.mpr ⟨s, s, rfl, ?_⟩
  rw [hlookup]
  rfl

theorem classShape_of_lookup {shape' : ClassShape} (hlookup : s.classes.lookup id = some shape)
    (h : classShape id location s = (.ok shape', s')) : shape' = shape ∧ s' = s := by
  obtain ⟨rfl, rfl⟩ := ok_eq_ok.mp ((classShape_eq hlookup location).symm.trans h)
  exact ⟨rfl, rfl⟩

/-- A type is that of a class or a builtin one. -/
theorem lowerType_ok {spec : TypeSpec} (h : lowerType spec location s = (.ok ty, s')) :
    (∃ id shape, spec = .ofClass id ∧ ty = shape.ty ∧ classShape id location s = (.ok shape, s')) ∨
    ∃ types, Registry.lowerBuiltin spec s.library.types = (.ok ty, types) ∧
      s' = s.withTypes types := by
  have hbuiltin : onTypes location (Registry.lowerBuiltin spec) s = (.ok ty, s') →
      ∃ types, Registry.lowerBuiltin spec s.library.types = (.ok ty, types) ∧
        s' = s.withTypes types := onTypes_ok.mp
  cases spec with
  | ofClass id =>
    obtain ⟨shape, _, hshape, rfl, rfl⟩ := return_ok.mp h
    exact .inl ⟨id, shape, rfl, rfl, hshape⟩
  | _ => exact .inr (hbuiltin h)

/-- Looking for a class changes types and shapes only. -/
theorem classShape_frame (h : classShape id location s = (.ok shape, s')) :
    ∃ types classes, s' = { s.withTypes types with classes := classes } := by
  rcases classShape_ok h with ⟨-, rfl⟩ | ⟨-, _, _, types, -, -, rfl⟩
  · exact ⟨s'.library.types, s'.classes, s'.withTypes_self.symm⟩
  · exact ⟨types, _, rfl⟩

theorem lowerType_frame {spec : TypeSpec} (h : lowerType spec location s = (.ok ty, s')) :
    ∃ types classes, s' = { s.withTypes types with classes := classes } := by
  rcases lowerType_ok h with ⟨_, _, -, -, h⟩ | ⟨types, -, rfl⟩
  · exact classShape_frame h
  · exact ⟨types, s.classes, rfl⟩

/-! ### Members and records -/

/-- **Declaring a member variable.** A field becomes a member of the struct, and of any other variable
the accessors are kept. -/
theorem declareVariable_ok {c : ClassDecl} {owner : TypeRef} {v : VariableDecl} {f : FieldRecord}
    (h : declareVariable c owner v s = (.ok f, s')) :
    ∃ ty s₁, lowerType v.ty v.location s = (.ok ty, s₁) ∧
      (v.isField = true ∧ (∃ n types,
          Registry.addMember owner ty v.name s₁.library.types = (.ok n, types) ∧
          f = { name := v.name, property := v.id, ty := ty, member := some n } ∧
          s' = { s₁.withTypes types with fields := (v.id, n) :: s₁.fields }) ∨
        v.isField = false ∧ f = { name := v.name, property := v.id, ty := ty, member := none } ∧
          s' = { s₁ with accessors := (v.id, v.getter.map FunctionDecl.id,
            v.setter.map FunctionDecl.id) :: s₁.accessors }) := by
  unfold declareVariable at h
  split at h
  · obtain ⟨_, _, h, -⟩ := bind_ok.mp h
    exact absurd h error_ne_ok
  obtain ⟨ty, s₁, h₁, h⟩ := bind_ok.mp h
  refine ⟨ty, s₁, h₁, ?_⟩
  cases hfield : v.isField with
  | true =>
    rw [hfield] at h
    obtain ⟨n, _, h₂, h⟩ := bind_ok.mp h
    obtain ⟨types, htypes, rfl⟩ := onTypes_ok.mp h₂
    replace h := after_ok h rfl
    obtain ⟨rfl, rfl⟩ := ok_eq_ok.mp h
    exact .inl ⟨rfl, n, types, htypes, rfl, rfl⟩
  | false =>
    rw [hfield] at h
    replace h := after_ok h rfl
    obtain ⟨rfl, rfl⟩ := ok_eq_ok.mp h
    exact .inr ⟨rfl, rfl, rfl⟩

/-- Changing a record changes nothing else. -/
theorem changeRecord_ok {change : ClassRecord → ClassRecord}
    (h : changeRecord id change s = (.ok u, s')) :
    ∃ records, s' = { s with library := { s.library with records := records } } ∧
      ∀ r ∈ records, r ∈ s.library.records ∨ ∃ r' ∈ s.library.records, r = change r' := by
  obtain ⟨-, rfl⟩ := ok_eq_ok.mp h
  dsimp only
  split
  · exact ⟨_, rfl, fun r hr => mem_of_mem_modify hr⟩
  · refine ⟨s.library.records, ?_, fun r hr => .inl hr⟩
    obtain ⟨l, _, _, _, _⟩ := s
    cases l
    rfl

/-! ### New functions -/

/-- The scope after a function without a body has been created. -/
def withRoutine (s : Scope) (types : Registry) (name : String) (owner functionType : TypeRef) :
    Scope :=
  { s with library := { s.library with
      types := types,
      routines := s.library.routines ++ [⟨name, owner, functionType, [], [], [], 0⟩] } }

theorem createRoutine_ok {owner functionType : TypeRef} {name : String} {f : FunctionRef}
    (h : createRoutine owner name functionType location s = (.ok f, s')) :
    f = ⟨s.library.id, s.library.routines.length⟩ ∧
      ∃ u types, Registry.addFunction owner f s.library.types = (.ok u, types) ∧
        s' = s.withRoutine types name owner functionType := by
  unfold createRoutine Library.createRoutine Library.onTypes at h
  dsimp only at h
  generalize hr :
    Registry.addFunction owner ⟨s.library.id, s.library.routines.length⟩ s.library.types = r at h
  rcases r with ⟨e | u, types⟩
  · exact absurd h error_ne_ok
  · obtain ⟨rfl, rfl⟩ := ok_eq_ok.mp h
    exact ⟨rfl, u, types, hr, rfl⟩

/-- The scope in which an identity stands for a function. -/
def named (s : Scope) (id : FunctionId) (f : FunctionRef) (takesObject : Bool) : Scope :=
  { s with library := s.library.setFunction id f, receivers := (id, takesObject) :: s.receivers }

theorem mem_functions_named {id id' : FunctionId} {f g : FunctionRef} {takesObject : Bool} :
    (id', g) ∈ (s.named id f takesObject).library.functions ↔
      id' = id ∧ g = f ∨ (id', g) ∈ s.library.functions := by
  simp [named, Library.setFunction]

/-- The scope in which a class is told which function initializes its objects. The class may have an
identity for it. -/
def told (s : Scope) (c : ClassDecl) (f : FunctionRef) : Scope :=
  { s with
    classes := match s.classes.lookup c.id with
      | some shape => (c.id, { shape with preConstructor := some f }) :: s.classes
      | none => s.classes
    receivers := c.preConstructor.toList.map (·, true) ++ s.receivers
    library := { s.library with
      functions := c.preConstructor.toList.map (·, f) ++ s.library.functions } }

theorem told_of_lookup {c : ClassDecl} (f : FunctionRef) (h : s.classes.lookup c.id = some shape) :
    (s.told c f).classes = (c.id, { shape with preConstructor := some f }) :: s.classes := by
  rw [told, h]

/-! ### Signatures -/

theorem declarePreConstructor_eq (c : ClassDecl) (owner object void : TypeRef) :
    declarePreConstructor c owner object void = (do
      let functionType ← onTypes c.location (Registry.functionType void [object])
      let f ← createRoutine owner "PreConstructor" functionType c.location
      modify (·.told c f)
      changeRecord c.id fun r => { r with preConstructor := some f }) := by
  refine bind_congr fun functionType => bind_congr fun f => funext fun s => ?_
  have hmodify : ∀ (g : Scope → Scope) (k : PUnit → ScopeM Unit) s,
      ((modify g : ScopeM PUnit) >>= k) s = k ⟨⟩ (g s) := fun _ _ _ => rfl
  obtain ⟨⟨⟩, classes, _, _, _⟩ := s
  cases hpre : c.preConstructor <;> cases hlookup : classes.lookup c.id
  all_goals
    simp only [nameFunction, hmodify, told, hpre, hlookup]
    rfl

/-- The functions of a class, after its pre-constructor. -/
def declareBodies (c : ClassDecl) (owner : TypeRef) : ScopeM Unit := do
  c.constructors.forM fun k => do
    let f ← declareFunction owner "Constructor" k.id k.parameters .void true k.location
    if k.parameters.isEmpty then
      changeRecord c.id fun r => { r with defaultConstructor := some f }
  c.functions.forM fun f => do
    let _ ← declareFunction owner f.name f.id f.parameters f.result (!f.isStatic) f.location
  c.members.forM fun v => do
    v.getter.forM (declareAccessor owner ("Get" ++ v.name))
    v.setter.forM (declareAccessor owner ("Set" ++ v.name))

theorem declareSignatures_eq (c : ClassDecl) : declareSignatures c = (do
    let owner := (← classShape c.id c.location).ty
    let object ← onTypes c.location (Registry.pointerType owner)
    let void ← lowerType .void c.location
    if c.preConstructor.isSome ∨ c.needsPreConstructor then
      declarePreConstructor c owner object void
    declareBodies c owner) := rfl

/-- **Declaring a pre-constructor.** A new function is made known to the class and to its record. -/
def Initializing (c : ClassDecl) (s s' : Scope) : Prop :=
  ∃ owner name functionType location f s₁ u,
    createRoutine owner name functionType location s = (.ok f, s₁) ∧
    changeRecord c.id (fun r => { r with preConstructor := some f }) (s₁.told c f) = (.ok u, s')

/-- **The scopes that declaring the functions of a class comes to.** Types and classes are looked for,
functions are created and named, and the record of the class is told its default constructor. -/
inductive Signing (t : Tree) (c : ClassDecl) (s₀ : Scope) : List FunctionId → Scope → Prop
  | start : Signing t c s₀ [] s₀
  | lowerType {ids : List FunctionId} {s s' : Scope} {spec : TypeSpec} {location : Location}
    {ty : TypeRef} (hs : Signing t c s₀ ids s)
    (h : Scope.lowerType spec location s = (.ok ty, s')) : Signing t c s₀ ids s'
  | pointerType {ids : List FunctionId} {s s' : Scope} {ty pointer : TypeRef} {location : Location}
    (hs : Signing t c s₀ ids s)
    (h : onTypes location (Registry.pointerType ty) s = (.ok pointer, s')) : Signing t c s₀ ids s'
  | functionType {ids : List FunctionId} {s s' : Scope} {result ty : TypeRef}
    {parameters : List TypeRef} {location : Location} (hs : Signing t c s₀ ids s)
    (h : onTypes location (Registry.functionType result parameters) s = (.ok ty, s')) :
    Signing t c s₀ ids s'
  | classShape {ids : List FunctionId} {s s' : Scope} {id : ClassId} {location : Location}
    {shape : ClassShape} (hs : Signing t c s₀ ids s)
    (h : Scope.classShape id location s = (.ok shape, s')) : Signing t c s₀ ids s'
  | function {ids : List FunctionId} {s s' : Scope} {owner functionType : TypeRef} {name : String}
    {location : Location} {f : FunctionRef} {id : FunctionId} {takesObject : Bool}
    {ps : List ParameterDecl} (hs : Signing t c s₀ ids s) (hid : id ∈ c.bodyIds)
    (hsigns : t.Signs id takesObject ps)
    (h : createRoutine owner name functionType location s = (.ok f, s')) :
    Signing t c s₀ (ids ++ [id]) (s'.named id f takesObject)
  | defaultConstructor {ids : List FunctionId} {s s' : Scope} {f : FunctionRef} {u : Unit}
    (hs : Signing t c s₀ ids s)
    (h : changeRecord c.id (fun r => { r with defaultConstructor := some f }) s = (.ok u, s')) :
    Signing t c s₀ ids s'

section Signing

variable {t : Tree} {c : ClassDecl} {s₀ : Scope} {ids : List FunctionId}

theorem lowerType_signing (spec : TypeSpec) (location : Location) :
    Upholds (Signing t c s₀ ids) (lowerType spec location) fun _ => True :=
  fun _ _ _ h hs => ⟨hs.lowerType h, True.intro⟩

theorem declareFunction_signing (owner : TypeRef) (name : String) {id : FunctionId}
    {parameters : List ParameterDecl} {takesObject : Bool} (hid : id ∈ c.bodyIds)
    (hsigns : t.Signs id takesObject parameters) (result : TypeSpec) (location : Location) :
    Turns (Signing t c s₀ ids) (Signing t c s₀ (ids ++ [id]))
      (declareFunction owner name id parameters result takesObject location) := by
  have hpointer : Upholds (Signing t c s₀ ids) (onTypes location (Registry.pointerType owner))
      fun _ => True := fun _ _ _ h hs => ⟨hs.pointerType h, True.intro⟩
  unfold declareFunction
  refine .ite (hpointer.bind_turns fun _ _ => ?_) ?_
  all_goals
    refine (Upholds.pure (Q := fun _ => True) True.intro).bind_turns fun object _ => ?_
    refine (Upholds.mapM fun p _ => lowerType_signing p.ty location).bind_turns fun types _ => ?_
    refine (lowerType_signing result location).bind_turns fun result _ s f s' h hs => ?_
    obtain ⟨_, s₁, h₁, h⟩ := bind_ok.mp h
    obtain ⟨_, s₂, h₂, h⟩ := bind_ok.mp h
    replace h := after_ok h rfl
    obtain ⟨-, rfl⟩ := ok_eq_ok.mp h
    exact (hs.functionType h₁).function hid hsigns h₂

theorem forM_signing {α : Type} {as : List α} {f : α → ScopeM PUnit} {g : α → List FunctionId}
    (hf : ∀ a ∈ as, ∀ ids, Turns (Signing t c s₀ ids) (Signing t c s₀ (ids ++ g a)) (f a)) :
    Turns (Signing t c s₀ ids) (Signing t c s₀ (ids ++ as.flatMap g)) (as.forM f) := by
  induction as generalizing ids with
  | nil =>
    intro s u s' h hs
    obtain ⟨-, rfl⟩ := ok_eq_ok.mp h
    simpa using hs
  | cons a as ih =>
    rw [List.flatMap_cons, ← List.append_assoc]
    exact (hf a List.mem_cons_self ids).seq fun _ =>
      ih fun b hb => hf b (List.mem_cons_of_mem a hb)

theorem declareAccessor_signing (owner : TypeRef) (name : String) (hc : c ∈ t.classes)
    {v : VariableDecl} (hv : v ∈ c.members) {o : Option FunctionDecl}
    (ho : ∀ f ∈ o, f ∈ v.accessors) :
    Turns (Signing t c s₀ ids) (Signing t c s₀ (ids ++ o.toList.map FunctionDecl.id))
      (o.forM (declareAccessor owner name)) := by
  cases o with
  | none =>
    intro s u s' h hs
    obtain ⟨-, rfl⟩ := ok_eq_ok.mp h
    simpa using hs
  | some f =>
    have hid : f.id ∈ c.bodyIds := by
      simp only [ClassDecl.bodyIds, List.mem_append, List.mem_flatMap]
      exact .inr (.inr ⟨v, hv, List.mem_map_of_mem (ho f rfl)⟩)
    exact (declareFunction_signing owner name hid (.accessor hc hv (ho f rfl)) f.result
      f.location).bind fun _ => .pure (Q := fun _ => True) True.intro

/-- The identities of a class are given in the order in which they are declared. -/
theorem declareBodies_signing (hc : c ∈ t.classes) (owner : TypeRef) :
    Turns (Signing t c s₀ []) (Signing t c s₀ c.bodyIds) (declareBodies c owner) := by
  have hconstructors : Turns (Signing t c s₀ [])
      (Signing t c s₀ (c.constructors.map ConstructorDecl.id)) (c.constructors.forM fun k => do
        let f ← declareFunction owner "Constructor" k.id k.parameters .void true k.location
        if k.parameters.isEmpty then
          changeRecord c.id fun r => { r with defaultConstructor := some f }) := by
    rw [List.map_eq_flatMap]
    refine forM_signing fun k hk ids => ?_
    have hid : k.id ∈ c.bodyIds := List.mem_append_left _ (List.mem_map_of_mem hk)
    refine (declareFunction_signing owner "Constructor" hid (.constructor hc hk) .void
      k.location).bind (Q := fun _ => True) fun f => .ite (fun _ => ?_) fun _ => .pure True.intro
    exact fun _ _ _ h hs => ⟨hs.defaultConstructor h, True.intro⟩
  refine hconstructors.seq fun _ => ?_
  unfold ClassDecl.bodyIds
  rw [← List.append_assoc, List.map_eq_flatMap (l := c.functions)]
  refine (forM_signing fun f hf ids => ?_).seq fun _ => forM_signing fun v hv ids => ?_
  · have hid : f.id ∈ c.bodyIds :=
      List.mem_append_right _ (List.mem_append_left _ (List.mem_map_of_mem hf))
    exact (declareFunction_signing owner f.name hid (.function hc hf) f.result f.location).bind
      fun _ => .pure (Q := fun _ => True) True.intro
  · rw [VariableDecl.accessors, List.map_append, ← List.append_assoc]
    refine (declareAccessor_signing owner _ hc hv fun f hf => ?_).seq fun _ =>
      declareAccessor_signing owner _ hc hv fun f hf => ?_
    all_goals simp [VariableDecl.accessors, Option.mem_def.mp hf]

theorem declarePreConstructor_ok {owner object void : TypeRef} (hs : Signing t c s₀ [] s)
    (h : declarePreConstructor c owner object void s = (.ok u, s')) :
    ∃ s₁, Signing t c s₀ [] s₁ ∧ Initializing c s₁ s' := by
  rw [declarePreConstructor_eq] at h
  obtain ⟨_, s₁, h₁, h⟩ := bind_ok.mp h
  obtain ⟨f, s₂, h₂, h⟩ := bind_ok.mp h
  replace h := after_ok h rfl
  exact ⟨s₁, hs.functionType h₁, _, _, _, _, f, s₂, u, h₂, h⟩

/-- **Declaring the signatures of a class.** The pre-constructor comes first, if there is one. -/
theorem declareSignatures_ok (hc : c ∈ t.classes) (h : declareSignatures c s = (.ok u, s')) :
    ∃ s₁ s₂, Signing t c s [] s₁ ∧ (c.preConstructor = none ∧ s₂ = s₁ ∨ Initializing c s₁ s₂) ∧
      Signing t c s₂ c.bodyIds s' := by
  rw [declareSignatures_eq] at h
  obtain ⟨shape, s₁, h₁, h⟩ := bind_ok.mp h
  obtain ⟨object, s₂, h₂, h⟩ := bind_ok.mp h
  obtain ⟨void, s₃, h₃, h⟩ := bind_ok.mp h
  have hs₃ : Signing t c s [] s₃ := ((Signing.start.classShape h₁).pointerType h₂).lowerType h₃
  split at h
  · obtain ⟨_, s₅, h₅, h⟩ := bind_ok.mp h
    obtain ⟨s₄, hs₄, hinitializing⟩ := declarePreConstructor_ok hs₃ h₅
    exact ⟨s₄, s₅, hs₄, .inr hinitializing, declareBodies_signing hc _ _ _ _ h .start⟩
  · next hnone =>
    obtain ⟨hnone, -⟩ := not_or.mp hnone
    exact ⟨s₃, s₃, hs₃, .inl ⟨Option.not_isSome_iff_eq_none.mp hnone, rfl⟩,
      declareBodies_signing hc _ _ _ _ h .start⟩

/-- What all these steps keep is kept by declaring signatures. -/
theorem declareSignatures_keeps {J : Scope → Prop} (hc : c ∈ t.classes)
    (hsigning : ∀ {s ids s'}, Signing t c s ids s' → J s → J s')
    (hinitializing : ∀ {s s'}, Initializing c s s' → J s → J s') :
    Upholds J (declareSignatures c) fun _ => True := by
  intro s u s' h hs
  obtain ⟨s₁, s₂, h₁, h₂, h₃⟩ := declareSignatures_ok hc h
  refine ⟨hsigning h₃ ?_, True.intro⟩
  rcases h₂ with ⟨-, rfl⟩ | h₂
  · exact hsigning h₁ hs
  · exact hinitializing h₂ (hsigning h₁ hs)

end Signing

end Scope

end Shader
