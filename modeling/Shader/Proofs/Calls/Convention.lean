import Shader.Proofs.Calls.Arity
import Shader.Proofs.Scoping.Safety
import Mathlib.Tactic.FinCases

/-!
# The calling convention

A function that takes an object has it as its first parameter, which is called `this`, and the
parameters that it declares behind it. Whether an object is passed is decided at different places: by
what is declared, when a function of the tree is called or its body is written, and by the name of the
first parameter, when a function of a dependency is called.

What a function was declared with cannot be told from the library that it has been compiled into. So
this is taken from a table of all definitions, by the functions that they have become.
-/

namespace Shader

open Outcome

/-! ### Parameters -/

/-- The names of the parameters of the function that is defined. -/
def Definition.parameterNames (d : Definition) : List String :=
  (if d.takesObject then ["this"] else []) ++ d.parameters.map ParameterDecl.name

theorem Definition.length_parameterNames (d : Definition) :
    d.parameterNames.length = d.takesObject.toNat + d.parameters.length := by
  cases h : d.takesObject with
  | true => simp [parameterNames, h, Nat.add_comm]
  | false => simp [parameterNames, h]

/-- The names of the parameters of a function. -/
def Routine.parameterNames (r : Routine) : List String := r.parameters.map Parameter.name

theorem Routine.length_parameterNames (r : Routine) :
    r.parameterNames.length = r.parameters.length := List.length_map _

namespace Emit

variable {object : Option TypeRef} {ps : List ParameterDecl} {location : Location} {e e' : Emitter}

theorem parameter_names {name : String} {ty : TypeRef} {v : ValueId}
    (h : build location (Builder.parameter name ty) e = (.ok v, e')) :
    e'.builder.routine.parameterNames = e.builder.routine.parameterNames ++ [name] := by
  obtain ⟨b, hb, rfl⟩ := build_ok.mp h
  obtain ⟨-, rfl⟩ := ok_eq_ok.mp hb
  exact List.map_append

theorem parameters_names {qs : List (ParameterDecl × ValueId × TypeRef)}
    (h : parameters location ps e = (.ok qs, e')) :
    e'.builder.routine.parameterNames = e.builder.routine.parameterNames ++ ps.map ParameterDecl.name := by
  induction ps generalizing e qs with
  | nil =>
    obtain ⟨-, rfl⟩ := ok_eq_ok.mp h
    exact (List.append_nil _).symm
  | cons p ps ih =>
    unfold parameters at h
    obtain ⟨ty, e₁, h₁, h⟩ := bind_ok.mp h
    obtain ⟨s, -, rfl⟩ := onScope_ok.mp h₁
    obtain ⟨v, e₂, h₂, h⟩ := bind_ok.mp h
    obtain ⟨qs', e₃, h₃, -, rfl⟩ := return_ok.mp h
    rw [ih h₃, parameter_names h₂, List.append_assoc]
    rfl

/-- **Opening a function** declares the object, if there is one, and the parameters behind it. -/
theorem opening_names {u : Unit} (h : opening object ps location e = (.ok u, e'))
    (hempty : e.builder.routine.parameters = []) :
    e'.builder.routine.parameterNames = (object.map fun _ => "this").toList ++ ps.map ParameterDecl.name := by
  unfold opening at h
  obtain ⟨this, e₁, h₁, h⟩ := bind_ok.mp h
  obtain ⟨qs, e₂, h₂, h⟩ := bind_ok.mp h
  have hobject : e₁.builder.routine.parameterNames = (object.map fun _ => "this").toList := by
    cases object with
    | none =>
      obtain ⟨-, rfl⟩ := ok_eq_ok.mp h₁
      exact congrArg (List.map Parameter.name) hempty
    | some owner =>
      obtain ⟨_, e₃, h₃, -, rfl⟩ := return_ok.mp h₁
      obtain ⟨pointer, e₄, h₄, h₃⟩ := bind_ok.mp h₃
      obtain ⟨s, -, rfl⟩ := onScope_ok.mp h₄
      obtain ⟨v, e₅, h₅, -, rfl⟩ := return_ok.mp h₃
      have hthis := parameter_names h₅
      rw [Routine.parameterNames, Routine.parameterNames, hempty] at hthis
      exact hthis
  -- the rest leaves the parameters alone
  have hrest := (enterBody_traces (C := fun _ _ => True) false this qs location _ _ _ h (.refl .start)).1
  rw [Routine.parameterNames, hrest.parameters]
  change e₂.builder.routine.parameterNames = _
  rw [parameters_names h₂, hobject]

end Emit

variable {t : Tree}

/-- **What a draft has become** has the declared parameters. -/
theorem Draft.Becomes.names {own : LibraryId} {ds : List Library} {s₀ s : Scope} {c : ClassDecl}
    {g : FunctionRef} {d : Draft} {r : Routine} (h : d.Becomes s₀ s g r)
    (h₀ : s₀.Declaring t own ds) (hd : c.Defines s₀ g d) : g.library = s₀.library.id ∧
      r.parameterNames = (d.object.map fun _ => "this").toList ++
        d.parameters.map ParameterDecl.name := by
  obtain ⟨s₁, p, e, hs₁, hstart, hrun, -, rfl⟩ := h
  obtain ⟨-, r, _, _, hr, -, -, rfl⟩ := Emit.start_ok hstart
  refine ⟨(Library.library_of_routine? hr).trans (hs₁.emitting h₀).id, ?_⟩
  obtain ⟨_, e₁, hopening, hrun⟩ := bind_ok.mp hrun
  have hreaches := (Emit.opening_traces (C := fun _ _ => True) _ _ _ _ _ _ hopening (.refl hs₁)).1.reaches
  have hbody := hd.traces h₀
    (ClassDecl.licenses_of_forall (C := fun _ _ => True) fun _ _ => True.intro) false (hs₁.trans hreaches) hrun
  rw [Routine.parameterNames, e.builder.routine.parameters_repair, hbody.parameters]
  exact Emit.opening_names hopening rfl

/-! ### What is declared -/

/-- A table of what functions have been defined as. -/
abbrev Sources := FunctionRef → Option Definition

/-- The identity stands for the function, which has been defined like this. -/
structure Library.Defines (l : Library) (sources : Sources) (id : FunctionId) (f : FunctionRef)
    (d : Definition) : Prop where
  found : l.findFunction? id = some f
  defined : sources f = some d

/-- **Calls as declared.** What is used as a getter takes an object and declares no parameter, what is
used as a setter declares one, and there are as many arguments as parameters everywhere else. -/
def ExprKind.CallsAsDeclared (sources : Sources) (l : Library) : ExprKind → Prop
  | .member a => ∀ get set, a.accessed = .accessors get set →
    (∀ id ∈ get, ∀ f d, l.Defines sources id f d →
      d.takesObject = true ∧ d.parameters.length = 0) ∧
    (∀ id ∈ set, ∀ f d, l.Defines sources id f d →
      d.takesObject = true ∧ d.parameters.length = 1)
  | .call a es => ∀ id, a.accessed = .function id → ∀ f d, l.Defines sources id f d →
    d.parameters.length = es.length
  | .construct constructor es => ∀ id ∈ constructor, ∀ f d, l.Defines sources id f d →
    d.takesObject = true ∧ d.parameters.length = es.length
  | _ => True

/-- If a function of another library takes no object, its first parameter is not called like one. -/
def ExprKind.TellsStatic (sources : Sources) (l : Library) : ExprKind → Prop
  | .call a _ => ∀ id, a.accessed = .function id → ∀ f d, l.Defines sources id f d →
    f.library ≠ l.id → d.takesObject = false → ∀ p ∈ d.parameters.head?, p.name ≠ "this"
  | _ => True

namespace Tree

/-- **Calls as declared.** The tree has become functions that are in the table, its getters declare no
parameter and its setters declare one, and whatever its expressions call is called as it was
declared. -/
structure CallsAsDeclared (sources : Sources) (l : Library) (t : Tree) : Prop where
  declared : ∀ d ∈ t.definitions, ∀ f, l.functions.lookup d.id = some f → sources f = some d
  getters : ∀ c ∈ t.classes, ∀ v ∈ c.members, ∀ f ∈ v.getter, f.parameters.length = 0
  setters : ∀ c ∈ t.classes, ∀ v ∈ c.members, ∀ f ∈ v.setter, f.parameters.length = 1
  calls : ∀ i ∈ t.items, ∀ p ∈ i.positions, p.2.kind.CallsAsDeclared sources l

/-- No function of another library is called that takes no object but looks as if it did. -/
def TellsStatic (sources : Sources) (l : Library) (t : Tree) : Prop :=
  ∀ i ∈ t.items, ∀ p ∈ i.positions, p.2.kind.TellsStatic sources l

section Congr

variable {sources : Sources} {l l' : Library} {t : Tree}

/-- What a library takes an identity for depends on how it looks it up. -/
theorem defines_congr (hfind : l'.findFunction? = l.findFunction?) :
    l'.Defines sources = l.Defines sources := by
  funext id f d
  refine propext ⟨fun h => ⟨?_, h.defined⟩, fun h => ⟨?_, h.defined⟩⟩
  · rw [← hfind]
    exact h.found
  · rw [hfind]
    exact h.found

theorem CallsAsDeclared.congr (hfunctions : l'.functions = l.functions)
    (hfind : l'.findFunction? = l.findFunction?) (h : t.CallsAsDeclared sources l) :
    t.CallsAsDeclared sources l' where
  declared := by
    rw [hfunctions]
    exact h.declared
  getters := h.getters
  setters := h.setters
  calls i hi p hp := by
    have hcalls := h.calls i hi p hp
    cases hkind : p.2.kind with
    | member | call | construct =>
      rw [hkind] at hcalls
      simpa only [ExprKind.CallsAsDeclared, defines_congr hfind] using hcalls
    | _ => exact True.intro

theorem TellsStatic.congr (hid : l'.id = l.id) (hfind : l'.findFunction? = l.findFunction?)
    (h : t.TellsStatic sources l) : t.TellsStatic sources l' := by
  intro i hi p hp
  have htells := h i hi p hp
  cases hkind : p.2.kind with
  | call =>
    rw [hkind] at htells
    simpa only [ExprKind.TellsStatic, defines_congr hfind, hid] using htells
  | _ => exact True.intro

end Congr

/-- What has a signature is defined with it. -/
theorem Signs.exists_definition {id : FunctionId} {takes : Bool} {ps : List ParameterDecl}
    (h : t.Signs id takes ps) :
    ∃ body, ⟨id, takes, ps, body⟩ ∈ t.definitions := by
  cases h with
  | @function c f hc hf =>
    refine ⟨some f.body, mem_definitions hc ?_⟩
    exact List.mem_append_right _ (List.mem_append_right _ (List.mem_append_left _
      (List.mem_map_of_mem hf)))
  | @accessor c v f hc hv hf =>
    refine ⟨some f.body, mem_definitions hc ?_⟩
    exact List.mem_append_right _ (List.mem_append_right _ (List.mem_append_right _
      (List.mem_flatMap.mpr ⟨v, hv, List.mem_map_of_mem hf⟩)))
  | @constructor c k hc hk =>
    refine ⟨some k.body, mem_definitions hc ?_⟩
    exact List.mem_append_right _ (List.mem_append_left _ (List.mem_map_of_mem hk))
  | @preConstructor c id hc hid =>
    refine ⟨none, mem_definitions hc (List.mem_append_left _ ?_)⟩
    rw [hid]
    exact List.mem_singleton.mpr rfl

end Tree

/-- **Libraries that keep to the convention.** Functions have the parameters that they were declared
with, and all calls have as many operands. -/
structure Library.Conventional (sources : Sources) (l : Library) : Prop where
  fitting : l.Fitting
  functions : ∀ p ∈ l.functions, ∃ d r, sources p.2 = some d ∧ l.routine? p.2 = some r ∧
    r.parameterNames = d.parameterNames
  initializers : ∀ r ∈ l.records, ∀ g, r.preConstructor = some g →
    ∃ q, l.routine? g = some q ∧ q.parameterNames = ["this"]

namespace Scope

/-- The function is declared with parameters of these names. -/
inductive Signature (t : Tree) (s₀ : Scope) (f : FunctionRef) : List String → Prop
  | defined {d : Definition} (hd : d ∈ t.definitions) (hf : (d.id, f) ∈ s₀.library.functions) :
    Signature t s₀ f d.parameterNames
  | initializer {p : ClassId × ClassShape} (hp : p ∈ s₀.classes)
    (hpre : p.2.preConstructor = some f) : Signature t s₀ f ["this"]

/-- The function can be called with a number of operands: it will have as many parameters if it is one
of the tree, or it has them already. -/
structure Callable (t : Tree) (s₀ : Scope) (f : FunctionRef) (n : Nat) : Prop where
  own : f.library = s₀.library.id → ∃ ns, s₀.Signature t f ns ∧ ns.length = n
  foreign : f.library ≠ s₀.library.id → s₀.library.Takes f n

/-- What is known where the bodies of a tree are emitted. -/
structure Conventional (sources : Sources) (t : Tree) (own : LibraryId) (ds : List Library)
    (s₀ : Scope) : Prop extends Declaring t own ds s₀ where
  gives : ∀ d ∈ t.definitions, ∃ f, s₀.library.functions.lookup d.id = some f
  coherent : s₀.library.Coherent
  behind : ∀ d ∈ ds, ∀ m : Library, m.Within d → m.Conventional sources
  calls : t.CallsAsDeclared sources s₀.library
  tells : t.TellsStatic sources s₀.library

section Calls

variable {sources : Sources} {t : Tree} {own : LibraryId} {ds : List Library} {s₀ : Scope}
  {f : FunctionRef} {ns ns' : List String}

/-- **A function has one signature.** -/
theorem Declaring.signature_unique (h₀ : s₀.Declaring t own ds) (ht : t.Apart)
    (hown : f.library = own) (h : s₀.Signature t f ns) (h' : s₀.Signature t f ns') : ns = ns' := by
  cases h with
  | defined hd hf =>
    cases h' with
    | defined hd' hf' => rw [ht.eq_of_id hd hd' (h₀.named_inj _ _ f hf hf')]
    | initializer hp hpre =>
      obtain ⟨id, rfl⟩ := h₀.definition_of_initializer ht hown hd hf hp hpre
      rfl
  | initializer hp hpre =>
    cases h' with
    | defined hd hf =>
      obtain ⟨id, rfl⟩ := h₀.definition_of_initializer ht hown hd hf hp hpre
      rfl
    | initializer => rfl

namespace Conventional

variable (hs : s₀.Conventional sources t own ds)
include hs

variable {id : FunctionId}

/-- A function of the library is named by what is defined as it. -/
theorem exists_definition (hf : s₀.Names id f) (hown : f.library = s₀.library.id) :
    ∃ takes ps body, s₀.receivers.lookup id = some takes ∧
      ⟨id, takes, ps, body⟩ ∈ t.definitions ∧ sources f = some ⟨id, takes, ps, body⟩ := by
  have hmem := hs.mem_functions hf hown
  have hkey : id ∈ s₀.receivers.map Prod.fst := by
    rw [hs.receivers]
    exact List.mem_map_of_mem hmem
  obtain ⟨q, hq, rfl⟩ := List.mem_map.mp hkey
  cases htakes : s₀.receivers.lookup q.1 with
  | none => simpa using List.lookup_eq_none_iff.mp htakes q hq
  | some takes =>
    obtain ⟨ps, hsigns⟩ := hs.signed _ (mem_of_lookup_eq_some htakes)
    obtain ⟨body, hd⟩ := hsigns.exists_definition
    refine ⟨takes, ps, body, rfl, hd, hs.calls.declared _ hd f ?_⟩
    obtain ⟨g, hg⟩ := hs.gives _ hd
    rw [Names, Library.findFunction?, Library.search?_of_own hg] at hf
    rw [hg, Option.some.inj hf]

/-- A function of another library is defined there. -/
theorem exists_foreign (hf : s₀.Names id f) (hne : f.library ≠ s₀.library.id) :
    s₀.receivers.lookup id = none ∧ ∃ d r, sources f = some d ∧
      s₀.library.resolveRoutine? f = some r ∧ r.parameterNames = d.parameterNames := by
  have hnone : s₀.library.functions.lookup id = none := by
    cases hlookup : s₀.library.functions.lookup id with
    | none => rfl
    | some g =>
      rw [Names, Library.findFunction?, Library.search?_of_own hlookup] at hf
      cases hf
      exact absurd ((hs.named _ _ (mem_of_lookup_eq_some hlookup)).2.1.trans hs.id.symm) hne
  refine ⟨List.lookup_eq_none_iff.mpr fun q hq => ?_, ?_⟩
  · have hkey : q.1 ∈ s₀.library.functions.map Prod.fst := by
      rw [← hs.receivers]
      exact List.mem_map_of_mem hq
    obtain ⟨q', hq', heq⟩ := List.mem_map.mp hkey
    have hne := List.lookup_eq_none_iff.mp hnone q' hq'
    rwa [heq] at hne
  · rw [Names, Library.findFunction?, Library.search?_of_none hnone] at hf
    obtain ⟨d, hd, m, hm, hlookup⟩ := Library.exists_within_of_searchAll? _ hf
    obtain ⟨definition, r, hdefined, hr, hnames⟩ :=
      (hs.behind d (hs.dependencies ▸ hd) m hm).functions _ (mem_of_lookup_eq_some hlookup)
    exact ⟨definition, r, hdefined, hs.coherent.resolveRoutine? (.dependency hd hm) hr, hnames⟩

/-- A named function can be called with as many operands as its definition has parameters. -/
theorem callable_of_names (hf : s₀.Names id f) {n : Nat}
    (hn : ∀ d, sources f = some d → d.parameterNames.length = n) : s₀.Callable t f n where
  own hown := by
    obtain ⟨takes, ps, body, -, hd, hdefined⟩ := hs.exists_definition hf hown
    exact ⟨_, .defined hd (hs.mem_functions hf hown), hn _ hdefined⟩
  foreign hne := by
    obtain ⟨-, d, r, hdefined, hr, hnames⟩ := hs.exists_foreign hf hne
    refine ⟨r, hr, ?_⟩
    rw [← r.length_parameterNames, hnames, hn d hdefined]

/-- What initializes objects can be called with the object. -/
theorem callable_of_shapes {cid : ClassId} {shape : ClassShape} (hshape : s₀.Shapes cid shape)
    (hpre : shape.preConstructor = some f) : s₀.Callable t f 1 where
  own hown := ⟨_, .initializer ((hshape f hpre).1 hown) hpre, rfl⟩
  foreign hne := by
    obtain ⟨d, hd, m, hm, r, hr, hg⟩ := (hshape f hpre).2 hne
    obtain ⟨q, hq, hnames⟩ := (hs.behind d (hs.dependencies ▸ hd) m hm).initializers r hr f hg
    refine ⟨q, hs.coherent.resolveRoutine? (.dependency hd hm) hq, ?_⟩
    rw [← q.length_parameterNames, hnames]
    rfl

/-- **Who passes an object agrees with who takes one**, unless a function of another library that
takes none has a first parameter that is called like one. -/
theorem takesObject_eq {d : Definition}
    (hd : s₀.library.Defines sources id f d)
    (htells : f.library ≠ s₀.library.id → d.takesObject = false →
      ∀ p ∈ d.parameters.head?, p.name ≠ "this") :
    s₀.takesObject id f = d.takesObject := by
  unfold takesObject
  by_cases hown : f.library = s₀.library.id
  · obtain ⟨takes, ps, body, hlookup, -, hdefined⟩ := hs.exists_definition hd.found hown
    cases hd.defined.symm.trans hdefined
    rw [hlookup]
  · obtain ⟨hlookup, d', r, hdefined, hr, hnames⟩ := hs.exists_foreign hd.found hown
    cases hd.defined.symm.trans hdefined
    rw [hlookup, hr]
    dsimp only
    rw [← List.head?_map]
    change (r.parameterNames.head? == some "this") = d.takesObject
    rw [hnames, Definition.parameterNames]
    cases htakes : d.takesObject with
    | true => rfl
    | false =>
      cases hps : d.parameters with
      | nil => rfl
      | cons p ps =>
        have hname := htells hown htakes p (by rw [hps]; rfl)
        simpa using hname

/-- An accessor of the tree is called as an accessor. -/
theorem callable_of_accessor {v : VariableDecl} (hv : .memberVariable v ∈ t.items)
    {g : FunctionDecl} (hg : g ∈ v.accessors) (hf : s₀.Names g.id f) :
    s₀.Callable t f (1 + g.parameters.length) := by
  obtain ⟨c, hc, hv⟩ := Tree.exists_class_of_member hv
  obtain ⟨body, hd⟩ := (Tree.Signs.accessor hc hv hg).exists_definition
  obtain ⟨f', hlookup⟩ := hs.gives _ hd
  obtain rfl : f' = f :=
    Option.some.inj ((Library.search?_of_own hlookup).symm.trans hf)
  have hdefined := hs.calls.declared _ hd f' hlookup
  refine hs.callable_of_names hf fun d hd' => ?_
  cases hdefined.symm.trans hd'
  exact Definition.length_parameterNames _

/-- **Calls are granted.** Everything that is called as it was declared can be called. -/
theorem granted {e : Expr} (hcalls : e.kind.CallsAsDeclared sources s₀.library)
    (htells : e.kind.TellsStatic sources s₀.library) (needed : IoMode) :
    e.Granted s₀ (s₀.Callable t) needed := by
  obtain ⟨kind, ty, location⟩ := e
  have hobject : ∀ {id : FunctionId} {f : FunctionRef} {n : Nat}, s₀.Names id f →
      (∀ d, s₀.library.Defines sources id f d →
        d.takesObject = true ∧ d.parameters.length = n) → s₀.Callable t f (1 + n) := by
    intro id f n hf hd
    refine hs.callable_of_names hf fun d hdefined => ?_
    obtain ⟨htakes, hlength⟩ := hd d ⟨hf, hdefined⟩
    rw [d.length_parameterNames, htakes, hlength]
    rfl
  cases kind with
  | member a =>
    obtain ⟨target, name, accessed, io⟩ := a
    cases accessed with
    | function | intrinsic => exact ⟨fun _ _ _ => nofun, fun _ _ _ => nofun⟩
    | accessors get set =>
      obtain ⟨hget, hset⟩ := hcalls get set rfl
      exact ⟨fun _ id f hid hf => hobject hf (hget id hid f),
        fun _ id f hid hf => hobject hf (hset id hid f)⟩
    | property property =>
      refine ⟨fun _ id f hid hf => ?_, fun _ id f hid hf => ?_⟩
      · obtain ⟨v, hv, -, g, hg, rfl⟩ := hs.accessor_of_property.1 hid
        have hcallable := hs.callable_of_accessor hv (by simp [VariableDecl.accessors, hg]) hf
        obtain ⟨c, hc, hv⟩ := Tree.exists_class_of_member hv
        rwa [hs.calls.getters c hc v hv g hg] at hcallable
      · obtain ⟨v, hv, -, g, hg, rfl⟩ := hs.accessor_of_property.2 hid
        have hcallable := hs.callable_of_accessor hv (by simp [VariableDecl.accessors, hg]) hf
        obtain ⟨c, hc, hv⟩ := Tree.exists_class_of_member hv
        rwa [hs.calls.setters c hc v hv g hg] at hcallable
  | call a es =>
    intro id f hid hf
    refine hs.callable_of_names hf fun d hdefined => ?_
    rw [hs.takesObject_eq ⟨hf, hdefined⟩ (htells id hid f d ⟨hf, hdefined⟩),
      d.length_parameterNames, hcalls id hid f d ⟨hf, hdefined⟩]
  | construct constructor es =>
    refine ⟨fun id f hid hf => hobject hf (hcalls id hid f), ?_⟩
    intro _ cid shape f _ hshape hpre
    exact hs.callable_of_shapes hshape hpre
  | _ => exact True.intro

theorem positions_granted {i : Item} (hi : i ∈ t.items) :
    Emit.PositionsGranted s₀ (s₀.Callable t) i.positions := fun p hp =>
  hs.granted (hs.calls.calls i hi p hp) (hs.tells i hi p hp) p.1

end Conventional

/-- A function that is written makes calls that can be made, and has the parameters that it is
declared with. -/
structure Wrote (t : Tree) (s₀ : Scope) (f : FunctionRef) (r : Routine) : Prop where
  calls : r.Each (Op.Fits (s₀.Callable t))
  names : s₀.Signature t f r.parameterNames

theorem Conventional.licenses (hs : s₀.Conventional sources t own ds) {c : ClassDecl}
    (hc : c ∈ t.classes) (g : FunctionRef) : c.Licenses s₀ g (s₀.Callable t) where
  preConstructor _ _ _ _ hv := ⟨hs.positions_granted (Tree.mem_items_of_member hc hv),
    fun _ _ _ _ _ _ _ hshape hpre => hs.callable_of_shapes hshape hpre⟩
  constructor _ hk _ := ⟨hs.positions_granted (Tree.mem_items_of_constructor hc hk),
    fun _ _ hshape hpre => hs.callable_of_shapes hshape hpre⟩
  function _ hf _ := hs.positions_granted (Tree.mem_items_of_function hc hf)
  accessor _ hv _ hf _ := hs.positions_granted (Tree.mem_items_of_accessor hc hv hf)

/-- **What is written** keeps to the convention. -/
theorem Conventional.wrote (hs : s₀.Conventional sources t own ds) {s : Scope} {r : Routine}
    (h : t.Writes s₀ s f r) : s₀.Wrote t f r := by
  obtain ⟨c, hc, d, hd, hbecomes⟩ := h
  refine ⟨hbecomes.fits hs.toDeclaring hd (hs.licenses hc f), ?_⟩
  obtain ⟨hown, hnames⟩ := hbecomes.names hs.toDeclaring hd
  rw [hnames]
  -- the parameters of what is written are those of its definition
  have hdefined : ∀ {id takes ps}, t.Signs id takes ps → s₀.Names id f →
      s₀.Signature t f ((if takes then ["this"] else []) ++ ps.map ParameterDecl.name) := by
    intro id takes ps hsigns hf
    obtain ⟨body, hd⟩ := hsigns.exists_definition
    exact .defined hd (hs.mem_functions hf hown)
  cases hd with
  | preConstructor hshape hg =>
    exact .initializer ((hshape.shapes hs.toDeclaring f hg).1 hown) hg
  | constructor _ hk hg => exact hdefined (.constructor hc hk) hg
  | @function _ f _ _ hf hg =>
    refine Eq.mp ?_ (hdefined (.function hc hf) hg)
    cases f.isStatic <;> rfl
  | accessor _ hv hf hg => exact hdefined (.accessor hc hv hf) hg

end Calls

end Scope

/-! ### Compiled libraries -/

/-- **A tree that calls as declared** becomes a library that keeps to the convention, on top of such
libraries. -/
theorem lowerTree_convention {sources : Sources} {id : LibraryId} {name : String}
    {dependencies : List Library} {report : Report} (hforeign : Library.Foreign id dependencies)
    (hcoherent : Library.CoherentAll dependencies)
    (hfresh : ∀ d ∈ dependencies, d.findLibrary? id = none)
    (hbehind : ∀ d ∈ dependencies, ∀ m : Library, m.Within d → m.Conventional sources)
    (ht : t.Apart)
    (hcalls : t.CallsAsDeclared sources (lowerTree t { id, name, dependencies } report).1)
    (htells : t.TellsStatic sources (lowerTree t { id, name, dependencies } report).1)
    (h : (lowerTree t { id, name, dependencies } report).2.failed = false) :
    (lowerTree t { id, name, dependencies } report).1.Conventional sources := by
  obtain ⟨u, s₀, s, hdeclare, -, -, hresult, hend⟩ := lowerTree_written hforeign h
  have h₀ := Scope.declareTree_awaiting (Scope.sketching_empty hforeign) hdeclare
  have hreads := hend.reaches.emitting h₀.toDeclaring
  have hnodup : (s₀.library.functions.map Prod.fst).Nodup := by
    rw [Scope.declareTree_gives t _ _ _ hdeclare]
    simpa using ht.functions
  have hs₀ : s₀.Conventional sources t id dependencies := by
    have hfunctions : s₀.library.functions =
        (lowerTree t { id, name, dependencies } report).1.functions := by
      rw [hresult]
      exact hreads.functions.symm
    have hfind : s₀.library.findFunction? =
        (lowerTree t { id, name, dependencies } report).1.findFunction? := by
      funext fid
      rw [hresult]
      exact (hreads.findFunction?_eq fid).symm.trans (Library.search?_congr rfl rfl)
    have hid : s₀.library.id = (lowerTree t { id, name, dependencies } report).1.id := by
      rw [hresult]
      exact hreads.id.symm
    refine { h₀.toDeclaring with
      gives := fun d hd => ?_, coherent := ?_, behind := hbehind,
      calls := hcalls.congr hfunctions hfind, tells := htells.congr hid hfind }
    · have hkey : d.id ∈ s₀.library.functions.map Prod.fst := by
        rw [Scope.declareTree_gives t _ _ _ hdeclare, ← Tree.map_id_definitions]
        simpa using ⟨d, hd, rfl⟩
      obtain ⟨p, hp, heq⟩ := List.mem_map.mp hkey
      exact ⟨p.2, heq ▸ Scope.lookup_of_mem_of_nodup hnodup hp⟩
    · refine Library.coherent_of_fresh ?_ ?_
      · rw [h₀.dependencies]
        exact hcoherent
      · rw [h₀.dependencies, h₀.id]
        exact hfresh
  rw [hresult]
  -- every function of the library has been written
  have hwrote : ∀ f, f.library = id → f.index < s₀.library.routines.length →
      ∃ r, s.library.routine? f = some r ∧ s₀.Wrote t f r := by
    rintro ⟨_, i⟩ rfl hi
    obtain ⟨r, hr, hwrites⟩ := hend.written _ (h₀.awaited ht.classes hnodup hi)
    exact ⟨r, hr, hs₀.wrote hwrites⟩
  have hnames : ∀ f ns, f.library = id → s₀.Signature t f ns →
      ∃ r, s.library.routine? f = some r ∧ r.parameterNames = ns := by
    intro f ns hown hns
    have hi : f.index < s₀.library.routines.length := by
      cases hns with
      | defined hd hf => exact (h₀.named _ _ hf).2.2
      | initializer hp hpre => exact (h₀.shape _ _ _ hp hpre hown).1
    obtain ⟨r, hr, hwrote⟩ := hwrote f hown hi
    exact ⟨r, hr, h₀.toDeclaring.signature_unique ht hown hwrote.names hns⟩
  have htakes : ∀ f n, s₀.Callable t f n →
      ({ s.library with complete := true } : Library).Takes f n := by
    intro f n hf
    by_cases hown : f.library = s₀.library.id
    · obtain ⟨ns, hns, rfl⟩ := hf.own hown
      obtain ⟨r, hr, rfl⟩ := hnames f ns (hown.trans h₀.id) hns
      exact ⟨r, Library.resolveRoutine?_of_own hr, r.length_parameterNames.symm⟩
    · obtain ⟨r, hr, hn⟩ := hf.foreign hown
      refine ⟨r, ?_, hn⟩
      rw [← hr]
      exact Library.resolveRoutine?_congr hreads.id hreads.dependencies fun hid => absurd hid hown
  refine ⟨fun r hr => ?_, fun p hp => ?_, fun r hr g hg => ?_⟩
  · obtain ⟨i, hi, rfl⟩ := List.mem_iff_getElem.mp hr
    have hroutine : s.library.routine? ⟨id, i⟩ = some s.library.routines[i] := by
      rw [Library.routine?, if_pos (hreads.id.trans h₀.id).symm]
      exact List.getElem?_eq_getElem hi
    have hlength := (hend.reaches.advances h₀.toGrounded).routines
    obtain ⟨r, hr, hwrote⟩ := hwrote ⟨id, i⟩ rfl (hlength ▸ hi)
    cases hroutine.symm.trans hr
    exact fun b hb op hop => (hwrote.calls b hb op hop).mono htakes
  · have hp : p ∈ s₀.library.functions := hreads.functions ▸ hp
    obtain ⟨-, hown, -⟩ := h₀.named _ _ hp
    have hfound : s₀.Names p.1 p.2 := Library.search?_of_own (Scope.lookup_of_mem_of_nodup hnodup hp)
    obtain ⟨takes, ps, body, -, hd, hdefined⟩ :=
      hs₀.exists_definition hfound (hown.trans h₀.id.symm)
    obtain ⟨r, hr, hnames⟩ := hnames p.2 _ hown (.defined hd hp)
    exact ⟨_, r, hdefined, hr, hnames⟩
  · have hr : r ∈ s₀.library.records := hreads.records ▸ hr
    obtain ⟨p, hp, hpre⟩ := h₀.recorded r hr g hg
    exact hnames g _ (h₀.records r hr g hg) (.initializer hp hpre)

namespace Library

/-- **The libraries that can be called as declared**: they come from trees that call as declared. -/
def Disciplined (sources : Sources) : Library → Prop :=
  CompiledFrom fun t _ l => t.Apart ∧ t.CallsAsDeclared sources l ∧ t.TellsStatic sources l

variable {sources : Sources} {l : Library}

theorem CoherentAll.of_within {ls : List Library} (h : CoherentAll ls) {d m : Library} (hd : d ∈ ls)
    (hm : m.Within d) : CoherentAll m.dependencies := fun _ he _ he' k k' hk hk' =>
  h d hd d hd k k' (hm.trans (.dependency he hk)) (hm.trans (.dependency he' hk'))

/-- **Such libraries keep to the convention**, and so does everything within them. -/
theorem Disciplined.conventional (h : l.Disciplined sources)
    (hcoherent : CoherentAll l.dependencies) :
    ∀ m : Library, m.Within l → m.Conventional sources := by
  suffices hall : ∀ m : Library, m.Within l → CoherentAll m.dependencies → m.Conventional sources by
    intro m hm
    refine hall m hm ?_
    cases hm with
    | self => exact hcoherent
    | dependency hd hm => exact hcoherent.of_within hd hm
  refine h.within (fun id _ => ⟨nofun, nofun, nofun⟩)
    (fun hforeign ih ht h hcoherent => ?_) fun {l l'} h hl hcoherent => ?_
  · rw [(lowerTree_owned hforeign h).2] at hcoherent
    obtain ⟨ht, hcalls, htells⟩ := ht
    exact lowerTree_convention hforeign hcoherent hforeign.fresh
      (fun d hd m hm => ih d hd m hm (hcoherent.of_within hd hm)) ht hcalls htells h
  · obtain ⟨records, rfl, hrecords⟩ := recordDefaults_ok h
    obtain ⟨hfitting, hfunctions, hinitializers⟩ := hl hcoherent
    have htakes : ∀ f n, l.Takes f n → ({ l with records := records } : Library).Takes f n := by
      rintro f n ⟨r, hr, hn⟩
      refine ⟨r, ?_, hn⟩
      rw [← hr]
      exact resolveRoutine?_congr rfl rfl fun _ => rfl
    refine ⟨fun r hr b hb op hop => (hfitting r hr b hb op hop).mono htakes, hfunctions,
      fun r hr g hg => ?_⟩
    obtain ⟨r', hr', heq⟩ := hrecords r hr
    exact hinitializers r' hr' g (heq.symm.trans hg)

end Library

namespace Tree

/-- **Caller and callee agree.** Let a tree whose identities are apart be accepted on top of libraries
that come from such trees, and let everything be called as it was declared. If no function of another
library is called that takes no object but looks as if it did, every call in the resulting library has
as many operands as the function that it calls has parameters. So no run of a function that has been
called with the right number of arguments stops because of the number of arguments. -/
theorem lowerTree_conventional {sources : Sources} {t : Tree} {id : LibraryId} {name : String}
    {dependencies : List Library} {report : Report}
    (hdisciplined : ∀ d ∈ dependencies, d.Disciplined sources)
    (hcoherent : Library.CoherentAll dependencies)
    (hfresh : ∀ d ∈ dependencies, d.findLibrary? id = none) (ht : t.Apart)
    (hcalls : t.CallsAsDeclared sources (lowerTree t { id, name, dependencies } report).1)
    (htells : t.TellsStatic sources (lowerTree t { id, name, dependencies } report).1)
    (h : (lowerTree t { id, name, dependencies } report).2.failed = false) :
    (∀ r ∈ (lowerTree t { id, name, dependencies } report).1.routines, ∀ b ∈ r.blocks,
      ∀ op ∈ b.ops, op.opcode = .functionCall → ∃ f os callee, op.operands = .function f :: os ∧
        (lowerTree t { id, name, dependencies } report).1.resolveRoutine? f = some callee ∧
        os.length = callee.parameters.length) ∧
    ∀ (f : FunctionRef) (vs : List Value) (limit : Nat) (m m' : Machine) (e : RunError),
      (∀ callee, (lowerTree t { id, name, dependencies } report).1.resolveRoutine? f = some callee →
        vs.length = callee.parameters.length) →
      Machine.call (lowerTree t { id, name, dependencies } report).1 limit f vs m = (.error e, m') →
      ∀ expected found, e ≠ .argumentCount expected found := by
  have hforeign := Library.foreign_of_owned (fun d hd => (hdisciplined d hd).owned) hfresh
  have hdependencies := (lowerTree_owned hforeign h).2
  have hresult : (lowerTree t { id, name, dependencies } report).1.Disciplined sources :=
    Library.CompiledFrom.lowered hdisciplined hfresh ⟨ht, hcalls, htells⟩ h
  have hconventional := hresult.conventional (by rw [hdependencies]; exact hcoherent)
  have hid := lowerTree_id hforeign h
  generalize (lowerTree t { id, name, dependencies } report).1 = l at *
  subst hdependencies hid
  refine ⟨fun r hr b hb op hop hcall => ?_, fun f vs limit m m' e hvs herror => ?_⟩
  · obtain ⟨f, os, hoperands, callee, hcallee, hlength⟩ :=
      (hconventional l .self).fitting r hr b hb op hop hcall
    exact ⟨f, os, callee, hoperands, hcallee, hlength.symm⟩
  · exact (Machine.call_counts (Library.coherent_of_fresh hcoherent hfresh)
      (fun k hk => (hconventional k hk).fitting) (fun r hr => (hvs r hr).symm) m).2 e m' herror

/-! ### Calls between libraries -/

/-- A class with one function, which returns its parameter. -/
def shifter (isStatic : Bool) (parameter : String) : Tree where
  classes :=
    [{ id := ⟨1⟩, name := "Shifter",
       functions :=
        [{ id := ⟨1⟩, name := "Shift", isStatic := isStatic,
           parameters := [⟨⟨1⟩, parameter, .integer⟩], result := .integer,
           body := [⟨.ret (some ⟨.localVar ⟨1⟩, .integer, .unknown⟩), .unknown⟩] }] }]

/-- A class with one function, which calls the function of that class on an object. -/
def shifting : Tree where
  classes :=
    [{ id := ⟨2⟩, name := "Shifting",
       functions :=
        [{ id := ⟨2⟩, name := "Run", isStatic := true, result := .integer,
           body :=
            [⟨.localVar ⟨2⟩ "shifter" (.ofClass ⟨1⟩) none, .unknown⟩,
             ⟨.ret (some ⟨.call
                ⟨some ⟨.localVar ⟨2⟩, .ofClass ⟨1⟩, .unknown⟩, "Shift", .function ⟨1⟩, .read⟩
                [⟨.literal (.int 7), .integer, .unknown⟩], .integer, .unknown⟩), .unknown⟩] }] }]

/-- The library of the first class. -/
def shifterLibrary (isStatic : Bool) (parameter : String) : Library :=
  (lowerTree (shifter isStatic parameter) .blank {}).1

/-- What the functions of both classes have been defined as. -/
def shifterSources (isStatic : Bool) (parameter : String) : Sources
  | ⟨⟨1⟩, 0⟩ => (shifter isStatic parameter).definitions.head?
  | ⟨⟨2⟩, 0⟩ => shifting.definitions.head?
  | _ => none

/-- What the second class becomes on top of the first one. -/
def shiftingOutcome (isStatic : Bool) (parameter : String) : Library × Report :=
  lowerTree shifting
    { id := ⟨2⟩, name := "B", dependencies := [Core.library ⟨0⟩, shifterLibrary isStatic parameter] }
    {}

theorem shifterLibrary_accepted : (lowerTree (shifter false "by") .blank {}).2.failed = false := by
  decide +kernel

/-- The first class calls nothing. -/
theorem disciplined_shifterLibrary :
    (shifterLibrary false "by").Disciplined (shifterSources false "by") := by
  have hfunctions : (shifterLibrary false "by").functions = [(⟨1⟩, ⟨⟨1⟩, 0⟩)] := by decide +kernel
  unfold shifterLibrary Library.blank at hfunctions ⊢
  refine Library.CompiledFrom.lowered (fun d hd => ?_) (Library.fresh_core (by decide))
    ⟨⟨by decide, by decide⟩, ⟨fun d hd f hf => ?_, ?_, ?_, ?_⟩, ?_⟩ shifterLibrary_accepted
  · rw [List.mem_singleton.mp hd]
    exact .core ⟨0⟩
  · rw [hfunctions, List.mem_singleton.mp hd] at hf
    rw [List.mem_singleton.mp hd, ← Option.some.inj hf]
    rfl
  · simp [shifter]
  · simp [shifter]
  · intro i hi p hp
    fin_cases hi
    fin_cases hp
    exact True.intro
  · intro i hi p hp
    fin_cases hi
    fin_cases hp
    exact True.intro

/-- A call of a function of another library on an object. -/
theorem lowerTree_conventional_shifting :
    (shiftingOutcome false "by").2.failed = false ∧
      ∀ limit m m' e,
        Machine.call (shiftingOutcome false "by").1 limit ⟨⟨2⟩, 0⟩ [] m = (.error e, m') →
        ∀ expected found, e ≠ .argumentCount expected found := by
  have haccepted : (shiftingOutcome false "by").2.failed = false := by decide +kernel
  have hfound : (shiftingOutcome false "by").1.findFunction? ⟨1⟩ = some ⟨⟨1⟩, 0⟩ := by decide +kernel
  have hfunctions : (shiftingOutcome false "by").1.functions = [(⟨2⟩, ⟨⟨2⟩, 0⟩)] := by decide +kernel
  have hlength : ((shiftingOutcome false "by").1.resolveRoutine? ⟨⟨2⟩, 0⟩).map
      (fun r => r.parameters.length) = some 0 := by decide +kernel
  have hfresh : ((Core.library ⟨0⟩).findLibrary? ⟨2⟩).isNone ∧
      ((shifterLibrary false "by").findLibrary? ⟨2⟩).isNone := by decide +kernel
  have hid : (shifterLibrary false "by").id ≠ ⟨0⟩ := by decide +kernel
  have hdependencies : (shifterLibrary false "by").dependencies = [Core.library ⟨0⟩] := by
    unfold shifterLibrary
    exact Library.dependencies_of_blank shifterLibrary_accepted
  have hdefines : ∀ f d, (shiftingOutcome false "by").1.Defines (shifterSources false "by") ⟨1⟩ f d →
      d = ⟨⟨1⟩, true, [⟨⟨1⟩, "by", .integer⟩],
        some [⟨.ret (some ⟨.localVar ⟨1⟩, .integer, .unknown⟩), .unknown⟩]⟩ := by
    intro f d hd
    have hdefined := hd.defined
    rw [← Option.some.inj (hfound.symm.trans hd.found)] at hdefined
    exact (Option.some.inj hdefined).symm
  refine ⟨haccepted, fun limit m m' e => ?_⟩
  unfold shiftingOutcome at *
  refine (@lowerTree_conventional (shifterSources false "by") _ _ _ _ _ ?_
    (Library.coherentAll_core hdependencies hid) ?_ ⟨by decide, by decide⟩
    ⟨fun d hd f hf => ?_, ?_, ?_, ?_⟩ ?_ haccepted).2 _ [] limit m m' e fun callee hcallee => ?_
  · intro d hd
    rcases List.mem_pair.mp hd with hd | hd
    · rw [hd]
      exact .core ⟨0⟩
    · rw [hd]
      exact disciplined_shifterLibrary
  · intro d hd
    rcases List.mem_pair.mp hd with hd | hd
    · rw [hd]
      exact Option.isNone_iff_eq_none.mp hfresh.1
    · rw [hd]
      exact Option.isNone_iff_eq_none.mp hfresh.2
  · rw [hfunctions, List.mem_singleton.mp hd] at hf
    rw [List.mem_singleton.mp hd, ← Option.some.inj hf]
    rfl
  · simp [shifting]
  · simp [shifting]
  · intro i hi p hp
    fin_cases hi
    fin_cases hp
    · rintro id ⟨⟩ f d hd
      rw [hdefines f d hd]
      rfl
    · exact True.intro
    · exact True.intro
  · intro i hi p hp
    fin_cases hi
    fin_cases hp
    · rintro id ⟨⟩ f d hd - hstatic
      rw [hdefines f d hd] at hstatic
      nomatch hstatic
    · exact True.intro
    · exact True.intro
  · rw [hcallee] at hlength
    exact (Option.some.inj hlength).symm

/-- **A parameter that is called like an object.** The function takes no object, but another library
passes it one. -/
theorem lowerTree_staticThis :
    (shiftingOutcome true "this").2.failed = false ∧
      (match (Machine.call (shiftingOutcome true "this").1 8 ⟨⟨2⟩, 0⟩ [] {}).1 with
        | .error e => e == .argumentCount 1 2
        | .ok _ => false) = true := by
  decide +kernel

end Tree

end Shader
