import Shader.Library.Core
import Shader.Project
import Shader.Proofs.Lowering.Written
import Shader.Proofs.References.Recursion
import Mathlib.Tactic.FinCases

/-!
# Accepted programs do not recurse

A tree is accepted if no error is reported. The walk has then found no symbol that depends on
itself, and every call in an emitted body leads along dependences (`Scope.Leads`), so no function of
the library calls itself, directly or through others.

The discipline is needed: without it there are accepted trees that recurse
(`Tree.lowerTree_silentUpdate`).
-/

namespace Shader

open Relation

/-! ### Calls lead along dependences -/

/-- All that one function stands for depends on something that the other one stands for, if both are
of the library. -/
def Scope.Leads (t : Tree) (s₀ : Scope) (f g : FunctionRef) : Prop :=
  g.library = s₀.library.id →
    ∃ a, s₀.Origin t f a ∧ ∀ b, s₀.Origin t g b → TransGen t.DependsOn a b

namespace Scope

section Licence

variable {t : Tree} {own : LibraryId} {ds : List Library} {s₀ : Scope} {C : FunctionRef → Prop}
  (h₀ : s₀.Declaring t own ds) (hc : (t.classes.map ClassDecl.id).Nodup)
include h₀ hc

variable {id : FunctionId} {needed : IoMode} {ref : FunctionRef}

/-- A function that an identity stands for is granted what the identity is granted. -/
theorem Declaring.names_granted {U : Symbol → Prop}
    (hC : ∀ g, (g.library = s₀.library.id → ∀ b, s₀.Origin t g b → U b) → C g) {f : FunctionRef}
    (hf : s₀.Names id f) (hid : t.Declares id → U (.function id)) : C f := by
  refine hC f fun hown b hb => ?_
  have hmem := h₀.mem_functions hf hown
  rw [h₀.origin_named hc hmem hb]
  exact hid (h₀.named id f hmem).1

/-- A function that initializes the objects of a class is granted what all that initializes them is
granted. -/
theorem Declaring.shapes_granted {U : Symbol → Prop}
    (hC : ∀ g, (g.library = s₀.library.id → ∀ b, s₀.Origin t g b → U b) → C g) {cid : ClassId}
    {shape : ClassShape} (hshape : s₀.Shapes cid shape) {f : FunctionRef}
    (hpre : shape.preConstructor = some f)
    (hid : ∀ c ∈ t.classes, c.id = cid → ∀ b, c.InitializedBy b → U b) : C f := by
  refine hC f fun hown b hb => ?_
  obtain ⟨c, hmem, hcid, hinit⟩ := h₀.initializedBy hc ((hshape f hpre).1 hown) hpre (hown.trans h₀.id)
  exact hid c hmem hcid b (hinit b hb)

omit hc in
/-- The accessors that emission takes are used by the access, if its mode covers its position. -/
theorem Declaring.uses_accessor {a : Access} (hrole : a.accessed.KeepsRole t)
    (hmode : a.ModeAgrees t needed) (hid : t.Declares id) :
    (needed.Reads → s₀.getter? a.accessed = some id → a.accessed.Uses t a.io (.function id)) ∧
    (needed.Writes → s₀.setter? a.accessed = some id → a.accessed.Uses t a.io (.function id)) := by
  obtain ⟨target, name, accessed, io⟩ := a
  cases accessed with
  | function | intrinsic => exact ⟨nofun, nofun⟩
  | accessors get set =>
    constructor
    · rintro hneeded (rfl : get = some id)
      obtain ⟨g, hg, rfl⟩ := hrole.1 id rfl hid
      exact .getter hg (hmode.1 hneeded ⟨g, hg, rfl⟩)
    · rintro hneeded (rfl : set = some id)
      obtain ⟨g, hg, rfl⟩ := hrole.2 id rfl hid
      exact .setter hg (hmode.2 hneeded ⟨g, hg, rfl⟩)
  | property property =>
    constructor
    · intro hneeded hget
      obtain ⟨v, hv, rfl, g, hg, rfl⟩ := h₀.accessor_of_property.1 hget
      exact .propertyGetter hv hg (hmode.1 hneeded ⟨v, hv, rfl, by rw [hg]; rfl⟩)
    · intro hneeded hset
      obtain ⟨v, hv, rfl, g, hg, rfl⟩ := h₀.accessor_of_property.2 hset
      exact .propertySetter hv hg (hmode.2 hneeded ⟨v, hv, rfl, by rw [hg]; rfl⟩)

/-- **The two readings agree.** What emission takes for an expression, the expression uses. -/
theorem Declaring.granted {e : Expr} (hrole : e.kind.KeepsRole t)
    (hmode : e.kind.ModeAgrees t needed)
    (hC : ∀ g, (g.library = s₀.library.id → ∀ b, s₀.Origin t g b → e.Uses t b) → C g) :
    e.Granted s₀ (fun g _ => C g) needed := by
  obtain ⟨kind, ty, location⟩ := e
  cases kind with
  | member a =>
    refine ⟨fun hneeded id f hget hf => ?_, fun hneeded id f hset hf => ?_⟩
    · exact h₀.names_granted hc hC hf fun hid =>
        .member ((h₀.uses_accessor hrole hmode hid).1 hneeded hget)
    · exact h₀.names_granted hc hC hf fun hid =>
        .member ((h₀.uses_accessor hrole hmode hid).2 hneeded hset)
  | call a es =>
    intro id f hid hf
    refine h₀.names_granted hc hC hf fun hdeclares => .call ?_
    obtain ⟨target, name, accessed, io⟩ := a
    obtain rfl : accessed = .function id := hid
    obtain ⟨g, hg, rfl⟩ := hrole hdeclares
    exact .function hg
  | construct k es =>
    refine ⟨?_, ?_⟩
    · rintro id f rfl hf
      refine h₀.names_granted hc hC hf fun hdeclares => ?_
      obtain ⟨kd, c, hk, rfl⟩ := hrole id rfl hdeclares
      exact .constructor hk rfl
    · rintro rfl cid shape f rfl hshape hpre
      refine h₀.shapes_granted hc hC hshape hpre ?_
      rintro c hmem rfl b hb
      exact .initialization (fun _ _ _ => nofun) hmem hb
  | _ => exact True.intro

/-- What is granted to an item is granted to the function that stands for it. -/
theorem Declaring.positions_granted {i : Item} (hi : i ∈ t.items) (hid : i.symbol = .function id)
    (href : (id, ref) ∈ s₀.library.functions) {ps : List (IoMode × Expr)}
    (hps : ∀ p ∈ ps, p ∈ i.positions) (hdep : ∀ p ∈ ps, ∀ b, p.2.Uses t b → i.DependsOn t b)
    (hroles : t.RolesKept) (hmodes : t.ModesAgree) :
    Emit.PositionsGranted s₀ (fun g _ => s₀.Leads t ref g) ps := by
  intro p hp
  refine h₀.granted hc (hroles i hi p (hps p hp)) (hmodes i hi p (hps p hp)) fun g hg hown => ?_
  exact ⟨_, .named href, fun b hb => .single ⟨i, hi, hid, hdep p hp b (hg hown b hb)⟩⟩

/-- What a member variable depends on, the function that initializes its object leads to. -/
theorem Declaring.leads_of_member {c : ClassDecl} (hmem : c ∈ t.classes) {shape : ClassShape}
    (hshape : s₀.Shapes c.id shape) (hpre : shape.preConstructor = some ref)
    (hown : ref.library = s₀.library.id) {v : VariableDecl} (hv : v ∈ c.members) {g : FunctionRef}
    (hg : g.library = s₀.library.id → ∀ b, s₀.Origin t g b →
      Item.DependsOn t (.memberVariable v) b) : s₀.Leads t ref g := by
  intro hgown
  have hshape := (hshape ref hpre).1 hown
  have hstep : ∀ b, s₀.Origin t g b → t.DependsOn (.property v.id) b := fun b hb =>
    ⟨_, Tree.mem_items_of_member hmem hv, rfl, hg hgown b hb⟩
  cases hid : c.preConstructor with
  | none => exact ⟨_, .member hmem hid hshape hpre hv, fun b hb => .single (hstep b hb)⟩
  | some id =>
    have hnamed := (h₀.shape_of_class hc hmem hshape hpre (hown.trans h₀.id)).1 id hid
    refine ⟨_, .named hnamed, fun b hb => .head ?_ (.single (hstep b hb))⟩
    exact ⟨_, Tree.mem_items_of_preConstructor hmem hid, rfl, .preConstructor hv⟩

omit hc in
/-- A member variable that stands at an index is a field. -/
theorem Declaring.isField_of_fieldIndex? (hd : t.Distinct)
    (hapart : t.PropertiesApart s₀.library.dependencies) {v : VariableDecl}
    (hv : .memberVariable v ∈ t.items) {i : Nat} (hi : s₀.fieldIndex? v.id = some i) :
    v.isField = true := by
  unfold fieldIndex? at hi
  split at hi
  · next j hj =>
    obtain ⟨w, hw, hid, hfield⟩ := h₀.fields _ (mem_of_lookup_eq_some hj)
    obtain rfl := Item.memberVariable.inj (hd.eq_of_symbol hw hv (congrArg Symbol.property hid))
    exact hfield
  · obtain ⟨d, hdep, hi⟩ := List.exists_of_findSome?_eq_some hi
    obtain ⟨p, hp, -⟩ := Option.bind_eq_some_iff.mp hi
    obtain ⟨r, hr, hmem⟩ := List.mem_flatMap.mp (List.mem_of_find?_eq_some hp)
    by_contra hfield
    exact hapart v hv (Bool.not_eq_true _ ▸ hfield) d hdep r hr p hmem
      (by simpa using List.find?_some hp)

/-- **Emission follows dependences.** In a disciplined tree every call that emission may make leads
along dependences. -/
theorem Declaring.licenses (hd : t.Distinct) (hroles : t.RolesKept) (hmodes : t.ModesAgree)
    (hapart : t.PropertiesApart s₀.library.dependencies) {c : ClassDecl} (hmem : c ∈ t.classes)
    (hown : ref.library = s₀.library.id) :
    c.Licenses s₀ ref fun g _ => s₀.Leads t ref g where
  function _ hf href :=
    h₀.positions_granted hc (Tree.mem_items_of_function hmem hf) rfl (h₀.mem_functions href hown)
      (fun _ hp => hp) (fun _ hp _ => .function hp) hroles hmodes
  accessor _ hv _ hf href :=
    h₀.positions_granted hc (Tree.mem_items_of_accessor hmem hv hf) rfl
      (h₀.mem_functions href hown) (fun _ hp => hp) (fun _ hp _ => .function hp) hroles hmodes
  constructor k hk href := by
    have hitem := Tree.mem_items_of_constructor hmem hk
    refine ⟨h₀.positions_granted hc hitem rfl (h₀.mem_functions href hown) (fun _ hp => hp)
      (fun _ hp _ => .constructor hp) hroles hmodes, fun shape g hshape hpre hgown => ?_⟩
    refine ⟨_, .named (h₀.mem_functions href hown),
      fun b hb => .single ⟨_, hitem, rfl, .initialization ?_⟩⟩
    obtain ⟨c', hmem', hid, hinit⟩ :=
      h₀.initializedBy hc ((hshape g hpre).1 hgown) hpre (hgown.trans h₀.id)
    obtain rfl := List.inj_on_of_nodup_map hc hmem' hmem hid
    exact hinit b hb
  preConstructor shape hshape hpre v hv := by
    have hitem := Tree.mem_items_of_member hmem hv
    refine ⟨fun p hp => ?_, fun hnone i hi cid shape' g hty hshape' hpre' => ?_⟩
    · refine h₀.granted hc (hroles _ hitem p hp) (hmodes _ hitem p hp) fun g hg => ?_
      refine h₀.leads_of_member hc hmem hshape hpre hown hv fun hgown b hb => ?_
      have he : p.2 ∈ exprNodes? v.initial := exprsAt_exprPositions? _ ▸ List.mem_map_of_mem hp
      cases hinitial : v.initial with
      | none =>
        rw [hinitial] at he
        nomatch he
      | some initial =>
        rw [hinitial] at he
        exact .initializer hinitial he (hg hgown b hb)
    · refine h₀.leads_of_member hc hmem hshape hpre hown hv fun hgown b hb => ?_
      obtain ⟨c', hmem', rfl, hinit⟩ :=
        h₀.initializedBy hc ((hshape' g hpre').1 hgown) hpre' (hgown.trans h₀.id)
      exact .object hnone (h₀.isField_of_fieldIndex? hd hapart hitem hi) hty hmem' (hinit b hb)

end Licence

section Calls

variable {t : Tree} {own : LibraryId} {ds : List Library} {s₀ s : Scope} {W : FunctionRef → Prop}
  (h₀ : s₀.Declaring t own ds) (hs : s₀.Written t W s)
  (hlicenses : ∀ c ∈ t.classes, ∀ f : FunctionRef, f.library = s₀.library.id →
    c.Licenses s₀ f fun g _ => s₀.Leads t f g)
include h₀ hs hlicenses

theorem Written.leads {f g : FunctionRef} (h : s.library.Calls f g) :
    f.library = s₀.library.id ∧ s₀.Leads t f g := by
  obtain ⟨r, hr, hg⟩ := h
  have hown := (Library.library_of_routine? hr).trans (hs.reaches.emitting h₀).id
  refine ⟨hown, ?_⟩
  rcases hs.bodies f r hr with hold | ⟨c, hc, d, hd, hbecomes⟩
  · rw [Routine.callees, h₀.bodies r (Library.mem_routines_of_routine? hold)] at hg
    nomatch hg
  · obtain ⟨b, hb, hg⟩ := Routine.mem_callees.mp hg
    obtain ⟨op, hop, hg⟩ := Block.mem_callees.mp hg
    obtain ⟨-, hleads⟩ := (hbecomes.fits h₀ hd (hlicenses c hc f hown) b hb op hop).callee hg
    exact hleads

/-- **Paths of calls.** A path of calls between functions of the library follows a path of
dependences. -/
theorem Written.leads_of_transGen {f g : FunctionRef} (h : TransGen s.library.Calls f g) :
    s₀.Leads t f g := by
  induction h with
  | single hcall => exact (hs.leads h₀ hlicenses hcall).2
  | tail _ hcall ih =>
    intro hown
    obtain ⟨hcaller, hleads⟩ := hs.leads h₀ hlicenses hcall
    obtain ⟨a, ha, hpath⟩ := ih hcaller
    obtain ⟨b, hb, hpath'⟩ := hleads hown
    exact ⟨a, ha, fun c hc => (hpath b hb).trans (hpath' c hc)⟩

/-- If no symbol depends on itself, no function calls itself. -/
theorem Written.acyclic (h : ¬ ∃ a, TransGen t.DependsOn a a) (f : FunctionRef) :
    ¬ TransGen s.library.Calls f f := by
  intro hcycle
  obtain ⟨_, hcall, -⟩ := TransGen.head'_iff.mp hcycle
  obtain ⟨a, ha, hpath⟩ :=
    hs.leads_of_transGen h₀ hlicenses hcycle (hs.leads h₀ hlicenses hcall).1
  exact h ⟨a, hpath a ha⟩

end Calls

end Scope

/-! ### Accepted trees -/

variable {dependencies : List Library}

namespace Library

/-- **The libraries that can be built on**, with what is said of each: the core library, what accepted
trees become on top of such libraries, and either with the values of fields in new objects recorded.
What is said of the library of a tree depends on what is said of its dependencies. -/
inductive CompiledWith {σ : Type} (start : σ)
    (P : Tree → List Library → (Library → σ) → Library → σ → Prop) : σ → Library → Prop
  | core (id : LibraryId) : CompiledWith start P start (Core.library id)
  | lowered {t : Tree} {said : Library → σ} {s : σ} {id : LibraryId} {name : String}
    {dependencies : List Library} {report : Report}
    (hcompiled : ∀ d ∈ dependencies, CompiledWith start P (said d) d)
    (hfresh : ∀ d ∈ dependencies, d.findLibrary? id = none)
    (ht : P t dependencies said (lowerTree t { id, name, dependencies } report).1 s)
    (h : (lowerTree t { id, name, dependencies } report).2.failed = false) :
    CompiledWith start P s (lowerTree t { id, name, dependencies } report).1
  | recorded {s : σ} {l l' : Library} (hl : CompiledWith start P s l)
    (h : Project.recordDefaults l = .ok l') : CompiledWith start P s l'

/-- The libraries that come from trees with a property, which may speak of the dependencies and of
what the tree has become. -/
def CompiledFrom (P : Tree → List Library → Library → Prop) : Library → Prop :=
  CompiledWith () (fun t ds _ l _ => P t ds l) ()

/-- The libraries that come from any trees. -/
def Compiled : Library → Prop := CompiledFrom fun _ _ _ => True

section

variable {σ : Type} {start s : σ} {P : Tree → List Library → (Library → σ) → Library → σ → Prop}
  {l : Library}

theorem CompiledWith.compiledFrom {Q : Tree → List Library → Library → Prop}
    (h : CompiledWith start P s l) (hPQ : ∀ {t ds said l s}, P t ds said l s → Q t ds l) :
    l.CompiledFrom Q := by
  induction h with
  | core id => exact .core id
  | lowered _ hfresh ht h ih => exact CompiledWith.lowered ih hfresh (hPQ ht) h
  | recorded _ h ih => exact .recorded ih h

theorem CompiledWith.compiled (h : CompiledWith start P s l) : l.Compiled :=
  h.compiledFrom fun _ => True.intro

theorem CompiledFrom.lowered {P : Tree → List Library → Library → Prop} {t : Tree} {id : LibraryId}
    {name : String} {report : Report} (hcompiled : ∀ d ∈ dependencies, d.CompiledFrom P)
    (hfresh : ∀ d ∈ dependencies, d.findLibrary? id = none)
    (ht : P t dependencies (lowerTree t { id, name, dependencies } report).1)
    (h : (lowerTree t { id, name, dependencies } report).2.failed = false) :
    (lowerTree t { id, name, dependencies } report).1.CompiledFrom P :=
  CompiledWith.lowered hcompiled hfresh ht h

end

theorem foreign_of_owned {own : LibraryId}
    (howned : ∀ d ∈ dependencies, ∀ m : Library, m.Within d → m.Owned)
    (hfresh : ∀ d ∈ dependencies, d.findLibrary? own = none) : Foreign own dependencies :=
  fun d hd m hm => ⟨hm.id_ne (hfresh d hd), howned d hd m hm⟩

end Library

/-- An accepted tree becomes a library that speaks of its own functions only. -/
theorem lowerTree_owned {t : Tree} {id : LibraryId} {name : String} {report : Report}
    (hforeign : Library.Foreign id dependencies)
    (h : (lowerTree t { id, name, dependencies } report).2.failed = false) :
    (lowerTree t { id, name, dependencies } report).1.Owned ∧
      (lowerTree t { id, name, dependencies } report).1.dependencies = dependencies := by
  obtain ⟨u, s₀, s, -, h₀, -, hresult, hwritten⟩ := lowerTree_written hforeign h
  have hs := hwritten.reaches.emitting h₀
  rw [hresult]
  refine ⟨⟨fun p hp => ?_, fun r hr g hg => ?_, ?_⟩, hs.dependencies.trans h₀.dependencies⟩
  · rw [show s.library.functions = _ from hs.functions] at hp
    exact (h₀.named _ _ hp).2.1.trans (h₀.id.symm.trans hs.id.symm)
  · rw [show s.library.records = _ from hs.records] at hr
    exact (h₀.records r hr g hg).trans (h₀.id.symm.trans hs.id.symm)
  · rw [show s.library.rules = _ from hs.rules]
    exact h₀.noCalls

theorem lowerTree_id {t : Tree} {id : LibraryId} {name : String} {report : Report}
    (hforeign : Library.Foreign id dependencies)
    (h : (lowerTree t { id, name, dependencies } report).2.failed = false) :
    (lowerTree t { id, name, dependencies } report).1.id = id := by
  obtain ⟨u, s₀, s, -, h₀, -, hresult, hwritten⟩ := lowerTree_written hforeign h
  rw [hresult]
  exact (hwritten.reaches.emitting h₀).id.trans h₀.id

namespace Library

theorem Within.eq_core {m : Library} {id : LibraryId} (h : m.Within (Core.library id)) :
    m = Core.library id := by
  cases h with
  | self => rfl
  | dependency hd => nomatch hd

/-- Recording values of fields changes only the fields. -/
theorem withDefaults_ok {l : Library} {r r' : ClassRecord} (h : Project.withDefaults l r = .ok r') :
    ∃ o fields, Object.default l Machine.defaultLimit r.id = .ok o ∧
      r.fields.mapM (Project.withDefault l r o) = .ok fields ∧ r' = { r with fields := fields } := by
  unfold Project.withDefaults at h
  split at h
  · nomatch h
  · next o ho =>
    obtain ⟨fields, hfields, h⟩ := Outcome.bind_eq_ok.mp h
    exact ⟨o, fields, ho, hfields, (Except.ok.inj h).symm⟩

/-- Recording values of fields changes only the records. -/
theorem recordDefaults_mapM {l l' : Library} (h : Project.recordDefaults l = .ok l') :
    ∃ records, l.records.mapM (Project.withDefaults l) = .ok records ∧
      l' = { l with records := records } := by
  obtain ⟨records, hrecords, h⟩ := Outcome.bind_eq_ok.mp h
  exact ⟨records, hrecords, (Except.ok.inj h).symm⟩

/-- Recording values of fields keeps what initializes objects. -/
theorem recordDefaults_ok {l l' : Library} (h : Project.recordDefaults l = .ok l') :
    ∃ records, l' = { l with records := records } ∧
      ∀ r' ∈ records, ∃ r ∈ l.records, r'.preConstructor = r.preConstructor := by
  obtain ⟨records, hrecords, rfl⟩ := recordDefaults_mapM h
  refine ⟨records, rfl, fun r' hr' => ?_⟩
  obtain ⟨r, hr, hok⟩ := Outcome.exists_of_mem_mapM hrecords r' hr'
  obtain ⟨o, fields, -, -, rfl⟩ := withDefaults_ok hok
  exact ⟨r, hr, rfl⟩

/-- **Compiled libraries speak of their own functions.** So does everything within them. -/
theorem CompiledWith.owned {σ : Type} {start s : σ}
    {P : Tree → List Library → (Library → σ) → Library → σ → Prop} {l : Library}
    (h : CompiledWith start P s l) : ∀ m : Library, m.Within l → m.Owned := by
  induction h with
  | core id =>
    intro m hm
    rw [hm.eq_core]
    exact ⟨nofun, nofun, Rules.noCalls_core⟩
  | lowered _ hfresh _ h ih =>
    intro m hm
    obtain ⟨howned, hdependencies⟩ := lowerTree_owned (foreign_of_owned ih hfresh) h
    cases hm with
    | self => exact howned
    | dependency hd hm =>
      rw [hdependencies] at hd
      exact ih _ hd m hm
  | recorded _ h ih =>
    intro m hm
    obtain ⟨records, rfl, hrecords⟩ := recordDefaults_ok h
    cases hm with
    | self =>
      have howned := ih _ .self
      refine ⟨howned.functions, fun r' hr' g hg => ?_, howned.noCalls⟩
      obtain ⟨r, hr, hpre⟩ := hrecords r' hr'
      exact howned.preConstructors r hr g (hpre.symm.trans hg)
    | dependency hd hm => exact ih m (.dependency hd hm)

/-- An empty library on top of the core library. -/
abbrev blank : Library := { id := ⟨1⟩, name := "A", dependencies := [Core.library ⟨0⟩] }

/-- The core library has no number but its own. -/
theorem fresh_core {id : LibraryId} (hid : id ≠ ⟨0⟩) :
    ∀ d ∈ [Core.library ⟨0⟩], d.findLibrary? id = none := by
  intro d hd
  rw [List.mem_singleton.mp hd, findLibrary?, search?_of_none (if_neg (Ne.symm hid))]
  rfl

/-- What a tree becomes on top of the core library has no other dependencies. -/
theorem dependencies_of_blank {t : Tree} {report : Report}
    (h : (lowerTree t .blank report).2.failed = false) :
    (lowerTree t .blank report).1.dependencies = [Core.library ⟨0⟩] := by
  have hcore : (Core.library ⟨0⟩).Compiled := .core ⟨0⟩
  refine (lowerTree_owned (foreign_of_owned (fun d hd => ?_) (fresh_core (by decide))) h).2
  rw [List.mem_singleton.mp hd]
  exact hcore.owned

end Library

namespace Tree

/-- **Accepted programs do not recurse.** Let the identities of a tree be distinct and used in their
roles, and let the mode of each access cover its position. If the tree is accepted on top of compiled
libraries, then no function of the resulting library calls itself, directly or through others. -/
theorem lowerTree_acyclic {t : Tree} {id : LibraryId} {name : String} {dependencies : List Library}
    {report : Report} (hcompiled : ∀ d ∈ dependencies, d.Compiled)
    (hfresh : ∀ d ∈ dependencies, d.findLibrary? id = none) (hd : t.Distinct)
    (hc : (t.classes.map ClassDecl.id).Nodup) (hroles : t.RolesKept) (hmodes : t.ModesAgree)
    (hapart : t.PropertiesApart dependencies)
    (h : (lowerTree t { id, name, dependencies } report).2.failed = false) :
    (lowerTree t { id, name, dependencies } report).1.complete = true ∧
      ∀ f, ¬ TransGen (lowerTree t { id, name, dependencies } report).1.Calls f f := by
  have hforeign := Library.foreign_of_owned (fun d hd => (hcompiled d hd).owned) hfresh
  obtain ⟨u, s₀, s, -, h₀, hrecursion, hresult, hwritten⟩ := lowerTree_written hforeign h
  rw [hresult]
  refine ⟨rfl, hwritten.acyclic h₀ (fun c hmem f hown => ?_) ?_⟩
  · exact h₀.licenses hc hd hroles hmodes (h₀.dependencies ▸ hapart) hmem hown
  · -- the walk has met all dependences
    rw [← recursion?_isSome_iff_dependsOn hd hc, hrecursion]
    exact nofun

/-- A statement that adds one to the property of a counter. -/
def counterUpdate (io : IoMode) : Stmt :=
  ⟨.assign
    ⟨.member ⟨some ⟨.thisObject, .ofClass ⟨1⟩, .unknown⟩, "Value", .property ⟨1⟩, io⟩, .integer,
      .unknown⟩
    (some .add) ⟨.literal (.int 1), .integer, .unknown⟩, .unknown⟩

/-- A counter whose property has accessors, and a function on it. -/
def counter (setter body : List Stmt) : Tree where
  classes :=
    [{ id := ⟨1⟩, name := "Counter",
       members :=
        [{ id := ⟨1⟩, name := "Value", ty := .integer,
           getter := some
            { id := ⟨1⟩, name := "get", result := .integer,
              body := [⟨.ret (some ⟨.literal (.int 1), .integer, .unknown⟩), .unknown⟩] },
           setter := some
            { id := ⟨2⟩, name := "set", parameters := [⟨⟨1⟩, "v", .integer⟩], body := setter } }],
       functions := [{ id := ⟨3⟩, name := "Bump", body := body }] }]

/-- A function may update the counter through its accessors. -/
theorem lowerTree_acyclic_counter :
    (lowerTree (counter [] [counterUpdate .readWrite]) .blank {}).2.failed = false ∧
      ∀ f, ¬ TransGen (lowerTree (counter [] [counterUpdate .readWrite]) .blank {}).1.Calls f f := by
  have hd : (counter [] [counterUpdate .readWrite]).Distinct := by unfold Distinct; decide
  have haccepted : (lowerTree (counter [] [counterUpdate .readWrite]) .blank {}).2.failed = false := by
    decide +kernel
  refine ⟨haccepted, (lowerTree_acyclic ?_ ?_ hd (by decide) ?_ ?_ ?_ haccepted).2⟩
  · simpa using .core ⟨0⟩
  · simp
    decide
  · intro i hi p hp
    fin_cases hi <;> fin_cases hp <;> exact True.intro
  · intro i hi p hp
    fin_cases hi <;> fin_cases hp
    · exact ⟨fun _ _ => nofun, fun _ _ => nofun⟩
    · exact True.intro
    · exact True.intro
    · exact True.intro
  · simp [PropertiesApart, Core.library]

/-- **An update that nobody sees.** The setter updates the property that it sets, and its access has
the mode that accesses have by default. The walk takes the access for a reading one, and so the tree
is accepted although its setter calls itself. -/
theorem lowerTree_silentUpdate :
    (lowerTree (counter [counterUpdate .read] []) .blank {}).2.failed = false ∧
      (lowerTree (counter [counterUpdate .read] []) .blank {}).1.Calls
          ⟨⟨1⟩, 2⟩ ⟨⟨1⟩, 2⟩ := by
  decide +kernel

end Tree

end Shader
