import Shader.Proofs.Calls.Acyclic
import Shader.Proofs.Scoping.Awaited

/-!
# Compiled code does not get stuck

A tree whose functions and classes have identities of their own is compiled into a library that is
`Sealed`: each function has a body that refers only to what is there. So is every library that it is
built on, and a call can only stop for reasons that lie in its arguments, in the values it meets, in
the limit, or in a type that has no end.

Types are not checked anywhere, so that calls with the wrong arguments, and code that is badly typed,
do stop. But they stop where an operation meets a value that does not fit, and never because something
is missing.
-/

namespace Shader

open Outcome Relation

/-- **Identities apart.** Everything in the tree that becomes a function has an identity of its own,
and so has every class. -/
structure Tree.Apart (t : Tree) : Prop where
  functions : t.functionIds.Nodup
  classes : (t.classes.map ClassDecl.id).Nodup

/-! ### Definitions -/

/-- What a tree defines under an identity. -/
structure Definition where
  id : FunctionId
  takesObject : Bool
  parameters : List ParameterDecl
  /-- The statements; a pre-constructor has none. -/
  body : Option (List Stmt)

/-- What a class defines. -/
def ClassDecl.definitions (c : ClassDecl) : List Definition :=
  c.preConstructor.toList.map (fun id => ⟨id, true, [], none⟩) ++
    (c.constructors.map (fun k => ⟨k.id, true, k.parameters, some k.body⟩) ++
      (c.functions.map (fun f => ⟨f.id, !f.isStatic, f.parameters, some f.body⟩) ++
        c.members.flatMap fun v => v.accessors.map fun f =>
          ⟨f.id, true, f.parameters, some f.body⟩))

namespace Tree

variable {t : Tree}

/-- What a tree defines. -/
def definitions (t : Tree) : List Definition := t.classes.flatMap ClassDecl.definitions

theorem map_id_definitions (t : Tree) : t.definitions.map Definition.id = t.functionIds := by
  simp [definitions, functionIds, ClassDecl.definitions, ClassDecl.bodyIds, List.map_flatMap,
    Function.comp_def]

theorem mem_definitions {c : ClassDecl} (hc : c ∈ t.classes) {d : Definition}
    (hd : d ∈ c.definitions) : d ∈ t.definitions := List.mem_flatMap.mpr ⟨c, hc, hd⟩

/-- If identities are apart, only one thing is defined under each of them. -/
theorem Apart.eq_of_id (ht : t.Apart) {d d' : Definition} (hd : d ∈ t.definitions)
    (hd' : d' ∈ t.definitions) (hid : d.id = d'.id) : d = d' := by
  refine List.inj_on_of_nodup_map ?_ hd hd' hid
  rw [map_id_definitions]
  exact ht.functions

end Tree

variable {t : Tree}

/-- What initializes objects and is named is defined without parameters and has no other body. -/
theorem Scope.Declaring.definition_of_initializer {own : LibraryId} {ds : List Library} {s₀ : Scope}
    {f : FunctionRef} (h₀ : s₀.Declaring t own ds) (ht : t.Apart) (hown : f.library = own)
    {d : Definition} (hd : d ∈ t.definitions) (hf : (d.id, f) ∈ s₀.library.functions)
    {p : ClassId × ClassShape} (hp : p ∈ s₀.classes) (hpre : p.2.preConstructor = some f) :
    ∃ id, d = ⟨id, true, [], none⟩ := by
  obtain ⟨-, c, hc, -, hnamed, hunnamed⟩ := h₀.shape p.1 p.2 f hp hpre hown
  cases hid : c.preConstructor with
  | none => exact absurd hf (hunnamed hid d.id)
  | some id =>
    have hmem : ⟨id, true, [], none⟩ ∈ t.definitions := by
      refine Tree.mem_definitions hc (List.mem_append_left _ ?_)
      rw [hid]
      exact List.mem_singleton.mpr rfl
    exact ⟨id, ht.eq_of_id hd hmem (h₀.named_inj _ _ f hf (hnamed id hid))⟩

/-! ### Sealed libraries -/

namespace Library

variable {f : FunctionRef}

/-- A function of the library itself is known. -/
theorem knows_own {l : Library} (h : f.library = l.id) (hlt : f.index < l.routines.length) :
    l.Knows f := ⟨l, .self, h.symm, hlt⟩

/-- A function that a dependency knows is known. -/
theorem knows_dependency {l d : Library} (hd : d ∈ l.dependencies) (h : d.Knows f) :
    l.Knows f := h.mono (.dependency hd .self)

/-- What a library knows depends on its number, its dependencies and how many functions it has. -/
theorem knows_congr {l l' : Library} (hid : l'.id = l.id) (hds : l'.dependencies = l.dependencies)
    (hlength : l'.routines.length = l.routines.length) (h : l.Knows f) : l'.Knows f := by
  obtain ⟨m, hm, hf, hlt⟩ := h
  cases hm with
  | self => exact knows_own (hf.symm.trans hid.symm) (hlength ▸ hlt)
  | dependency hd hm => exact knows_dependency (hds ▸ hd) ⟨m, hm, hf, hlt⟩

end Library

namespace Scope

variable {t : Tree} {own : LibraryId} {ds : List Library} {s₀ : Scope}

/-- All that can be found in a declared tree is known. -/
theorem Awaiting.anchored (h₀ : s₀.Awaiting t own ds [])
    (hds : ∀ d ∈ ds, ∀ m : Library, m.Within d → m.Resolved) : s₀.Anchored s₀.library.Knows where
  named id f hf := by
    obtain ⟨m, hm, hlookup⟩ := Library.exists_within_of_search? _ hf
    have hmem := mem_of_lookup_eq_some hlookup
    cases hm with
    | self =>
      obtain ⟨-, hlibrary, hlt⟩ := h₀.named id f hmem
      exact Library.knows_own (hlibrary.trans h₀.id.symm) hlt
    | dependency hd hm =>
      refine Library.knows_dependency hd (Library.Knows.mono hm ?_)
      exact (hds _ (h₀.dependencies ▸ hd) m hm).functions _ hmem
  shaped cid shape f hshape hf := by
    obtain ⟨hown, himported⟩ := hshape f hf
    by_cases hlibrary : f.library = s₀.library.id
    · exact Library.knows_own hlibrary
        (h₀.shape cid shape f (hown hlibrary) hf (hlibrary.trans h₀.id)).1
    · obtain ⟨d, hd, hknows⟩ := initializes_knows hds (h₀.dependencies ▸ himported hlibrary)
      exact Library.knows_dependency (h₀.dependencies ▸ hd) hknows

/-- An empty library on top of foreign ones. -/
theorem sketching_empty {name : String} (hf : Library.Foreign own ds) :
    Sketching t own ds { library := { id := own, name := name, dependencies := ds } } :=
  { declaring_empty hf with
    types := Registry.closed_empty, classes := nofun, noRoutines := rfl, noRecords := rfl }

end Scope

/-- **What a tree writes** into a function refers to what is at hand, and its blocks lead forward. -/
theorem Tree.Writes.scoped {own : LibraryId} {ds : List Library} {s₀ s : Scope} {g : FunctionRef}
    {r : Routine} {K : FunctionRef → Prop} (h : t.Writes s₀ s g r) (h₀ : s₀.Awaiting t own ds [])
    (hK : s₀.Anchored K) :
    (∃ entry, r.Scoped K s.library.constants.length s.library.types.size entry) ∧ r.Forward := by
  obtain ⟨c, hc, d, hd, hbecomes⟩ := h
  obtain ⟨shape, hshape⟩ := h₀.shaped c hc
  exact hbecomes.scoped h₀.toDeclaring hK h₀.toGrounded hd
    (hd.object_lt h₀.toDeclaring h₀.toGrounded hshape)

variable {id : LibraryId}

/-- **An accepted tree becomes a sealed library**, if its identities are apart. -/
theorem lowerTree_sealed {name : String} {dependencies : List Library} {report : Report}
    (hforeign : Library.Foreign id dependencies)
    (hresolved : ∀ d ∈ dependencies, ∀ m : Library, m.Within d → m.Resolved) (ht : t.Apart)
    (h : (lowerTree t { id, name, dependencies } report).2.failed = false) :
    (lowerTree t { id, name, dependencies } report).1.Sealed ∧
      (lowerTree t { id, name, dependencies } report).1.Resolved := by
  obtain ⟨u, s₀, s, hdeclare, -, -, hresult, hend⟩ := lowerTree_written hforeign h
  have h₀ := Scope.declareTree_awaiting (Scope.sketching_empty hforeign) hdeclare
  have hnodup : (s₀.library.functions.map Prod.fst).Nodup := by
    rw [Scope.declareTree_gives t _ _ _ hdeclare]
    simpa using ht.functions
  have hreads := hend.reaches.emitting h₀.toDeclaring
  have hadvances := hend.reaches.advances h₀.toGrounded
  rw [hresult]
  have hknows : ∀ f, s₀.library.Knows f →
      ({ s.library with complete := true } : Library).Knows f :=
    fun f hf => Library.knows_congr hreads.id hreads.dependencies hadvances.routines hf
  refine ⟨⟨hadvances.grounded.types, fun r hr => ?_⟩, fun p hp => ?_, fun r hr g hg => ?_⟩
  · -- every function has been written
    obtain ⟨i, hi, rfl⟩ := List.mem_iff_getElem.mp hr
    have hroutine : s.library.routine? ⟨id, i⟩ = some s.library.routines[i] := by
      rw [Library.routine?, if_pos (hreads.id.trans h₀.id).symm]
      exact List.getElem?_eq_getElem hi
    obtain ⟨r, hr, hwrites⟩ := hend.written _ (h₀.awaited ht.classes hnodup (hadvances.routines ▸ hi))
    cases hroutine.symm.trans hr
    obtain ⟨entry, hscoped⟩ := (hwrites.scoped h₀ (h₀.anchored hresolved)).1
    exact ⟨entry, hscoped.mono hknows (Nat.le_refl _) (Nat.le_refl _)⟩
  · have hp : p ∈ s₀.library.functions := hreads.functions ▸ hp
    obtain ⟨-, hlibrary, hlt⟩ := h₀.named p.1 p.2 hp
    exact hknows _ (Library.knows_own (hlibrary.trans h₀.id.symm) hlt)
  · have hr : r ∈ s₀.library.records := hreads.records ▸ hr
    have hown := h₀.records r hr g hg
    obtain ⟨p, hp, hpre⟩ := h₀.recorded r hr g hg
    exact hknows _ (Library.knows_own (hown.trans h₀.id.symm) (h₀.shape p.1 p.2 g hp hpre hown).1)

/-! ### Compiled libraries -/

namespace Library

variable {σ : Type} {start s : σ} {P : Tree → List Library → (Library → σ) → Library → σ → Prop}
  {l : Library}

/-- **Induction on compiled libraries.** A property of the core library, of what trees become on top of
libraries that have it, and of libraries that defaults are recorded in, is one of everything within a
compiled library. -/
theorem CompiledWith.within {Q : Library → Prop} (h : CompiledWith start P s l)
    (hcore : ∀ id, Q (Core.library id))
    (hlowered : ∀ {t : Tree} {said : Library → σ} {s : σ} {id : LibraryId} {name : String}
      {dependencies : List Library} {report : Report}, Foreign id dependencies →
      (∀ d ∈ dependencies, ∀ m : Library, m.Within d → Q m) →
      P t dependencies said (lowerTree t { id, name, dependencies } report).1 s →
      (lowerTree t { id, name, dependencies } report).2.failed = false →
      Q (lowerTree t { id, name, dependencies } report).1)
    (hrecorded : ∀ {l l' : Library}, Project.recordDefaults l = .ok l' → Q l → Q l') :
    ∀ m : Library, m.Within l → Q m := by
  induction h with
  | core id =>
    intro m hm
    rw [hm.eq_core]
    exact hcore id
  | lowered hcompiled hfresh ht h ih =>
    intro m hm
    have hforeign := foreign_of_owned (fun d hd => (hcompiled d hd).owned) hfresh
    cases hm with
    | self => exact hlowered hforeign ih ht h
    | dependency hd hm =>
      rw [(lowerTree_owned hforeign h).2] at hd
      exact ih _ hd m hm
  | recorded _ h ih =>
    intro m hm
    cases hm with
    | self => exact hrecorded h (ih _ .self)
    | dependency hd hm =>
      obtain ⟨records, rfl, -⟩ := recordDefaults_ok h
      exact ih m (.dependency hd hm)

/-- **Compiled libraries are sealed**, and so is everything within them. -/
theorem CompiledFrom.sealed (h : l.CompiledFrom fun t _ _ => t.Apart) :
    ∀ m : Library, m.Within l → m.Sealed ∧ m.Resolved := by
  refine h.within (fun id => ⟨⟨Registry.closed_empty, nofun⟩, nofun, nofun⟩)
    (fun hforeign ih ht h => ?_) fun {l l'} h hl => ?_
  · exact lowerTree_sealed hforeign (fun d hd m hm => (ih d hd m hm).2) ht h
  · obtain ⟨records, rfl, hrecords⟩ := recordDefaults_ok h
    obtain ⟨⟨htypes, hroutines⟩, hfunctions, hpre⟩ := hl
    have hknows : ∀ f, l.Knows f → ({ l with records := records } : Library).Knows f :=
      fun f hf => by refine knows_congr ?_ ?_ ?_ hf <;> rfl
    refine ⟨⟨htypes, fun r hr => ?_⟩, fun p hp => hknows _ (hfunctions p hp), fun r hr g hg => ?_⟩
    · obtain ⟨entry, hscoped⟩ := hroutines r hr
      exact ⟨entry, hscoped.mono hknows (Nat.le_refl _) (Nat.le_refl _)⟩
    · obtain ⟨r', hr', heq⟩ := hrecords r hr
      exact hknows _ (hpre r' hr' g (heq.symm.trans hg))

/-- Libraries behind these ones are told apart by their numbers. -/
def CoherentAll (ls : List Library) : Prop :=
  ∀ d ∈ ls, ∀ d' ∈ ls, ∀ m m' : Library, m.Within d → m'.Within d' → m.id = m'.id → m = m'

/-- A library with a new number stays apart from those that it is built on. -/
theorem coherent_of_fresh (hds : CoherentAll l.dependencies)
    (hfresh : ∀ d ∈ l.dependencies, d.findLibrary? l.id = none) : l.Coherent := by
  have hne : ∀ {d m : Library}, d ∈ l.dependencies → m.Within d → m.id ≠ l.id :=
    fun hd hm => hm.id_ne (hfresh _ hd)
  intro m m' hm hm' hid
  cases hm with
  | self =>
    cases hm' with
    | self => rfl
    | dependency hd hm' => exact absurd hid.symm (hne hd hm')
  | dependency hd hm =>
    cases hm' with
    | self => exact absurd hid (hne hd hm)
    | dependency hd' hm' => exact hds _ hd _ hd' _ _ hm hm' hid

/-- Libraries that lack none of their dependencies are told apart if their numbers are. -/
theorem coherentAll_of_nodup {roots : List Library} (all : List Library)
    (hall : ∀ l ∈ all, ∀ d ∈ l.dependencies, d ∈ all) (hids : (all.map Library.id).Nodup)
    (hroots : ∀ root ∈ roots, root ∈ all) : CoherentAll roots := by
  have hmem : ∀ {m l : Library}, m.Within l → l ∈ all → m ∈ all := by
    intro m l hm
    induction hm with
    | self => exact fun hl => hl
    | dependency hd _ ih => exact fun hl => ih (hall _ hl _ hd)
  intro d hd d' hd' m m' hm hm' hid
  exact List.inj_on_of_nodup_map hids (hmem hm (hroots d hd)) (hmem hm' (hroots d' hd')) hid

/-- The core library and a library on top of it are told apart by their numbers. -/
theorem coherentAll_core {l : Library} (hl : l.dependencies = [Core.library id]) (hne : l.id ≠ id) :
    CoherentAll [Core.library id, l] :=
  coherentAll_of_nodup [Core.library id, l] (by simp [hl, Core.library])
    (by simp [Core.library, hne.symm]) fun _ h => h

end Library

namespace Tree

/-- **Compiled code never gets stuck.** Let a tree whose identities are apart be accepted on top of
libraries that come from such trees. A call to a function of the resulting library, with any
arguments, in any state of the machine and under any limit, stops only because of the number of its
arguments, an operand or a pointer that does not fit, a division by zero, or the limit. The one
exception is no outcome of a run: a variable of a type that contains itself has no initial value. -/
theorem lowerTree_stops_ordinarily {t : Tree} {id : LibraryId} {name : String}
    {dependencies : List Library} {report : Report}
    (hcompiled : ∀ d ∈ dependencies, d.CompiledFrom fun t _ _ => t.Apart)
    (hcoherent : Library.CoherentAll dependencies)
    (hfresh : ∀ d ∈ dependencies, d.findLibrary? id = none) (ht : t.Apart)
    (h : (lowerTree t { id, name, dependencies } report).2.failed = false) {f : FunctionRef}
    (hf : f ∈ (lowerTree t { id, name, dependencies } report).1.routineRefs) (vs : List Value)
    (limit : Nat) (m m' : Machine) (e : RunError)
    (herror : Machine.call (lowerTree t { id, name, dependencies } report).1 limit f vs m =
      (.error e, m')) :
    e.Ordinary ∨ (∃ ty, e = .ir (.endless ty)) ∧
      ∃ l : Library, l.Within (lowerTree t { id, name, dependencies } report).1 ∧
        ∃ ty, TransGen l.types.Holds ty ty := by
  have hforeign := Library.foreign_of_owned (fun d hd => (hcompiled d hd).owned) hfresh
  have hdependencies := (lowerTree_owned hforeign h).2
  have hsealed :=
    (Library.CompiledFrom.lowered (P := fun t _ _ => t.Apart) hcompiled hfresh ht h).sealed
  have hid := lowerTree_id hforeign h
  -- how the library has been made does not matter from here on
  generalize (lowerTree t { id, name, dependencies } report).1 = l at *
  subst hdependencies hid
  obtain ⟨i, hi, rfl⟩ := List.mem_map.mp hf
  have hknows : l.Knows ⟨l.id, i⟩ := Library.knows_own rfl (List.mem_range.mp hi)
  have htolerates : Machine.Tolerates (fun e => e.Ordinary ∨ (∃ ty, e = .ir (.endless ty)) ∧
      ∃ k : Library, k.Within l ∧ ∃ ty, TransGen k.types.Holds ty ty) l := by
    refine ⟨fun e he => .inl he, fun k hk ty hty => ⟨fun _ _ => True.intro, fun e he => .inr ?_⟩⟩
    obtain ⟨hendless, hcycle⟩ := Machine.initialValue_error (hsealed k hk).1.types hty he
    exact ⟨hendless, k, hk, hcycle⟩
  exact (Machine.call_stops htolerates (fun k hk => (hsealed k hk).1)
    (Library.coherent_of_fresh hcoherent hfresh) hknows vs m).2 e m' herror

/-- A counter with a function that divides by zero. -/
def divider : Tree :=
  counter [] [⟨.expression ⟨.binary .divide ⟨.literal (.int 1), .integer, .unknown⟩
    ⟨.literal (.int 0), .integer, .unknown⟩, .integer, .unknown⟩, .unknown⟩]

theorem lowerTree_stops_ordinarily_divider :
    ∃ m', Machine.call (lowerTree divider .blank {}).1 8 ⟨⟨1⟩, 0⟩ [.undefined] {} =
        (.error .divisionByZero, m') ∧
      (RunError.divisionByZero.Ordinary ∨ (∃ ty, RunError.divisionByZero = .ir (.endless ty)) ∧
        ∃ l : Library, l.Within (lowerTree divider .blank {}).1 ∧ ∃ ty, TransGen l.types.Holds ty ty) := by
  have hstops : (Machine.call (lowerTree divider .blank {}).1 8 ⟨⟨1⟩, 0⟩ [.undefined] {}).1.map
      (fun _ => ()) = .error .divisionByZero := by decide +kernel
  rcases hcall : Machine.call (lowerTree divider .blank {}).1 8 ⟨⟨1⟩, 0⟩ [.undefined] {} with
    ⟨e | v, m'⟩ <;> rw [hcall] at hstops
  · cases hstops
    refine ⟨m', rfl, lowerTree_stops_ordinarily ?_ ?_ ?_ ⟨by decide, by decide⟩
      (by decide +kernel) (by decide +kernel) _ 8 {} m' _ hcall⟩
    · simpa using .core ⟨0⟩
    · exact Library.coherentAll_of_nodup [Core.library ⟨0⟩] (by simp [Core.library]) (by simp)
        fun _ h => h
    · exact Library.fresh_core (by decide)
  · cases hstops

end Tree

end Shader
