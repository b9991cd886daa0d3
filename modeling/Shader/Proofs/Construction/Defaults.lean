import Shader.Proofs.Containment.Objects
import Shader.Proofs.Types.Portrait
import Mathlib.Data.Fintype.Card
import Mathlib.Data.Set.Finite.Basic

/-!
# What default objects hold

A class that has nothing but stored fields has a default object that can be read off its
declaration: a field holds its literal, the zero value of its builtin type, or the default object of
its class. This comes to an end as long as classes do not store each other in a circle.
-/

namespace Shader

open Outcome Relation

/-! ### Values -/

/-- The zero value of a builtin type. -/
def TypeSpec.zero : TypeSpec → Value
  | .scalar k => .ofLiteral (.zero k)
  | .vector k n => .composite (List.replicate n (.ofLiteral (.zero k)))
  | .matrix m n =>
    .composite (List.replicate n (.composite (List.replicate m (.ofLiteral (.zero .real)))))
  | .array e n => .composite (List.replicate n e.zero)
  | .void | .ofClass _ | .math => .undefined

variable {spec : TypeSpec}

/-- Classes have no builtin names. -/
theorem TypeSpec.isClass_of_builtinName {name : String} (h : spec.builtinName = some name) :
    spec.isClass = false := by
  cases spec with
  | ofClass id => nomatch h
  | _ => rfl

/-- Whether a class has a pre-constructor: it declares one, or it has a field to initialize. -/
def ClassDecl.isPrepared (c : ClassDecl) : Bool := c.preConstructor.isSome || c.needsPreConstructor

mutual

/-- The zero value of a class. -/
inductive IsZero (w : Tree) : ClassDecl → Value → Prop
  | intro {c : ClassDecl} {xs : List Value} (h : AreZeros w c.members xs) :
    IsZero w c (.composite xs)

/-- The zero values of member variables. -/
inductive AreZeros (w : Tree) : List VariableDecl → List Value → Prop
  | nil : AreZeros w [] []
  | builtin {v : VariableDecl} {vs : List VariableDecl} {xs : List Value}
    (hty : v.ty.isClass = false) (h : AreZeros w vs xs) : AreZeros w (v :: vs) (v.ty.zero :: xs)
  | object {v : VariableDecl} {vs : List VariableDecl} {c : ClassDecl} {x : Value} {xs : List Value}
    (hc : c ∈ w.classes) (hty : v.ty = .ofClass c.id) (hx : IsZero w c x) (h : AreZeros w vs xs) :
    AreZeros w (v :: vs) (x :: xs)

end

mutual

/-- **The structural default** of a class: the defaults of its member variables, in their order. The
number counts the pre-constructors that run, which are its own, if it has one, and those of the
objects in it. -/
inductive IsDefault (w : Tree) : ClassDecl → Value → Nat → Prop
  | intro {c : ClassDecl} {xs : List Value} {n : Nat} (h : AreDefaults w c.members xs n) :
    IsDefault w c (.composite xs) (if c.isPrepared then n + 1 else n)

/-- The defaults of member variables: the value of a literal, the zero value of a builtin type, or
the default of a class. -/
inductive AreDefaults (w : Tree) : List VariableDecl → List Value → Nat → Prop
  | nil : AreDefaults w [] [] 0
  | literal {v : VariableDecl} {vs : List VariableDecl} {e : Expr} {l : Literal} {xs : List Value}
    {n : Nat} (hinitial : v.initial = some e) (he : e.kind = .literal l)
    (h : AreDefaults w vs xs n) :
    AreDefaults w (v :: vs) (.ofLiteral l :: xs) n
  | builtin {v : VariableDecl} {vs : List VariableDecl} {xs : List Value} {n : Nat}
    (hinitial : v.initial = none) (hty : v.ty.isClass = false) (h : AreDefaults w vs xs n) :
    AreDefaults w (v :: vs) (v.ty.zero :: xs) n
  | object {v : VariableDecl} {vs : List VariableDecl} {c : ClassDecl} {x : Value} {xs : List Value}
    {k n : Nat} (hinitial : v.initial = none) (hc : c ∈ w.classes) (hty : v.ty = .ofClass c.id)
    (hx : IsDefault w c x k) (h : AreDefaults w vs xs n) :
    AreDefaults w (v :: vs) (x :: xs) (k + n)

end

/-! ### Plain classes -/

/-- A plain field: a literal of its own type, a builtin type, or an object. -/
inductive VariableDecl.Plain (w : Tree) (v : VariableDecl) : Prop
  | literal {l : Literal} {location : Location} (hty : v.ty = .scalar l.kind)
    (hinitial : v.initial = some ⟨.literal l, .scalar l.kind, location⟩)
  | builtin (hty : (({} : Registry).enterBuiltin v.ty).isOk = true) (hinitial : v.initial = none)
  | object {c : ClassDecl} (hc : c ∈ w.classes) (hty : v.ty = .ofClass c.id)
    (hinitial : v.initial = none)

/-- **Plain classes** have nothing but stored fields. -/
structure ClassDecl.Plain (w : Tree) (c : ClassDecl) : Prop where
  constructors : c.constructors = []
  functions : c.functions = []
  stored : ∀ v ∈ c.members, v.isField = true ∧ v.isStatic = false
  names : (c.members.map VariableDecl.name).Nodup
  members : ∀ v ∈ c.members, v.Plain w
  /-- Member numbers are words. -/
  count : c.members.length ≤ UInt32.size

/-- The classes of a tree, as those that are in sight. -/
def Tree.world (w : Tree) : Set ClassDecl := {c | c ∈ w.classes}

/-- **Plain worlds.** The classes in sight are plain and told apart by their identities and by their
names, and they do not store each other in a circle. -/
structure Tree.Plain (w : Tree) : Prop where
  classes : ∀ c ∈ w.classes, c.Plain w
  apart : ClassesApart w.world
  acyclic : ∀ c, ¬ TransGen w.Stores c c

variable {c : ClassDecl}

theorem ClassDecl.Plain.fields_eq {w : Tree} (hc : c.Plain w) :
    c.fields = c.members :=
  List.filter_eq_self.mpr fun v hv => (hc.stored v hv).1

theorem ClassDecl.Plain.no_accessors {w : Tree} (hc : c.Plain w) {v : VariableDecl}
    (hv : v ∈ c.members) : v.getter = none ∧ v.setter = none := by
  have hfield := (hc.stored v hv).1
  rwa [VariableDecl.isField, Bool.and_eq_true, Option.isNone_iff_eq_none,
    Option.isNone_iff_eq_none] at hfield

namespace Tree

variable {w : Tree}

/-- **Induction over what classes store.** -/
theorem Plain.induction (hw : w.Plain) {P : ClassDecl → Prop}
    (h : ∀ c ∈ w.classes, (∀ c', w.Stores c c' → P c') → P c) : ∀ c ∈ w.classes, P c := by
  let R : {c // c ∈ w.classes} → {c // c ∈ w.classes} → Prop := fun a b => TransGen w.Stores b.1 a.1
  have : Finite {c // c ∈ w.classes} := List.finite_toSet w.classes
  have : IsTrans _ R := ⟨fun _ _ _ hab hbc => hbc.trans hab⟩
  have : Std.Irrefl R := ⟨fun a => hw.acyclic a.1⟩
  have hwf : WellFounded R := Finite.wellFounded_of_trans_of_irrefl R
  have hall : ∀ a : {c // c ∈ w.classes}, P a.1 := fun a =>
    hwf.induction a fun a ih => h a.1 a.2 fun c' hc' => ih ⟨c', hc'.2.1⟩ (.single hc')
  exact fun c hc => hall ⟨c, hc⟩

/-- A field of a class type makes a class store another one. -/
theorem Plain.stores (hw : w.Plain) {c c' : ClassDecl} (hc : c ∈ w.classes) (hc' : c' ∈ w.classes)
    {v : VariableDecl} (hv : v ∈ c.members) (hty : v.ty = .ofClass c'.id) : w.Stores c c' :=
  ⟨hc, hc', v, hv, ((hw.classes c hc).stored v hv).1, hty⟩

theorem isClass_of_enterBuiltin (h : (({} : Registry).enterBuiltin spec).isOk = true) :
    spec.isClass = false := by
  cases spec with
  | ofClass id => nomatch h
  | _ => rfl

/-- **Every class in sight has a default.** -/
theorem Plain.exists_default (hw : w.Plain) : ∀ c ∈ w.classes, ∃ x n, IsDefault w c x n := by
  refine hw.induction fun c hc ih => ?_
  have hmembers : ∀ vs : List VariableDecl, (∀ v ∈ vs, v ∈ c.members) → ∃ xs n, AreDefaults w vs xs n := by
    intro vs
    induction vs with
    | nil => exact fun _ => ⟨[], 0, .nil⟩
    | cons v vs ihvs =>
      intro hvs
      obtain ⟨hv, hvs⟩ := List.forall_mem_cons.mp hvs
      obtain ⟨xs, n, hxs⟩ := ihvs hvs
      cases (hw.classes c hc).members v hv with
      | literal hty hinitial => exact ⟨_, n, .literal hinitial rfl hxs⟩
      | builtin hty hinitial =>
        exact ⟨_, n, .builtin hinitial (isClass_of_enterBuiltin hty) hxs⟩
      | object hc' hty hinitial =>
        obtain ⟨x, k, hx⟩ := ih _ (hw.stores hc hc' hv hty)
        exact ⟨x :: xs, k + n, .object hinitial hc' hty hx hxs⟩
  obtain ⟨xs, n, h⟩ := hmembers c.members fun _ hv => hv
  exact ⟨_, _, .intro h⟩

/-- **Nothing to prepare.** The default of a class without a pre-constructor is its zero value. -/
theorem Plain.default_of_not_prepared (hw : w.Plain) (hc : c ∈ w.classes)
    (hprepared : c.isPrepared = false) {z x : Value} {n : Nat} (hz : IsZero w c z)
    (hx : IsDefault w c x n) : x = z ∧ n = 0 := by
  obtain ⟨hz⟩ := hz
  obtain ⟨hx⟩ := hx
  have hneeds : ∀ v ∈ c.members, v.initial = none ∧ v.ty.isClass = false := by
    intro v hv
    rw [ClassDecl.isPrepared, Bool.or_eq_false_iff, ClassDecl.needsPreConstructor,
      List.any_eq_false] at hprepared
    have hv' := hprepared.2 v hv
    rw [((hw.classes c hc).stored v hv).1] at hv'
    simpa using hv'
  rw [hprepared]
  have hmembers : ∀ {vs : List VariableDecl} {zs xs : List Value} {n : Nat},
      (∀ v ∈ vs, v.initial = none ∧ v.ty.isClass = false) → AreZeros w vs zs →
      AreDefaults w vs xs n → xs = zs ∧ n = 0 := by
    intro vs
    induction vs with
    | nil =>
      rintro zs xs n - ⟨⟩ ⟨⟩
      exact ⟨rfl, rfl⟩
    | cons v vs ih =>
      intro zs xs n hvs hzs hxs
      obtain ⟨⟨hnone, hclass⟩, hvs⟩ := List.forall_mem_cons.mp hvs
      cases hzs with
      | object _ hty _ _ =>
        rw [hty] at hclass
        nomatch hclass
      | builtin _ hzs =>
        cases hxs with
        | literal hinitial _ _ => nomatch hnone.symm.trans hinitial
        | object _ _ hty _ _ =>
          rw [hty] at hclass
          nomatch hclass
        | builtin _ _ hxs =>
          obtain ⟨rfl, rfl⟩ := ih hvs hzs hxs
          exact ⟨rfl, rfl⟩
  obtain ⟨rfl, rfl⟩ := hmembers hneeds hz hx
  exact ⟨rfl, rfl⟩

end Tree

/-! ### Types of plain classes -/

namespace Registry

variable {W : Set ClassDecl} {w : Tree} {r : Registry} {depth : Nat} {t : TypeRef}

/-- Builtin types are made of simpler ones. -/
theorem Exact.acc_builtin (hW : ClassesApart W) (h : r.Exact W ∅) (spec : TypeSpec) :
    ∀ t name, r.Named t name → spec.builtinName = some name → Acc (flip r.Holds) t := by
  have hstep : ∀ spec : TypeSpec, (∀ e n, spec.component? = some (e, n) →
      ∀ u name, r.Named u name → e.builtinName = some name → Acc (flip r.Holds) u) →
      ∀ t name, r.Named t name → spec.builtinName = some name → Acc (flip r.Holds) t := by
    intro spec hcomponent t name hn hspec
    refine .intro t fun u hu => ?_
    rcases h.holds_cases hu with ⟨spec', e, name', ename, n, hn', hspec', he, hename, hnamed⟩ |
      ⟨c, hc, hn', -⟩
    · obtain rfl := hn.unique hn'
      obtain rfl := TypeSpec.builtinName_inj hspec hspec'
      exact hcomponent e n he u ename hnamed hename
    · obtain rfl := hn.unique hn'
      exact absurd ⟨spec, hspec⟩ (hW.className c hc).builtin
  have hscalar : ∀ k t name, r.Named t name → (TypeSpec.scalar k).builtinName = some name →
      Acc (flip r.Holds) t := fun k => hstep _ nofun
  have hvector : ∀ k n t name, r.Named t name → (TypeSpec.vector k n).builtinName = some name →
      Acc (flip r.Holds) t := fun k n => hstep _ fun e m he => by
    cases Option.some.inj he
    exact hscalar k
  -- a matrix has no type in it that the induction knows of, but its columns are vectors
  induction spec with
  | scalar k => exact hscalar k
  | vector k n => exact hvector k n
  | matrix m n =>
    refine hstep _ fun e n he => ?_
    cases Option.some.inj he
    exact hvector .real m
  | array e n ih =>
    refine hstep _ fun e' n he => ?_
    cases Option.some.inj he
    exact ih
  | void | ofClass | math => exact hstep _ nofun

/-- **Types of plain classes are finite.** -/
theorem Exact.acyclic (hw : w.Plain) (h : r.Exact w.world ∅) (u : TypeRef) :
    ¬ TransGen r.Holds u u := by
  have hclass : ∀ c ∈ w.classes, ∀ t, r.Named t c.name → Acc (flip r.Holds) t := by
    refine hw.induction fun c hc ih t ht => .intro t fun u hu => ?_
    rcases h.holds_cases hu with ⟨spec, _, _, _, _, hn, hspec, -⟩ |
      ⟨c', hc', hn, v, hv, name, hnamed, hcalled⟩
    · obtain rfl := ht.unique hn
      exact absurd ⟨spec, hspec⟩ (hw.apart.className c hc).builtin
    · obtain rfl := hw.apart.eq_of_name c hc c' hc' (ht.unique hn)
      rcases hcalled with hbuiltin | ⟨d, hd, hty, rfl⟩
      · exact h.acc_builtin hw.apart v.ty u name hnamed hbuiltin
      · exact ih d (hw.stores hc hd (List.mem_filter.mp hv).1 hty) u hnamed
  have hall : ∀ t, Acc (flip r.Holds) t := by
    intro t
    refine .intro t fun u hu => ?_
    rcases h.holds_cases hu with ⟨_, e, _, ename, _, _, _, _, hename, hnamed⟩ |
      ⟨_, _, _, v, _, name, hnamed, hcalled⟩
    · exact h.acc_builtin hw.apart e u ename hnamed hename
    · rcases hcalled with hbuiltin | ⟨d, hd, -, rfl⟩
      · exact h.acc_builtin hw.apart v.ty u name hnamed hbuiltin
      · exact hclass d hd u hnamed
  intro hcycle
  have hwf : WellFounded (flip r.Holds) := ⟨hall⟩
  exact hwf.transGen.irrefl.irrefl u (transGen_swap.mp hcycle)

/-- The zero value of a builtin type is what its name says. -/
theorem Exact.zero_builtin (h : r.Exact W ∅) {i : TypeInfo} {z : Value} (hi : r.info? t = some i)
    (hspec : spec.builtinName = some i.name) (hz : r.zeroWithin depth t = .ok z) :
    z = spec.zero := by
  induction depth generalizing t i spec z with
  | zero => cases hz
  | succ depth ih =>
    have hmodels := h.builtin t i spec hi hspec
    have hrepeat : ∀ e n, spec.component? = some (e, n) →
        z = .composite (List.replicate n e.zero) := by
      intro e n he
      obtain ⟨rfl, c, name, hc, hname, ⟨j, hj, rfl⟩⟩ := hmodels.component e n he
      rw [zeroWithin_repeats hi depth (hmodels.kind ▸ repeats_builtinKind.mpr ⟨_, _, he⟩), hc] at hz
      obtain ⟨z', hz', rfl⟩ := map_eq_ok.mp hz
      rw [ih hj hname hz']
    have hflat : spec.component? = none → builtinKind spec ≠ .struct →
        z = flatZero (builtinKind spec) := by
      intro hnone hstruct
      have hrepeats : ¬ Repeats i.kind := by
        rw [hmodels.kind, repeats_builtinKind, hnone]
        simp
      rw [zeroWithin_flat hi depth hrepeats (hmodels.kind ▸ hstruct), hmodels.kind] at hz
      exact (Except.ok.inj hz).symm
    cases spec with
    | void => exact hflat rfl nofun
    | scalar k => cases k <;> exact hflat rfl nofun
    | vector k n => exact hrepeat _ _ rfl
    | matrix m n => exact hrepeat _ _ rfl
    | array e n => exact hrepeat _ _ rfl
    | ofClass | math => cases hspec

/-- The zero values of the members of a struct, one by one. -/
theorem Exact.zero_members (h : r.Exact w.world ∅)
    (hclass : ∀ t c z, c ∈ w.classes → r.Named t c.name → r.zeroWithin depth t = .ok z →
      IsZero w c z) {ps : List TypeRef} {vs : List VariableDecl} {xs : List Value}
    (hparts : List.Forall₂ (fun p v => ∃ name, r.Named p name ∧ v.ty.Called w.world name) ps vs)
    (hxs : List.Forall₂ (fun p x => r.zeroWithin depth p = .ok x) ps xs) : AreZeros w vs xs := by
  induction hparts generalizing xs with
  | nil =>
    cases hxs
    exact .nil
  | cons hpv _ ih =>
    obtain ⟨x, xs', hx, hxs', rfl⟩ := List.forall₂_cons_left_iff.mp hxs
    obtain ⟨name, ⟨i, hi, rfl⟩, hbuiltin | ⟨c, hc, hty, hname⟩⟩ := hpv
    · rw [h.zero_builtin hi hbuiltin hx]
      exact .builtin (TypeSpec.isClass_of_builtinName hbuiltin) (ih hxs')
    · exact .object hc hty (hclass _ c x hc ⟨i, hi, hname.symm⟩ hx) (ih hxs')

/-- **The zero value of the struct of a class.** -/
theorem Exact.zero_class (hw : w.Plain) (h : r.Exact w.world ∅) {z : Value} (hc : c ∈ w.classes)
    (ht : r.Named t c.name) (hz : r.zeroWithin depth t = .ok z) :
    IsZero w c z := by
  induction depth generalizing t c z with
  | zero => cases hz
  | succ depth ih =>
    obtain ⟨i, hi, hname⟩ := ht
    have hstruct := eq_struct_of_suits (h.suits t i hi) (hname ▸ hw.apart.className c hc)
    rw [zeroWithin_struct hi depth hstruct] at hz
    obtain ⟨xs, hmembers, rfl⟩ := map_eq_ok.mp hz
    have hparts := (h.whole t i c hc hi hname (Set.notMem_empty _)).types
    rw [(hw.classes c hc).fields_eq] at hparts
    exact .intro (h.zero_members (fun _ _ _ => ih) hparts (mapM_ok hmembers))

/-- **Zero values exist.** -/
theorem Exact.exists_zero (hw : w.Plain) (h : r.Exact w.world ∅) (hclosed : r.Closed)
    (hc : c ∈ w.classes) (ht : r.Named t c.name) :
    ∃ z, r.zeroValue t = .ok z ∧ IsZero w c z := by
  cases hz : r.zeroValue t with
  | ok z => exact ⟨z, rfl, h.zero_class hw hc ht hz⟩
  | error e =>
    obtain ⟨-, u, hcycle⟩ := hclosed.zeroValue_error ht.index_lt hz
    exact absurd hcycle (h.acyclic hw u)

end Registry

end Shader
