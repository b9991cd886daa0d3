import Shader.Proofs.Types.Lookup
import Shader.Types.Import
import Mathlib.Data.List.Chain
import Mathlib.Data.List.Perm.Subperm

/-!
# Closed registries

A type refers to other types: what it is made of, what it points to, the pointers to it. In a closed
registry all of these are there. Closedness needs nothing of the names of types, so that it holds of
every registry that lowering produces.

* Each operation on a registry is taken apart once (`intern_cases`, `pointerType_cases`,
  `functionType_cases`, `addMember_cases`, `addFunction_cases`): it leaves the registry alone,
  appends one type, or changes a few descriptors.
* `Reaches` — the registry has only grown and is closed; what an operation returns is there
  (`Enters`). This goes through copies of types of another registry (`importType_enters`).
-/

namespace Shader

namespace Registry

open Outcome

/-! ### What the operations do -/

variable {t u : TypeRef} {r : Registry} {name : String} {spec : TypeSpec}

section Cases

variable {r r' : Registry}

theorem intern_cases (r : Registry) (name : String) (kind : Kind) (count : Nat)
    (component : Option TypeRef) :
    (∃ t, r.find? name = some t ∧ r.intern name kind count component = (t, r)) ∨
      r.find? name = none ∧ r.intern name kind count component =
        (⟨r.size⟩, r.push { name, kind, count, component }) := by
  unfold intern
  cases r.find? name with
  | some t => exact .inl ⟨t, rfl, rfl⟩
  | none => exact .inr ⟨rfl, rfl⟩

theorem info?_intern_of_some {i : TypeInfo} (hi : r.info? t = some i) (name : String) (kind : Kind)
    (count : Nat) (component : Option TypeRef) :
    (r.intern name kind count component).2.info? t = some i := by
  rcases r.intern_cases name kind count component with ⟨_, -, heq⟩ | ⟨-, heq⟩ <;> rw [heq]
  · exact hi
  · exact info?_push_of_some hi _

theorem named_intern (r : Registry) (name : String) (kind : Kind) (count : Nat)
    (component : Option TypeRef) :
    (r.intern name kind count component).2.Named (r.intern name kind count component).1 name := by
  rcases r.intern_cases name kind count component with ⟨t, ht, heq⟩ | ⟨hname, heq⟩
  · rw [heq]
    exact find?_eq_some ht
  · rw [heq]
    exact ⟨_, by rw [info?_push, if_pos rfl], rfl⟩

/-- **Entering a builtin type.** What it is made of is entered first, and then the type itself, so a
property is kept that entering one type at a time keeps. -/
theorem enterBuiltin_rule {P : Registry → Prop}
    (hstep : ∀ {r spec component name}, P r → spec.builtinName = some name →
      r.Supplies spec component →
        P (r.intern name (builtinKind spec) (builtinCount spec) component).2) (hr : P r)
    (h : r.enterBuiltin spec = .ok (t, r')) :
    P r' ∧ ∃ name, spec.builtinName = some name ∧ r'.Named t name := by
  have henter : ∀ {r r' component t name} (spec : TypeSpec), P r → spec.builtinName = some name →
      r.Supplies spec component →
      r.intern name (builtinKind spec) (builtinCount spec) component = (t, r') →
      P r' ∧ ∃ name, spec.builtinName = some name ∧ r'.Named t name := by
    intro r r' component t name spec hr hname hc heq
    have hnamed := named_intern r name (builtinKind spec) (builtinCount spec) component
    have hkept := hstep hr hname hc
    rw [heq] at hnamed hkept
    exact ⟨hkept, name, hname, hnamed⟩
  have hvector : ∀ {k n t r'}, r.vectorType k n = .ok (t, r') →
      P r' ∧ ∃ name, (TypeSpec.vector k n).builtinName = some name ∧ r'.Named t name := by
    intro k n t r' h
    unfold vectorType at h
    split at h
    · obtain ⟨hlane, hnamed⟩ := henter (.scalar k) hr rfl (supplies_none rfl) rfl
      exact henter (.vector k n) hlane rfl (supplies_some rfl hnamed) (Except.ok.inj h)
    · cases h
  induction spec generalizing r' t with
  | void => exact henter .void hr rfl (supplies_none rfl) (Except.ok.inj h)
  | scalar k => exact henter (.scalar k) hr rfl (supplies_none rfl) (Except.ok.inj h)
  | vector k n => exact hvector h
  | matrix m n =>
    rw [enterBuiltin] at h
    cases hcolumn : r.vectorType .real m with
    | error e => rw [hcolumn] at h; cases h
    | ok p =>
      rw [hcolumn] at h
      obtain ⟨hkept, hnamed⟩ := hvector hcolumn
      exact henter (.matrix m n) hkept rfl (supplies_some rfl hnamed) (Except.ok.inj h)
  | array e n ih =>
    rw [enterBuiltin] at h
    cases hname : e.builtinName with
    | none => rw [hname] at h; cases h
    | some name =>
      rw [hname] at h
      dsimp only at h
      cases helement : r.enterBuiltin e with
      | error _ => rw [helement] at h; cases h
      | ok p =>
        rw [helement] at h
        obtain ⟨hkept, hnamed⟩ := ih helement
        exact henter (.array e n) hkept (by rw [TypeSpec.builtinName, hname]; rfl)
          (supplies_some rfl hnamed) (Except.ok.inj h)
  | ofClass | math => cases h

theorem lift_ok {α : Type} {x : Except IrError α} {a : α} :
    (liftM x : TypeM α) r = (.ok a, r') ↔ x = .ok a ∧ r = r' := by
  change (x, r) = (Except.ok a, r') ↔ _
  rw [Prod.mk.injEq]

/-- Links a type with the type of its pointers. -/
def link (r : Registry) (t p : TypeRef) : Registry :=
  (r.modify p fun x => { x with pointee := some t }).modify t fun x => { x with pointer := some p }

/-- Appends a member to a struct. -/
def extend (r : Registry) (owner member : TypeRef) (name : String) : Registry :=
  r.modify owner fun i => { i with parts := i.parts ++ [member],
                                   memberNames := i.memberNames ++ [name],
                                   layout := none }

/-- The two sides of a link are different fields, so that it does not matter which is set first. -/
theorem info?_link (r : Registry) (t p u : TypeRef) :
    (r.link t p).info? u = (r.info? u).map fun x =>
      { x with pointee := if u = p then some t else x.pointee,
               pointer := if u = t then some p else x.pointer } := by
  unfold link
  rw [info?_modify, info?_modify]
  cases r.info? u with
  | none => simp
  | some x => split <;> split <;> simp

theorem info?_extend (r : Registry) (owner member : TypeRef) (name : String) (u : TypeRef) :
    (r.extend owner member name).info? u = (r.info? u).map fun x =>
      if u = owner then { x with parts := x.parts ++ [member],
                                 memberNames := x.memberNames ++ [name],
                                 layout := none } else x := by
  unfold extend
  rw [info?_modify]
  by_cases h : u = owner <;> simp [h]

/-- The type of pointers is known, or it is found or entered and linked. -/
theorem pointerType_apply (t : TypeRef) (r : Registry) :
    pointerType t r = match r.info? t with
      | none => (.error (.dangling t), r)
      | some i => match i.pointer with
        | some p => (.ok p, r)
        | none => let (p, r) := r.intern (pointerName i.name) .pointer 0 none
          (.ok p, r.link t p) := by
  unfold pointerType
  rw [bind_apply]
  change ((liftM (r.info t) : TypeM TypeInfo) >>= _) r = _
  unfold info
  cases r.info? t with
  | none => rfl
  | some i =>
    change (match i.pointer with | some p => _ | none => _ : TypeM TypeRef) r = _
    cases hp : i.pointer <;> simp only [hp] <;> rfl

theorem pointerType_cases {t p : TypeRef} (h : pointerType t r = (.ok p, r')) :
    ∃ i, r.info? t = some i ∧ (i.pointer = some p ∧ r' = r ∨
      i.pointer = none ∧ p = (r.intern (pointerName i.name) .pointer 0 none).1 ∧
        r' = (r.intern (pointerName i.name) .pointer 0 none).2.link t p) := by
  rw [pointerType_apply] at h
  split at h
  · exact absurd h error_ne_ok
  · next i hi =>
    refine ⟨i, hi, ?_⟩
    split at h
    · next q hpointer =>
      obtain ⟨rfl, rfl⟩ := ok_eq_ok.mp h
      exact .inl ⟨hpointer, rfl⟩
    · next hpointer =>
      obtain ⟨rfl, rfl⟩ := ok_eq_ok.mp h
      exact .inr ⟨hpointer, rfl, rfl⟩

/-- The name of the function type with the given return type and parameters. -/
def signatureOf (r : Registry) (result : TypeRef) (parameters : List TypeRef) :
    Except IrError String := do
  let names ← parameters.mapM r.nameOf
  return signatureName (← r.nameOf result) names

theorem signatureOf_eq_ok {result : TypeRef} {parameters : List TypeRef} :
    r.signatureOf result parameters = .ok name ↔ ∃ resultName names, r.Named result resultName ∧
      List.Forall₂ r.Named parameters names ∧ signatureName resultName names = name := by
  constructor
  · intro h
    obtain ⟨names, hnames, h⟩ := bind_eq_ok.mp h
    obtain ⟨resultName, hresult, h⟩ := bind_eq_ok.mp h
    exact ⟨resultName, names, nameOf_ok hresult, (mapM_ok hnames).imp fun _ _ => nameOf_ok,
      Except.ok.inj h⟩
  · rintro ⟨resultName, names, hresult, hnames, rfl⟩
    have hname : ∀ {t name}, r.Named t name → r.nameOf t = .ok name := by
      rintro t _ ⟨i, hi, rfl⟩
      rw [nameOf, info_eq hi]
      rfl
    exact bind_eq_ok.mpr ⟨names, mapM_of_forall₂ (hnames.imp fun _ _ => hname),
      bind_eq_ok.mpr ⟨resultName, hname hresult, rfl⟩⟩

/-- A function type is found by its name, or it is entered. -/
theorem functionType_apply (result : TypeRef) (parameters : List TypeRef) (r : Registry) :
    functionType result parameters r = match r.signatureOf result parameters with
      | .error e => (.error e, r)
      | .ok name => match r.find? name with
        | some t => (.ok t, r)
        | none => (.ok ⟨r.size⟩, r.push { name := name, kind := .function, count := 0,
                                          component := none, parts := result :: parameters }) := by
  unfold functionType signatureOf
  rw [bind_apply]
  change ((parameters.mapM fun p => (liftM (r.nameOf p) : TypeM String)) >>= _) r = _
  rw [bind_apply, mapM_lift_apply]
  cases parameters.mapM r.nameOf with
  | error e => rfl
  | ok names =>
    cases r.nameOf result with
    | error e => rfl
    | ok name =>
      change (match r.find? (signatureName name names) with | some t => _ | none => _ :
        TypeM TypeRef) r = match r.find? (signatureName name names) with | some t => _ | none => _
      cases r.find? (signatureName name names) <;> rfl

theorem functionType_cases {result t : TypeRef} {parameters : List TypeRef}
    (h : functionType result parameters r = (.ok t, r')) :
    ∃ resultName names, r.find? (signatureName resultName names) = some t ∧ r' = r ∨
      r.find? (signatureName resultName names) = none ∧
        (∀ p ∈ result :: parameters, p.index < r.size) ∧ t = ⟨r.size⟩ ∧
        r' = r.push { name := signatureName resultName names, kind := .function, count := 0,
                      component := none, parts := result :: parameters } := by
  rw [functionType_apply] at h
  split at h
  · exact absurd h error_ne_ok
  · next name hname =>
    obtain ⟨resultName, names, hresult, hnames, rfl⟩ := signatureOf_eq_ok.mp hname
    refine ⟨resultName, names, ?_⟩
    split at h
    · next u hfind =>
      obtain ⟨rfl, rfl⟩ := ok_eq_ok.mp h
      exact .inl ⟨hfind, rfl⟩
    · next hfind =>
      obtain ⟨rfl, rfl⟩ := ok_eq_ok.mp h
      refine .inr ⟨hfind, List.forall_mem_cons.mpr ⟨hresult.index_lt, fun p hp => ?_⟩, rfl, rfl⟩
      obtain ⟨name, -, hp⟩ := forall₂_exists_of_mem hnames hp
      exact hp.index_lt

/-- A member is appended to a struct. -/
theorem addMember_apply (owner member : TypeRef) (name : String) (r : Registry) :
    addMember owner member name r = match r.info? owner with
      | none => (.error (.dangling owner), r)
      | some i =>
        if i.kind ≠ .struct then (.error (.notStruct name i.name), r)
        else if name ∈ i.memberNames then (.error (.duplicateMember i.name name), r)
        else match r.info? member with
          | none => (.error (.dangling member), r)
          | some _ => (.ok i.parts.length, r.extend owner member name) := by
  unfold addMember
  rw [bind_apply]
  change ((liftM (r.info owner) : TypeM TypeInfo) >>= _) r = _
  unfold info
  cases r.info? owner with
  | none => rfl
  | some i =>
    change (if i.kind ≠ .struct then _ else _ : TypeM Nat) r = if i.kind ≠ .struct then _ else _
    split
    · rfl
    · split
      · rfl
      · cases r.info? member <;> rfl

theorem addMember_cases {owner member : TypeRef} {n : Nat}
    (h : addMember owner member name r = (.ok n, r')) :
    ∃ i j, r.info? owner = some i ∧ r.info? member = some j ∧ i.kind = .struct ∧
      name ∉ i.memberNames ∧ n = i.parts.length ∧ r' = r.extend owner member name := by
  rw [addMember_apply] at h
  split at h
  · exact absurd h error_ne_ok
  · next i hi =>
    split at h
    · exact absurd h error_ne_ok
    · next hkind =>
      split at h
      · exact absurd h error_ne_ok
      · next hname =>
        split at h
        · exact absurd h error_ne_ok
        · next j hj =>
          obtain ⟨rfl, rfl⟩ := ok_eq_ok.mp h
          exact ⟨i, j, hi, hj, not_not.mp hkind, hname, rfl, rfl⟩

theorem addFunction_cases {owner : TypeRef} {f : FunctionRef} {u : Unit}
    (h : addFunction owner f r = (.ok u, r')) :
    r' = r.modify owner fun i => { i with functions := i.functions ++ [f] } := by
  unfold addFunction at h
  replace h := after_ok h rfl
  obtain ⟨i, _, h₂, h⟩ := bind_ok.mp h
  obtain ⟨-, rfl⟩ := lift_ok.mp h₂
  exact (ok_eq_ok.mp h).2.symm

end Cases

/-! ### Closed registries -/

/-- The types that a type refers to. -/
def mentions (i : TypeInfo) : List TypeRef :=
  i.component.toList ++ i.pointee.toList ++ i.pointer.toList ++ i.parts

/-- All types that are referred to are there. -/
def Closed (r : Registry) : Prop :=
  ∀ t i, r.info? t = some i → ∀ u ∈ mentions i, u.index < r.size

/-- **A later state of a registry.** It has grown and is closed. -/
structure Reaches (r r' : Registry) : Prop where
  closed : r'.Closed
  size : r.size ≤ r'.size

theorem Reaches.refl (h : r.Closed) : r.Reaches r := ⟨h, Nat.le_refl _⟩

theorem Reaches.trans {r r' r'' : Registry} (h : r.Reaches r') (h' : r'.Reaches r'') :
    r.Reaches r'' := ⟨h'.closed, Nat.le_trans h.size h'.size⟩

theorem closed_empty : Closed {} := nofun

section Closed

variable {r r' : Registry}

theorem size_push (r : Registry) (i : TypeInfo) : (r.push i).size = r.size + 1 :=
  List.length_append

theorem size_modify (r : Registry) (t : TypeRef) (f : TypeInfo → TypeInfo) :
    (r.modify t f).size = r.size := List.length_modify _ _ _

theorem size_link (r : Registry) (t p : TypeRef) : (r.link t p).size = r.size := by
  rw [link, size_modify, size_modify]

theorem exists_info? (h : t.index < r.size) : ∃ i, r.info? t = some i :=
  ⟨_, List.getElem?_eq_getElem h⟩

theorem exists_named (h : t.index < r.size) : ∃ name, r.Named t name := by
  obtain ⟨i, hi⟩ := exists_info? h
  exact ⟨i.name, i, hi, rfl⟩

theorem index_lt_of_find? (h : r.find? name = some t) : t.index < r.size := by
  obtain ⟨i, hi, -⟩ := find?_eq_some h
  exact index_lt_of_info? hi

theorem Closed.push (h : r.Closed) {i : TypeInfo} (hi : ∀ u ∈ mentions i, u.index < r.size) :
    r.Reaches (r.push i) := by
  refine ⟨fun t j hj u hu => ?_, by rw [size_push]; exact Nat.le_succ _⟩
  rw [size_push]
  rw [info?_push] at hj
  split at hj
  · cases hj
    exact Nat.lt_succ_of_lt (hi u hu)
  · exact Nat.lt_succ_of_lt (h t j hj u hu)

theorem Closed.modify (h : r.Closed) {f : TypeInfo → TypeInfo}
    (hf : ∀ i, ∀ u ∈ mentions (f i), u ∈ mentions i ∨ u.index < r.size) :
    r.Reaches (r.modify t f) := by
  refine ⟨fun t' j hj u hu => ?_, Nat.le_of_eq (size_modify ..).symm⟩
  rw [size_modify]
  rw [info?_modify] at hj
  split at hj
  · obtain ⟨i, hi, rfl⟩ := Option.map_eq_some_iff.mp hj
    exact (hf i u hu).elim (h t' i hi u) fun hlt => hlt
  · exact h t' j hj u hu

theorem Closed.link (h : r.Closed) {p : TypeRef} (ht : t.index < r.size) (hp : p.index < r.size) :
    r.Reaches (r.link t p) := by
  have hpointee := h.modify (t := p) (f := fun x => { x with pointee := some t }) fun i u hu => by
    simp only [mentions, Option.toList_some, List.mem_append, List.mem_singleton] at hu ⊢
    rcases hu with ((hu | rfl) | hu) | hu <;> tauto
  refine hpointee.trans (hpointee.closed.modify fun i u hu => ?_)
  rw [size_modify]
  simp only [mentions, Option.toList_some, List.mem_append, List.mem_singleton] at hu ⊢
  rcases hu with (hu | rfl) | hu <;> tauto

theorem Closed.intern (h : r.Closed) (name : String) (kind : Kind) (count : Nat)
    (component : Option TypeRef) (hc : ∀ c ∈ component, c.index < r.size) :
    r.Reaches (r.intern name kind count component).2 ∧
      (r.intern name kind count component).1.index <
        (r.intern name kind count component).2.size := by
  obtain ⟨t, ht, heq⟩ | ⟨-, heq⟩ := r.intern_cases name kind count component
  · rw [heq]
    exact ⟨.refl h, index_lt_of_find? ht⟩
  · rw [heq]
    refine ⟨h.push fun u hu => hc u ?_, by rw [size_push]; exact Nat.lt_succ_self _⟩
    simpa [mentions] using hu

/-- A step that returns a type which is there. -/
def Enters (x : TypeM TypeRef) : Prop :=
  ∀ r t r', x r = (.ok t, r') → r.Closed → r.Reaches r' ∧ t.index < r'.size

theorem Closed.enterBuiltin (h : r.Closed) (ht : r.enterBuiltin spec = .ok (t, r')) :
    r.Reaches r' ∧ t.index < r'.size := by
  obtain ⟨hreach, name, -, hnamed⟩ := enterBuiltin_rule (P := r.Reaches) (fun hr _ hc => by
    refine hr.trans (hr.closed.intern _ _ _ _ fun c hmem => ?_).1
    obtain ⟨_, _, _, -, -, hnamed⟩ := hc.of_some hmem
    exact hnamed.index_lt) (.refl h) ht
  exact ⟨hreach, hnamed.index_lt⟩

/-- What a step does that works on a copy of the registry. -/
def commit (r : Registry) : Except IrError (TypeRef × Registry) → Except IrError TypeRef × Registry
  | .ok (t, r') => (.ok t, r')
  | .error e => (.error e, r)

theorem lowerBuiltin_apply (spec : TypeSpec) (r : Registry) :
    lowerBuiltin spec r = r.commit (r.enterBuiltin spec) := by
  rw [lowerBuiltin, bind_apply]
  dsimp only [get_apply]
  rcases r.enterBuiltin spec with e | ⟨t, r'⟩ <;> rfl

theorem lowerBuiltin_cases (h : lowerBuiltin spec r = (.ok t, r')) :
    r.enterBuiltin spec = .ok (t, r') := by
  rw [lowerBuiltin_apply] at h
  rcases hu : r.enterBuiltin spec with e | ⟨u, r₁⟩ <;> rw [hu] at h
  · exact absurd h error_ne_ok
  · obtain ⟨rfl, rfl⟩ := ok_eq_ok.mp h
    rfl

theorem lowerBuiltin_enters (spec : TypeSpec) : Enters (lowerBuiltin spec) :=
  fun _ _ _ h hr => hr.enterBuiltin (lowerBuiltin_cases h)

theorem pointerType_enters (t : TypeRef) : Enters (pointerType t) := by
  intro r p r' h hr
  obtain ⟨i, hi, ⟨hp, rfl⟩ | ⟨-, rfl, rfl⟩⟩ := pointerType_cases h
  · exact ⟨.refl hr, hr t i hi p (by simp [mentions, hp])⟩
  · obtain ⟨hreach, hlt⟩ := hr.intern (pointerName i.name) .pointer 0 none nofun
    have ht : t.index < (r.intern (pointerName i.name) .pointer 0 none).2.size :=
      Nat.lt_of_lt_of_le (index_lt_of_info? hi) hreach.size
    rw [size_link]
    exact ⟨hreach.trans (hreach.closed.link ht hlt), hlt⟩

theorem functionType_enters (result : TypeRef) (parameters : List TypeRef) :
    Enters (functionType result parameters) := by
  intro r t r' h hr
  obtain ⟨_, _, ⟨hfind, rfl⟩ | ⟨-, hparts, rfl, rfl⟩⟩ := functionType_cases h
  · exact ⟨.refl hr, index_lt_of_find? hfind⟩
  · refine ⟨hr.push fun u hu => hparts u ?_, by rw [size_push]; exact Nat.lt_succ_self _⟩
    simpa [mentions] using hu

theorem addMember_reaches {owner member : TypeRef} {n : Nat}
    (h : addMember owner member name r = (.ok n, r')) (hr : r.Closed) : r.Reaches r' := by
  obtain ⟨i, j, -, hj, -, -, -, rfl⟩ := addMember_cases h
  have hmember := index_lt_of_info? hj
  refine hr.modify fun i u hu => ?_
  simp only [mentions, List.mem_append, List.mem_singleton] at hu ⊢
  rcases hu with hu | hu | rfl <;> tauto

theorem addFunction_reaches {owner : TypeRef} {f : FunctionRef} {u : Unit}
    (h : addFunction owner f r = (.ok u, r')) (hr : r.Closed) : r.Reaches r' := by
  rw [addFunction_cases h]
  exact hr.modify fun i u hu => .inl hu

/-- What a query finds among the parts of a type is there. -/
theorem Closed.partAt (h : r.Closed) {owner t : TypeRef} {index : Nat}
    (ht : r.partAt owner index = .ok t) : t.index < r.size := by
  obtain ⟨i, hi, -, hpart⟩ := partAt_eq_ok.mp ht
  exact h owner i hi t (List.mem_append_right _ (List.mem_of_getElem? hpart))

end Closed

/-! ### Copies of types -/

section Import

variable {source : Registry}

variable {copy : TypeRef → TypeM TypeRef} {r r' : Registry}

theorem importMembers_reaches (hcopy : ∀ t, Enters (copy t)) (owner : TypeRef)
    {members : List (TypeRef × String)} {u : Unit}
    (h : importMembers copy owner members r = (.ok u, r')) (hr : r.Closed) : r.Reaches r' := by
  induction members generalizing r with
  | nil =>
    obtain ⟨-, rfl⟩ := ok_eq_ok.mp h
    exact .refl hr
  | cons p members ih =>
    obtain ⟨member, name⟩ := p
    rw [importMembers] at h
    obtain ⟨t, r₁, h₁, h⟩ := bind_ok.mp h
    obtain ⟨n, r₂, h₂, h⟩ := bind_ok.mp h
    have hreach₁ := (hcopy member r t r₁ h₁ hr).1
    have hreach₂ := addMember_reaches h₂ hreach₁.closed
    exact (hreach₁.trans hreach₂).trans (ih h hreach₂.closed)

theorem enters_optionMapM (hcopy : ∀ t, Enters (copy t)) {o : Option TypeRef} {o' : Option TypeRef}
    (h : o.mapM copy r = (.ok o', r')) (hr : r.Closed) :
    r.Reaches r' ∧ ∀ t ∈ o', t.index < r'.size := by
  cases o with
  | none =>
    obtain ⟨rfl, rfl⟩ := ok_eq_ok.mp h
    exact ⟨.refl hr, nofun⟩
  | some t =>
    obtain ⟨t', r₁, h₁, rfl, rfl⟩ := return_ok.mp h
    obtain ⟨hreach, hlt⟩ := hcopy t r t' r₁ h₁ hr
    exact ⟨hreach, by simpa using hlt⟩

theorem reaches_mapM (hcopy : ∀ t, Enters (copy t)) {ts ts' : List TypeRef}
    (h : ts.mapM copy r = (.ok ts', r')) (hr : r.Closed) : r.Reaches r' := by
  induction ts generalizing r ts' with
  | nil =>
    rw [List.mapM_nil] at h
    obtain ⟨-, rfl⟩ := ok_eq_ok.mp h
    exact .refl hr
  | cons t ts ih =>
    rw [List.mapM_cons] at h
    obtain ⟨t', r₁, h₁, h⟩ := bind_ok.mp h
    obtain ⟨ts'', r₂, h₂, -, rfl⟩ := return_ok.mp h
    have hreach := (hcopy t r t' r₁ h₁ hr).1
    exact hreach.trans (ih h₂ hreach.closed)

/-- **How a type is made** in another registry, after its component has been copied. -/
inductive Remakes (copy : TypeRef → TypeM TypeRef) (i : TypeInfo) (component : Option TypeRef)
    (r : Registry) : TypeRef → Registry → Prop
  | pointer {p q t : TypeRef} {r₁ r' : Registry} (hkind : i.kind = .pointer)
    (hpointee : i.pointee = some p) (hcopy : copy p r = (.ok q, r₁))
    (h : pointerType q r₁ = (.ok t, r')) : Remakes copy i component r t r'
  | function {result t : TypeRef} {parameters : List TypeRef} {r₁ r' : Registry}
    (hkind : i.kind = .function) (hcopy : i.parts.mapM copy r = (.ok (result :: parameters), r₁))
    (h : functionType result parameters r₁ = (.ok t, r')) : Remakes copy i component r t r'
  | struct {u : Unit} {r' : Registry} (hkind : i.kind = .struct)
    (h : importMembers copy (r.internStruct i.name).1 (i.parts.zip i.memberNames)
      (r.internStruct i.name).2 = (.ok u, r')) : Remakes copy i component r (r.internStruct i.name).1 r'
  | plain (hpointer : i.kind ≠ .pointer) (hfunction : i.kind ≠ .function)
    (hstruct : i.kind ≠ .struct) :
    Remakes copy i component r (r.intern i.name i.kind i.count component).1
      (r.intern i.name i.kind i.count component).2

/-- **Copying a type** finds one of its name, or copies its component and makes it. -/
theorem importWithin_ok {source r r' : Registry} {depth : Nat} :
    importWithin source (depth + 1) t r = (.ok u, r') ↔ ∃ i, source.info? t = some i ∧
      (r.find? i.name = some u ∧ r' = r ∨ r.find? i.name = none ∧
      ∃ component r₁, i.component.mapM (importWithin source depth) r = (.ok component, r₁) ∧
        Remakes (importWithin source depth) i component r₁ u r') := by
  constructor
  · intro h
    rw [importWithin] at h
    obtain ⟨i, _, h₁, h⟩ := bind_ok.mp h
    obtain ⟨hi, rfl⟩ := lift_ok.mp h₁
    refine ⟨i, info_ok hi, ?_⟩
    replace h := after_ok h rfl
    cases hfind : r.find? i.name with
    | some u' =>
      rw [hfind] at h
      obtain ⟨rfl, rfl⟩ := ok_eq_ok.mp h
      exact .inl ⟨rfl, rfl⟩
    | none =>
      rw [hfind] at h
      obtain ⟨component, r₁, h₃, h⟩ := bind_ok.mp h
      refine .inr ⟨rfl, component, r₁, h₃, ?_⟩
      cases hkind : i.kind with
      | pointer =>
        rw [hkind] at h
        dsimp only at h
        cases hpointee : i.pointee with
        | none =>
          rw [hpointee] at h
          exact absurd h error_ne_ok
        | some p =>
          rw [hpointee] at h
          obtain ⟨q, r₂, h₄, h⟩ := bind_ok.mp h
          exact .pointer hkind hpointee h₄ h
      | function =>
        rw [hkind] at h
        obtain ⟨parts, r₂, h₄, h⟩ := bind_ok.mp h
        cases parts with
        | nil => exact absurd h error_ne_ok
        | cons result parameters => exact .function hkind h₄ h
      | struct =>
        rw [hkind] at h
        replace h := after_ok h rfl
        obtain ⟨_, r₃, h₅, rfl, rfl⟩ := return_ok.mp h
        exact .struct hkind h₅
      | _ =>
        have hplain : Remakes (importWithin source depth) i component r₁ _ _ :=
          .plain (hkind ▸ nofun) (hkind ▸ nofun) (hkind ▸ nofun)
        rw [hkind] at h hplain
        obtain ⟨rfl, rfl⟩ := ok_eq_ok.mp h
        exact hplain
  · rintro ⟨i, hi, hcases⟩
    rw [importWithin]
    refine bind_ok.mpr ⟨i, r, lift_ok.mpr ⟨info_eq hi, rfl⟩, bind_ok.mpr ⟨r, r, rfl, ?_⟩⟩
    rcases hcases with ⟨hfind, rfl⟩ | ⟨hnew, component, r₁, hcomponent, hremakes⟩
    · rw [hfind]
      rfl
    · rw [hnew]
      refine bind_ok.mpr ⟨component, r₁, hcomponent, ?_⟩
      cases hremakes with
      | pointer hkind hpointee hcopy h =>
        rw [hkind]
        dsimp only
        rw [hpointee]
        exact bind_ok.mpr ⟨_, _, hcopy, h⟩
      | function hkind hcopy h =>
        rw [hkind]
        exact bind_ok.mpr ⟨_, _, hcopy, h⟩
      | struct hkind h =>
        rw [hkind]
        exact bind_ok.mpr ⟨_, _, rfl, bind_ok.mpr ⟨_, _, h, rfl⟩⟩
      | plain hpointer hfunction hstruct =>
        cases hkind : i.kind with
        | pointer => exact absurd hkind hpointer
        | function => exact absurd hkind hfunction
        | struct => exact absurd hkind hstruct
        | _ => rfl

/-- Copying a type, by induction on the depth. -/
theorem importWithin_enters (source : Registry) (depth : Nat) (t : TypeRef) :
    Enters (importWithin source depth t) := by
  induction depth generalizing t with
  | zero => exact fun r u r' h => absurd h error_ne_ok
  | succ depth ih =>
    intro r u r' h hr
    obtain ⟨i, -, ⟨hfind, rfl⟩ | ⟨-, component, r₁, hcomponent, hremakes⟩⟩ := importWithin_ok.mp h
    · exact ⟨.refl hr, index_lt_of_find? hfind⟩
    obtain ⟨hreach₁, hcomponent⟩ := enters_optionMapM ih hcomponent hr
    cases hremakes with
    | pointer _ _ hcopy h =>
      have hreach₂ := (ih _ _ _ _ hcopy hreach₁.closed).1
      obtain ⟨hreach₃, hlt⟩ := pointerType_enters _ _ _ _ h hreach₂.closed
      exact ⟨(hreach₁.trans hreach₂).trans hreach₃, hlt⟩
    | function _ hcopy h =>
      have hreach₂ := reaches_mapM ih hcopy hreach₁.closed
      obtain ⟨hreach₃, hlt⟩ := functionType_enters _ _ _ _ _ h hreach₂.closed
      exact ⟨(hreach₁.trans hreach₂).trans hreach₃, hlt⟩
    | struct _ h =>
      obtain ⟨hreach₂, hlt⟩ := hreach₁.closed.intern i.name .struct 0 none nofun
      have hreach₃ := importMembers_reaches ih _ h hreach₂.closed
      exact ⟨(hreach₁.trans hreach₂).trans hreach₃, Nat.lt_of_lt_of_le hlt hreach₃.size⟩
    | plain =>
      obtain ⟨hreach₂, hlt⟩ := hreach₁.closed.intern i.name i.kind i.count _ hcomponent
      exact ⟨hreach₁.trans hreach₂, hlt⟩

theorem importType_enters (source : Registry) (t : TypeRef) : Enters (importType source t) :=
  importWithin_enters source _ t

end Import

/-! ### Zero values -/

/-- **What a type holds.** The lanes, columns and elements, or the members of a struct, of which its
values are composed. -/
inductive Holds (r : Registry) (t u : TypeRef) : Prop
  | component {i : TypeInfo} (hi : r.info? t = some i)
    (hkind : i.kind = .vector ∨ i.kind = .matrix ∨ i.kind = .array) (hc : i.component = some u)
  | member {i : TypeInfo} (hi : r.info? t = some i) (hkind : i.kind = .struct) (hp : u ∈ i.parts)

theorem Closed.index_lt_of_holds (h : r.Closed) (hu : r.Holds t u) :
    u.index < r.size := by
  cases hu with
  | component hi _ hc => exact h t _ hi u (by simp [mentions, hc])
  | member hi _ hp => exact h t _ hi u (List.mem_append_right _ hp)

/-- The zero value of a type that holds no others. -/
def flatZero : Kind → Value
  | .bool => .bool false
  | .int => .int 0
  | .float => .real .zero
  | _ => .undefined

section Zero

variable {r : Registry} {t : TypeRef} {i : TypeInfo} (hi : r.info? t = some i) (depth : Nat)
include hi

theorem zeroWithin_repeats (hkind : i.kind = .vector ∨ i.kind = .matrix ∨ i.kind = .array) :
    r.zeroWithin (depth + 1) t = i.component.elim (.ok .undefined) fun c =>
      (r.zeroWithin depth c).map fun v => .composite (List.replicate i.count v) := by
  rw [zeroWithin, info_eq hi]
  rcases hkind with hkind | hkind | hkind <;>
    · simp only [bind, Except.bind, hkind]
      cases i.component with
      | none => rfl
      | some c => cases h : r.zeroWithin depth c <;> simp [h, Except.map, pure, Except.pure]

theorem zeroWithin_struct (hkind : i.kind = .struct) :
    r.zeroWithin (depth + 1) t = (i.parts.mapM (r.zeroWithin depth)).map .composite := by
  rw [zeroWithin, info_eq hi]
  simp only [bind, Except.bind, hkind]
  cases i.parts.mapM (r.zeroWithin depth) <;> rfl

theorem zeroWithin_flat (hrepeats : ¬ (i.kind = .vector ∨ i.kind = .matrix ∨ i.kind = .array))
    (hstruct : i.kind ≠ .struct) : r.zeroWithin (depth + 1) t = .ok (flatZero i.kind) := by
  rw [zeroWithin, info_eq hi]
  simp only [bind, Except.bind]
  cases hkind : i.kind <;> simp_all [flatZero, pure, Except.pure]

end Zero

/-! ### Ways down -/

/-- Fewer than so many types are passed on any way down from a type. -/
def Shallow (R : TypeRef → TypeRef → Prop) : Nat → TypeRef → Prop
  | 0, _ => False
  | depth + 1, t => ∀ u, R t u → Shallow R depth u

section Shallow

variable {r : Registry} {R : TypeRef → TypeRef → Prop} (hR : ∀ {t u}, R t u → t.index < r.size)
  {depth : Nat} {t : TypeRef}
include hR

/-- A type that is not shallow has a long way down. -/
theorem exists_chain_of_not_shallow (h : ¬ Shallow R (depth + 1) t) :
    ∃ chain : List TypeRef, chain.length = depth + 1 ∧ List.IsChain (Relation.TransGen R) chain ∧
      chain.head? = some t ∧ ∀ u ∈ chain, u.index < r.size := by
  induction depth generalizing t with
  | zero =>
    simp only [Shallow, not_forall] at h
    obtain ⟨u, hu, -⟩ := h
    exact ⟨[t], rfl, .singleton t, rfl, by simpa using hR hu⟩
  | succ depth ih =>
    rw [Shallow] at h
    push Not at h
    obtain ⟨u, hu, hdeep⟩ := h
    obtain ⟨chain, hlength, hchain, hhead, hlt⟩ := ih hdeep
    refine ⟨t :: chain, congrArg (· + 1) hlength, ?_, rfl, List.forall_mem_cons.mpr ⟨hR hu, hlt⟩⟩
    refine List.isChain_cons.mpr ⟨fun v hv => ?_, hchain⟩
    obtain rfl : u = v := Option.some.inj (hhead.symm.trans hv)
    exact .single hu

/-- Where there is no way from a type below back to it, the number of types bounds all ways down. -/
theorem shallow_of_forall
    (h : ∀ u, Relation.ReflTransGen R t u → ¬ Relation.TransGen R u u) (hdepth : r.size ≤ depth) :
    Shallow R (depth + 1) t := by
  by_contra hdeep
  obtain ⟨chain, hlength, hchain, hhead, hlt⟩ := exists_chain_of_not_shallow hR hdeep
  have hpairwise : chain.Pairwise (Relation.TransGen R) := List.isChain_iff_pairwise.mp hchain
  have hbelow : ∀ u ∈ chain, Relation.ReflTransGen R t u := by
    obtain ⟨rest, rfl⟩ := List.head?_eq_some_iff.mp hhead
    intro u hu
    rcases List.mem_cons.mp hu with rfl | hu
    · exact .refl
    · exact ((List.pairwise_cons.mp hpairwise).1 u hu).to_reflTransGen
  -- all types on the way differ, and there are more of them than places
  have hnodup : (chain.map TypeRef.index).Nodup :=
    List.pairwise_map.mpr (hpairwise.imp_of_mem fun {a b} ha _ hab heq => by
      obtain rfl : a = b := congrArg TypeRef.mk heq
      exact h a (hbelow a ha) hab)
  have hsubset : chain.map TypeRef.index ⊆ List.range r.size := by
    intro n hn
    obtain ⟨u, hu, rfl⟩ := List.mem_map.mp hn
    exact List.mem_range.mpr (hlt u hu)
  have hle := (hnodup.subperm hsubset).length_le
  rw [List.length_map, List.length_range] at hle
  omega

end Shallow

theorem Holds.index_lt (h : r.Holds t u) : t.index < r.size := by
  cases h with
  | component hi => exact index_lt_of_info? hi
  | member hi => exact index_lt_of_info? hi

/-- A zero value is missing only where the depth runs out. -/
theorem Closed.zeroWithin_error (h : r.Closed) {depth : Nat} {e : IrError} (ht : t.index < r.size)
    (he : r.zeroWithin depth t = .error e) :
    (∃ u, e = .endless u) ∧ ¬ Shallow r.Holds depth t := by
  induction depth generalizing t with
  | zero => exact ⟨⟨t, (Except.error.inj he).symm⟩, id⟩
  | succ depth ih =>
    obtain ⟨i, hi⟩ := exists_info? ht
    have hnext : ∀ v, r.Holds t v → r.zeroWithin depth v = .error e →
        (∃ u, e = .endless u) ∧ ¬ Shallow r.Holds (depth + 1) t := by
      intro v hv hve
      obtain ⟨hu, hdeep⟩ := ih (h.index_lt_of_holds hv) hve
      exact ⟨hu, fun hshallow => hdeep (hshallow v hv)⟩
    by_cases hrepeats : i.kind = .vector ∨ i.kind = .matrix ∨ i.kind = .array
    · rw [zeroWithin_repeats hi depth hrepeats] at he
      cases hc : i.component with
      | none => rw [hc] at he; cases he
      | some c =>
        rw [hc] at he
        exact hnext c (.component hi hrepeats hc) (map_eq_error.mp he)
    by_cases hstruct : i.kind = .struct
    · rw [zeroWithin_struct hi depth hstruct] at he
      obtain ⟨p, hp, hzero⟩ := mapM_error (map_eq_error.mp he)
      exact hnext p (.member hi hstruct hp) hzero
    · rw [zeroWithin_flat hi depth hrepeats hstruct] at he
      cases he

/-- **Missing zero values.** In a closed registry a type has a zero value unless some type holds
itself. -/
theorem Closed.zeroValue_error (h : r.Closed) {e : IrError} (ht : t.index < r.size)
    (he : r.zeroValue t = .error e) :
    (∃ u, e = .endless u) ∧ ∃ u, Relation.TransGen r.Holds u u := by
  obtain ⟨hu, hdeep⟩ := h.zeroWithin_error ht he
  refine ⟨hu, not_forall_not.mp fun hacyclic => hdeep ?_⟩
  exact shallow_of_forall Holds.index_lt (fun u _ => hacyclic u) (Nat.le_refl _)

end Registry

end Shader
