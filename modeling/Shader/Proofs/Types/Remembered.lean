import Shader.Proofs.Types.Shape
import Shader.Proofs.Types.Steps
import Mathlib.Data.List.Infix

/-!
# Layouts from memory

A registry remembers the layouts that it has worked out, and it changes while it remembers them. The
question is when its answers are those that the layout rules give for the types as they are.

* `Registry.Faithful` — every remembered layout is right. In a faithful registry a query gives what
  the rules alone give, and leaves a faithful registry (`Registry.layout_answers`,
  `Registry.memberOffset_answers`).

A new member makes the struct itself forget its layout, and nothing else. So a struct that is measured
as a part of another one, and grows afterwards, leaves a wrong size behind
(`Registry.byteSize_stale`).
-/

namespace Shader

namespace Registry

open Outcome Relation

/-! ### Answers from memory -/

/-- A type whose layout is remembered. -/
def Remembers (r : Registry) (t : TypeRef) (l : Layout) : Prop :=
  ∃ i, r.info? t = some i ∧ i.layout = some l

/-- **Faithful memory.** Every layout that is remembered is the one that the rules give. -/
def Faithful (r : Registry) : Prop := ∀ t l, r.Remembers t l → r.shapeLayout t = .ok l

/-- A descriptor without what is remembered of its layout. -/
def bare (i : TypeInfo) : TypeInfo := { i with layout := none }

/-- The same types, with layouts remembered that are right for types with the property. -/
structure Recalls (S : TypeRef → Prop) (r₀ r : Registry) : Prop where
  same : ∀ t, (r.info? t).map bare = (r₀.info? t).map bare
  size : r.size = r₀.size
  right : ∀ t l, S t → r.Remembers t l → r₀.shapeLayout t = .ok l

/-- The step gives this answer, and keeps the invariant. -/
def Answers (I : Registry → Prop) {α : Type} (x : TypeM α) (y : Except IrError α) : Prop :=
  ∀ r, I r → ∃ r', x r = (y, r') ∧ I r'

namespace Answers

variable {I : Registry → Prop} {α β : Type}

protected theorem pure (a : α) : Answers I (pure a) (.ok a) := fun r hr => ⟨r, rfl, hr⟩

protected theorem lift (y : Except IrError α) : Answers I (measure.liftExcept y) y := by
  cases y with
  | ok a => exact .pure a
  | error e => exact fun r hr => ⟨r, rfl, hr⟩

protected theorem bind {x : TypeM α} {y : Except IrError α} {f : α → TypeM β}
    {g : α → Except IrError β} (hx : Answers I x y) (hf : ∀ a, y = .ok a → Answers I (f a) (g a)) :
    Answers I (x >>= f) (y >>= g) := by
  intro r hr
  obtain ⟨r₁, h₁, hr₁⟩ := hx r hr
  rw [bind_apply, h₁]
  cases y with
  | error e => exact ⟨r₁, rfl, hr₁⟩
  | ok a => exact hf a rfl r₁ hr₁

protected theorem mapM {f : α → TypeM β} {g : α → Except IrError β} {as : List α}
    (h : ∀ a ∈ as, Answers I (f a) (g a)) : Answers I (as.mapM f) (as.mapM g) := by
  induction as with
  | nil => exact .pure []
  | cons a as ih =>
    rw [List.mapM_cons, List.mapM_cons]
    refine (h a List.mem_cons_self).bind fun b _ => ?_
    refine (ih fun a' ha' => h a' (List.mem_cons_of_mem a ha')).bind fun bs _ => ?_
    exact .pure (b :: bs)

end Answers

variable {t : TypeRef} {i : TypeInfo} {l : Layout}

section Memory

variable {r₀ r : Registry} {S : TypeRef → Prop}

/-- Queries that do not look at remembered layouts. -/
theorem Recalls.info_bind (h : Recalls S r₀ r) {α : Type} (t : TypeRef)
    {f : TypeInfo → Except IrError α} (hf : ∀ i, f i = f (bare i)) :
    r.info t >>= f = r₀.info t >>= f := by
  have hsame := h.same t
  unfold info
  cases hi : r.info? t with
  | none =>
    rw [hi] at hsame
    rw [Option.map_eq_none_iff.mp hsame.symm]
  | some i =>
    rw [hi] at hsame
    obtain ⟨i₀, hi₀, hbare⟩ := Option.map_eq_some_iff.mp hsame.symm
    rw [hi₀]
    change f i = f i₀
    rw [hf i, hf i₀, hbare]

theorem Recalls.asked_eq (h : Recalls S r₀ r) (i : TypeInfo) : r.asked i = r₀.asked i := by
  have hcolumn : ∀ column, r.info column >>= componentOf = r₀.info column >>= componentOf :=
    fun column => h.info_bind column fun _ => rfl
  unfold asked
  simp only [hcolumn]

theorem Recalls.compose_eq (h : Recalls S r₀ r) (i : TypeInfo) (ls : List Layout) :
    r.compose i ls = r₀.compose i ls := by
  unfold compose
  cases i.kind with
  | array =>
    cases hc : componentOf i with
    | error e => rfl
    | ok element => exact h.info_bind element fun _ => rfl
  | _ => rfl

theorem Recalls.refl (h : ∀ t l, S t → r.Remembers t l → r.shapeLayout t = .ok l) :
    Recalls S r r := ⟨fun _ => rfl, rfl, h⟩

/-- The types are found again with the same shapes. -/
theorem Recalls.resembles (h : Recalls S r₀ r) : Resembles (fun _ => True) r₀ r := by
  refine ⟨fun t i₀ hi₀ => ?_, fun _ _ _ _ => True.intro⟩
  have hsame := h.same t
  rw [hi₀] at hsame
  obtain ⟨i, hi, hbare⟩ := Option.map_eq_some_iff.mp hsame
  exact ⟨i, hi, congrArg (·.kind) hbare, congrArg (·.count) hbare, congrArg (·.component) hbare,
    fun _ => congrArg (·.parts) hbare⟩

theorem Recalls.faithful (h : Recalls (fun _ => True) r₀ r) : r.Faithful := fun t l hl =>
  h.resembles.shapeLayout_ok (Nat.le_of_eq h.size.symm) True.intro (h.right t l True.intro hl)

variable {t : TypeRef}

/-- A right layout may be remembered. -/
theorem Recalls.remember (h : Recalls S r₀ r) (hl : S t → r₀.shapeLayout t = .ok l) :
    Recalls S r₀ (r.modify t fun i => { i with layout := some l }) := by
  refine ⟨fun u => ?_, (size_modify ..).trans h.size, ?_⟩
  · rw [← h.same u, info?_modify]
    split
    · rw [Option.map_map]
      rfl
    · rfl
  · rintro u k hu ⟨i, hi, hk⟩
    rw [info?_modify] at hi
    split at hi
    · next heq =>
      obtain ⟨j, -, rfl⟩ := Option.map_eq_some_iff.mp hi
      obtain rfl : l = k := Option.some.inj hk
      exact heq ▸ hl (heq ▸ hu)
    · exact h.right u k hu ⟨i, hi, hk⟩

/-- The rules ask the same of both descriptors of a type. -/
theorem Recalls.rules (h : Recalls S r₀ r) (hi : r.info? t = some i) :
    ∃ i₀, r₀.info? t = some i₀ ∧ r.asked i = r₀.asked i₀ ∧
      ∀ ls, r.compose i ls = r₀.compose i₀ ls := by
  have hsame := h.same t
  rw [hi] at hsame
  obtain ⟨i₀, hi₀, hbare⟩ := Option.map_eq_some_iff.mp hsame.symm
  refine ⟨i₀, hi₀, ?_, fun ls => ?_⟩
  · rw [h.asked_eq]
    change r₀.asked (bare i) = r₀.asked (bare i₀)
    rw [hbare]
  · rw [h.compose_eq]
    change r₀.compose (bare i) ls = r₀.compose (bare i₀) ls
    rw [hbare]

theorem layoutWithin_remembered (hi : r.info? t = some i) (hl : i.layout = some l) (depth : Nat) :
    layoutWithin (depth + 1) t r = (.ok l, r) := by
  rw [layoutWithin]
  refine bind_ok.mpr ⟨r, r, rfl, bind_ok.mpr ⟨i, r, lift_ok.mpr ⟨info_eq hi, rfl⟩, ?_⟩⟩
  rw [hl]
  rfl

theorem layoutWithin_forgotten (hi : r.info? t = some i) (hl : i.layout = none) (depth : Nat) :
    layoutWithin (depth + 1) t r = (do
      let l ← r.measure (layoutWithin depth) i
      modifyThe Registry (·.modify t fun i => { i with layout := some l })
      return l : TypeM Layout) r := by
  have hget : (liftM (r.info t) : TypeM TypeInfo) r = (.ok i, r) := lift_ok.mpr ⟨info_eq hi, rfl⟩
  rw [layoutWithin, bind_of_ok (get_apply r), bind_of_ok hget, hl]

theorem layoutWithin_dangling (hi : r.info? t = none) (depth : Nat) :
    layoutWithin (depth + 1) t r = (.error (.dangling t), r) := by
  rw [layoutWithin, bind_apply]
  change ((liftM (r.info t) : TypeM TypeInfo) >>= _) r = _
  rw [info, hi]
  rfl

/-- The offset of a member by the rules alone. -/
def shapeOffset (r : Registry) (owner : TypeRef) (index : Nat) : Except IrError Nat := do
  let i ← r.info owner
  if i.kind ≠ .struct ∨ i.parts.length ≤ index then
    throw (.noMember index i.name)
  offsetOfLast r.shapeLayout 0 (i.parts.take (index + 1))

section Rules

variable (hS : ∀ t u, S t → r₀.RestsOn t u → S u)
include hS

/-- **Working out a layout** gives the layout by the rules alone, if what is remembered of the types
below is right. -/
theorem layoutWithin_answers {depth : Nat} (ht : Shallow r₀.RestsOn depth t) (hmem : S t) :
    Answers (Recalls S r₀) (layoutWithin depth t) (r₀.shapeLayout t) := by
  have hrules := shapeLayout_eq ht
  induction depth generalizing t with
  | zero => exact ht.elim
  | succ depth ih =>
    intro r hr
    cases hi : r.info? t with
    | none =>
      have hsame := hr.same t
      rw [hi] at hsame
      have hi₀ : r₀.info? t = none := Option.map_eq_none_iff.mp hsame.symm
      rw [layoutWithin_dangling hi, hrules, info, hi₀]
      exact ⟨r, rfl, hr⟩
    | some i =>
      obtain ⟨i₀, hi₀, hasked, hcompose⟩ := hr.rules hi
      cases hl : i.layout with
      | some l =>
        rw [layoutWithin_remembered hi hl, hr.right t l hmem ⟨i, hi, hl⟩]
        exact ⟨r, rfl, hr⟩
      | none =>
        have hshape : r₀.shapeLayout t = (do
            let ls ← (← r₀.asked i₀).mapM r₀.shapeLayout
            r₀.compose i₀ ls) := by
          rw [hrules, info, hi₀]
          rfl
        have hmeasure : Answers (Recalls S r₀) (r.measure (layoutWithin depth) i)
            (r₀.shapeLayout t) := by
          rw [hshape, measure_eq fun e k => rfl, hasked]
          simp only [hcompose]
          refine (Answers.lift _).bind fun ts hts => ?_
          refine (Answers.mapM fun u hu => ?_).bind fun ls _ => .lift _
          have hu : r₀.RestsOn t u := ⟨i₀, ts, hi₀, hts, hu⟩
          exact ih (ht u hu) (hS t u hmem hu) (shapeLayout_eq (ht u hu))
        rw [layoutWithin_forgotten hi hl]
        obtain ⟨r₁, h₁, hr₁⟩ := hmeasure r hr
        rw [bind_apply, h₁]
        cases hl₀ : r₀.shapeLayout t with
        | error e => exact ⟨r₁, rfl, hr₁⟩
        | ok l => exact ⟨_, rfl, hr₁.remember fun _ => hl₀⟩

/-- **Asking for a layout.** -/
theorem layout_answers {depth : Nat} (ht : Shallow r₀.RestsOn depth t) (hmem : S t) :
    Answers (Recalls S r₀) (layout t) (r₀.shapeLayout t) := by
  intro r hr
  rw [layout, bind_apply]
  change ∃ r', layoutWithin (r.size + 1) t r = _ ∧ _
  rw [hr.size]
  exact layoutWithin_answers hS ht.bounded hmem r hr

/-- **Asking for the offset of a member.** -/
theorem memberOffset_answers (owner : TypeRef) (index : Nat)
    (hparts : ∀ i, r₀.info? owner = some i → ∀ u ∈ i.parts.take (index + 1),
      S u ∧ ∃ depth, Shallow r₀.RestsOn depth u) :
    Answers (Recalls S r₀) (memberOffset owner index) (r₀.shapeOffset owner index) := by
  intro r hr
  have hsame := hr.same owner
  rw [memberOffset, shapeOffset, bind_apply]
  change ∃ r', ((liftM (r.info owner) : TypeM TypeInfo) >>= _) r = _ ∧ _
  rw [info, info]
  cases hi : r.info? owner with
  | none =>
    rw [hi] at hsame
    rw [Option.map_eq_none_iff.mp hsame.symm]
    exact ⟨r, rfl, hr⟩
  | some i =>
    rw [hi] at hsame
    obtain ⟨i₀, hi₀, hbare⟩ := Option.map_eq_some_iff.mp hsame.symm
    obtain ⟨hkind, hname, hsame⟩ : i₀.kind = i.kind ∧ i₀.name = i.name ∧ i₀.parts = i.parts :=
      ⟨congrArg (·.kind) hbare, congrArg (·.name) hbare, congrArg (·.parts) hbare⟩
    have hbody : Answers (Recalls S r₀) (do
          if i.kind ≠ .struct ∨ i.parts.length ≤ index then
            throw (.noMember index i.name)
          offsetOfLast layout 0 (i.parts.take (index + 1))) (do
          if i₀.kind ≠ .struct ∨ i₀.parts.length ≤ index then
            throw (.noMember index i₀.name)
          offsetOfLast r₀.shapeLayout 0 (i₀.parts.take (index + 1))) := by
      rw [hkind, hname, hsame, offsetOfLast_eq, offsetOfLast_eq]
      split
      · exact fun r hr => ⟨r, rfl, hr⟩
      · refine (Answers.mapM fun u hu => ?_).bind fun ls _ => .pure _
        obtain ⟨hmem, depth, hdepth⟩ := hparts i₀ hi₀ u (hsame ▸ hu)
        exact layout_answers hS hdepth hmem
    rw [hi₀]
    exact hbody r hr

end Rules

end Memory

/-! ### Runs of requests -/

/-- A request to a registry: a change, or a query about layouts. -/
inductive Request where
  | change (change : Change)
  | layout (ty : TypeRef)
  | byteSize (ty : TypeRef)
  | byteAlignment (ty : TypeRef)
  | memberOffset (owner : TypeRef) (index : Nat)
  deriving DecidableEq

namespace Request

/-- Carries out a request. -/
def perform : Request → TypeM Answer
  | .change c => c.perform
  | .layout ty => .layout <$> Registry.layout ty
  | .byteSize ty => .number <$> Registry.byteSize ty
  | .byteAlignment ty => .number <$> Registry.byteAlignment ty
  | .memberOffset owner index => .number <$> Registry.memberOffset owner index

/-- What the layout rules alone answer to a query; other requests are no queries. -/
def ofShape (r : Registry) : Request → Option (Except IrError Answer)
  | .layout ty => some (.layout <$> r.shapeLayout ty)
  | .byteSize ty => some do return .number (← r.shapeLayout ty).size
  | .byteAlignment ty => some do return .number (← r.shapeLayout ty).alignment
  | .memberOffset owner index => some (.number <$> r.shapeOffset owner index)
  | .change _ => none

end Request

/-- The registry after some requests, each of which may be refused. -/
def after (requests : List Request) : Registry := run Request.perform {} requests

theorem after_concat (requests : List Request) (q : Request) :
    after (requests ++ [q]) = (q.perform (after requests)).2 := by
  simp [after, run]

section Requests

variable {r r' : Registry}

theorem Answers.map {I : Registry → Prop} {α β : Type} {x : TypeM α} {y : Except IrError α}
    (h : Answers I x y) (f : α → β) : Answers I (f <$> x) (f <$> y) := by
  rw [map_eq_pure_bind, map_eq_pure_bind]
  exact h.bind fun a _ => .pure (f a)

/-- **Queries.** In a faithful registry they are answered by the rules alone, and leave it faithful. -/
theorem Faithful.query (h : r.Faithful) (hr : r.Acyclic) {q : Request} {a : Except IrError Answer}
    (hq : q.ofShape r = some a) : (q.perform r).1 = a ∧ (q.perform r).2.Faithful := by
  have hlayout : ∀ t, Answers (Recalls (fun _ => True) r) (layout t) (r.shapeLayout t) :=
    fun t => layout_answers (fun _ _ _ _ => True.intro) (hr.shallow t) True.intro
  have hanswers : Answers (Recalls (fun _ => True) r) q.perform a := by
    cases q with
    | layout ty =>
      cases hq
      exact (hlayout ty).map _
    | byteSize ty =>
      cases hq
      rw [Request.perform, byteSize, map_bind]
      exact (hlayout ty).bind fun l _ => .pure (Answer.number l.size)
    | byteAlignment ty =>
      cases hq
      rw [Request.perform, byteAlignment, map_bind]
      exact (hlayout ty).bind fun l _ => .pure (Answer.number l.alignment)
    | memberOffset owner index =>
      cases hq
      exact (memberOffset_answers (fun _ _ _ _ => True.intro) owner index
        fun _ _ u _ => ⟨True.intro, _, hr.shallow u⟩).map _
    | change c => nomatch hq
  obtain ⟨r', hperform, hrecalls⟩ := hanswers r (.refl fun t l _ => h t l)
  rw [hperform]
  exact ⟨rfl, hrecalls.faithful⟩

/-- Types that are found again with the same shapes and no new layouts. -/
structure Retains (r r' : Registry) : Prop where
  resembles : Resembles (fun _ => True) r r'
  size : r.size ≤ r'.size
  remembers : ∀ t l, r'.Remembers t l → r.Remembers t l

theorem Retains.refl (r : Registry) : Retains r r := by
  refine ⟨⟨fun t i hi => ?_, fun _ _ _ _ => True.intro⟩, Nat.le_refl _, fun _ _ h => h⟩
  exact ⟨i, hi, rfl, rfl, rfl, fun _ => rfl⟩

theorem Retains.trans {r'' : Registry} (h : Retains r r') (h' : Retains r' r'') :
    Retains r r'' := by
  refine ⟨⟨fun t i hi => ?_, fun _ _ _ _ => True.intro⟩, Nat.le_trans h.size h'.size,
    fun t l hl => h.remembers t l (h'.remembers t l hl)⟩
  obtain ⟨j, hj, hkind, hcount, hcomponent, hparts⟩ := h.resembles.found t i hi
  obtain ⟨k, hk, hkind', hcount', hcomponent', hparts'⟩ := h'.resembles.found t j hj
  exact ⟨k, hk, hkind'.trans hkind, hcount'.trans hcount, hcomponent'.trans hcomponent,
    fun ht => (hparts' ht).trans (hparts ht)⟩

theorem Retains.faithful (h : Retains r r') (hr : r.Faithful) : r'.Faithful := fun t l hl =>
  h.resembles.shapeLayout_ok h.size True.intro (hr t l (h.remembers t l hl))

theorem retains_push (r : Registry) (hl : i.layout = none) :
    Retains r (r.push i) := by
  refine ⟨⟨fun t j hj => ?_, fun _ _ _ _ => True.intro⟩, ?_, ?_⟩
  · exact ⟨j, info?_push_of_some hj i, rfl, rfl, rfl, fun _ => rfl⟩
  · rw [size_push]
    exact Nat.le_succ _
  · rintro t l ⟨j, hj, hjl⟩
    rw [info?_push] at hj
    split at hj
    · cases hj
      rw [hl] at hjl
      nomatch hjl
    · exact ⟨j, hj, hjl⟩

theorem retains_link (r : Registry) (t p : TypeRef) : Retains r (r.link t p) := by
  refine ⟨⟨fun u i hi => ?_, fun _ _ _ _ => True.intro⟩, Nat.le_of_eq (size_link ..).symm, ?_⟩
  · rw [info?_link, hi]
    exact ⟨_, rfl, rfl, rfl, rfl, fun _ => rfl⟩
  · rintro u l ⟨j, hj, hl⟩
    rw [info?_link] at hj
    obtain ⟨i, hi, rfl⟩ := Option.map_eq_some_iff.mp hj
    exact ⟨i, hi, hl⟩

theorem retains_intern (r : Registry) (name : String) (kind : Kind) (count : Nat)
    (component : Option TypeRef) : Retains r (r.intern name kind count component).2 := by
  obtain ⟨t, -, heq⟩ | ⟨-, heq⟩ := r.intern_cases name kind count component
  · rw [heq]
    exact .refl r
  · rw [heq]
    exact retains_push r rfl

variable {name : String} {member owner : TypeRef} {n : Nat}

theorem retains_functionType (r : Registry) (result : TypeRef) (parameters : List TypeRef) :
    Retains r (functionType result parameters r).2 := by
  rcases h : functionType result parameters r with ⟨e | t, r'⟩
  · rw [functionType_error h]
    exact .refl r
  · obtain ⟨resultName, names, ⟨-, rfl⟩ | ⟨-, -, -, rfl⟩⟩ := functionType_cases h
    · exact .refl _
    · exact retains_push r rfl

theorem retains_pointerType (r : Registry) (t : TypeRef) : Retains r (pointerType t r).2 := by
  rcases h : pointerType t r with ⟨e | p, r'⟩
  · rw [pointerType_error h]
    exact .refl r
  · obtain ⟨i, -, ⟨-, rfl⟩ | ⟨-, -, rfl⟩⟩ := pointerType_cases h
    · exact .refl _
    · exact (retains_intern r _ _ _ _).trans (retains_link ..)

/-- A layout that is remembered is the answer. -/
theorem layout_of_remembers (h : r.Remembers t l) :
    layout t r = (.ok l, r) := by
  rw [layout, bind_apply]
  obtain ⟨i, hi, hl⟩ := h
  exact layoutWithin_remembered hi hl r.size

section

variable (h : addMember owner member name r = (.ok n, r'))
include h

/-- A new member touches no descriptor but that of the struct. -/
theorem info?_addMember_of_ne (ht : t ≠ owner) :
    r'.info? t = r.info? t := by
  obtain ⟨i, j, -, -, -, -, -, rfl⟩ := addMember_cases h
  rw [extend, info?_modify, if_neg ht]

/-- The types that do not rest on a struct are as before when it has got a new member. -/
theorem resembles_addMember :
    Resembles (fun u => u ≠ owner ∧ ¬ TransGen r.RestsOn u owner) r r' := by
  obtain ⟨i, j, hi, -, -, -, -, rfl⟩ := addMember_cases h
  refine ⟨fun u k hk => ?_, fun u v hu huv => ⟨?_, fun hv => hu.2 (.head huv hv)⟩⟩
  · rw [extend, info?_modify]
    split
    · next hu =>
      rw [hk]
      exact ⟨_, rfl, rfl, rfl, rfl, fun hs => absurd hu hs.1⟩
    · exact ⟨k, hk, rfl, rfl, rfl, fun _ => rfl⟩
  · rintro rfl
    exact hu.2 (.single huv)

/-- A struct that gets a member forgets its layout, and no other type learns one. -/
theorem remembers_addMember (hl : r'.Remembers t l) :
    t ≠ owner ∧ r.Remembers t l := by
  obtain ⟨i, -, hi, -, -, -, -, heq⟩ := addMember_cases h
  obtain ⟨k, hk, hkl⟩ := hl
  have hne : t ≠ owner := by
    rintro rfl
    rw [heq, extend, info?_modify_self hi] at hk
    cases hk
    nomatch hkl
  exact ⟨hne, k, (info?_addMember_of_ne h hne).symm.trans hk, hkl⟩

end

/-- **A new member.** The memory stays right if it is right about the types that rest on the
struct. -/
theorem Faithful.addMember (hr : r.Faithful) (h : addMember owner member name r = (.ok n, r'))
    (hcontain : ∀ t l, TransGen r.RestsOn t owner → r.Remembers t l → r'.shapeLayout t = .ok l) :
    r'.Faithful := by
  intro t l hl
  obtain ⟨i, j, hi, -, -, -, -, heq⟩ := addMember_cases h
  obtain ⟨hne, hold⟩ := remembers_addMember h hl
  by_cases hrests : TransGen r.RestsOn t owner
  · exact hcontain t l hrests hold
  · -- nothing that the layout is made from has changed
    have hsize : r.size ≤ r'.size := by rw [heq, extend, size_modify]
    exact (resembles_addMember h).shapeLayout_ok hsize ⟨hne, hrests⟩ (hr t l hold)

end Requests

/-- The growth of a struct changes the layouts of remembered types that rest on it in no step of a
run. -/
def GrowsUnseen (requests : List Request) : Prop :=
  ∀ qs owner member name, qs ++ [.change (.addMember owner member name)] <+: requests →
    ∀ t l, TransGen (after qs).RestsOn t owner → (after qs).Remembers t l →
      (after (qs ++ [.change (.addMember owner member name)])).shapeLayout t =
        (after qs).shapeLayout t

theorem faithful_empty : Faithful {} := by
  rintro t l ⟨i, hi, -⟩
  simp [info?] at hi

/-- **A step of a run** keeps the memory right, unless a struct grows under types that are
remembered. -/
theorem Faithful.concat {qs : List Request} {q : Request} (h : (after qs).Faithful)
    (hacyclic : (after qs).Acyclic)
    (hgrows : ∀ owner member name, q = .change (.addMember owner member name) →
      ∀ t l, TransGen (after qs).RestsOn t owner → (after qs).Remembers t l →
        (after (qs ++ [q])).shapeLayout t = (after qs).shapeLayout t) :
    (after (qs ++ [q])).Faithful := by
  rw [after_concat] at hgrows ⊢
  cases q with
  | change c =>
    rw [Request.perform] at hgrows ⊢
    cases c with
    | create name kind count component => exact (retains_intern _ _ _ _ _).faithful h
    | createStruct name => exact (retains_intern _ _ _ _ _).faithful h
    | functionType result parameters =>
      rw [Change.perform, state_map]
      exact (retains_functionType _ _ _).faithful h
    | pointerType ty =>
      rw [Change.perform, state_map]
      exact (retains_pointerType _ _).faithful h
    | addMember owner member name =>
      rw [Change.perform, state_map] at hgrows ⊢
      rcases hadd : Registry.addMember owner member name (after qs) with ⟨e | n, r'⟩
      · rw [addMember_error hadd]
        exact h
      · rw [hadd] at hgrows
        refine h.addMember hadd fun t l ht hl => ?_
        rw [hgrows owner member name rfl t l ht hl]
        exact h t l hl
  | layout ty => exact (h.query hacyclic rfl).2
  | byteSize ty => exact (h.query hacyclic rfl).2
  | byteAlignment ty => exact (h.query hacyclic rfl).2
  | memberOffset owner index => exact (h.query hacyclic rfl).2

/-- **A run** in which structs grow unseen keeps the memory right. -/
theorem GrowsUnseen.faithful {requests : List Request} (h : GrowsUnseen requests)
    (hacyclic : ∀ qs, qs <+: requests → (after qs).Acyclic) (qs : List Request)
    (hqs : qs <+: requests) : (after qs).Faithful := by
  induction qs using List.reverseRecOn with
  | nil => exact faithful_empty
  | append_singleton qs q ih =>
    have hshorter : qs <+: requests := (List.prefix_append qs [q]).trans hqs
    refine (ih hshorter).concat (hacyclic qs hshorter) ?_
    rintro owner member name rfl t l ht hl
    exact h qs owner member name hqs t l ht hl

/-- **The memory of layouts is invisible exactly if structs grow unseen.** Let no type rest on itself
at any point of a run. Then whatever is asked at whatever point, the answer is the one that the rules
give for the types as they are, if and only if no new member changes the layout of a type that rests
on the struct and whose layout has been worked out before. -/
theorem query_eq_ofShape_iff {requests : List Request}
    (hacyclic : ∀ qs, qs <+: requests → (after qs).Acyclic) :
    (∀ qs, qs <+: requests → ∀ (q : Request) (a : Except IrError Answer),
      q.ofShape (after qs) = some a → (q.perform (after qs)).1 = a) ↔ GrowsUnseen requests := by
  constructor
  · intro h qs owner member name hqs t l ht hl
    have hshorter : qs <+: requests := (List.prefix_append qs _).trans hqs
    have hanswer : ∀ {r : Registry}, r.Remembers t l →
        ((Request.layout t).perform r).1 = .ok (.layout l) := by
      intro r hr
      rw [Request.perform, map_eq_pure_bind, bind_apply, layout_of_remembers hr]
      rfl
    have hshape : ∀ {qs'}, qs' <+: requests → (after qs').Remembers t l →
        (after qs').shapeLayout t = .ok l := by
      intro qs' hqs' hr
      have hsame := (hanswer hr).symm.trans (h qs' hqs' (Request.layout t) _ rfl)
      cases hl' : (after qs').shapeLayout t with
      | error e => rw [hl'] at hsame; nomatch hsame
      | ok l' =>
        rw [hl'] at hsame
        rw [Answer.layout.inj (Except.ok.inj hsame)]
    rw [hshape hshorter hl]
    refine hshape hqs ?_
    -- the layout is still remembered after the struct has grown
    rw [after_concat, Request.perform, Change.perform, state_map]
    rcases hadd : Registry.addMember owner member name (after qs) with ⟨e | n, r'⟩
    · rw [addMember_error hadd]
      exact hl
    · have hne : t ≠ owner := by
        rintro rfl
        exact hacyclic qs hshorter t ht
      obtain ⟨i, hi, hil⟩ := hl
      exact ⟨i, (info?_addMember_of_ne hadd hne).trans hi, hil⟩
  · intro h qs hqs q a hq
    exact ((h.faithful hacyclic qs hqs).query (hacyclic qs hqs) hq).1

/-- Every type rests only on types that were entered before it. -/
def descends (r : Registry) : Bool :=
  (List.range r.size).all fun n =>
    match r.info? ⟨n⟩ with
    | some i =>
      match r.asked i with
      | .ok ts => ts.all (·.index < n)
      | .error _ => true
    | none => true

theorem index_lt_of_restsOn {r : Registry} (h : r.descends = true) {t u : TypeRef}
    (htu : TransGen r.RestsOn t u) : u.index < t.index := by
  have hstep : ∀ {t u}, r.RestsOn t u → u.index < t.index := by
    rintro t u ⟨i, ts, hi, hts, hu⟩
    have hlt := List.all_eq_true.mp h t.index (List.mem_range.mpr (index_lt_of_info? hi))
    rw [show r.info? ⟨t.index⟩ = some i from hi] at hlt
    simp only [hts] at hlt
    exact of_decide_eq_true (List.all_eq_true.mp hlt _ hu)
  induction htu with
  | single hu => exact hstep hu
  | tail _ hv ih => exact Nat.lt_trans (hstep hv) ih

theorem acyclic_of_descends {r : Registry} (h : r.descends = true) : r.Acyclic :=
  fun _ ht => Nat.lt_irrefl _ (index_lt_of_restsOn h ht)

/-- If a struct grows, no layout is remembered of a type that was entered after it. -/
def growsLast (r : Registry) : Request → Bool
  | .change (.addMember owner _ _) => (List.range r.size).all fun n =>
    n ≤ owner.index || ((r.info? ⟨n⟩).bind TypeInfo.layout).isNone
  | _ => true

/-- A struct with a member that is a struct, each of which is measured while it grows. -/
def growing : List Request :=
  [.change (.create "Real" .float 1 none), .change (.createStruct "Inner"),
   .change (.addMember ⟨1⟩ ⟨0⟩ "a"), .byteSize ⟨1⟩, .change (.addMember ⟨1⟩ ⟨0⟩ "b"),
   .change (.createStruct "Outer"), .change (.addMember ⟨2⟩ ⟨1⟩ "inner"), .byteSize ⟨2⟩,
   .change (.addMember ⟨2⟩ ⟨0⟩ "c")]

/-- As long as each struct grows before it becomes a part of another one, all answers are right. -/
theorem query_eq_ofShape_growing :
    GrowsUnseen growing ∧ ∀ qs, qs <+: growing → ∀ (q : Request) (a : Except IrError Answer),
      q.ofShape (after qs) = some a → (q.perform (after qs)).1 = a := by
  have hdescends : ∀ qs ∈ growing.inits, (after qs).descends = true := by decide +kernel
  have hlast : ∀ qs ∈ growing.inits, ∀ q ∈ growing, qs ++ [q] ∈ growing.inits →
      (after qs).growsLast q = true := by decide +kernel
  have hgrows : GrowsUnseen growing := by
    intro qs owner member name hqs t l ht hl
    have hqs' : qs <+: growing := (List.prefix_append qs _).trans hqs
    have hlt := index_lt_of_restsOn (hdescends qs ((List.mem_inits _ _).mpr hqs')) ht
    obtain ⟨i, hi, hil⟩ := hl
    have hnone := List.all_eq_true.mp (hlast qs ((List.mem_inits _ _).mpr hqs')
      (.change (.addMember owner member name)) (hqs.subset (by simp)) ((List.mem_inits _ _).mpr hqs)) t.index
      (List.mem_range.mpr (index_lt_of_info? hi))
    rw [show (after qs).info? ⟨t.index⟩ = some i from hi] at hnone
    simp [Nat.not_le.mpr hlt, hil] at hnone
  exact ⟨hgrows, (query_eq_ofShape_iff fun qs hqs => acyclic_of_descends
    (hdescends qs ((List.mem_inits _ _).mpr hqs))).mpr hgrows⟩

/-- **A stale size.** The inner struct grows from four bytes to twenty after the outer one has been
measured. The size of the outer struct is still sixteen, but its members need thirty-two. -/
theorem byteSize_stale :
    let requests : List Request :=
      [.change (.create "Real" .float 1 none), .change (.createStruct "Inner"),
       .change (.addMember ⟨1⟩ ⟨0⟩ "a"), .change (.createStruct "Outer"),
       .change (.addMember ⟨2⟩ ⟨1⟩ "inner"), .byteSize ⟨2⟩, .change (.addMember ⟨1⟩ ⟨0⟩ "b"),
       .change (.addMember ⟨1⟩ ⟨0⟩ "c"), .change (.addMember ⟨1⟩ ⟨0⟩ "d"),
       .change (.addMember ⟨1⟩ ⟨0⟩ "e")]
    ((Request.byteSize ⟨2⟩).perform (after requests)).1 = .ok (.number 16) ∧
      (Request.byteSize ⟨2⟩).ofShape (after requests) = some (.ok (.number 32)) := by
  exact ⟨rfl, rfl⟩

end Registry

end Shader
