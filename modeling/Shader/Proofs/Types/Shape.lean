import Shader.Proofs.Types.Closed
import Shader.Types.Layout

/-!
# Layouts by the rules alone

What the layout rules give for a type depends on the types as they are, not on what a registry has
worked out before. This module takes the rules apart.

* `Registry.RestsOn` — the layout of one type is made from the layout of another. Where nothing rests
  on itself, the number of types bounds the depth (`Registry.Acyclic.shallow`), and the layout of a type
  is composed of the layouts that it rests on (`Registry.shapeLayout_eq`).
-/

namespace Shader

namespace Registry

open Outcome Relation

/-! ### The rules in normal form -/

/-- The types whose layouts the rules ask for. -/
def asked (r : Registry) (i : TypeInfo) : Except IrError (List TypeRef) :=
  match i.kind with
  | .bool | .int | .float => .ok []
  | .vector | .array => do return [← componentOf i]
  | .matrix => do
    let column ← componentOf i
    return [← r.info column >>= componentOf]
  | .struct => .ok i.parts
  | kind => .error (.noLayout i.name kind)

/-- Places the next member of a struct: the running end and the largest alignment. -/
def placeNext (sofar l : Layout) : Layout :=
  ⟨alignUp sofar.size l.alignment + l.size, max sofar.alignment l.alignment⟩

/-- The layout of a type from the layouts that the rules ask for. -/
def compose (r : Registry) (i : TypeInfo) (ls : List Layout) : Except IrError Layout :=
  -- all but structs ask for one layout at most
  let l := ls.headD ⟨4, 4⟩
  match i.kind with
  | .vector =>
    .ok ⟨l.size * i.count.toUInt32, l.alignment * if i.count = 3 then 4 else i.count.toUInt32⟩
  | .matrix => .ok ⟨4 * l.alignment * i.count.toUInt32, 4 * l.alignment⟩
  | .array => do
    let kind := (← componentOf i >>= r.info).kind
    let alignment := if kind.isScalar || kind = .vector then 16 else l.alignment
    return ⟨alignUp l.size alignment * i.count.toUInt32, alignment⟩
  | .struct =>
    let packed := ls.foldl placeNext ⟨0, 0⟩
    .ok ⟨alignUp packed.size 16, max packed.alignment 1⟩
  | _ => .ok l

section NormalForm

variable {m : Type → Type} [Monad m] [LawfulMonad m]

/-- Doing something with each item and folding the results, in one pass or in two. -/
theorem foldlM_eq_mapM {α β γ : Type} (f : α → m β) (g : γ → β → γ) (as : List α) (c : γ) :
    as.foldlM (fun c a => do return g c (← f a)) c = do return (← as.mapM f).foldl g c := by
  induction as generalizing c with
  | nil => simp
  | cons a as ih => simp only [List.foldlM_cons, List.mapM_cons, bind_assoc, pure_bind, ih,
      List.foldl_cons]

variable [MonadExceptOf IrError m]

/-- **The rules in normal form.** The layouts of some types are asked for in order, and the layout is
composed of the answers. Errors end it all. -/
theorem measure_eq (hthrow : ∀ {α β : Type} (e : IrError) (k : α → m β), throw e >>= k = throw e)
    (r : Registry) (f : TypeRef → m Layout) (i : TypeInfo) :
    r.measure f i = (do
      let ls ← (← measure.liftExcept (r.asked i)).mapM f
      measure.liftExcept (r.compose i ls)) := by
  have herror : ∀ {α β : Type} {x : Except IrError α} {e : IrError} {k : α → m β}, x = .error e →
      measure.liftExcept x >>= k = throw e := by
    rintro α β x e k rfl
    exact hthrow e k
  have hok : ∀ {α β : Type} {x : Except IrError α} {a : α} {k : α → m β}, x = .ok a →
      measure.liftExcept x >>= k = k a := by
    rintro α β x a k rfl
    exact pure_bind a k
  unfold measure
  -- kinds differ in whose layouts they ask for, so each one is compared on its own
  cases hkind : i.kind <;> dsimp only
  case bool | int | float =>
    rw [hok (a := []) (by simp [asked, hkind])]
    simp [compose, hkind, measure.liftExcept]
  case vector =>
    cases hc : componentOf i with
    | error e => rw [herror rfl, herror (e := e) (by simp [asked, hkind, hc, bind, Except.bind])]
    | ok c =>
      rw [hok rfl, hok (a := [c]) (by simp [asked, hkind, hc, bind, Except.bind, pure, Except.pure])]
      simp [compose, hkind, measure.liftExcept]
  case matrix =>
    cases hc : componentOf i with
    | error e => rw [herror rfl, herror (e := e) (by simp [asked, hkind, hc, bind, Except.bind])]
    | ok column =>
      rw [hok rfl]
      cases hs : r.info column >>= componentOf with
      | error e =>
        have hasked : r.asked i = .error e := by
          simp only [asked, hkind, hc]
          exact congrArg (· >>= fun c => .ok [c]) hs
        rw [herror rfl, herror hasked]
      | ok scalar =>
        have hasked : r.asked i = .ok [scalar] := by
          simp only [asked, hkind, hc]
          exact congrArg (· >>= fun c => .ok [c]) hs
        rw [hok rfl, hok hasked]
        simp [compose, hkind, measure.liftExcept]
  case array =>
    cases hc : componentOf i with
    | error e => rw [herror rfl, herror (e := e) (by simp [asked, hkind, hc, bind, Except.bind])]
    | ok element =>
      rw [hok rfl, hok (a := [element])
        (by simp [asked, hkind, hc, bind, Except.bind, pure, Except.pure])]
      simp only [List.mapM_cons, List.mapM_nil, bind_assoc, pure_bind]
      refine bind_congr fun l => ?_
      cases hj : r.info element with
      | error e =>
        rw [herror rfl]
        simp [compose, hkind, hc, hj, bind, Except.bind, measure.liftExcept]
      | ok j =>
        rw [hok rfl]
        simp [compose, hkind, hc, hj, bind, Except.bind, pure, Except.pure, measure.liftExcept]
  case struct =>
    rw [hok (a := i.parts) (by simp [asked, hkind])]
    change (i.parts.foldlM (fun c a => do return placeNext c (← f a)) ⟨0, 0⟩ >>= _) = _
    rw [foldlM_eq_mapM]
    simp [compose, hkind, measure.liftExcept]
  all_goals rw [herror (by rw [asked, hkind])]

/-- The start of the last of some members, from the layouts of all of them. -/
def startOfLast : UInt32 → List Layout → Nat
  | offset, [] => offset
  | offset, [l] => alignUp offset l.alignment
  | offset, l :: ls => startOfLast (alignUp offset l.alignment + l.size) ls

omit [MonadExceptOf IrError m] in
/-- An offset in normal form. -/
theorem offsetOfLast_eq (f : TypeRef → m Layout) (offset : UInt32) (members : List TypeRef) :
    offsetOfLast f offset members = do return startOfLast offset (← members.mapM f) := by
  induction members generalizing offset with
  | nil => simp [offsetOfLast, startOfLast]
  | cons member members ih =>
    cases members with
    | nil => simp [offsetOfLast, startOfLast]
    | cons next rest =>
      rw [offsetOfLast]
      · simp only [ih]
        simp [startOfLast]
      · exact nofun

end NormalForm

/-! ### Types that rest on others -/

/-- **Resting on a type.** The layout of the one is made from the layout of the other. -/
def RestsOn (r : Registry) (t u : TypeRef) : Prop :=
  ∃ i ts, r.info? t = some i ∧ r.asked i = .ok ts ∧ u ∈ ts

/-- No type rests on itself, directly or through others. -/
def Acyclic (r : Registry) : Prop := ∀ t, ¬ TransGen r.RestsOn t t

variable {r : Registry}

theorem RestsOn.index_lt {t u : TypeRef} (h : r.RestsOn t u) : t.index < r.size := by
  obtain ⟨i, ts, hi, -⟩ := h
  exact index_lt_of_info? hi

variable {depth : Nat} {t : TypeRef}

theorem Acyclic.shallow (h : r.Acyclic) (t : TypeRef) :
    Shallow r.RestsOn (r.size + 1) t :=
  shallow_of_forall RestsOn.index_lt (fun u _ => h u) (Nat.le_refl _)

theorem Shallow.exists_below {t u : TypeRef} (h : Shallow r.RestsOn depth t)
    (hu : ReflTransGen r.RestsOn t u) : ∃ depth', Shallow r.RestsOn depth' u := by
  induction hu with
  | refl => exact ⟨depth, h⟩
  | tail _ hv ih =>
    obtain ⟨_ | depth', hdepth'⟩ := ih
    · exact hdepth'.elim
    · exact ⟨depth', hdepth' _ hv⟩

/-- A type with a longest way down does not rest on itself. -/
theorem Shallow.not_restsOn_self (h : Shallow r.RestsOn depth t) :
    ¬ TransGen r.RestsOn t t := by
  induction depth generalizing t with
  | zero => exact h.elim
  | succ depth ih =>
    intro hcycle
    obtain ⟨u, hu, hback⟩ := TransGen.head'_iff.mp hcycle
    exact ih (h u hu) (TransGen.tail' hback hu)

/-- The number of types bounds all ways down, if anything does. -/
theorem Shallow.bounded (h : Shallow r.RestsOn depth t) :
    Shallow r.RestsOn (r.size + 1) t := by
  refine shallow_of_forall RestsOn.index_lt (fun u hu => ?_) (Nat.le_refl _)
  obtain ⟨depth', hdepth'⟩ := h.exists_below hu
  exact hdepth'.not_restsOn_self

/-! ### Layouts of the types as they are -/

section Shape

variable {r r' : Registry}

/-- One step of the rules. -/
theorem shapeLayoutWithin_succ (r : Registry) (depth : Nat) (t : TypeRef) :
    r.shapeLayoutWithin (depth + 1) t = (do
      let i ← r.info t
      let ls ← (← r.asked i).mapM (r.shapeLayoutWithin depth)
      r.compose i ls) := by
  rw [shapeLayoutWithin]
  refine bind_congr fun i => ?_
  rw [measure_eq fun e k => rfl]
  have hlift : ∀ {α : Type} (x : Except IrError α),
      (measure.liftExcept x : Except IrError α) = x := fun x => by cases x <;> rfl
  simp only [hlift]

/-- Answers for each item carry over to the answers for a list. -/
theorem mapM_congr {α β γ ε : Type} {f : α → Except ε β} {g : γ → Except ε β} {as : List α} {cs : List γ}
    (h : List.Forall₂ (fun a c => f a = g c) as cs) : as.mapM f = cs.mapM g := by
  induction h with
  | nil => rfl
  | cons hac _ ih => rw [List.mapM_cons, List.mapM_cons, hac, ih]

/-- Depth beyond what a type needs changes nothing. -/
theorem Shallow.shapeLayoutWithin_eq {depth : Nat} (h : Shallow r.RestsOn depth t) {depth' : Nat}
    (hle : depth ≤ depth') :
    r.shapeLayoutWithin depth' t = r.shapeLayoutWithin depth t := by
  induction depth generalizing t depth' with
  | zero => exact h.elim
  | succ depth ih =>
    obtain ⟨depth', rfl⟩ : ∃ n, depth' = n + 1 := ⟨depth' - 1, by omega⟩
    rw [shapeLayoutWithin_succ, shapeLayoutWithin_succ, info]
    cases hi : r.info? t with
    | none => rfl
    | some i =>
      cases hts : r.asked i with
      | error e => simp only [hts, bind, Except.bind]
      | ok ts =>
        have hmap : ts.mapM (r.shapeLayoutWithin depth') = ts.mapM (r.shapeLayoutWithin depth) :=
          mapM_congr (List.forall₂_same.mpr fun u hu => ih (h u ⟨i, ts, hi, hts, hu⟩) (by omega))
        simp only [hts, bind, Except.bind, hmap]

/-- **The layout of a type by the rules alone** is composed of the layouts that it rests on. -/
theorem shapeLayout_eq {depth : Nat} (h : Shallow r.RestsOn depth t) :
    r.shapeLayout t = (do
      let i ← r.info t
      let ls ← (← r.asked i).mapM r.shapeLayout
      r.compose i ls) := by
  have hmore : r.shapeLayout t = r.shapeLayoutWithin (r.size + 2) t :=
    (h.bounded.shapeLayoutWithin_eq (by omega)).symm
  rw [hmore, shapeLayoutWithin_succ]
  rfl

/-- **A registry like another one.** The types of the one are in the other, and those with the
property have their members there too. -/
structure Resembles (S : TypeRef → Prop) (r r' : Registry) : Prop where
  found : ∀ t i, r.info? t = some i → ∃ i', r'.info? t = some i' ∧ i'.kind = i.kind ∧
    i'.count = i.count ∧ i'.component = i.component ∧ (S t → i'.parts = i.parts)
  closed : ∀ t u, S t → r.RestsOn t u → S u

theorem componentOf_eq_ok {i : TypeInfo} {c : TypeRef} :
    componentOf i = .ok c ↔ i.component = some c := by
  unfold componentOf
  cases i.component <;> simp

section Resembles

variable {S : TypeRef → Prop} {t : TypeRef} {i i' : TypeInfo} {l : Layout}

section

variable (h : Resembles S r r')
include h

theorem Resembles.asked_ok (hkind : i'.kind = i.kind) (hcomponent : i'.component = i.component)
    (hparts : i'.parts = i.parts) {ts : List TypeRef} (hts : r.asked i = .ok ts) :
    r'.asked i' = .ok ts := by
  have hc : ∀ {c}, componentOf i = .ok c → componentOf i' = .ok c := by
    simp only [componentOf_eq_ok, hcomponent]
    exact fun h => h
  unfold asked at hts ⊢
  rw [hkind]
  cases hk : i.kind <;> simp only [hk, bind_eq_ok] at hts ⊢
  case vector | array =>
    obtain ⟨c, hi, hts⟩ := hts
    exact ⟨c, hc hi, hts⟩
  case matrix =>
    obtain ⟨column, hcolumn, scalar, ⟨j, hj, hscalar⟩, hts⟩ := hts
    obtain ⟨j', hj', -, -, hsame, -⟩ := h.found column j (info_ok hj)
    refine ⟨column, hc hcolumn, scalar, ⟨j', info_eq hj', ?_⟩, hts⟩
    rw [componentOf_eq_ok, hsame]
    exact componentOf_eq_ok.mp hscalar
  case struct => rw [hparts, hts]
  all_goals first | exact hts | nomatch hts

theorem Resembles.compose_ok (hkind : i'.kind = i.kind) (hcount : i'.count = i.count)
    (hcomponent : i'.component = i.component) {ls : List Layout} (hl : r.compose i ls = .ok l) :
    r'.compose i' ls = .ok l := by
  unfold compose at hl ⊢
  rw [hkind, hcount]
  cases hk : i.kind <;> simp only [hk] at hl ⊢
  case array =>
    rw [bind_eq_ok] at hl ⊢
    obtain ⟨j, hj, hl⟩ := hl
    obtain ⟨element, helement, hj⟩ := bind_eq_ok.mp hj
    obtain ⟨j', hj', hsame, -⟩ := h.found element j (info_ok hj)
    have helement' : componentOf i' = .ok element := by
      rw [componentOf_eq_ok, hcomponent]
      exact componentOf_eq_ok.mp helement
    exact ⟨j', bind_eq_ok.mpr ⟨element, helement', info_eq hj'⟩, hsame ▸ hl⟩
  all_goals exact hl

/-- What has a layout in the one registry has the same layout in the other. -/
theorem Resembles.shapeLayoutWithin_ok {depth depth' : Nat} (hle : depth ≤ depth') (ht : S t)
    (hl : r.shapeLayoutWithin depth t = .ok l) :
    r'.shapeLayoutWithin depth' t = .ok l := by
  induction depth generalizing t depth' l with
  | zero => nomatch hl
  | succ depth ih =>
    obtain ⟨depth', rfl⟩ : ∃ n, depth' = n + 1 := ⟨depth' - 1, by omega⟩
    rw [shapeLayoutWithin_succ, bind_eq_ok] at hl ⊢
    obtain ⟨i, hi, hl⟩ := hl
    obtain ⟨ts, hts, hl⟩ := bind_eq_ok.mp hl
    obtain ⟨ls, hls, hl⟩ := bind_eq_ok.mp hl
    obtain ⟨i', hi', hkind, hcount, hcomponent, hparts⟩ := h.found t i (info_ok hi)
    have hts' : r'.asked i' = .ok ts := h.asked_ok hkind hcomponent (hparts ht) hts
    have hls' : ts.mapM (r'.shapeLayoutWithin depth') = .ok ls := by
      refine mapM_ok_mono (fun u hu l' hl' => ?_) hls
      exact ih (by omega) (h.closed t u ht ⟨i, ts, info_ok hi, hts, hu⟩) hl'
    exact ⟨i', info_eq hi', bind_eq_ok.mpr ⟨ts, hts', bind_eq_ok.mpr
      ⟨ls, hls', h.compose_ok hkind hcount hcomponent hl⟩⟩⟩

theorem Resembles.shapeLayout_ok (hsize : r.size ≤ r'.size) (ht : S t)
    (hl : r.shapeLayout t = .ok l) : r'.shapeLayout t = .ok l :=
  h.shapeLayoutWithin_ok (by omega) ht hl

end

end Resembles

end Shape

end Registry

end Shader
