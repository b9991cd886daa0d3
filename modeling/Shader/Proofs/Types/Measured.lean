import Shader.Proofs.Types.Layers
import Shader.Proofs.Types.Remembered

/-!
# Layouts of finite types

The layout of a type is worked out from the layouts of the types that it rests on, which it holds. In
a registry where no type holds itself this comes to an end, whatever is remembered.
-/

namespace Shader

namespace Registry

open Outcome Relation

/-- **Coming to rest.** The step does not run out of depth, and it keeps the invariant. -/
def Rests (I : Registry → Prop) {α : Type} (x : TypeM α) : Prop :=
  ∀ r, I r → I (x r).2 ∧ ∀ u, (x r).1 ≠ .error (.endless u)

namespace Rests

variable {I : Registry → Prop} {α β : Type}

protected theorem lift {x : Except IrError α} (hx : ∀ u, x ≠ .error (.endless u)) :
    Rests I (measure.liftExcept x) := by
  cases x with
  | error e => exact fun r hr => ⟨hr, fun u h => hx u (congrArg _ (Except.error.inj h))⟩
  | ok a => exact fun r hr => ⟨hr, nofun⟩

protected theorem bind {x : TypeM α} {f : α → TypeM β} (hx : Rests I x)
    (hf : ∀ a, Rests I (f a)) : Rests I (x >>= f) := by
  intro r hr
  obtain ⟨hI, hne⟩ := hx r hr
  rw [bind_apply]
  generalize x r = y at hI hne ⊢
  rcases y with ⟨e | a, r'⟩
  · exact ⟨hI, fun u h => hne u (congrArg _ (Except.error.inj h))⟩
  · exact hf a r' hI

protected theorem mapM {f : α → TypeM β} {as : List α} (hf : ∀ a ∈ as, Rests I (f a)) :
    Rests I (as.mapM f) := by
  induction as with
  | nil => exact fun r hr => ⟨hr, nofun⟩
  | cons a as ih =>
    rw [List.mapM_cons]
    refine (hf a List.mem_cons_self).bind fun b => ?_
    exact (ih fun a' ha' => hf a' (List.mem_cons_of_mem a ha')).bind fun bs r hr => ⟨hr, nofun⟩

end Rests

section Layout

variable {r : Registry} {t u : TypeRef}

/-- **What a type rests on** it holds, directly or through others. -/
theorem Orderly.holds_of_restsOn (hr : r.Orderly) (h : r.RestsOn t u) : TransGen r.Holds t u := by
  obtain ⟨i, ts, hi, hts, hu⟩ := h
  have hcomponent : ∀ {t i c}, r.info? t = some i → componentOf i = .ok c → r.Holds t c :=
    fun hi hc => .component hi (hr.component _ _ _ hi (componentOf_eq_ok.mp hc))
      (componentOf_eq_ok.mp hc)
  unfold asked at hts
  cases hkind : i.kind <;> simp only [hkind, bind_eq_ok] at hts
  case vector | array =>
    obtain ⟨c, hc, hts⟩ := hts
    cases hts
    obtain rfl := List.mem_singleton.mp hu
    exact .single (hcomponent hi hc)
  case matrix =>
    obtain ⟨column, hc, scalar, ⟨j, hj, hs⟩, hts⟩ := hts
    cases hts
    obtain rfl := List.mem_singleton.mp hu
    exact .tail (.single (hcomponent hi hc)) (hcomponent (info_ok hj) hs)
  case struct =>
    cases hts
    exact .single (.member hi hkind hu)
  all_goals
    cases hts
    try cases hu

theorem asked_ne_endless (r : Registry) (i : TypeInfo) (u : TypeRef) :
    r.asked i ≠ .error (.endless u) := by
  unfold asked componentOf info
  cases i.kind <;> cases i.component <;> simp [bind, Except.bind, pure, Except.pure]
  next column =>
    cases r.info? column with
    | none => simp
    | some j => cases hj : j.component <;> simp [hj]

theorem compose_ne_endless (r : Registry) (i : TypeInfo) (ls : List Layout) (u : TypeRef) :
    r.compose i ls ≠ .error (.endless u) := by
  unfold compose componentOf info
  cases i.kind <;> cases i.component <;> simp [bind, Except.bind, pure, Except.pure]
  next element => cases r.info? element <;> simp

/-- Nothing runs out of depth that has only so many types below it. -/
theorem layoutWithin_rests (hr : r.Orderly) {depth : Nat} (ht : t.index < r.size)
    (hshallow : Shallow r.RestsOn depth t) :
    Rests (Recalls (fun _ => False) r) (layoutWithin depth t) := by
  induction depth generalizing t with
  | zero => exact hshallow.elim
  | succ depth ih =>
    intro r' hr'
    obtain ⟨i, hi⟩ := exists_info? (hr'.size ▸ ht)
    obtain ⟨i₀, hi₀, hasked, -⟩ := hr'.rules hi
    cases hl : i.layout with
    | some l =>
      rw [layoutWithin_remembered hi hl]
      exact ⟨hr', nofun⟩
    | none =>
      have hparts : ∀ ts, r.asked i₀ = .ok ts →
          Rests (Recalls (fun _ => False) r) (ts.mapM (layoutWithin depth)) := by
        refine fun ts hts => .mapM fun u hu => ?_
        have hrests : r.RestsOn t u := ⟨i₀, ts, hi₀, hts, hu⟩
        obtain ⟨v, -, hv⟩ := TransGen.tail'_iff.mp (hr.holds_of_restsOn hrests)
        exact ih (hr.closed.index_lt_of_holds hv) (hshallow u hrests)
      rw [layoutWithin_forgotten hi hl, measure_eq fun e k => rfl, hasked]
      refine Rests.bind ?_ (fun l r hr => ⟨hr.remember False.elim, fun u h => by cases h⟩) r' hr'
      cases hts : r.asked i₀ with
      | error e =>
        refine fun r' hr' => ⟨hr', fun u h => asked_ne_endless r i₀ u ?_⟩
        exact hts.trans (congrArg _ (Except.error.inj h))
      | ok ts => exact (hparts ts hts).bind fun ls => .lift (compose_ne_endless r' i ls)

/-- **Layouts of finite types.** If no type holds itself, no layout is endless. -/
theorem layout_ne_endless (hr : r.Orderly) (hacyclic : ∀ u, ¬ TransGen r.Holds u u)
    (ht : t.index < r.size) (u : TypeRef) (r' : Registry) :
    layout t r ≠ (.error (.endless u), r') := by
  intro h
  have hrests : r.Acyclic := fun v hv =>
    hacyclic v (hv.lift' id fun _ _ => hr.holds_of_restsOn)
  have hsame : Recalls (fun _ => False) r r := .refl fun _ _ h => h.elim
  exact (layoutWithin_rests hr ht (hrests.shallow t) r hsame).2 u (congrArg Prod.fst h)

end Layout

end Registry

end Shader
