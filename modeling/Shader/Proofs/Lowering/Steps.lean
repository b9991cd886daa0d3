import Shader.Lowering.Emit
import Shader.Proofs.Outcome

/-!
# Steps of lowering, taken apart

Emission works on a scope and a builder at once, and the scope on the types of its library. Each
lifting of a step from a part to the whole is described here by what it does to that part; the rest
stays as it is.
-/

namespace Shader

open Outcome

/-- The scope with other types in its library. -/
def Scope.withTypes (s : Scope) (types : Registry) : Scope :=
  { s with library := { s.library with types := types } }

theorem Scope.withTypes_self (s : Scope) : s.withTypes s.library.types = s := by
  obtain ⟨⟨⟩⟩ := s
  rfl

variable {location : Location} {α : Type} {s s' : Scope} {a : α}

theorem Scope.onTypes_ok {x : TypeM α} :
    onTypes location x s = (.ok a, s') ↔
      ∃ types, x s.library.types = (.ok a, types) ∧ s' = s.withTypes types := by
  unfold onTypes Library.onTypes
  generalize x s.library.types = r
  rcases r with ⟨e | b, types⟩
  · simp
  · simp only [ok_eq_ok]
    exact part_ok s.withTypes

/-- Looking at the types leaves them alone. -/
theorem Scope.lookAtTypes_ok {look : Registry → Except IrError α}
    (h : Scope.onTypes location (do (look (← get) : TypeM α)) s = (.ok a, s')) : s' = s := by
  obtain ⟨types, hx, rfl⟩ := Scope.onTypes_ok.mp h
  replace hx := after_ok hx rfl
  obtain ⟨-, rfl⟩ : look s.library.types = .ok a ∧ s.library.types = types := Prod.mk.inj hx
  exact s.withTypes_self

/-- Finding a function leaves the scope alone. -/
theorem Scope.function_ok {id : FunctionId} {f : FunctionRef}
    (h : Scope.function id location s = (.ok f, s')) :
    s' = s ∧ s.library.findFunction? id = some f := by
  unfold Scope.function at h
  replace h := after_ok h rfl
  cases hf : s.library.findFunction? id with
  | none =>
    rw [hf] at h
    exact absurd h error_ne_ok
  | some g =>
    rw [hf] at h
    obtain ⟨rfl, rfl⟩ := ok_eq_ok.mp h
    exact ⟨rfl, rfl⟩

namespace Emit

theorem onScope_ok {x : ScopeM α} {e e' : Emitter} :
    onScope x e = (.ok a, e') ↔
      ∃ scope, x e.scope = (.ok a, scope) ∧ e' = { e with scope := scope } := by
  unfold onScope
  generalize x e.scope = r
  rcases r with ⟨err | b, scope⟩
  · simp
  · simp only [ok_eq_ok]
    exact part_ok fun scope => { e with scope := scope }

theorem build_ok {location : Location} {x : BuildM α} {e e' : Emitter} :
    build location x e = (.ok a, e') ↔
      ∃ builder, x e.builder = (.ok a, builder) ∧ e' = { e with builder := builder } := by
  unfold build
  generalize x e.builder = r
  rcases r with ⟨err | b, builder⟩
  · simp
  · simp only [ok_eq_ok]
    exact part_ok fun builder => { e with builder := builder }

end Emit

end Shader
