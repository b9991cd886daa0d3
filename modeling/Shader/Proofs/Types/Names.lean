import Shader.Types.Registry
import Mathlib.Data.List.Basic

/-!
# The names of types

A registry finds types by their names, so types that should not be taken for each other need names
that differ. The names of builtin types, pointer types and function types do.
-/

namespace Shader

/-! ### Numerals -/

theorem toList_toString_nat (n : Nat) : (toString n).toList = Nat.toDigits 10 n := Nat.toList_repr

theorem not_mem_toString_nat {n : Nat} {c : Char} (hc : c.isDigit = false) :
    c ∉ (toString n).toList := by
  rw [toList_toString_nat]
  intro h
  rw [Nat.isDigit_of_mem_toDigits (by decide) (by decide) h] at hc
  nomatch hc

/-! ### Builtin types -/

theorem ScalarKind.name_inj {k k' : ScalarKind} (h : k.name = k'.name) : k = k' := by
  revert h
  cases k <;> cases k' <;> decide

namespace TypeSpec

theorem toList_builtinName_vector (k : ScalarKind) (n : Nat) :
    (k.name ++ toString n).toList = k.name.toList ++ Nat.toDigits 10 n := by
  rw [String.toList_append, toList_toString_nat]

theorem toList_builtinName_matrix (m n : Nat) :
    (s!"Real{m}x{n}").toList =
      ['R', 'e', 'a', 'l'] ++ Nat.toDigits 10 m ++ ['x'] ++ Nat.toDigits 10 n := by
  rw [show s!"Real{m}x{n}" = "Real" ++ toString m ++ "x" ++ toString n from rfl]
  simp only [String.toList_append, toList_toString_nat]
  rfl

theorem toList_builtinName_array (name : String) (n : Nat) :
    (s!"FixedArray[{name}, {n}]").toList =
      "FixedArray[".toList ++ name.toList ++ [',', ' '] ++ Nat.toDigits 10 n ++ [']'] := by
  rw [show s!"FixedArray[{name}, {n}]" = "FixedArray[" ++ name ++ ", " ++ toString n ++ "]" from rfl]
  simp only [String.toList_append, toList_toString_nat]
  rfl

variable {spec : TypeSpec}

/-- How the name of a builtin type starts. -/
theorem head_of_builtinName {name : String} (h : spec.builtinName = some name) :
    spec = .void ∧ name = "Void" ∨ ∃ c ∈ ['B', 'I', 'R', 'F'], name.toList.head? = some c := by
  have hscalar : ∀ (k : ScalarKind) (ds : List Char),
      ∃ c ∈ ['B', 'I', 'R', 'F'], (k.name.toList ++ ds).head? = some c := by
    intro k ds
    cases k <;> simp [ScalarKind.name]
  cases spec with
  | void => exact .inl ⟨rfl, (Option.some.inj h).symm⟩
  | scalar k =>
    cases h
    have hk := hscalar k []
    rw [List.append_nil] at hk
    exact .inr hk
  | vector k n =>
    cases h
    rw [toList_builtinName_vector]
    exact .inr (hscalar k _)
  | matrix m n =>
    cases h
    rw [toList_builtinName_matrix]
    exact .inr ⟨'R', by decide, rfl⟩
  | array element n =>
    obtain ⟨name', -, rfl⟩ := Option.map_eq_some_iff.mp h
    rw [toList_builtinName_array]
    exact .inr ⟨'F', by decide, rfl⟩
  | ofClass | math => nomatch h

/-- The name of the type without values is its own. -/
theorem eq_void_of_builtinName (h : spec.builtinName = some "Void") : spec = .void := by
  rcases head_of_builtinName h with ⟨hspec, -⟩ | ⟨c, hc, hhead⟩
  · exact hspec
  · obtain rfl : 'V' = c := Option.some.inj hhead
    exact absurd hc (by decide)

/-- The name of a scalar is its own. -/
theorem eq_scalar_of_builtinName {k : ScalarKind} (h : spec.builtinName = some k.name) :
    spec = .scalar k := by
  have hlist : spec.builtinName.map String.toList = some k.name.toList := by rw [h]; rfl
  cases spec with
  | void => cases k <;> exact absurd h (by decide)
  | scalar k' => rw [ScalarKind.name_inj (Option.some.inj h)]
  | vector k' n =>
    rw [builtinName, Option.map_some, toList_builtinName_vector, Option.some.injEq] at hlist
    have hlength := congrArg List.length hlist
    have hpos := Nat.length_toDigits_pos (b := 10) (n := n)
    rw [List.length_append] at hlength
    cases k' <;> cases k <;> simp_all [ScalarKind.name]
  | matrix m n =>
    rw [builtinName, Option.map_some, toList_builtinName_matrix, Option.some.injEq] at hlist
    have hpos := Nat.length_toDigits_pos (b := 10) (n := n)
    cases k <;> simp_all [ScalarKind.name]
  | array element n =>
    obtain ⟨name, -, hname⟩ := Option.map_eq_some_iff.mp h
    have hhead := congrArg (fun s => (String.toList s).head?) hname
    rw [toList_builtinName_array] at hhead
    cases k <;> exact absurd hhead (by simp [ScalarKind.name])
  | ofClass | math => nomatch h

end TypeSpec

namespace Registry

/-! ### Pointer types and function types -/

theorem toList_pointerName (name : String) :
    (pointerName name).toList = ['p', 't', 'r', '<'] ++ name.toList ++ ['>'] := by
  rw [pointerName, String.toList_append, String.toList_append]
  rfl

theorem pointerName_inj {a b : String} (h : pointerName a = pointerName b) : a = b := by
  have hlist := congrArg String.toList h
  rw [toList_pointerName, toList_pointerName, List.append_cancel_right_eq,
    List.append_cancel_left_eq] at hlist
  exact String.toList_inj.mp hlist

theorem toList_signatureName (result : String) (parameters : List String) :
    (signatureName result parameters).toList =
      '(' :: ((", ".intercalate parameters).toList ++ ')' :: ' ' :: ':' :: ' ' :: result.toList) := by
  unfold signatureName
  simp only [String.toList_append, List.append_assoc]
  rfl

end Registry

end Shader
