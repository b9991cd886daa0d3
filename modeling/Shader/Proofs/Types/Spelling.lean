import Shader.Proofs.Types.Names
import Shader.TypeName

/-!
# Builtin names belong to one type

A registry finds types by their names, so the names of builtin types have to tell them apart. They do:
the number of lanes, the rows and columns of a matrix and the length of an array can be read off, since
the separators between them are no digits.
-/

namespace Shader

variable {c : Char}

theorem cutAt_append {before : List Char} (h : c ∉ before) (after : List Char) :
    cutAt c (before ++ c :: after) = some (before, after) := by
  have hbefore : ∀ a ∈ before, (a ≠ c) = True := fun a ha => eq_true (ne_of_mem_of_not_mem ha h)
  simp +contextual [cutAt, List.takeWhile_append_of_pos, List.dropWhile_append_of_pos, hbefore]

/-- What stands before the first separator belongs together. -/
theorem append_cons_inj_of_notMem {xs ys ds es : List Char} (hd : c ∉ ds) (he : c ∉ es)
    (h : ds ++ c :: xs = es ++ c :: ys) : ds = es ∧ xs = ys :=
  Prod.mk.inj (Option.some.inj ((cutAt_append hd xs).symm.trans (h ▸ cutAt_append he ys)))

/-- What stands after the last separator belongs together. -/
theorem append_separator_inj {xs ys ds es : List Char} (hd : c ∉ ds) (he : c ∉ es)
    (h : xs ++ [c] ++ ds = ys ++ [c] ++ es) : xs = ys ∧ ds = es := by
  have hreverse := congrArg List.reverse h
  simp only [List.reverse_append, List.reverse_cons, List.reverse_nil, List.nil_append,
    List.singleton_append] at hreverse
  obtain ⟨hds, hxs⟩ := append_cons_inj_of_notMem (mt List.mem_reverse.mp hd)
    (mt List.mem_reverse.mp he) hreverse
  exact ⟨List.reverse_injective hxs, List.reverse_injective hds⟩

theorem toDigits_inj {m n : Nat} (h : Nat.toDigits 10 m = Nat.toDigits 10 n) : m = n := by
  have heq : Nat.ofDigitChars 10 (Nat.toDigits 10 m) 0 = Nat.ofDigitChars 10 (Nat.toDigits 10 n) 0 :=
    congrArg (Nat.ofDigitChars 10 · 0) h
  rwa [Nat.ofDigitChars_ten_toDigits, Nat.ofDigitChars_ten_toDigits] at heq

theorem notMem_toDigits {n : Nat} (hc : c.isDigit = false) : c ∉ Nat.toDigits 10 n := by
  rw [← toList_toString_nat]
  exact not_mem_toString_nat hc

namespace TypeSpec

/-- How the names of types with components are made, and how they differ. -/
theorem notMem_name (k : ScalarKind) : 'x' ∉ k.name.toList := by
  cases k <;> decide

theorem vectorName_inj {k k' : ScalarKind} {n n' : Nat}
    (h : k.name.toList ++ Nat.toDigits 10 n = k'.name.toList ++ Nat.toDigits 10 n') :
    k = k' ∧ n = n' := by
  cases k <;> cases k'
  case boolean.boolean | integer.integer | real.real =>
    exact ⟨rfl, toDigits_inj (List.append_cancel_left h)⟩
  all_goals exact absurd (congrArg List.head? h) (by simp [ScalarKind.name])

theorem vectorName_ne_matrixName {k : ScalarKind} {m n n' : Nat} :
    (vector k n).builtinName ≠ (matrix m n').builtinName := by
  intro h
  have hlist := congrArg String.toList (Option.some.inj h)
  rw [toList_builtinName_vector, toList_builtinName_matrix] at hlist
  have hx : 'x' ∈ k.name.toList ++ Nat.toDigits 10 n := hlist ▸ by simp
  rcases List.mem_append.mp hx with hx | hx
  · exact notMem_name k hx
  · exact notMem_toDigits (by decide) hx

theorem arrayName_ne_vectorName {element : TypeSpec} {k : ScalarKind} {n n' : Nat} :
    (array element n).builtinName ≠ (vector k n').builtinName := by
  intro h
  obtain ⟨name, -, hname⟩ := Option.map_eq_some_iff.mp h
  have hhead := congrArg (fun s => (String.toList s).head?) hname
  rw [toList_builtinName_array, toList_builtinName_vector] at hhead
  cases k <;> exact absurd hhead (by simp [ScalarKind.name])

theorem arrayName_ne_matrixName {element : TypeSpec} {m n n' : Nat} :
    (array element n).builtinName ≠ (matrix m n').builtinName := by
  intro h
  obtain ⟨name, -, hname⟩ := Option.map_eq_some_iff.mp h
  have hhead := congrArg (fun s => (String.toList s).head?) hname
  rw [toList_builtinName_array, toList_builtinName_matrix] at hhead
  exact absurd hhead (by simp)

/-- **A builtin name belongs to one type.** -/
theorem builtinName_inj {spec spec' : TypeSpec} {name : String} (h : spec.builtinName = some name)
    (h' : spec'.builtinName = some name) : spec = spec' := by
  induction spec generalizing spec' name with
  | void =>
    cases h
    exact (eq_void_of_builtinName h').symm
  | scalar k =>
    cases h
    exact (eq_scalar_of_builtinName h').symm
  | vector k n =>
    obtain rfl := Option.some.inj h
    cases spec' with
    | void => exact eq_void_of_builtinName (h.trans h'.symm)
    | scalar k' => exact eq_scalar_of_builtinName (h.trans h'.symm)
    | vector k' n' =>
      have hlist := congrArg String.toList (Option.some.inj h')
      rw [toList_builtinName_vector, toList_builtinName_vector] at hlist
      obtain ⟨rfl, rfl⟩ := vectorName_inj hlist
      rfl
    | matrix m n' => exact absurd (h.trans h'.symm) vectorName_ne_matrixName
    | array element n' => exact absurd (h'.trans h.symm) arrayName_ne_vectorName
    | ofClass | math => cases h'
  | matrix m n =>
    obtain rfl := Option.some.inj h
    cases spec' with
    | void => exact eq_void_of_builtinName (h.trans h'.symm)
    | scalar k' => exact eq_scalar_of_builtinName (h.trans h'.symm)
    | vector k n' => exact absurd (h'.trans h.symm) vectorName_ne_matrixName
    | matrix m' n' =>
      have hlist := congrArg String.toList (Option.some.inj h')
      rw [toList_builtinName_matrix, toList_builtinName_matrix] at hlist
      obtain ⟨hm, hn⟩ := append_separator_inj (notMem_toDigits (by decide))
        (notMem_toDigits (by decide)) hlist
      rw [toDigits_inj (List.append_cancel_left hm), toDigits_inj hn]
    | array element n' => exact absurd (h'.trans h.symm) arrayName_ne_matrixName
    | ofClass | math => cases h'
  | array element n ih =>
    obtain ⟨ename, hename, rfl⟩ := Option.map_eq_some_iff.mp h
    cases spec' with
    | void => exact eq_void_of_builtinName (h.trans h'.symm)
    | scalar k' => exact eq_scalar_of_builtinName (h.trans h'.symm)
    | vector k n' => exact absurd (h.trans h'.symm) arrayName_ne_vectorName
    | matrix m n' => exact absurd (h.trans h'.symm) arrayName_ne_matrixName
    | array element' n' =>
      obtain ⟨ename', hename', hname⟩ := Option.map_eq_some_iff.mp h'
      have hlist := congrArg String.toList hname
      rw [toList_builtinName_array, toList_builtinName_array] at hlist
      have hinner := List.append_cancel_right hlist
      -- names may hold blanks, but numerals do not: the last blank is where the number begins
      have hspace : ("FixedArray[".toList ++ ename'.toList ++ [',']) ++ [' '] ++ Nat.toDigits 10 n' =
          ("FixedArray[".toList ++ ename.toList ++ [',']) ++ [' '] ++ Nat.toDigits 10 n := by
        simpa using hinner
      obtain ⟨hnames, hn⟩ := append_separator_inj (notMem_toDigits (by decide))
        (notMem_toDigits (by decide)) hspace
      have hnames := List.append_cancel_left (List.append_cancel_right hnames)
      obtain rfl := String.toList_inj.mp hnames
      rw [ih hename hename', toDigits_inj hn]
    | ofClass | math => cases h'
  | ofClass | math => cases h

end TypeSpec

end Shader
