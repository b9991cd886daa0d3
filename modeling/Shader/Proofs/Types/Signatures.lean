import Shader.Proofs.Types.Indexed
import Shader.Proofs.Types.Lowered

/-!
# Function types by signature

A function type is found by its printed name, so signatures that differ have to be printed
differently. They are, since the brackets of the names match: what stands before the first comma or
closing bracket outside of all brackets is the name of the first parameter.

* `field` cuts a text there, and `Passes` says that a text is passed over as a whole.
* `signatureName_inj` — a printed signature gives back the names in it, except that nothing is
  printed for a type without a name, as for no parameters at all.
-/

namespace Shader

/-! ### Matching brackets -/

/-- How deep in brackets the text after a character is. -/
def depthAfter (depth : Nat) (c : Char) : Nat :=
  if c ∈ ['(', '<', '['] then depth + 1 else if c ∈ [')', '>', ']'] then depth - 1 else depth

/-- A comma or a closing bracket, outside of all brackets. -/
def Ends (depth : Nat) (c : Char) : Prop := depth = 0 ∧ c ∈ [',', ')', '>', ']']

instance (depth : Nat) (c : Char) : Decidable (Ends depth c) := inferInstanceAs (Decidable (_ ∧ _))

/-- What comes before the end of the first field, and the rest. -/
def field : Nat → List Char → List Char × List Char
  | _, [] => ([], [])
  | depth, c :: cs =>
    if Ends depth c then ([], c :: cs)
    else (c :: (field (depthAfter depth c) cs).1, (field (depthAfter depth c) cs).2)

/-- A text that is passed over as a whole, at some depth or below. -/
def Passes (depth : Nat) (xs : List Char) : Prop :=
  ∀ d, depth ≤ d → ∀ rest, field d (xs ++ rest) = (xs ++ (field d rest).1, (field d rest).2)

/-- Without brackets and commas. -/
def Unbroken (xs : List Char) : Prop := ∀ c ∈ xs, c ∉ ['(', '<', '[', ')', '>', ']', ',']

instance (xs : List Char) : Decidable (Unbroken xs) := List.decidableBAll _ xs

namespace Passes

variable {depth : Nat} {xs ys : List Char}

theorem nil : Passes depth [] := fun _ _ _ => rfl

theorem mono (h : Passes 0 xs) : Passes depth xs := fun d _ => h d (Nat.zero_le d)

theorem append (hx : Passes depth xs) (hy : Passes depth ys) : Passes depth (xs ++ ys) := by
  intro d hd rest
  rw [List.append_assoc, hx d hd, hy d hd, List.append_assoc]

theorem cons {c : Char} (hc : c ∉ ['(', '<', '[', ')', '>', ']']) (hcomma : c = ',' → 0 < depth)
    (h : Passes depth xs) : Passes depth (c :: xs) := by
  intro d hd rest
  have hends : ¬ Ends d c := by
    rintro ⟨rfl, hmem⟩
    simp only [List.mem_cons, List.not_mem_nil, or_false, not_or] at hmem hc
    have := hcomma (hmem.resolve_right (by tauto))
    omega
  have hdepth : depthAfter d c = d := by
    unfold depthAfter
    rw [if_neg (by simp_all), if_neg (by simp_all)]
  rw [List.cons_append, field, if_neg hends, hdepth, h d hd]
  rfl

theorem of_unbroken (h : Unbroken xs) : Passes depth xs := by
  induction xs with
  | nil => exact nil
  | cons c cs ih =>
    obtain ⟨hc, hcs⟩ := List.forall_mem_cons.mp h
    refine cons (by simp_all) (fun heq => absurd ?_ hc) (ih hcs)
    rw [heq]
    decide

/-- Within brackets there may be commas. -/
theorem bracket {opening closing : Char} (ho : opening ∈ ['(', '<', '['])
    (hc : closing ∈ [')', '>', ']']) (h : Passes 1 xs) :
    Passes depth (opening :: (xs ++ [closing])) := by
  have hopen : opening ∉ [',', ')', '>', ']'] := by
    simp only [List.mem_cons, List.not_mem_nil, or_false] at ho
    rcases ho with rfl | rfl | rfl <;> decide
  have hclosed : closing ∉ ['(', '<', '['] := by
    simp only [List.mem_cons, List.not_mem_nil, or_false] at hc
    rcases hc with rfl | rfl | rfl <;> decide
  intro d _ rest
  rw [List.cons_append, field, if_neg fun h => hopen h.2, depthAfter, if_pos ho, List.append_assoc,
    h (d + 1) (Nat.succ_le_succ (Nat.zero_le d)), List.singleton_append, field,
    if_neg fun h => Nat.succ_ne_zero d h.1, depthAfter, if_neg hclosed, if_pos hc]
  simp

theorem intercalate {separator : List Char} (hs : Passes depth separator) {names : List (List Char)}
    (h : ∀ name ∈ names, Passes depth name) : Passes depth (separator.intercalate names) := by
  induction names with
  | nil => exact nil
  | cons name names ih =>
    obtain ⟨hname, hnames⟩ := List.forall_mem_cons.mp h
    cases names with
    | nil => rwa [List.intercalate_singleton]
    | cons name' names =>
      rw [List.intercalate_cons_cons]
      exact (hname.append hs).append (ih hnames)

end Passes

/-- A field is followed by its end. -/
theorem Passes.field_eq {xs : List Char} (h : Passes 0 xs) {c : Char} (hc : c ∈ [',', ')', '>', ']'])
    (rest : List Char) : field 0 (xs ++ c :: rest) = (xs, c :: rest) := by
  rw [h 0 (Nat.le_refl 0), field, if_pos ⟨rfl, hc⟩, List.append_nil]

/-- The fields after the first one, and what follows. -/
def fields (names : List (List Char)) (rest : List Char) : List Char :=
  names.flatMap ([',', ' '] ++ ·) ++ ')' :: rest

/-- No fields at all look like one that is empty. -/
theorem intercalate_append_eq (names : List (List Char)) (rest : List Char) :
    [',', ' '].intercalate names ++ ')' :: rest = names.headD [] ++ fields names.tail rest := by
  cases names with
  | nil => rfl
  | cons name names =>
    rw [List.headD_cons, List.tail_cons]
    induction names generalizing name with
    | nil => rw [List.intercalate_singleton]; rfl
    | cons name' names ih =>
      rw [List.intercalate_cons_cons, List.append_assoc, ih, List.append_assoc]
      simp [fields]

theorem Passes.field_fields {name : List Char} (h : Passes 0 name) (names : List (List Char))
    (rest : List Char) : field 0 (name ++ fields names rest) = (name, fields names rest) := by
  cases names with
  | nil => exact h.field_eq (by decide) _
  | cons name' names => exact h.field_eq (by decide) _

theorem fields_inj {names names' : List (List Char)} {rest rest' : List Char}
    (h : ∀ name ∈ names, Passes 0 name) (h' : ∀ name ∈ names', Passes 0 name)
    (heq : fields names rest = fields names' rest') : names = names' ∧ rest = rest' := by
  induction names generalizing names' with
  | nil =>
    cases names' with
    | nil => exact ⟨rfl, (List.cons.inj heq).2⟩
    | cons name' names' => exact absurd (List.cons.inj heq).1 (by decide)
  | cons name names ih =>
    cases names' with
    | nil => exact absurd (List.cons.inj heq).1 (by decide)
    | cons name' names' =>
      obtain ⟨hname, hnames⟩ := List.forall_mem_cons.mp h
      obtain ⟨hname', hnames'⟩ := List.forall_mem_cons.mp h'
      have hfields : name ++ fields names rest = name' ++ fields names' rest' := by
        simpa [fields] using heq
      have hcut := congrArg (field 0) hfields
      rw [hname.field_fields, hname'.field_fields, Prod.mk.injEq] at hcut
      obtain ⟨rfl, rfl⟩ := ih hnames hnames' hcut.2
      exact ⟨by rw [hcut.1], rfl⟩

/-- Nothing is printed for no names, and for one that is empty. -/
def Unprinted (names : List String) : Prop := names = [] ∨ names = [""]

/-- A name whose brackets match, with no comma outside of them. -/
def WholeName (name : String) : Prop := Passes 0 name.toList

theorem toList_signatureName_eq (result : String) (names : List String) :
    (Registry.signatureName result names).toList = '(' ::
      ([',', ' '].intercalate (names.map String.toList) ++ ')' :: ([' ', ':', ' '] ++ result.toList)) := by
  rw [Registry.toList_signatureName, String.toList_intercalate]
  rfl

/-- **A printed signature gives back its names.** -/
theorem signatureName_inj {result result' : String} {names names' : List String}
    (h : ∀ name ∈ names, WholeName name) (h' : ∀ name ∈ names', WholeName name) :
    Registry.signatureName result names = Registry.signatureName result' names' ↔
      result = result' ∧ (names = names' ∨ Unprinted names ∧ Unprinted names') := by
  constructor
  · intro heq
    have hhead : ∀ {names : List String}, (∀ name ∈ names, WholeName name) →
        Passes 0 ((names.map String.toList).headD []) ∧
          ∀ name ∈ (names.map String.toList).tail, Passes 0 name := by
      intro names hnames
      cases names with
      | nil => exact ⟨.nil, List.forall_mem_nil _⟩
      | cons name names =>
        obtain ⟨hname, hnames⟩ := List.forall_mem_cons.mp hnames
        exact ⟨hname, List.forall_mem_map.mpr hnames⟩
    have hlist := congrArg (fun name => field 0 name.toList.tail) heq
    rw [toList_signatureName_eq, toList_signatureName_eq, List.tail_cons, List.tail_cons,
      intercalate_append_eq, intercalate_append_eq, (hhead h).1.field_fields,
      (hhead h').1.field_fields, Prod.mk.injEq] at hlist
    obtain ⟨htail, hresult⟩ := fields_inj (hhead h).2 (hhead h').2 hlist.2
    refine ⟨String.toList_inj.mp (List.append_cancel_left hresult), ?_⟩
    cases names with
    | nil =>
      cases names' with
      | nil => exact .inl rfl
      | cons name' names' =>
        refine .inr ⟨.inl rfl, .inr ?_⟩
        rw [List.map_eq_nil_iff.mp htail.symm, String.toList_eq_nil_iff.mp hlist.1.symm]
    | cons name names =>
      cases names' with
      | nil =>
        refine .inr ⟨.inr ?_, .inl rfl⟩
        rw [List.map_eq_nil_iff.mp htail, String.toList_eq_nil_iff.mp hlist.1]
      | cons name' names' =>
        refine .inl ?_
        rw [String.toList_inj.mp hlist.1,
          List.map_injective_iff.mpr (fun _ _ => String.toList_inj.mp) htail]
  · rintro ⟨rfl, rfl | ⟨rfl | rfl, rfl | rfl⟩⟩ <;> rfl

/-! ### The names of types -/

/-- A name without brackets and commas. -/
def PlainName (name : String) : Prop := Unbroken name.toList

instance (name : String) : Decidable (PlainName name) := inferInstanceAs (Decidable (Unbroken _))

variable {name : String}

theorem PlainName.whole (h : PlainName name) : WholeName name := .of_unbroken h

theorem passes_toDigits {depth n : Nat} : Passes depth (Nat.toDigits 10 n) := by
  refine .of_unbroken fun c hc hmem => ?_
  have hdigit := Nat.isDigit_of_mem_toDigits (by decide) (by decide) hc
  simp only [List.mem_cons, List.not_mem_nil, or_false] at hmem
  rcases hmem with rfl | rfl | rfl | rfl | rfl | rfl | rfl <;> exact absurd hdigit (by decide)

theorem TypeSpec.whole_builtinName {spec : TypeSpec} (h : spec.builtinName = some name) :
    WholeName name := by
  have hscalar : ∀ k : ScalarKind, WholeName k.name := by
    intro k
    cases k <;> exact PlainName.whole (by decide)
  induction spec generalizing name with
  | void =>
    cases h
    exact PlainName.whole (by decide)
  | scalar k =>
    cases h
    exact hscalar k
  | vector k n =>
    cases h
    rw [WholeName, toList_builtinName_vector]
    exact (hscalar k).append passes_toDigits
  | matrix m n =>
    cases h
    rw [WholeName, toList_builtinName_matrix]
    refine .append (.append (.append ?_ passes_toDigits) ?_) passes_toDigits <;>
      exact .of_unbroken (by decide)
  | array element n ih =>
    obtain ⟨inner, hinner, rfl⟩ := Option.map_eq_some_iff.mp h
    have hlist : (s!"FixedArray[{inner}, {n}]").toList = "FixedArray".toList ++
        '[' :: (inner.toList ++ ([',', ' '] ++ Nat.toDigits 10 n) ++ [']']) := by
      rw [toList_builtinName_array]
      simp
    rw [WholeName, hlist]
    refine .append (.of_unbroken (by decide)) (.bracket (by decide) (by decide) ?_)
    refine (ih hinner).mono.append (.append ?_ passes_toDigits)
    exact .cons (by decide) (fun _ => Nat.one_pos) (.of_unbroken (by decide))
  | ofClass | math => cases h

theorem whole_pointerName (h : WholeName name) : WholeName (Registry.pointerName name) := by
  have hlist : (Registry.pointerName name).toList = ['p', 't', 'r'] ++ '<' :: (name.toList ++ ['>']) := by
    rw [Registry.toList_pointerName]
    rfl
  rw [WholeName, hlist]
  exact .append (.of_unbroken (by decide)) (.bracket (by decide) (by decide) h.mono)

theorem whole_signatureName {result : String} {names : List String} (h : WholeName result)
    (hnames : ∀ name ∈ names, WholeName name) : WholeName (Registry.signatureName result names) := by
  have hlist : (Registry.signatureName result names).toList =
      '(' :: ([',', ' '].intercalate (names.map String.toList) ++ [')']) ++
        ([' ', ':', ' '] ++ result.toList) := by
    rw [toList_signatureName_eq]
    simp
  rw [WholeName, hlist]
  refine .append (.bracket (by decide) (by decide) ?_) (.append (.of_unbroken (by decide)) h)
  refine .intercalate (.cons (by decide) (fun _ => Nat.one_pos) (.of_unbroken (by decide))) ?_
  exact List.forall_mem_map.mpr fun name hname => (hnames name hname).mono

namespace Registry

open Outcome Relation

variable {r r' : Registry}

/-! ### Registries -/

/-- A type that bears the name of a function type is one: its parts are the types named. -/
def Signed (r : Registry) (i : TypeInfo) : Prop :=
  i.name.toList.head? = some '(' → i.kind = .function ∧ ∃ result parameters resultName names,
    i.parts = result :: parameters ∧ r.Named result resultName ∧
      List.Forall₂ r.Named parameters names ∧ i.name = signatureName resultName names

/-- **All names are whole**, and what is named like a function type is one. -/
structure Spelled (r : Registry) : Prop where
  whole : ∀ t i, r.info? t = some i → WholeName i.name
  signed : ∀ t i, r.info? t = some i → r.Signed i

theorem Signed.mono {i : TypeInfo} (h : r.Signed i)
    (hnamed : ∀ t name, r.Named t name → r'.Named t name) : r'.Signed i := by
  intro hhead
  obtain ⟨hkind, result, parameters, resultName, names, hparts, hresult, hnames, hname⟩ := h hhead
  exact ⟨hkind, result, parameters, resultName, names, hparts, hnamed _ _ hresult,
    hnames.imp fun _ _ h => hnamed _ _ h, hname⟩

theorem spelled_empty : Spelled {} := ⟨fun _ _ h => (nomatch h), fun _ _ h => (nomatch h)⟩

theorem Spelled.push (h : r.Spelled) {i : TypeInfo} (hwhole : WholeName i.name)
    (hsigned : r.Signed i) :
    (r.push i).Spelled := by
  constructor
  · intro t j hj
    rcases info?_push_cases hj with ⟨-, rfl⟩ | hj
    · exact hwhole
    · exact h.whole t j hj
  · intro t j hj
    refine Signed.mono ?_ fun t name ht => named_push ht i
    rcases info?_push_cases hj with ⟨-, rfl⟩ | hj
    · exact hsigned
    · exact h.signed t j hj

variable {name : String} {t : TypeRef} {names : List String} {ps : List TypeRef}

theorem Spelled.intern (h : r.Spelled) (hwhole : WholeName name)
    (hhead : name.toList.head? ≠ some '(') (kind : Kind) (count : Nat)
    (component : Option TypeRef) :
    (r.intern name kind count component).2.Spelled := by
  rcases r.intern_cases name kind count component with ⟨t, -, heq⟩ | ⟨-, heq⟩
  · rw [heq]
    exact h
  · rw [heq]
    exact h.push hwhole fun hsigned => absurd hsigned hhead

theorem named_link {p u : TypeRef} (h : r.Named u name) : (r.link t p).Named u name := by
  obtain ⟨i, hi, rfl⟩ := h
  have hlinked := info?_link r t p u
  rw [hi, Option.map_some] at hlinked
  exact ⟨_, hlinked, rfl⟩

theorem Spelled.link (h : r.Spelled) (t p : TypeRef) : (r.link t p).Spelled := by
  constructor
  · intro u i hi
    rw [info?_link] at hi
    obtain ⟨j, hj, rfl⟩ := Option.map_eq_some_iff.mp hi
    exact h.whole u j hj
  · intro u i hi
    rw [info?_link] at hi
    obtain ⟨j, hj, rfl⟩ := Option.map_eq_some_iff.mp hi
    exact Signed.mono (h.signed u j hj) fun _ _ => named_link

theorem Indexed.eq_iff_of_named (h : r.Indexed) {t' : TypeRef} {name' : String}
    (ht : r.Named t name) (ht' : r.Named t' name') : t = t' ↔ name = name' := by
  constructor
  · rintro rfl
    exact ht.unique ht'
  · rintro rfl
    exact NamesApart.eq_of_named h.unique ht ht'

theorem Spelled.whole_of_named (h : r.Spelled) (ht : r.Named t name) : WholeName name := by
  obtain ⟨i, hi, rfl⟩ := ht
  exact h.whole t i hi

theorem Spelled.whole_of_forall₂ (h : r.Spelled) (hps : List.Forall₂ r.Named ps names) :
    ∀ name ∈ names, WholeName name := by
  induction hps with
  | nil => exact List.forall_mem_nil _
  | cons hp _ ih => exact List.forall_mem_cons.mpr ⟨h.whole_of_named hp, ih⟩

/-- Parameters for which nothing is printed: none, or one type without a name. -/
def Unwritten (r : Registry) (ps : List TypeRef) : Prop := ps = [] ∨ ∃ p, ps = [p] ∧ r.Named p ""

/-- Parameters that are printed alike. -/
def PrintsAlike (r : Registry) (ps qs : List TypeRef) : Prop := ps = qs ∨ r.Unwritten ps ∧ r.Unwritten qs

theorem unwritten_iff (h : List.Forall₂ r.Named ps names) : r.Unwritten ps ↔ Unprinted names := by
  constructor
  · rintro (rfl | ⟨p, rfl, hp⟩)
    · exact .inl (List.forall₂_nil_left_iff.mp h)
    · obtain ⟨name, _, hname, hnil, rfl⟩ := List.forall₂_cons_left_iff.mp h
      rw [List.forall₂_nil_left_iff.mp hnil, hname.unique hp]
      exact .inr rfl
  · rintro (rfl | rfl)
    · exact .inl (List.forall₂_nil_right_iff.mp h)
    · obtain ⟨p, _, hp, hnil, rfl⟩ := List.forall₂_cons_right_iff.mp h
      rw [List.forall₂_nil_right_iff.mp hnil]
      exact .inr ⟨p, rfl, hp⟩

/-- **Types are told apart by their names**, and so are lists of them as far as they are printed. -/
theorem Indexed.printsAlike_iff (h : r.Indexed) {qs : List TypeRef} {names' : List String}
    (hps : List.Forall₂ r.Named ps names) (hqs : List.Forall₂ r.Named qs names') :
    r.PrintsAlike ps qs ↔ names = names' ∨ Unprinted names ∧ Unprinted names' := by
  have hright : Relator.RightUnique r.Named := fun _ _ _ => Named.unique
  have hleft : Relator.LeftUnique r.Named := fun _ _ _ => NamesApart.eq_of_named h.unique
  have heq : ps = qs ↔ names = names' := by
    constructor
    · rintro rfl
      exact hright.forall₂ hps hqs
    · rintro rfl
      exact hleft.forall₂ hps hqs
  rw [PrintsAlike, heq, unwritten_iff hps, unwritten_iff hqs]

/-! ### Asking for function types -/

/-- What asking for a function type does. -/
theorem Spelled.functionType (h : r.Spelled) {result : TypeRef} {resultName : String}
    (hresult : r.Named result resultName) (hps : List.Forall₂ r.Named ps names) :
    ∃ t r', Registry.functionType result ps r = (.ok t, r') ∧ r'.Spelled ∧
      r'.Named t (signatureName resultName names) := by
  rw [functionType_apply, signatureOf_eq_ok.mpr ⟨resultName, names, hresult, hps, rfl⟩]
  dsimp only
  cases hfind : r.find? (signatureName resultName names) with
  | some t => exact ⟨t, r, rfl, h, find?_eq_some hfind⟩
  | none =>
    refine ⟨⟨r.size⟩, _, rfl, h.push ?_ ?_, _, by rw [info?_push, if_pos rfl], rfl⟩
    · exact whole_signatureName (h.whole_of_named hresult) (h.whole_of_forall₂ hps)
    · exact fun _ => ⟨rfl, result, ps, resultName, names, rfl, hresult, hps, rfl⟩

/-- **The parts of a function type** are those of any signature that it bears the name of. -/
theorem Spelled.parts (h : r.Spelled) (hr : r.Indexed) {result : TypeRef} {resultName : String}
    (hresult : r.Named result resultName) (hps : List.Forall₂ r.Named ps names)
    (ht : r.Named t (signatureName resultName names)) :
    ∃ i qs, r.info? t = some i ∧ i.kind = .function ∧ i.parts = result :: qs ∧ r.PrintsAlike ps qs := by
  obtain ⟨i, hi, hname⟩ := ht
  obtain ⟨hkind, result', qs, resultName', names', hparts, hresult', hqs, hname'⟩ :=
    h.signed t i hi (by rw [hname, toList_signatureName_eq]; rfl)
  obtain ⟨rfl, hnames⟩ := (signatureName_inj (h.whole_of_forall₂ hps) (h.whole_of_forall₂ hqs)).mp
    (hname.symm.trans hname')
  obtain rfl := NamesApart.eq_of_named hr.unique hresult hresult'
  exact ⟨i, qs, hi, hkind, hparts, (hr.printsAlike_iff hps hqs).mpr hnames⟩

/-! ### Runs -/

/-- A request that the names of function types live through: to lower a builtin type, or a change. -/
inductive Entry where
  | lower (spec : TypeSpec)
  | change (change : Change)

/-- Carries out a request. -/
def Entry.perform : Entry → TypeM Answer
  | .lower spec => .type <$> lowerBuiltin spec
  | .change c => c.perform

theorem Entry.moves (entry : Entry) : Moves entry.perform := by
  cases entry with
  | lower spec => exact .map (moves_lowerBuiltin spec)
  | change c => exact c.moves

/-- Structs are given plain names, and no type is entered under a name of the caller's choice but
them. -/
def Entry.Plain : Entry → Prop
  | .change (.create ..) => False
  | .change (.createStruct name) => PlainName name
  | _ => True

instance (entry : Entry) : Decidable entry.Plain :=
  match entry with
  | .change (.create ..) => isFalse id
  | .change (.createStruct name) => inferInstanceAs (Decidable (PlainName name))
  | .lower _ | .change (.pointerType _) | .change (.functionType _ _) |
    .change (.addMember _ _ _) => isTrue True.intro

/-- The registry after some requests. -/
def entered (r : Registry) (entries : List Entry) : Registry := run Entry.perform r entries

theorem steps_entered (r : Registry) (entries : List Entry) : ReflTransGen Step r (r.entered entries) :=
  steps_run Entry.moves r entries

theorem Spelled.lowerBuiltin (h : r.Spelled) (spec : TypeSpec) :
    (lowerBuiltin spec r).2.Spelled := by
  rw [lowerBuiltin_apply]
  cases henter : r.enterBuiltin spec with
  | error e => exact h
  | ok p =>
    refine (enterBuiltin_rule (P := Spelled) (fun hr hname _ => ?_) h henter).1
    refine hr.intern (TypeSpec.whole_builtinName hname) (fun hhead => ?_) _ _ _
    rcases TypeSpec.head_of_builtinName hname with ⟨-, rfl⟩ | ⟨c, hc, hc'⟩
    · exact absurd hhead (by decide)
    · cases hc'.symm.trans hhead
      exact absurd hc (by decide)

theorem Spelled.pointerType (h : r.Spelled) (ty : TypeRef) : (pointerType ty r).2.Spelled := by
  rcases hp : Registry.pointerType ty r with ⟨e | p, r'⟩
  · rw [pointerType_error hp]
    exact h
  · obtain ⟨i, hi, ⟨-, rfl⟩ | ⟨-, -, rfl⟩⟩ := pointerType_cases hp
    · exact h
    · refine (h.intern (whole_pointerName (h.whole ty i hi)) ?_ _ _ _).link ty p
      rw [toList_pointerName]
      exact fun hhead => absurd (Option.some.inj hhead) (by decide)

theorem Spelled.addMember (h : r.Spelled) (owner member : TypeRef) (name : String) :
    (addMember owner member name r).2.Spelled := by
  rcases hadd : Registry.addMember owner member name r with ⟨e | n, r'⟩
  · rw [addMember_error hadd]
    exact h
  · have hsteps := (moves_addMember owner member name).steps hadd
    obtain ⟨i, -, hi, -, hkind, -, -, rfl⟩ := addMember_cases hadd
    constructor <;> intro u j hj <;> rw [Registry.extend, info?_modify] at hj <;> split at hj
    · next heq =>
      rw [heq, hi] at hj
      cases hj
      exact h.whole owner i hi
    · exact h.whole u j hj
    · -- A struct does not bear the name of a function type.
      next heq =>
      rw [heq, hi] at hj
      cases hj
      intro hhead
      cases hkind.symm.trans (h.signed owner i hi hhead).1
    · exact (h.signed u j hj).mono fun _ _ => named_of_steps hsteps

theorem Spelled.perform (h : r.Spelled) {entry : Entry} (hentry : entry.Plain) :
    (entry.perform r).2.Spelled := by
  cases entry with
  | lower spec =>
    rw [Entry.perform, state_map]
    exact h.lowerBuiltin spec
  | change c =>
    rw [Entry.perform]
    cases c with
    | create name kind count component => exact hentry.elim
    | createStruct name =>
      refine h.intern (PlainName.whole hentry) (fun hhead => ?_) _ _ _
      exact absurd (List.mem_of_mem_head? hhead) fun hmem => hentry _ hmem (by decide)
    | pointerType ty =>
      rw [Change.perform, state_map]
      exact h.pointerType ty
    | addMember owner member name =>
      rw [Change.perform, state_map]
      exact h.addMember owner member name
    | functionType result parameters =>
      rw [Change.perform, state_map]
      cases hname : r.signatureOf result parameters with
      | error e =>
        rw [functionType_apply, hname]
        exact h
      | ok name =>
        obtain ⟨resultName, names, hresult, hps, -⟩ := signatureOf_eq_ok.mp hname
        obtain ⟨t, r', heq, hr', -⟩ := h.functionType hresult hps
        rw [heq]
        exact hr'

theorem Spelled.entered (h : r.Spelled) {entries : List Entry} (hentries : ∀ e ∈ entries, e.Plain) :
    (r.entered entries).Spelled := by
  induction entries generalizing r with
  | nil => exact h
  | cons entry entries ih =>
    obtain ⟨hentry, hentries⟩ := List.forall_mem_cons.mp hentries
    exact ih (h.perform hentry) hentries

/-- **Function types are determined by their signature.** In a registry that was filled by lowering
builtin types and creating structs with plain names, their members, pointer types and function types,
asking for the function type of some types that are there gives one with these parts. However many
types are entered later, asking for a function type gives it again exactly if the signature is the same.
Nothing is printed for no parameters, nor for one whose name is empty, so these two count as the
same. -/
theorem functionType_by_signature {entries : List Entry} (hentries : ∀ e ∈ entries, e.Plain)
    {result : TypeRef} {ps : List TypeRef}
    (hin : ∀ p ∈ result :: ps, p.index < (entered {} entries).size) :
    ∃ t r' qs, functionType result ps (entered {} entries) = (.ok t, r') ∧
      r'.PrintsAlike ps qs ∧
      r'.partCount t = .ok (qs.length + 1) ∧ r'.partAt t 0 = .ok result ∧
      (∀ k q, qs[k]? = some q → r'.partAt t (k + 1) = .ok q) ∧
      ∀ later : List Entry, (∀ e ∈ later, e.Plain) → ∀ result' ps',
        (∀ p ∈ result' :: ps', p.index < (r'.entered later).size) →
        ∃ t', (functionType result' ps' (r'.entered later)).1 = .ok t' ∧
          (t' = t ↔ result' = result ∧ (r'.entered later).PrintsAlike ps' ps) := by
  have hr : (entered {} entries).Indexed := indexed_of_steps (steps_entered {} entries) indexed_empty
  have hspelled : (entered {} entries).Spelled := spelled_empty.entered hentries
  generalize entered {} entries = r at hin hr hspelled ⊢
  obtain ⟨hresult, hps⟩ := List.forall_mem_cons.mp hin
  obtain ⟨i, hi⟩ := exists_info? hresult
  obtain ⟨names, hnames⟩ := exists_names hps
  obtain ⟨t, r', heq, hspelled', ht⟩ := hspelled.functionType ⟨i, hi, rfl⟩ hnames
  have hsteps := (moves_functionType result ps).steps heq
  have hr' := indexed_of_steps hsteps hr
  have hresult := named_of_steps hsteps ⟨i, hi, rfl⟩
  replace hnames := hnames.imp fun _ _ h => named_of_steps hsteps h
  obtain ⟨j, qs, hj, hkind, hparts, halike⟩ := hspelled'.parts hr' hresult hnames ht
  refine ⟨t, r', qs, heq, halike, ?_, ?_, fun k q hq => ?_, ?_⟩
  · rw [partCount, info_eq hj]
    exact congrArg (fun parts => Except.ok parts.length) hparts
  · exact partAt_eq_ok.mpr ⟨j, hj, .inr hkind, by rw [hparts]; rfl⟩
  · exact partAt_eq_ok.mpr ⟨j, hj, .inr hkind, by rw [hparts]; exact hq⟩
  intro later hlater result' ps' hin'
  have hsteps' := steps_entered r' later
  have hs := indexed_of_steps hsteps' hr'
  have hspelled_s := hspelled'.entered hlater
  obtain ⟨hresult', hps'⟩ := List.forall_mem_cons.mp hin'
  obtain ⟨i', hi'⟩ := exists_info? hresult'
  obtain ⟨names', hnames'⟩ := exists_names hps'
  obtain ⟨t', s, heq', -, ht'⟩ := hspelled_s.functionType ⟨i', hi', rfl⟩ hnames'
  have hsteps_s := (moves_functionType result' ps').steps heq'
  refine ⟨t', congrArg Prod.fst heq', ?_⟩
  replace hnames := hnames.imp fun _ _ h => named_of_steps hsteps' h
  -- a type is the same exactly if its name is, and the name of a function type tells its signature
  calc t' = t ↔ signatureName i'.name names' = signatureName i.name names :=
        (indexed_of_steps hsteps_s hs).eq_iff_of_named ht'
          (named_of_steps hsteps_s (named_of_steps hsteps' ht))
    _ ↔ i'.name = i.name ∧ (names' = names ∨ Unprinted names' ∧ Unprinted names) :=
        signatureName_inj (hspelled_s.whole_of_forall₂ hnames') (hspelled_s.whole_of_forall₂ hnames)
    _ ↔ result' = result ∧ (r'.entered later).PrintsAlike ps' ps :=
        and_congr (hs.eq_iff_of_named ⟨i', hi', rfl⟩ (named_of_steps hsteps' hresult)).symm
          (hs.printsAlike_iff hnames' hnames).symm

/-- A function type that takes a pointer, to be a part of another one. -/
def callbacks : List Entry :=
  [.lower (.scalar .real), .change (.createStruct "Cell"), .change (.pointerType ⟨1⟩),
   .change (.functionType ⟨0⟩ [⟨0⟩, ⟨2⟩]), .change (.addMember ⟨1⟩ ⟨3⟩ "callback")]

theorem functionType_by_signature_callbacks :
    (∀ e ∈ callbacks, e.Plain) ∧ (entered {} callbacks).Named ⟨3⟩ "(Real, ptr<Cell>) : Real" ∧
    ∃ t r' qs, functionType ⟨3⟩ [⟨3⟩, ⟨2⟩] (entered {} callbacks) = (.ok t, r') ∧
      r'.PrintsAlike [⟨3⟩, ⟨2⟩] qs ∧ r'.partCount t = .ok (qs.length + 1) ∧
      r'.partAt t 0 = .ok ⟨3⟩ := by
  have hplain : ∀ e ∈ callbacks, e.Plain := by decide
  have hin : ∀ u ∈ (⟨3⟩ : TypeRef) :: [⟨3⟩, ⟨2⟩], u.index < (entered {} callbacks).size := by decide
  obtain ⟨t, r', qs, heq, halike, hcount, hresult, -⟩ := functionType_by_signature hplain hin
  exact ⟨hplain, ⟨_, rfl, rfl⟩, t, r', qs, heq, halike, hcount, hresult⟩

/-- A struct whose name is empty: a function that takes one is taken for a function without
parameters. -/
theorem functionType_unnamed :
    PlainName "" ∧ ∃ r', functionType ⟨1⟩ []
          (entered {} [.change (.createStruct ""), .lower (.scalar .real)]) = (.ok ⟨2⟩, r') ∧
      functionType ⟨1⟩ [⟨0⟩] r' = (.ok ⟨2⟩, r') ∧ r'.partCount ⟨2⟩ = .ok 1 :=
  ⟨by decide, _, rfl, rfl, rfl⟩

end Registry

end Shader
