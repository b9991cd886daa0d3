import Shader.Json.Decode
import Shader.Tree.Encode
import Mathlib.Algebra.Group.Nat.Defs
import Mathlib.Data.List.Forall2
import Mathlib.Data.List.Nodup

/-!
# Reading values back

What the decoders make of a JSON value that stands in a node (`toNode`).

* `Object`, `Variant`, `Items` — forms of JSON values. A form has a budget for the brackets that are
  open at a time in what is read; what is passed over needs none.
* `record_bind` — an object is read as a record if it holds every field once, or not at all where the
  field has a value of its own for that case. The members may stand in any order, and members that
  are no fields do not matter. The loop over the members is carried by `Record.Pends`: what the
  slots still wait for is in the members that are left.
* `Decodes.object`, `Decodes.variant`, `Decodes.items` — what stands in a bracket is read with one
  bracket less in the budget.
-/

namespace Shader.Json

/-! ### Open brackets -/

mutual

/-- How many brackets are open at a time in a value. -/
def depth : Json → Nat
  | .arr items => itemsDepth items + 1
  | .obj members => membersDepth members + 1
  | _ => 0

/-- The same for the items of a list. -/
def itemsDepth : List Json → Nat
  | [] => 0
  | j :: js => max (depth j) (itemsDepth js)

/-- The same for the members of an object. -/
def membersDepth : List (String × Json) → Nat
  | [] => 0
  | (_, v) :: rest => max (depth v) (membersDepth rest)

end

variable {js : List Json}

theorem depth_le_itemsDepth {j : Json} (h : j ∈ js) : j.depth ≤ itemsDepth js := by
  induction js with
  | nil => nomatch h
  | cons j' js ih =>
    rw [itemsDepth]
    rcases List.mem_cons.mp h with rfl | h
    · exact Nat.le_max_left _ _
    · exact Nat.le_trans (ih h) (Nat.le_max_right _ _)

variable {ms : List (String × Json)} {name : String} {v : Json} {α : Type}

theorem depth_le_membersDepth {m : String × Json} (h : m ∈ ms) :
    m.2.depth ≤ membersDepth ms := by
  induction ms with
  | nil => nomatch h
  | cons m' ms ih =>
    rw [membersDepth]
    rcases List.mem_cons.mp h with rfl | h
    · exact Nat.le_max_left _ _
    · exact Nat.le_trans (ih h) (Nat.le_max_right _ _)

/-- What stands in an object has one bracket less to open. -/
theorem members_within {budget : Nat} (h : (obj ms).depth ≤ budget) :
    ∃ b, budget = b + 1 ∧ ∀ m ∈ ms, m.2.depth ≤ b := by
  rw [depth] at h
  exact ⟨budget - 1, by omega, fun m hm => Nat.le_trans (depth_le_membersDepth hm) (by omega)⟩

theorem items_within {budget : Nat} (h : (arr js).depth ≤ budget) :
    ∃ b, budget = b + 1 ∧ ∀ j ∈ js, j.depth ≤ b := by
  rw [depth] at h
  exact ⟨budget - 1, by omega, fun j hj => Nat.le_trans (depth_le_itemsDepth hj) (by omega)⟩

mutual

/-- A value can always be passed over. -/
theorem skipFault_toNode : ∀ j : Json, (toNode j).skipFault = none
  | .null => rfl
  | .bool _ => rfl
  | .num _ => rfl
  | .str _ => rfl
  | .arr items => by
    rw [toNode, Node.skipFault, itemsSkipFault_toNodes items]
    rfl
  | .obj members => by
    rw [toNode, Node.skipFault, membersSkipFault_toMembers members]
    rfl

theorem itemsSkipFault_toNodes : ∀ js : List Json, itemsSkipFault (toNodes js) = none
  | [] => rfl
  | j :: js => by
    rw [toNodes, itemsSkipFault, skipFault_toNode j, itemsSkipFault_toNodes js]
    rfl

theorem membersSkipFault_toMembers : ∀ ms : List (String × Json),
    membersSkipFault (toMembers ms) = none
  | [] => rfl
  | (_, v) :: ms => by
    rw [toMembers, membersSkipFault, skipFault_toNode v, membersSkipFault_toMembers ms]
    rfl

end

theorem ok_bind {α β : Type} (a : α) (f : α → Result β) : ((.ok a : Result α) >>= f) = f a := rfl

/-- **A decoder reads a value from every JSON value of some form.** -/
def Decodes {α : Type} (d : Decoder α) (P : Json → Prop) (a : α) : Prop :=
  ∀ j, P j → d (toNode j) = .ok a

/-- **A JSON value has some form**, given a budget for all its brackets. -/
def Writes (P : Nat → Json → Prop) (j : Json) : Prop := ∀ budget, j.depth ≤ budget → P budget j

/-! ### Fields -/

/-- The values that stand under a name in an object. -/
def valuesOf (ms : List (String × Json)) (name : String) : List Json :=
  (ms.filter (·.1 = name)).map (·.2)

/-- A field is there, once. -/
def Given (ms : List (String × Json)) (name : String) (P : Json → Prop) : Prop :=
  ∃ v, valuesOf ms name = [v] ∧ P v

/-- A field is there, once, or it has been left out, which needs a reason. -/
def GivenUnless (reason : Prop) (ms : List (String × Json)) (name : String) (P : Json → Prop) :
    Prop :=
  Given ms name P ∨ reason ∧ valuesOf ms name = []

/-- An object whose members satisfy a condition. It takes a bracket off the budget. -/
def Object (Q : Nat → List (String × Json) → Prop) (budget : Nat) (j : Json) : Prop :=
  ∃ b ms, budget = b + 1 ∧ j = .obj ms ∧ Q b ms

/-- A variant with content, which stands in a bracket. -/
def Variant (name : String) (P : Nat → Json → Prop) (budget : Nat) (j : Json) : Prop :=
  ∃ b v, budget = b + 1 ∧ j = tagged name v ∧ P b v

/-- `null` for nothing. -/
def OrNull {α : Type} (P : α → Json → Prop) : Option α → Json → Prop
  | none, j => j = .null
  | some a, j => P a j

/-- A list whose items satisfy a condition. It takes a bracket off the budget. -/
def Items (Q : Nat → List Json → Prop) (budget : Nat) (j : Json) : Prop :=
  ∃ b js, budget = b + 1 ∧ j = .arr js ∧ Q b js

/-- A list with one item for each of some values. -/
def Each {α : Type} (F : α → Nat → Json → Prop) (as : List α) : Nat → Json → Prop :=
  Items fun b => List.Forall₂ (F · b) as

/-- A number of 32 bits. -/
def Word (n : Nat) (j : Json) : Prop := j = .nat n ∧ n < 2 ^ 32

theorem valuesOf_cons (k : String) (v : Json) (ms : List (String × Json)) (name : String) :
    valuesOf ((k, v) :: ms) name = if k = name then v :: valuesOf ms name else valuesOf ms name := by
  by_cases h : k = name <;> simp [valuesOf, h]

theorem mem_of_valuesOf (h : valuesOf ms name = [v]) :
    (name, v) ∈ ms := by
  have hv : v ∈ valuesOf ms name := h ▸ List.mem_singleton_self v
  obtain ⟨⟨k, v'⟩, hm, rfl⟩ := List.mem_map.mp hv
  obtain ⟨hm, hk⟩ := List.mem_filter.mp hm
  exact of_decide_eq_true hk ▸ hm

/-- What the members of an object say about a field. -/
def Field.Reads {α : Type} (f : Field α) (ms : List (String × Json)) (a : α) : Prop :=
  (∃ v, valuesOf ms f.name = [v] ∧ f.decode (toNode v) = .ok a) ∨
    valuesOf ms f.name = [] ∧ f.ifAbsent = some a

section Fields

variable {α : Type} {ms : List (String × Json)} {name : String} {P : Json → Prop} {d : Decoder α}
  {a : α}

theorem Given.decoded (h : Given ms name P) (hd : Decodes d P a) :
    ∃ v, valuesOf ms name = [v] ∧ d (toNode v) = .ok a := by
  obtain ⟨v, hv, hP⟩ := h
  exact ⟨v, hv, hd v hP⟩

theorem Given.required (h : Given ms name P) (hd : Decodes d P a) :
    (Field.required name d).Reads ms a :=
  .inl (h.decoded hd)

theorem GivenUnless.defaulted {value : α} (h : GivenUnless (a = value) ms name P)
    (hd : Decodes d P a) : (Field.defaulted name d value).Reads ms a := by
  rcases h with h | ⟨rfl, h⟩
  · exact .inl (h.decoded hd)
  · exact .inr ⟨h, rfl⟩

theorem GivenUnless.optional {o : Option α} (h : GivenUnless (o = none) ms name P)
    (hd : Decodes (Json.optional d) P o) : (Field.optional name d).Reads ms o := by
  rcases h with h | ⟨rfl, h⟩
  · exact .inl (h.decoded hd)
  · exact .inr ⟨h, rfl⟩

end Fields

/-! ### Records -/

namespace Record

/-- The names of the fields. -/
def names {α : Type} : Record α → List String
  | .nil => []
  | .cons field rest => field.name :: rest.names

/-- What the members of an object say about all fields. -/
def Reads {α : Type} (r : Record α) (ms : List (String × Json)) (a : α) : Prop :=
  match r, a with
  | .nil, _ => True
  | .cons field rest, (a, b) => field.Reads ms a ∧ rest.Reads ms b

/-- The slots and the members that are left determine all fields: a known field does not come up
again, and an unknown one is determined by the members. -/
def Pends {α : Type} (r : Record α) (slots : r.Slots) (ms : List (String × Json)) (a : α) : Prop :=
  match r, slots, a with
  | .nil, _, _ => True
  | @Record.cons α _ field rest, slots, (a, b) =>
    let slots : Option α × rest.Slots := slots
    (slots.1 = some a ∧ valuesOf ms field.name = [] ∨ slots.1 = none ∧ field.Reads ms a) ∧
      rest.Pends slots.2 ms b

variable {α : Type}

variable {r : Record α} {slots : r.Slots}

theorem Reads.pends {a : α} (h : r.Reads ms a) :
    r.Pends r.empty ms a := by
  induction r with
  | nil => trivial
  | cons field rest ih => exact ⟨.inr ⟨rfl, h.1⟩, ih h.2⟩

/-- A member that is no field tells nothing. -/
theorem Pends.skip {k : String} {a : α} (hk : k ∉ r.names) (h : r.Pends slots ((k, v) :: ms) a) :
    r.Pends slots ms a := by
  induction r with
  | nil => trivial
  | cons field rest ih =>
    obtain ⟨hhead, hrest⟩ := h
    have hne : k ≠ field.name := fun heq => hk (heq ▸ List.mem_cons_self)
    rw [Field.Reads, valuesOf_cons, if_neg hne] at hhead
    exact ⟨hhead, ih (fun hmem => hk (List.mem_cons_of_mem _ hmem)) hrest⟩

theorem Pends.finish {a : α} (h : r.Pends slots [] a) : r.finish slots = .ok a := by
  induction r with
  | nil => rfl
  | cons field rest ih =>
    obtain ⟨first, slots⟩ := slots
    obtain ⟨hhead, hrest⟩ := h
    -- With no member left, an unknown field must have been left out with good reason.
    have hfirst : first.or field.ifAbsent = some a.1 := by
      rcases hhead with ⟨hknown, -⟩ | ⟨hnone, ⟨v, hv, -⟩ | ⟨-, habsent⟩⟩
      · obtain rfl : first = some a.1 := hknown
        rfl
      · cases hv
      · obtain rfl : first = none := hnone
        exact habsent
    refine (Record.finish.eq_2 _ _ field rest (first, slots)).trans ?_
    dsimp only
    rw [hfirst, ih hrest]
    rfl

/-- **Reading one member.** It fills a slot that was empty, or it is no field. -/
theorem Pends.fill {k : String} {a : α} (hnames : r.names.Nodup)
    (h : r.Pends slots ((k, v) :: ms) a) :
    r.has slots k = false ∧
      (r.fill slots k (toNode v) = none ∧ r.Pends slots ms a ∨
        ∃ slots', r.fill slots k (toNode v) = some (.ok slots') ∧ r.Pends slots' ms a) := by
  induction r with
  | nil => exact ⟨rfl, .inl ⟨rfl, trivial⟩⟩
  | @cons α β field rest ih =>
    obtain ⟨first, slots⟩ := slots
    obtain ⟨a, b⟩ := a
    obtain ⟨hhead, hrest⟩ := h
    obtain ⟨hfresh, hnames⟩ := List.nodup_cons.mp hnames
    show (if field.name = k then first.isSome else rest.has slots k) = false ∧
      ((if field.name = k then
          some ((field.decode (toNode v)).map fun a => ((some a, slots) : Option α × rest.Slots))
        else (rest.fill slots k (toNode v)).map fun filled =>
          filled.map fun left => ((first, left) : Option α × rest.Slots)) = none ∧ _ ∨
      ∃ slots' : Option α × rest.Slots, (if field.name = k then
          some ((field.decode (toNode v)).map fun a => ((some a, slots) : Option α × rest.Slots))
        else (rest.fill slots k (toNode v)).map fun filled =>
          filled.map fun left => ((first, left) : Option α × rest.Slots)) = some (.ok slots') ∧ _)
    rw [Field.Reads, valuesOf_cons] at hhead
    by_cases heq : field.name = k
    · subst heq
      rw [if_pos rfl] at hhead
      -- The name comes up, so the slot was empty, and the name does not come up again.
      rcases hhead with ⟨-, hnil⟩ | ⟨hnone, ⟨v', hv', hdecode⟩ | ⟨hnil, -⟩⟩
      · nomatch hnil
      · obtain ⟨rfl, hnil⟩ := List.cons.inj hv'
        obtain rfl : first = none := hnone
        simp only [if_true, hdecode]
        exact ⟨rfl, .inr ⟨(some a, slots), rfl, .inl ⟨rfl, hnil⟩, hrest.skip hfresh⟩⟩
      · nomatch hnil
    · rw [if_neg (Ne.symm heq)] at hhead
      simp only [if_neg heq]
      obtain ⟨hhas, ⟨hfill, hpends⟩ | ⟨slots', hfill, hpends⟩⟩ := ih hnames hrest
      · rw [hfill]
        exact ⟨hhas, .inl ⟨rfl, hhead, hpends⟩⟩
      · rw [hfill]
        exact ⟨hhas, .inr ⟨(first, slots'), rfl, hhead, hpends⟩⟩

/-- Reading all members, one after the other. -/
theorem Pends.ofMembers {line : Nat} {a : α} (hnames : r.names.Nodup) (h : r.Pends slots ms a) :
    r.ofMembers (.closed line) slots (toMembers ms) = .ok a := by
  induction ms generalizing slots with
  | nil =>
    rw [toMembers, Record.ofMembers, h.finish]
  | cons m ms ih =>
    obtain ⟨k, v⟩ := m
    obtain ⟨hhas, hfill⟩ := h.fill hnames
    rw [toMembers, Record.ofMembers]
    show (if r.has slots k then _ else _ : Result α) = _
    rw [hhas]
    -- A member that is no field is passed over, which a value never hinders.
    rcases hfill with ⟨hfill, hpends⟩ | ⟨slots', hfill, hpends⟩
    · simp only [Bool.false_eq_true, if_false, hfill, skipFault_toNode]
      exact ih hpends
    · simp only [Bool.false_eq_true, if_false, hfill]
      exact ih hpends

end Record

/-- **Reading a record from an object.** -/
theorem record_bind {α β : Type} {wanted : String} {r : Record α} {a : α} {f : α → Result β}
    (hnames : decide r.names.Nodup = true) (h : r.Reads ms a) :
    (record wanted (some r) (toNode (.obj ms)) >>= f) = f a := by
  show (r.ofMembers (.closed 1) r.empty (toMembers ms) >>= f) = f a
  rw [h.pends.ofMembers (of_decide_eq_true hnames), ok_bind]

/-! ### Tagged unions -/

theorem variant_tagged {forms : List (String × Form α)} {content : String → Decoder α} {a : α}
    (hform : forms.lookup name = some .single ∨ forms.lookup name = some .fields)
    (h : content name (toNode v) = .ok a) :
    variant forms (some content) (toNode (tagged name v)) = .ok a := by
  rw [tagged, toNode, toMembers, toMembers, variant]
  rcases hform with hform | hform <;> simp only [taken, ok_bind, hform, h, variantEnd] <;> rfl

/-! ### Combining decoders -/

section Combine

variable {α β : Type} {a : α} {d : Decoder α}

theorem Decodes.map {P : Json → Prop} (h : Decodes d P a) (f : α → β) :
    Decodes (fun n => f <$> d n) P (f a) := by
  intro j hj
  show f <$> d (toNode j) = _
  rw [h j hj]
  rfl

theorem Decodes.object {d : Nat → Decoder α} {Q : Nat → List (String × Json) → Prop}
    (h : ∀ b ms, Q b ms → d (b + 1) (toNode (.obj ms)) = .ok a) :
    ∀ b, Decodes (d b) (Object Q b) a := by
  rintro _ _ ⟨b, ms, rfl, rfl, hQ⟩
  exact h b ms hQ

theorem Decodes.variant {d : Nat → Decoder α} {forms : List (String × Form α)}
    {content : Nat → String → Decoder α} {P : Nat → Json → Prop}
    (hd : ∀ b, d (b + 1) = Json.variant forms (some (content b)))
    (hform : forms.lookup name = some .single ∨ forms.lookup name = some .fields)
    (h : ∀ b, Decodes (content b name) (P b) a) : ∀ b, Decodes (d b) (Variant name P b) a := by
  rintro _ _ ⟨b, v, rfl, rfl, hv⟩
  rw [hd]
  exact variant_tagged hform (h b v hv)

theorem decodeItems_toNodes {line : Nat} {as : List α}
    (h : List.Forall₂ (fun a j => d (toNode j) = .ok a) as js) :
    decodeItems d (.closed line) (toNodes js) = .ok as := by
  induction h with
  | nil => rfl
  | cons hhead _ ih =>
    rw [toNodes, decodeItems, hhead, ih]
    rfl

theorem Decodes.items {d : Nat → Decoder (List α)} {item : Nat → Decoder α}
    (hd : ∀ b, d (b + 1) = sequence (some (item b))) {Q : Nat → List Json → Prop} {as : List α}
    (h : ∀ b js, Q b js → List.Forall₂ (fun a j => item b (toNode j) = .ok a) as js) :
    ∀ b, Decodes (d b) (Items Q b) as := by
  rintro _ _ ⟨b, js, rfl, rfl, hQ⟩
  rw [hd]
  exact decodeItems_toNodes (h b js hQ)

/-- What is no `null` stands for a value. -/
theorem Decodes.some {P : Json → Prop} (h : Decodes d P a) (hnull : ¬ P .null) :
    Decodes (Json.optional d) P (Option.some a) := by
  intro j hj
  have hd := h j hj
  cases j with
  | null => exact absurd hj hnull
  | _ =>
    show Option.some <$> d _ = _
    rw [hd]
    rfl

theorem Decodes.optional {F : α → Json → Prop} {o : Option α} (h : ∀ a, Decodes d (F a) a)
    (hnull : ∀ a, ¬ F a .null) :
    Decodes (Json.optional d) (OrNull F o) o := by
  cases o with
  | none =>
    rintro _ rfl
    rfl
  | some a => exact (h a).some (hnull a)

end Combine

/-! ### Leaves -/

theorem decodes_natural {n : Nat} : Decodes natural (Word n) n := by
  rintro _ ⟨rfl, hn⟩
  show Int.toNat <$> (if 0 ≤ (n : Int) ∧ (n : Int) ≤ 2 ^ 32 - 1 then Except.ok (n : Int) else _) = _
  rw [if_pos (by omega)]
  rfl

theorem decodes_string {s : String} : Decodes string (· = .str s) s := by
  rintro _ rfl
  rfl

theorem decodes_boolean {b : Bool} : Decodes boolean (· = .bool b) b := by
  rintro _ rfl
  rfl

/-! ### Writing forms -/

section Write

variable {P : Nat → Json → Prop} {v : Json} {b : Nat} {ms : List (String × Json)} {name : String}

theorem Writes.object {Q : Nat → List (String × Json) → Prop}
    (h : ∀ b, (∀ m ∈ ms, m.2.depth ≤ b) → Q b ms) : Writes (Object Q) (.obj ms) := by
  intro budget hdepth
  obtain ⟨b, rfl, hms⟩ := members_within hdepth
  exact ⟨b, ms, rfl, rfl, h b hms⟩

theorem Writes.variant (h : Writes P v) : Writes (Variant name P) (tagged name v) := by
  intro budget hdepth
  obtain ⟨b, rfl, hms⟩ := members_within hdepth
  exact ⟨b, v, rfl, rfl, h b (hms (name, v) (List.mem_singleton_self _))⟩

theorem Writes.items {Q : Nat → List Json → Prop} (h : ∀ b, (∀ j ∈ js, j.depth ≤ b) → Q b js) :
    Writes (Items Q) (.arr js) := by
  intro budget hdepth
  obtain ⟨b, rfl, hjs⟩ := items_within hdepth
  exact ⟨b, js, rfl, rfl, h b hjs⟩

/-- A value that is a member of an object gives a field. -/
theorem Writes.given (h : Writes P v) (hms : ∀ m ∈ ms, m.2.depth ≤ b)
    (hv : valuesOf ms name = [v]) : Given ms name (P b) :=
  ⟨v, hv, h b (hms _ (mem_of_valuesOf hv))⟩

theorem Writes.each {F : α → Nat → Json → Prop} {write : α → Json} {as : List α}
    (h : ∀ a ∈ as, Writes (F a) (write a)) : Writes (Each F as) (.arr (as.map write)) := by
  refine .items fun b hjs => ?_
  rw [List.forall₂_map_right_iff, List.forall₂_same]
  exact fun a ha => h a ha b (hjs _ (List.mem_map_of_mem ha))

theorem Writes.option {F : α → Nat → Json → Prop} {write : α → Json} {o : Option α}
    (h : ∀ a ∈ o, Writes (F a) (write a)) :
    Writes (fun b => OrNull (F · b) o) (.option write o) := by
  cases o with
  | none => exact fun _ _ => rfl
  | some a => exact h a rfl

end Write

end Shader.Json
