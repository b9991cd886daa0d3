import Shader.Proofs.Containment.Layering

/-!
# What is recorded of a class

A library says twice what a class has become: the scope keeps the shapes that emission constructs
objects by, and the library keeps the records that default objects are made by. Both are written while
the tree is declared, and nothing touches the entries of the classes of the tree afterwards.
-/

namespace Shader

open Outcome

/-! ### Tables and records -/

theorem lookup_cons_of_ne {κ α : Type} [BEq κ] [LawfulBEq κ] {key key' : κ} {a : α}
    {table : List (κ × α)} (h : key ≠ key') :
    ((key', a) :: table).lookup key = table.lookup key := by
  rw [List.lookup_cons, beq_false_of_ne h]

variable {change : ClassRecord → ClassRecord} {id : ClassId}

/-- The first record of a class is changed, and no other record is found changed. -/
theorem find?_modify_of_findIdx? (hchange : ∀ r, (change r).id = r.id) (id' : ClassId) :
    ∀ {records : List ClassRecord} {i : Nat},
    records.findIdx? (·.id = id) = some i →
    (records.modify i change).find? (·.id = id') =
      if id' = id then (records.find? (·.id = id)).map change else records.find? (·.id = id')
  | [], _, h => nomatch h
  | r :: records, i, h => by
    rw [List.findIdx?_cons] at h
    by_cases hr : r.id = id
    · -- the first record is the one that is changed
      rw [if_pos (decide_eq_true hr)] at h
      cases h
      rw [List.modify_zero_cons, List.find?_cons, List.find?_cons, List.find?_cons, hchange r, hr]
      by_cases hid : id' = id
      · simp [hid]
      · have hne : ¬ id = id' := fun heq => hid heq.symm
        simp [hid, hne]
    · rw [if_neg (by simpa using hr)] at h
      obtain ⟨j, hj, rfl⟩ := Option.map_eq_some_iff.mp h
      have ih := find?_modify_of_findIdx? hchange id' hj
      rw [List.modify_succ_cons, List.find?_cons, List.find?_cons, List.find?_cons, ih]
      by_cases hid : id' = id
      · simp [hid, hr]
      · simp [hid]

namespace Scope

variable {u : Unit}

/-- **Changing a record** changes what is recorded of its class, and nothing else. -/
theorem record?_changeRecord {s s' : Scope} (h : changeRecord id change s = (.ok u, s'))
    (hchange : ∀ r, (change r).id = r.id) :
    s'.classes = s.classes ∧ s'.library.classTypes = s.library.classTypes ∧
      ∀ id', s'.library.record? id' =
        if id' = id then (s.library.record? id).map change else s.library.record? id' := by
  obtain ⟨-, rfl⟩ := ok_eq_ok.mp h
  dsimp only
  cases hi : s.library.records.findIdx? (·.id = id) with
  | some i => exact ⟨rfl, rfl, fun id' => find?_modify_of_findIdx? hchange id' hi⟩
  | none =>
    refine ⟨rfl, rfl, fun id' => ?_⟩
    have hnone : s.library.record? id = none :=
      List.find?_eq_none.mpr fun r hr => by simpa using List.findIdx?_eq_none_iff.mp hi r hr
    by_cases hid : id' = id
    · rw [if_pos hid, hnone, hid, hnone]
      rfl
    · rw [if_neg hid]

/-! ### Steps that leave the classes of a tree alone -/

/-- A scope says of the classes of a tree what another one says. -/
structure Steady (t : Tree) (s₁ s : Scope) : Prop where
  classes : ∀ c ∈ t.classes, s.classes.lookup c.id = s₁.classes.lookup c.id
  classTypes : s.library.classTypes = s₁.library.classTypes
  records : s.library.records = s₁.library.records

/-- Every class of the tree has a shape. -/
def HasShapes (t : Tree) (s : Scope) : Prop :=
  ∀ c ∈ t.classes, ∃ shape, s.classes.lookup c.id = some shape

variable {t : Tree} {s₁ s s' : Scope}

theorem Steady.refl (t : Tree) (s : Scope) : Steady t s s := ⟨fun _ _ => rfl, rfl, rfl⟩

theorem Steady.hasShapes (h : Steady t s₁ s) (hshapes : s₁.HasShapes t) : s.HasShapes t := by
  intro c hc
  rw [h.classes c hc]
  exact hshapes c hc

theorem onTypes_steady {α : Type} (location : Location) (x : TypeM α) :
    Upholds (Steady t s₁) (onTypes location x) fun _ => True := by
  intro s a s' h hs
  obtain ⟨types, -, rfl⟩ := onTypes_ok.mp h
  exact ⟨⟨hs.classes, hs.classTypes, hs.records⟩, True.intro⟩

/-- A class is copied only if it has no shape yet, so it is none of the tree. -/
theorem classShape_steady (hshapes : s₁.HasShapes t) (id : ClassId) (location : Location) :
    Upholds (Steady t s₁) (classShape id location) fun _ => True := by
  intro s shape s' h hs
  rcases classShape_ok h with ⟨-, rfl⟩ | ⟨hlookup, _, _, types, -, -, rfl⟩
  · exact ⟨hs, True.intro⟩
  · refine ⟨⟨fun c hc => ?_, hs.classTypes, hs.records⟩, True.intro⟩
    have hne : c.id ≠ id := by
      rintro rfl
      obtain ⟨shape', hshape'⟩ := hs.hasShapes hshapes c hc
      cases hlookup.symm.trans hshape'
    rw [← hs.classes c hc]
    exact lookup_cons_of_ne hne

theorem lowerType_steady (hshapes : s₁.HasShapes t) (spec : TypeSpec) (location : Location) :
    Upholds (Steady t s₁) (lowerType spec location) fun _ => True := by
  intro s ty s' h hs
  rcases lowerType_ok h with ⟨id, shape, -, -, h⟩ | ⟨types, -, rfl⟩
  · exact ⟨(classShape_steady hshapes id location _ _ _ h hs).1, True.intro⟩
  · exact ⟨⟨hs.classes, hs.classTypes, hs.records⟩, True.intro⟩

theorem constant_steady (ty : TypeRef) (value : Literal) :
    Upholds (Steady t s₁) (constant ty value) fun _ => True := by
  intro s c s' h hs
  obtain ⟨-, rfl⟩ := ok_eq_ok.mp h
  refine ⟨?_, True.intro⟩
  cases s.library.constants.findIdx? (· = ⟨ty, value⟩) with
  | some i => exact hs
  | none => exact ⟨hs.classes, hs.classTypes, hs.records⟩

theorem createRoutine_steady {owner functionType : TypeRef} {name : String} {location : Location}
    {f : FunctionRef} (h : createRoutine owner name functionType location s = (.ok f, s')) :
    Steady t s s' := by
  obtain ⟨rfl, u, types, -, rfl⟩ := createRoutine_ok h
  exact ⟨fun _ _ => rfl, rfl, rfl⟩

theorem declareVariable_steady (hshapes : s₁.HasShapes t) (c : ClassDecl) (owner : TypeRef)
    (v : VariableDecl) : Upholds (Steady t s₁) (declareVariable c owner v) fun _ => True := by
  intro s field s' h hs
  obtain ⟨ty, s₂, h₂, h⟩ := declareVariable_ok h
  have hs₂ := (lowerType_steady hshapes _ _ _ _ _ h₂ hs).1
  rcases h with ⟨-, n, types, -, -, rfl⟩ | ⟨-, -, rfl⟩
  all_goals exact ⟨⟨hs₂.classes, hs₂.classTypes, hs₂.records⟩, True.intro⟩

/-! ### Shapes and records -/

/-- **Shapes and records agree** on the type of a class and on what initializes its objects. -/
structure Recorded (t : Tree) (s : Scope) : Prop where
  hasShapes : s.HasShapes t
  classTypes : ∀ c ∈ t.classes, ∀ shape, s.classes.lookup c.id = some shape →
    s.library.classTypes.lookup c.id = some shape.ty
  preConstructor : ∀ c ∈ t.classes, ∀ shape, s.classes.lookup c.id = some shape →
    ∀ r, s.library.record? c.id = some r → r.preConstructor = shape.preConstructor

/-- Before signatures are declared, nothing initializes objects. -/
structure Unsigned (t : Tree) (s : Scope) : Prop extends Recorded t s where
  shapes : ∀ c ∈ t.classes, ∀ shape, s.classes.lookup c.id = some shape →
    shape.preConstructor = none
  records : ∀ r ∈ s.library.records, r.preConstructor = none

/-- Before members are declared, nothing is recorded. -/
structure Shapeless (s : Scope) : Prop where
  classTypes : ∀ id shape, s.classes.lookup id = some shape →
    s.library.classTypes.lookup id = some shape.ty
  shapes : ∀ id shape, s.classes.lookup id = some shape → shape.preConstructor = none
  records : s.library.records = []

theorem Recorded.steady (hs : s.Recorded t) (h : Steady t s s') : s'.Recorded t where
  hasShapes := h.hasShapes hs.hasShapes
  classTypes c hc shape hshape := by
    rw [h.classes c hc] at hshape
    rw [h.classTypes]
    exact hs.classTypes c hc shape hshape
  preConstructor c hc shape hshape r hr := by
    rw [h.classes c hc] at hshape
    rw [Library.record?, h.records] at hr
    exact hs.preConstructor c hc shape hshape r hr

theorem Unsigned.steady (hs : s.Unsigned t) (h : Steady t s s') : s'.Unsigned t where
  toRecorded := hs.toRecorded.steady h
  shapes c hc shape hshape := by
    rw [h.classes c hc] at hshape
    exact hs.shapes c hc shape hshape
  records := by
    rw [h.records]
    exact hs.records

/-! ### Declaring a tree -/

theorem declareClass_shapeless (c : ClassDecl) :
    Upholds Shapeless (declareClass c) fun _ => True := by
  refine Upholds.modify fun s hs => ⟨fun id shape hshape => ?_, fun id shape hshape => ?_, hs.records⟩
  all_goals
    by_cases hid : id = c.id
    · subst hid
      rw [List.lookup_cons_self] at hshape
      cases hshape
      first
        | exact List.lookup_cons_self
        | rfl
    · rw [lookup_cons_of_ne hid] at hshape
      first
        | exact (lookup_cons_of_ne hid).trans (hs.classTypes id shape hshape)
        | exact hs.shapes id shape hshape

/-- Declaring the members of a class adds a record of it. -/
theorem declareMembers_unsigned (c : ClassDecl) :
    Upholds (Unsigned t) (declareMembers c) fun _ => True := by
  intro s u s' h hs
  unfold declareMembers at h
  obtain ⟨shape, s₁, h₁, h⟩ := bind_ok.mp h
  obtain ⟨fields, s₂, h₂, h⟩ := bind_ok.mp h
  have hsteady₁ := (classShape_steady hs.hasShapes c.id c.location _ _ _ h₁ (.refl t s)).1
  have hsteady₂ := ((Upholds.mapM (R := fun _ => True) fun v _ =>
    declareVariable_steady hs.hasShapes c shape.ty v) _ _ _ h₂ hsteady₁).1
  have hs₂ := hs.steady hsteady₂
  obtain ⟨-, rfl⟩ := ok_eq_ok.mp h
  have hrecords : ∀ r ∈ (s₂.library.addRecord ⟨c.id, c.name, shape.ty, none, none, fields⟩).records,
      r.preConstructor = none := by
    intro r hr
    rcases List.mem_append.mp hr with hr | hr
    · exact hs₂.records r hr
    · obtain rfl := List.mem_singleton.mp hr
      rfl
  refine ⟨⟨⟨hs₂.hasShapes, hs₂.classTypes, fun c' hc' shape' hshape' r hr => ?_⟩, hs₂.shapes,
    hrecords⟩, True.intro⟩
  rw [hs₂.shapes c' hc' shape' hshape']
  exact hrecords r (List.mem_of_find?_eq_some hr)

theorem changeRecord_recorded (h : changeRecord id change s = (.ok u, s'))
    (hid : ∀ r, (change r).id = r.id) (hpre : ∀ r, (change r).preConstructor = r.preConstructor)
    (hs : s.Recorded t) :
    s'.Recorded t := by
  obtain ⟨hclasses, htypes, hrecord⟩ := record?_changeRecord h hid
  refine ⟨fun c hc => ?_, fun c hc shape hshape => ?_, fun c hc shape hshape r hr => ?_⟩
  · rw [hclasses]
    exact hs.hasShapes c hc
  · rw [htypes]
    exact hs.classTypes c hc shape (hclasses ▸ hshape)
  · rw [hclasses] at hshape
    rw [hrecord] at hr
    split at hr
    · next heq =>
      obtain ⟨r', hr', rfl⟩ := Option.map_eq_some_iff.mp hr
      rw [hpre]
      exact hs.preConstructor c hc shape hshape r' (heq ▸ hr')
    · exact hs.preConstructor c hc shape hshape r hr

/-- Both the shape and the record learn which function initializes the objects of a class. -/
theorem Initializing.recorded {c : ClassDecl} (hc : c ∈ t.classes) (h : Initializing c s s')
    (hs : s.Recorded t) : s'.Recorded t := by
  obtain ⟨_, _, _, _, f, s₁, _, hcreate, hchange⟩ := h
  replace hs := hs.steady (createRoutine_steady hcreate)
  obtain ⟨hclasses, htypes, hrecord⟩ := record?_changeRecord hchange fun _ => rfl
  obtain ⟨shape₀, hlookup⟩ := hs.hasShapes c hc
  rw [told_of_lookup f hlookup] at hclasses
  have hself : ∀ c' : ClassDecl, c'.id = c.id →
      s'.classes.lookup c'.id = some { shape₀ with preConstructor := some f } := by
    intro c' heq
    rw [hclasses, heq]
    exact List.lookup_cons_self
  have hother : ∀ c' : ClassDecl, c'.id ≠ c.id →
      s'.classes.lookup c'.id = s₁.classes.lookup c'.id := by
    intro c' hne
    rw [hclasses]
    exact lookup_cons_of_ne hne
  refine ⟨fun c' hc' => ?_, fun c' hc' shape hshape => ?_, fun c' hc' shape hshape r hr => ?_⟩
  · by_cases heq : c'.id = c.id
    · exact ⟨_, hself c' heq⟩
    · rw [hother c' heq]
      exact hs.hasShapes c' hc'
  · rw [htypes]
    by_cases heq : c'.id = c.id
    · obtain rfl := Option.some.inj ((hself c' heq).symm.trans hshape)
      exact hs.classTypes c' hc' shape₀ (heq ▸ hlookup)
    · exact hs.classTypes c' hc' shape ((hother c' heq).symm.trans hshape)
  · rw [hrecord] at hr
    by_cases heq : c'.id = c.id
    · rw [if_pos heq] at hr
      obtain ⟨r', -, rfl⟩ := Option.map_eq_some_iff.mp hr
      obtain rfl := Option.some.inj ((hself c' heq).symm.trans hshape)
      rfl
    · rw [if_neg heq] at hr
      exact hs.preConstructor c' hc' shape ((hother c' heq).symm.trans hshape) r hr

theorem Signing.recorded {c : ClassDecl} {s₀ : Scope} {ids : List FunctionId}
    (h : Signing t c s₀ ids s) (hs₀ : s₀.Recorded t) : s.Recorded t := by
  induction h with
  | start => exact hs₀
  | lowerType _ h ih => exact ih.steady (lowerType_steady ih.hasShapes _ _ _ _ _ h (.refl t _)).1
  | pointerType _ h ih => exact ih.steady (onTypes_steady _ _ _ _ _ h (.refl t _)).1
  | functionType _ h ih => exact ih.steady (onTypes_steady _ _ _ _ _ h (.refl t _)).1
  | classShape _ h ih => exact ih.steady (classShape_steady ih.hasShapes _ _ _ _ _ h (.refl t _)).1
  | function _ _ _ h ih =>
    have hs := ih.steady (createRoutine_steady h)
    exact ⟨hs.hasShapes, hs.classTypes, hs.preConstructor⟩
  | defaultConstructor _ h ih =>
    exact changeRecord_recorded h (fun _ => rfl) (fun _ => rfl) ih

/-- **Declaring a tree** leaves shapes and records that agree. -/
theorem declareTree_recorded {id : LibraryId} {name : String} {dependencies : List Library}
    (h : declareTree t { library := { id, name, dependencies } } = (.ok u, s)) : s.Recorded t := by
  unfold declareTree at h
  obtain ⟨_, s₁, h₁, h⟩ := bind_ok.mp h
  obtain ⟨_, s₂, h₂, h₃⟩ := bind_ok.mp h
  have hempty : Shapeless { library := { id, name, dependencies } } := ⟨nofun, nofun, rfl⟩
  have hs₁ := ((Upholds.forM fun c _ => declareClass_shapeless c) _ _ _ h₁ hempty).1
  have hunsigned : s₁.Unsigned t := by
    refine ⟨⟨fun c hc => forM_declareClass_shaped h₁ hc, fun c _ => hs₁.classTypes c.id,
      fun c _ shape _ r hr => ?_⟩, fun c _ => hs₁.shapes c.id, ?_⟩
    · rw [Library.record?, hs₁.records] at hr
      nomatch hr
    · rw [hs₁.records]
      exact nofun
  have hs₂ := ((Upholds.forM fun c _ => declareMembers_unsigned c) _ _ _ h₂ hunsigned).1
  exact ((Upholds.forM fun c hc => declareSignatures_keeps hc Signing.recorded
    (Initializing.recorded hc)) _ _ _ h₃ hs₂.toRecorded).1

/-! ### The scopes of emission -/

variable {s₀ : Scope}

/-- Emission says of the classes of the tree what the declared tree says. -/
theorem Reaches.steady (hshapes : s₀.HasShapes t) (h : Reaches s₀ s) : Steady t s₀ s := by
  induction h with
  | start => exact .refl t s₀
  | lowerType _ h ih => exact (lowerType_steady hshapes _ _ _ _ _ h ih).1
  | pointerType _ h ih => exact (onTypes_steady _ _ _ _ _ h ih).1
  | classShape _ h ih => exact (classShape_steady hshapes _ _ _ _ _ h ih).1
  | constant _ h ih => exact (constant_steady _ _ _ _ _ h ih).1
  | install _ h ih =>
    obtain ⟨rfl, -⟩ := Library.routine?_of_install? h
    exact ⟨ih.classes, ih.classTypes, ih.records⟩

end Scope

end Shader
