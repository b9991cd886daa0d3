import Shader.Proofs.References.Graph

/-!
# What depends on what

The walk follows lists of references. Here the same graph is described by rules, without lists,
places or look-ups: what one expression uses by itself (`Expr.Uses`), and from it on which symbols
an item depends (`Item.DependsOn`).

The identities of classes have to be distinct as well: a look-up finds the last class with an
identity, and the rules speak of any.
-/

namespace Shader

/-! ### The rules -/

namespace IoMode

/-- The mode reads the member. -/
def Reads (io : IoMode) : Prop := io ≠ .write

/-- The mode writes the member. -/
def Writes (io : IoMode) : Prop := io ≠ .read

end IoMode

/-- What initializes an object of a class: its pre-constructor, or all of its member variables. -/
inductive ClassDecl.InitializedBy (c : ClassDecl) : Symbol → Prop
  | preConstructor {id : FunctionId} (h : c.preConstructor = some id) :
    c.InitializedBy (.function id)
  | member {v : VariableDecl} (h : c.preConstructor = none) (hv : v ∈ c.members) :
    c.InitializedBy (.property v.id)

/-- What the use of a member uses, in a mode of access. -/
inductive Accessed.Uses (t : Tree) (io : IoMode) : Accessed → Symbol → Prop
  | function {f : FunctionDecl} (hf : .function f ∈ t.items) :
    Uses t io (.function f.id) (.function f.id)
  | getter {f : FunctionDecl} {set : Option FunctionId} (hf : .function f ∈ t.items)
    (hio : io.Reads) : Uses t io (.accessors (some f.id) set) (.function f.id)
  | setter {f : FunctionDecl} {get : Option FunctionId} (hf : .function f ∈ t.items)
    (hio : io.Writes) : Uses t io (.accessors get (some f.id)) (.function f.id)
  | field {v : VariableDecl} (hv : .memberVariable v ∈ t.items) (hfield : v.isField) :
    Uses t io (.property v.id) (.property v.id)
  | propertyGetter {v : VariableDecl} {f : FunctionDecl} (hv : .memberVariable v ∈ t.items)
    (hf : v.getter = some f) (hio : io.Reads) : Uses t io (.property v.id) (.function f.id)
  | propertySetter {v : VariableDecl} {f : FunctionDecl} (hv : .memberVariable v ∈ t.items)
    (hf : v.setter = some f) (hio : io.Writes) : Uses t io (.property v.id) (.function f.id)

/-- What an expression uses by itself, apart from the expressions in it. -/
inductive Expr.Uses (t : Tree) : Expr → Symbol → Prop
  | member {a : Access} {ty : TypeSpec} {l : Location} {s : Symbol} (h : a.accessed.Uses t a.io s) :
    Expr.Uses t ⟨.member a, ty, l⟩ s
  | call {a : Access} {es : List Expr} {ty : TypeSpec} {l : Location} {s : Symbol}
    (h : a.accessed.Uses t a.io s) : Expr.Uses t ⟨.call a es, ty, l⟩ s
  | constructor {id : Option FunctionId} {k : ConstructorDecl} {c : ClassDecl} {es : List Expr}
    {ty : TypeSpec} {l : Location} (hk : .constructor k c ∈ t.items) (hid : id = some k.id) :
    Expr.Uses t ⟨.construct id es, ty, l⟩ (.function k.id)
  /-- No constructor is named, or one that the tree does not declare. -/
  | initialization {id : Option FunctionId} {c : ClassDecl} {es : List Expr} {l : Location}
    {s : Symbol} (hid : ∀ k owner, .constructor k owner ∈ t.items → id ≠ some k.id)
    (hc : c ∈ t.classes) (h : c.InitializedBy s) :
    Expr.Uses t ⟨.construct id es, .ofClass c.id, l⟩ s

/-- On which symbols an item depends. -/
inductive Item.DependsOn (t : Tree) : Item → Symbol → Prop
  | function {f : FunctionDecl} {p : IoMode × Expr} {s : Symbol} (hp : p ∈ stmtsPositions f.body)
    (h : p.2.Uses t s) : Item.DependsOn t (.function f) s
  | constructor {k : ConstructorDecl} {c : ClassDecl} {p : IoMode × Expr} {s : Symbol}
    (hp : p ∈ stmtsPositions k.body) (h : p.2.Uses t s) : Item.DependsOn t (.constructor k c) s
  | initialization {k : ConstructorDecl} {c : ClassDecl} {s : Symbol} (h : c.InitializedBy s) :
    Item.DependsOn t (.constructor k c) s
  | preConstructor {id : FunctionId} {c : ClassDecl} {v : VariableDecl} (hv : v ∈ c.members) :
    Item.DependsOn t (.preConstructor id c) (.property v.id)
  | initializer {v : VariableDecl} {initial e : Expr} {s : Symbol} (hi : v.initial = some initial)
    (he : e ∈ initial.nodes) (h : e.Uses t s) : Item.DependsOn t (.memberVariable v) s
  /-- A field without an initializer that stores an object. -/
  | object {v : VariableDecl} {c : ClassDecl} {s : Symbol} (hi : v.initial = none)
    (hfield : v.isField) (hty : v.ty = .ofClass c.id) (hc : c ∈ t.classes)
    (h : c.InitializedBy s) : Item.DependsOn t (.memberVariable v) s

/-- One declared symbol depends on another. -/
def Tree.DependsOn (t : Tree) (a b : Symbol) : Prop := ∃ i ∈ t.items, i.symbol = a ∧ i.DependsOn t b

/-! ### References follow the rules -/

/-- The symbols of references. -/
def Reference.symbols (rs : List Reference) : List Symbol := rs.map fun r => r.item.symbol

variable {t : Tree} {s : Symbol} {v : VariableDecl} {via : List Location} {c : ClassDecl}
  {f : FunctionDecl} {id : FunctionId}

open Reference

@[simp] theorem Reference.symbols_nil : symbols [] = [] := rfl

@[simp] theorem Reference.symbols_append (rs rs' : List Reference) :
    symbols (rs ++ rs') = symbols rs ++ symbols rs' := List.map_append

theorem ClassDecl.mem_symbols_ofClass :
    s ∈ symbols (ofClass via c) ↔ c.InitializedBy s := by
  unfold ofClass
  split
  · next id hid =>
    constructor
    · intro h
      obtain rfl := List.mem_singleton.mp h
      exact .preConstructor hid
    · rintro (h | ⟨h, -⟩)
      · cases hid.symm.trans h
        exact List.mem_singleton_self _
      · rw [hid] at h
        nomatch h
  · next hnone =>
    constructor
    · intro h
      obtain ⟨r, hr, rfl⟩ := List.mem_map.mp h
      obtain ⟨v, hv, rfl⟩ := List.mem_map.mp hr
      exact .member hnone hv
    · rintro (h | ⟨-, hv⟩)
      · rw [hnone] at h
        nomatch h
      · exact List.mem_map.mpr ⟨_, List.mem_map_of_mem hv, rfl⟩

/-! ### Look-ups among distinct identities -/

section Lookup

variable {α κ : Type} [DecidableEq κ]

theorem find?_key_eq_some (key : α → κ) {l : List α} {k : κ} {x : α}
    (hinj : ∀ y ∈ l, ∀ z ∈ l, key y = key z → y = z) :
    l.find? (fun y => key y = k) = some x ↔ x ∈ l ∧ key x = k := by
  constructor
  · intro h
    exact ⟨List.mem_of_find?_eq_some h, by simpa using List.find?_some h⟩
  · rintro ⟨hx, rfl⟩
    cases h : l.find? (fun y => key y = key x) with
    | none =>
      have hall := List.find?_eq_none.mp h x hx
      exact absurd (by simp) hall
    | some y =>
      have hy : key y = key x := by simpa using List.find?_some h
      rw [hinj y (List.mem_of_find?_eq_some h) x hx hy]

end Lookup

theorem Tree.mem_items_of_mem_accessors (hv : .memberVariable v ∈ t.items) (hf : f ∈ v.accessors) :
    .function f ∈ t.items := by
  obtain ⟨c, hc, hvc⟩ := exists_class_of_member hv
  exact mem_items_of_accessor hc hvc hf

namespace Tree.Distinct

theorem class?_eq_some (hc : (t.classes.map ClassDecl.id).Nodup) {id : ClassId} :
    (Declarations.ofTree t).class? id = some c ↔ c ∈ t.classes ∧ c.id = id := by
  have hmem : ∀ d, d ∈ (Declarations.ofTree t).classes ↔ d ∈ t.classes := fun _ => List.mem_reverse
  rw [Declarations.class?, find?_key_eq_some ClassDecl.id, hmem]
  intro y hy z hz h
  exact List.inj_on_of_nodup_map hc ((hmem y).mp hy) ((hmem z).mp hz) h

variable (hd : t.Distinct)
include hd

theorem function?_eq_some :
    (Declarations.ofTree t).function? id = some f ↔ .function f ∈ t.items ∧ f.id = id := by
  rw [Declarations.function?, find?_key_eq_some FunctionDecl.id, Declarations.mem_functions]
  intro f hf g hg h
  exact Item.function.inj (hd.eq_of_symbol (Declarations.mem_functions.mp hf)
    (Declarations.mem_functions.mp hg) (congrArg Symbol.function h))

theorem constructor?_eq_some {k : ConstructorDecl} :
    (Declarations.ofTree t).constructor? id = some (k, c) ↔
      .constructor k c ∈ t.items ∧ k.id = id := by
  rw [Declarations.constructor?, find?_key_eq_some fun x : ConstructorDecl × ClassDecl => x.1.id,
    Declarations.mem_constructors]
  rintro ⟨k, c⟩ hk ⟨k', c'⟩ hk' h
  obtain ⟨rfl, rfl⟩ := Item.constructor.inj (hd.eq_of_symbol (Declarations.mem_constructors.mp hk)
    (Declarations.mem_constructors.mp hk') (congrArg Symbol.function h))
  rfl

theorem memberVariable?_eq_some {id : PropertyId} :
    (Declarations.ofTree t).memberVariable? id = some v ↔
      .memberVariable v ∈ t.items ∧ v.id = id := by
  rw [Declarations.memberVariable?, find?_key_eq_some VariableDecl.id, Declarations.mem_members]
  intro v hv w hw h
  exact Item.memberVariable.inj (hd.eq_of_symbol (Declarations.mem_members.mp hv)
    (Declarations.mem_members.mp hw) (congrArg Symbol.property h))

end Tree.Distinct

/-! ### References follow the rules -/

section Rules

variable (hd : t.Distinct)
include hd

variable {via : List Location}

theorem Reference.mem_symbols_ofFunction :
    s ∈ symbols (ofFunction (.ofTree t) via id) ↔
      ∃ f, .function f ∈ t.items ∧ f.id = id ∧ s = .function f.id := by
  unfold ofFunction
  split
  · next f hf =>
    obtain ⟨hmem, hid⟩ := hd.function?_eq_some.mp hf
    constructor
    · intro h
      exact ⟨f, hmem, hid, List.mem_singleton.mp h⟩
    · rintro ⟨g, -, hgid, rfl⟩
      exact List.mem_singleton.mpr (congrArg Symbol.function (hgid.trans hid.symm))
  · next hnone =>
    simp only [symbols_nil, List.not_mem_nil, false_iff]
    rintro ⟨f, hmem, hid, -⟩
    rw [hd.function?_eq_some.mpr ⟨hmem, hid⟩] at hnone
    nomatch hnone

theorem Reference.mem_symbols_ofAccessors {get set : Option FunctionId} {io : IoMode} :
    s ∈ symbols (ofAccessors (.ofTree t) via get set io) ↔
      ∃ f, .function f ∈ t.items ∧ s = .function f.id ∧
        (io.Reads ∧ get = some f.id ∨ io.Writes ∧ set = some f.id) := by
  have some_accessor : ∀ id : Option FunctionId,
      s ∈ symbols (id.toList.flatMap (ofFunction (.ofTree t) via)) ↔
        ∃ f, .function f ∈ t.items ∧ s = .function f.id ∧ id = some f.id := by
    intro id
    cases id with
    | none => simp
    | some id =>
      simp only [Option.toList_some, List.flatMap_cons, List.flatMap_nil, List.append_nil,
        mem_symbols_ofFunction hd, Option.some.injEq]
      exact exists_congr fun f => and_congr_right fun _ =>
        ⟨fun ⟨h, h'⟩ => ⟨h', h.symm⟩, fun ⟨h, h'⟩ => ⟨h'.symm, h⟩⟩
  cases io with
  | read => simp [ofAccessors, some_accessor, IoMode.Reads, IoMode.Writes]
  | write => simp [ofAccessors, some_accessor, IoMode.Reads, IoMode.Writes]
  | readWrite =>
    simp [ofAccessors, some_accessor, IoMode.Reads, IoMode.Writes, and_or_left, exists_or]

/-- **What an access refers to** is what it uses. -/
theorem Accessed.mem_symbols_ofAccessed {io : IoMode} {a : Accessed} :
    s ∈ symbols (ofAccessed (.ofTree t) via io a) ↔ a.Uses t io s := by
  cases a with
  | function id =>
    rw [ofAccessed, mem_symbols_ofFunction hd]
    constructor
    · rintro ⟨f, hf, rfl, rfl⟩
      exact .function hf
    · rintro ⟨hf⟩
      exact ⟨_, hf, rfl, rfl⟩
  | accessors get set =>
    rw [ofAccessed, mem_symbols_ofAccessors hd]
    constructor
    · rintro ⟨f, hf, rfl, ⟨hio, rfl⟩ | ⟨hio, rfl⟩⟩
      · exact .getter hf hio
      · exact .setter hf hio
    · rintro (_ | ⟨hf, hio⟩ | ⟨hf, hio⟩)
      · exact ⟨_, hf, rfl, .inl ⟨hio, rfl⟩⟩
      · exact ⟨_, hf, rfl, .inr ⟨hio, rfl⟩⟩
  | property id =>
    -- a field stands for itself, and any other property for the accessors that the mode calls for
    rw [ofAccessed]
    constructor
    · intro h
      split at h
      · exact absurd h List.not_mem_nil
      · next v hv =>
        obtain ⟨hmem, rfl⟩ := hd.memberVariable?_eq_some.mp hv
        split at h
        · next hfield =>
          obtain rfl := List.mem_singleton.mp h
          exact .field hmem hfield
        · obtain ⟨f, -, rfl, ⟨hio, hf⟩ | ⟨hio, hf⟩⟩ := (mem_symbols_ofAccessors hd).mp h
          · obtain ⟨g, hg, hid⟩ := Option.map_eq_some_iff.mp hf
            exact hid ▸ .propertyGetter hmem hg hio
          · obtain ⟨g, hg, hid⟩ := Option.map_eq_some_iff.mp hf
            exact hid ▸ .propertySetter hmem hg hio
    · intro h
      cases h with
      | field hv hfield =>
        simp only [hd.memberVariable?_eq_some.mpr ⟨hv, rfl⟩, hfield, if_true]
        exact List.mem_singleton_self _
      | @propertyGetter v f hv hf hio =>
        have hfield : ¬ v.isField = true := by simp [VariableDecl.isField, hf]
        simp only [hd.memberVariable?_eq_some.mpr ⟨hv, rfl⟩, hfield]
        exact (mem_symbols_ofAccessors hd).mpr ⟨f, Tree.mem_items_of_mem_accessors hv
          (by simp [VariableDecl.accessors, hf]), rfl, .inl ⟨hio, by simp [hf]⟩⟩
      | @propertySetter v f hv hf hio =>
        have hfield : ¬ v.isField = true := by simp [VariableDecl.isField, hf]
        simp only [hd.memberVariable?_eq_some.mpr ⟨hv, rfl⟩, hfield]
        exact (mem_symbols_ofAccessors hd).mpr ⟨f, Tree.mem_items_of_mem_accessors hv
          (by simp [VariableDecl.accessors, hf]), rfl, .inr ⟨hio, by simp [hf]⟩⟩
  | intrinsic owner =>
    simp only [ofAccessed, symbols_nil, List.not_mem_nil, false_iff]
    rintro ⟨⟩

end Rules

section Classes

variable (hc : (t.classes.map ClassDecl.id).Nodup)
include hc

theorem Tree.mem_symbols_ofClassId {id : ClassId} :
    s ∈ symbols (((Declarations.ofTree t).class? id).toList.flatMap (ofClass via)) ↔
      ∃ c ∈ t.classes, c.id = id ∧ c.InitializedBy s := by
  cases h : (Declarations.ofTree t).class? id with
  | none =>
    simp only [Option.toList_none, List.flatMap_nil, symbols_nil, List.not_mem_nil, false_iff]
    rintro ⟨c, hmem, hid, -⟩
    rw [(Tree.Distinct.class?_eq_some hc).mpr ⟨hmem, hid⟩] at h
    nomatch h
  | some c =>
    obtain ⟨hmem, hid⟩ := (Tree.Distinct.class?_eq_some hc).mp h
    simp only [Option.toList_some, List.flatMap_cons, List.flatMap_nil, List.append_nil,
      ClassDecl.mem_symbols_ofClass]
    constructor
    · intro hi
      exact ⟨c, hmem, hid, hi⟩
    · rintro ⟨c', hmem', hid', hi⟩
      obtain rfl := List.inj_on_of_nodup_map hc hmem hmem' (hid.trans hid'.symm)
      exact hi

variable (hd : t.Distinct)
include hd

theorem Expr.mem_symbols_ofConstruction {ty : TypeSpec} {id : Option FunctionId} (es : List Expr)
    (l : Location) :
    s ∈ symbols (ofConstruction (.ofTree t) via ty id) ↔
      Expr.Uses t ⟨.construct id es, ty, l⟩ s := by
  unfold ofConstruction
  split
  · next hk =>
    obtain ⟨id, rfl, hk⟩ := Option.bind_eq_some_iff.mp hk
    obtain ⟨hmem, rfl⟩ := hd.constructor?_eq_some.mp hk
    constructor
    · intro h
      obtain rfl := List.mem_singleton.mp h
      exact .constructor hmem rfl
    · intro h
      cases h with
      | constructor _ hid =>
        exact List.mem_singleton.mpr (congrArg Symbol.function (Option.some.inj hid).symm)
      | initialization hid => exact absurd rfl (hid _ _ hmem)
  · next cid hnone =>
    rw [Tree.mem_symbols_ofClassId hc]
    have hid : ∀ k owner, .constructor k owner ∈ t.items → id ≠ some k.id := by
      rintro k owner hmem rfl
      rw [Option.bind_some, hd.constructor?_eq_some.mpr ⟨hmem, rfl⟩] at hnone
      nomatch hnone
    constructor
    · rintro ⟨c, hmem, rfl, hi⟩
      exact .initialization hid hmem hi
    · intro h
      cases h with
      | constructor hk hid' => exact absurd hid' (hid _ _ hk)
      | initialization _ hmem hi => exact ⟨_, hmem, rfl, hi⟩
  · next hnone hty =>
    simp only [symbols_nil, List.not_mem_nil, false_iff]
    intro h
    cases h with
    | constructor hk hid =>
      rw [hid, Option.bind_some, hd.constructor?_eq_some.mpr ⟨hk, rfl⟩] at hnone
      nomatch hnone
    | initialization => exact hty _ rfl

/-- An expression refers by itself to exactly the symbols that it uses. -/
theorem Expr.mem_symbols_ownReferences (e : Expr) :
    s ∈ symbols (e.ownReferences (.ofTree t)) ↔ e.Uses t s := by
  unfold ownReferences
  split
  · rw [Accessed.mem_symbols_ofAccessed hd]
    exact ⟨.member, by rintro ⟨h⟩; exact h⟩
  · rw [Accessed.mem_symbols_ofAccessed hd]
    exact ⟨.call, by rintro (_ | ⟨h⟩); exact h⟩
  · exact Expr.mem_symbols_ofConstruction hc hd _ _
  · next hmember hcall hconstruct =>
    simp only [symbols_nil, List.not_mem_nil, false_iff]
    rintro (_ | _ | _ | _)
    · exact hmember _ _ _ rfl
    · exact hcall _ _ _ _ rfl
    · exact hconstruct _ _ _ _ rfl
    · exact hconstruct _ _ _ _ rfl

/-- References that are made by these expressions are to the symbols that they use. -/
theorem Reference.mem_symbols_iff {rs : List Reference} {es : List Expr}
    (h : ∀ r, r ∈ rs ↔ r.In (.ofTree t) es) : s ∈ symbols rs ↔ ∃ e ∈ es, e.Uses t s := by
  simp only [← Expr.mem_symbols_ownReferences hc hd, symbols, List.mem_map, h, In]
  constructor
  · rintro ⟨r, ⟨e, he, hr⟩, rfl⟩
    exact ⟨e, he, r, hr, rfl⟩
  · rintro ⟨e, he, r, hr, rfl⟩
    exact ⟨r, ⟨e, he, hr⟩, rfl⟩

theorem stmts_mem_symbols (ss : List Stmt) :
    s ∈ symbols (stmtsReferences (.ofTree t) ss) ↔ ∃ p ∈ stmtsPositions ss, p.2.Uses t s := by
  rw [mem_symbols_iff hc hd fun _ => stmts_mem_references ss]
  constructor
  · rintro ⟨e, he, h⟩
    obtain ⟨p, hp, rfl⟩ := List.mem_map.mp he
    exact ⟨p, hp, h⟩
  · rintro ⟨p, hp, h⟩
    exact ⟨p.2, List.mem_map_of_mem hp, h⟩

theorem VariableDecl.mem_references_iff :
    s ∈ symbols (v.references (.ofTree t)) ↔ (Item.memberVariable v).DependsOn t s := by
  unfold VariableDecl.references
  split
  · next e he =>
    rw [mem_symbols_iff hc hd fun _ => e.mem_references]
    constructor
    · rintro ⟨n, hn, h⟩
      exact .initializer he hn h
    · intro h
      cases h with
      | initializer hi hn h =>
        cases he.symm.trans hi
        exact ⟨_, hn, h⟩
      | object hi =>
        rw [he] at hi
        nomatch hi
  · next id hi hty =>
    constructor
    · intro h
      split at h
      · next hfield =>
        obtain ⟨c, hmem, rfl, hinit⟩ := (Tree.mem_symbols_ofClassId hc).mp h
        exact .object hi hfield hty hmem hinit
      · exact absurd h List.not_mem_nil
    · intro h
      cases h with
      | initializer hi' =>
        rw [hi] at hi'
        nomatch hi'
      | object _ hfield hty' hmem hinit =>
        rw [if_pos hfield, Tree.mem_symbols_ofClassId hc]
        exact ⟨_, hmem, TypeSpec.ofClass.inj (hty'.symm.trans hty), hinit⟩
  · next hi hty =>
    simp only [symbols_nil, List.not_mem_nil, false_iff]
    intro h
    cases h with
    | initializer hi' =>
      rw [hi] at hi'
      nomatch hi'
    | object _ _ hty' => exact hty _ hty'

/-- An item refers to exactly the symbols that it depends on. -/
theorem Item.mem_references_iff (i : Item) :
    s ∈ symbols (i.references (.ofTree t)) ↔ i.DependsOn t s := by
  cases i with
  | function f =>
    rw [Item.references, stmts_mem_symbols hc hd]
    exact ⟨fun ⟨_, hp, h⟩ => .function hp h, by rintro ⟨hp, h⟩; exact ⟨_, hp, h⟩⟩
  | constructor k c =>
    rw [Item.references, symbols_append, List.mem_append, ClassDecl.mem_symbols_ofClass,
      stmts_mem_symbols hc hd]
    constructor
    · rintro (h | ⟨_, he, h⟩)
      · exact .initialization h
      · exact .constructor he h
    · intro h
      cases h with
      | constructor he h => exact .inr ⟨_, he, h⟩
      | initialization h => exact .inl h
  | preConstructor id c =>
    constructor
    · intro h
      obtain ⟨r, hr, rfl⟩ := List.mem_map.mp h
      obtain ⟨v, hv, rfl⟩ := List.mem_map.mp hr
      exact .preConstructor hv
    · intro h
      cases h with
      | preConstructor hv => exact List.mem_map.mpr ⟨_, List.mem_map_of_mem hv, rfl⟩
  | memberVariable v => exact VariableDecl.mem_references_iff hc hd

end Classes

/-- The edges that the walk follows are the dependences. -/
theorem Tree.refers_eq_dependsOn (hd : t.Distinct) (hc : (t.classes.map ClassDecl.id).Nodup) :
    t.Refers = t.DependsOn := by
  funext a b
  refine propext (exists_congr fun i => and_congr_right fun _ => and_congr_right fun _ => ?_)
  rw [← Item.mem_references_iff hc hd]
  exact List.mem_map.symm

end Shader
