import Shader.Proofs.References.Nodes
import Mathlib.Data.List.Nodup
import Mathlib.Logic.Relation

/-!
# The reference graph of a tree

The nodes of the graph are the symbols of the items that a tree declares; there is an edge from one
symbol to another if the item of the first refers to the item of the second (`Tree.Refers`). A tree
is **recursive** if this graph has a cycle.

* `Item.holds_references` — references never leave the tree: whatever an item of the tree
  refers to is an item of the tree. So an edge always leads from a declared symbol to a declared
  symbol.

A class without a pre-constructor is no node. A reference to its initialization is one reference to
each of its member variables.
-/

namespace Shader

/-- The items that a class declares. -/
def ClassDecl.items (c : ClassDecl) : List Item :=
  c.preConstructor.toList.map (fun id => .preConstructor id c) ++
  c.constructors.map (fun k => .constructor k c) ++
  c.functions.map .function ++
  (c.members.flatMap VariableDecl.accessors).map .function ++
  c.members.map .memberVariable

namespace Tree

/-- The items that a tree declares. -/
def items (t : Tree) : List Item := t.classes.flatMap ClassDecl.items

/-- The identities of functions, constructors, accessors and pre-constructors are pairwise distinct,
and so are those of member variables. -/
def Distinct (t : Tree) : Prop := (t.items.map Item.symbol).Nodup

/-- The edges of the reference graph. -/
def Refers (t : Tree) (a b : Symbol) : Prop :=
  ∃ i ∈ t.items, i.symbol = a ∧ ∃ r ∈ i.references (.ofTree t), r.item.symbol = b

/-- Some item refers to itself, directly or through others. -/
def Recursive (t : Tree) : Prop := ∃ s, Relation.TransGen t.Refers s s

end Tree

/-! ### What a class and a tree declare -/

variable {t : Tree} {c : ClassDecl} {f : FunctionDecl} {id : FunctionId} {i : Item}

theorem ClassDecl.mem_items :
    i ∈ c.items ↔
      (∃ id, c.preConstructor = some id ∧ i = .preConstructor id c) ∨
      (∃ k ∈ c.constructors, i = .constructor k c) ∨
      (∃ f ∈ c.functions, i = .function f) ∨
      (∃ v ∈ c.members, ∃ f ∈ v.accessors, i = .function f) ∨
      (∃ v ∈ c.members, i = .memberVariable v) := by
  simp only [ClassDecl.items, List.mem_append, List.mem_map, Option.mem_toList, List.mem_flatMap,
    or_assoc]
  grind

namespace Tree

theorem mem_items : i ∈ t.items ↔ ∃ c ∈ t.classes, i ∈ c.items := by
  simp only [items, List.mem_flatMap]

variable {c : ClassDecl} {v : VariableDecl}

section

variable (hc : c ∈ t.classes)
include hc

theorem mem_items_of_preConstructor (h : c.preConstructor = some id) :
    .preConstructor id c ∈ t.items :=
  mem_items.mpr ⟨c, hc, ClassDecl.mem_items.mpr (.inl ⟨id, h, rfl⟩)⟩

theorem mem_items_of_constructor {k : ConstructorDecl} (h : k ∈ c.constructors) :
    .constructor k c ∈ t.items :=
  mem_items.mpr ⟨c, hc, ClassDecl.mem_items.mpr (.inr (.inl ⟨k, h, rfl⟩))⟩

theorem mem_items_of_function (h : f ∈ c.functions) :
    .function f ∈ t.items :=
  mem_items.mpr ⟨c, hc, ClassDecl.mem_items.mpr (.inr (.inr (.inl ⟨f, h, rfl⟩)))⟩

theorem mem_items_of_accessor (hv : v ∈ c.members) (h : f ∈ v.accessors) :
    .function f ∈ t.items :=
  mem_items.mpr ⟨c, hc, ClassDecl.mem_items.mpr (.inr (.inr (.inr (.inl ⟨v, hv, f, h, rfl⟩))))⟩

theorem mem_items_of_member (h : v ∈ c.members) :
    .memberVariable v ∈ t.items :=
  mem_items.mpr ⟨c, hc, ClassDecl.mem_items.mpr (.inr (.inr (.inr (.inr ⟨v, h, rfl⟩))))⟩

end

theorem exists_class_of_member (h : .memberVariable v ∈ t.items) :
    ∃ c ∈ t.classes, v ∈ c.members := by
  obtain ⟨c, hc, h⟩ := mem_items.mp h
  refine ⟨c, hc, ?_⟩
  simpa [ClassDecl.mem_items] using h

/-- In a tree whose identities are distinct, a symbol has one item. -/
theorem Distinct.eq_of_symbol (h : t.Distinct) {i j : Item} (hi : i ∈ t.items) (hj : j ∈ t.items)
    (hs : i.symbol = j.symbol) : i = j :=
  List.inj_on_of_nodup_map h hi hj hs

end Tree

/-! ### What the identities of a tree stand for -/

namespace Declarations

theorem mem_functions : f ∈ (ofTree t).functions ↔ .function f ∈ t.items := by
  simp [ofTree, Tree.items, ClassDecl.items]

theorem mem_constructors {k : ConstructorDecl} :
    (k, c) ∈ (ofTree t).constructors ↔ .constructor k c ∈ t.items := by
  simp [ofTree, Tree.items, ClassDecl.items]

theorem mem_members {v : VariableDecl} :
    v ∈ (ofTree t).members ↔ .memberVariable v ∈ t.items := by
  simp [ofTree, Tree.items, ClassDecl.items]

theorem mem_classes_of_class? {id : ClassId} (h : (ofTree t).class? id = some c) :
    c ∈ t.classes ∧ c.id = id :=
  ⟨List.mem_reverse.mp (List.mem_of_find?_eq_some h), by simpa using List.find?_some h⟩

theorem mem_items_of_function? (h : (ofTree t).function? id = some f) :
    .function f ∈ t.items ∧ f.id = id :=
  ⟨mem_functions.mp (List.mem_of_find?_eq_some h), by simpa using List.find?_some h⟩

theorem mem_items_of_constructor? {k : ConstructorDecl}
    (h : (ofTree t).constructor? id = some (k, c)) :
    .constructor k c ∈ t.items ∧ c ∈ t.classes ∧ k.id = id := by
  have hmem := List.mem_of_find?_eq_some h
  simp only [ofTree, List.mem_reverse, List.mem_flatMap, List.mem_map, Prod.mk.injEq] at hmem
  obtain ⟨c', hc, k', hk, rfl, rfl⟩ := hmem
  exact ⟨Tree.mem_items_of_constructor hc hk, hc, by simpa using List.find?_some h⟩

theorem mem_items_of_memberVariable? {id : PropertyId} {v : VariableDecl}
    (h : (ofTree t).memberVariable? id = some v) : .memberVariable v ∈ t.items ∧ v.id = id :=
  ⟨mem_members.mp (List.mem_of_find?_eq_some h), by simpa using List.find?_some h⟩

end Declarations

/-! ### References stay inside the tree -/

/-- All these references are to items of the tree. -/
def Tree.Holds (t : Tree) (rs : List Reference) : Prop := ∀ r ∈ rs, r.item ∈ t.items

namespace Tree.Holds

@[simp] theorem nil : t.Holds [] := fun _ h => absurd h List.not_mem_nil

@[simp] theorem append {rs ss : List Reference} : t.Holds (rs ++ ss) ↔ t.Holds rs ∧ t.Holds ss :=
  List.forall_mem_append

theorem ofClass {via : List Location} (hc : c ∈ t.classes) :
    t.Holds (Reference.ofClass via c) := by
  intro r hr
  unfold Reference.ofClass at hr
  split at hr
  · next id h =>
    obtain rfl := List.mem_singleton.mp hr
    exact mem_items_of_preConstructor hc h
  · obtain ⟨v, hv, rfl⟩ := List.mem_map.mp hr
    exact mem_items_of_member hc hv

theorem ofFunction (via : List Location) (id : FunctionId) :
    t.Holds (Reference.ofFunction (.ofTree t) via id) := by
  intro r hr
  unfold Reference.ofFunction at hr
  split at hr
  · next f h =>
    obtain rfl := List.mem_singleton.mp hr
    exact (Declarations.mem_items_of_function? h).1
  · exact absurd hr List.not_mem_nil

theorem ofAccessors (via : List Location) (get set : Option FunctionId) (io : IoMode) :
    t.Holds (Reference.ofAccessors (.ofTree t) via get set io) := by
  have some_accessor : ∀ id : Option FunctionId,
      t.Holds (id.toList.flatMap (Reference.ofFunction (.ofTree t) via)) := by
    intro id r hr
    obtain ⟨id', -, hr⟩ := List.mem_flatMap.mp hr
    exact ofFunction via id' r hr
  cases io with
  | read => exact some_accessor get
  | write => exact some_accessor set
  | readWrite => exact append.mpr ⟨some_accessor get, some_accessor set⟩

theorem ofAccessed (via : List Location) (io : IoMode) (a : Accessed) :
    t.Holds (Reference.ofAccessed (.ofTree t) via io a) := by
  cases a with
  | function id => exact ofFunction via id
  | accessors get set => exact ofAccessors via get set io
  | property id =>
    rw [Reference.ofAccessed]
    split
    · exact nil
    · next v h =>
      split
      · intro r hr
        obtain rfl := List.mem_singleton.mp hr
        exact (Declarations.mem_items_of_memberVariable? h).1
      · exact ofAccessors via _ _ io
  | intrinsic owner => exact nil

theorem ofConstruction (via : List Location) (ty : TypeSpec) (k : Option FunctionId) :
    t.Holds (Reference.ofConstruction (.ofTree t) via ty k) := by
  unfold Reference.ofConstruction
  split
  · next k owner _ h =>
    obtain ⟨id, -, hk⟩ := Option.bind_eq_some_iff.mp h
    intro r hr
    obtain rfl := List.mem_singleton.mp hr
    exact (Declarations.mem_items_of_constructor? hk).1
  · next id _ =>
    intro r hr
    obtain ⟨c, hc, hr⟩ := List.mem_flatMap.mp hr
    exact ofClass (Declarations.mem_classes_of_class? (Option.mem_toList.mp hc)).1 r hr
  · exact nil

/-- What an expression refers to by itself is in the tree. -/
theorem ownReferences (e : Expr) : t.Holds (e.ownReferences (.ofTree t)) := by
  unfold Expr.ownReferences
  split
  · exact ofAccessed _ _ _
  · exact ofAccessed _ _ _
  · exact ofConstruction _ _ _
  · exact nil

end Tree.Holds

theorem Expr.holds_references (e : Expr) : t.Holds (e.references (.ofTree t)) := by
  intro r hr
  obtain ⟨n, -, hr⟩ := e.mem_references.mp hr
  exact Tree.Holds.ownReferences n r hr

theorem stmts_holds_references (ss : List Stmt) : t.Holds (stmtsReferences (.ofTree t) ss) := by
  intro r hr
  obtain ⟨n, -, hr⟩ := (stmts_mem_references ss).mp hr
  exact Tree.Holds.ownReferences n r hr

theorem VariableDecl.holds_references (v : VariableDecl) : t.Holds (v.references (.ofTree t)) := by
  unfold VariableDecl.references
  split
  · next e _ => exact e.holds_references
  · next id _ =>
    split
    · intro r hr
      obtain ⟨c, hc, hr⟩ := List.mem_flatMap.mp hr
      exact Tree.Holds.ofClass (Declarations.mem_classes_of_class? (Option.mem_toList.mp hc)).1 r hr
    · exact .nil
  · exact .nil

/-- Whatever an item of a tree refers to is an item of the tree. -/
theorem Item.holds_references (hi : i ∈ t.items) :
    t.Holds (i.references (.ofTree t)) := by
  obtain ⟨c, hc, hi⟩ := Tree.mem_items.mp hi
  rcases ClassDecl.mem_items.mp hi with
    ⟨id, -, rfl⟩ | ⟨k, -, rfl⟩ | ⟨f, -, rfl⟩ | ⟨v, -, f, -, rfl⟩ | ⟨v, -, rfl⟩
  · intro r hr
    obtain ⟨v, hv, rfl⟩ := List.mem_map.mp hr
    exact Tree.mem_items_of_member hc hv
  · exact Tree.Holds.append.mpr ⟨.ofClass hc, stmts_holds_references k.body⟩
  · exact stmts_holds_references f.body
  · exact stmts_holds_references f.body
  · exact v.holds_references

end Shader
