import Shader.Proofs.Construction.Declaring
import Shader.Proofs.Construction.Fresh

/-!
# The code of pre-constructors

The pre-constructor of a plain class is a straight piece of code. It goes through the members of the
object: a literal is stored, and an object in it is prepared by a call, if there is something to
prepare.
-/

namespace Shader

open Outcome Registry

/-! ### Straight code -/

/-- A function under construction that takes an object and has one block. -/
def Builder.straight (head : Routine) (pointer : TypeRef) (ops : List Op) (n : Nat) : Builder :=
  ⟨{ head with
      parameters := [⟨⟨0⟩, pointer, "this"⟩]
      blocks := [{ id := ⟨0⟩, name := "entry", ops := ops }]
      order := [⟨0⟩]
      nextValue := n }, some ⟨0⟩⟩

/-- The member of the object that a constant numbers. -/
def Op.member (i : ConstantId) (result : ValueId) (pointer : TypeRef) : Op where
  opcode := .accessChain
  result := some result
  resultType := some pointer
  operands := [.value ⟨0⟩, .constant i]

/-- A constant is stored. -/
def Op.put (target : ValueId) (c : ConstantId) : Op where
  opcode := .store
  operands := [.value target, .constant c]

/-- The function is left. -/
def Op.leave : Op where
  opcode := .ret

/-- **The code of a pre-constructor.** The members with a literal get its value, and the objects
among them are prepared by calls. -/
inductive Prepares (w : Tree) (pre : ClassDecl → Option FunctionRef) (constants : List Constant) :
    List (VariableDecl × Nat) → List Op → Prop
  | nil : Prepares w pre constants [] []
  | literal {v : VariableDecl} {k : Nat} {vs : List (VariableDecl × Nat)} {ops : List Op} {e : Expr}
    {l : Literal} {r : ValueId} {pointer ty ty' : TypeRef} {i j : ConstantId}
    (hinitial : v.initial = some e) (he : e.kind = .literal l) (hr : r ≠ ⟨0⟩)
    (hi : constants[i.index]? = some ⟨ty, .int (Int32.ofNat k)⟩)
    (hj : constants[j.index]? = some ⟨ty', l⟩) (h : Prepares w pre constants vs ops) :
    Prepares w pre constants ((v, k) :: vs) (.member i r pointer :: .put r j :: ops)
  | object {v : VariableDecl} {k : Nat} {vs : List (VariableDecl × Nat)} {ops : List Op}
    {c : ClassDecl} {f : FunctionRef} {r : ValueId} {pointer ty : TypeRef} {i : ConstantId}
    (hinitial : v.initial = none) (hc : c ∈ w.classes) (hty : v.ty = .ofClass c.id)
    (hpre : pre c = some f) (hr : r ≠ ⟨0⟩)
    (hi : constants[i.index]? = some ⟨ty, .int (Int32.ofNat k)⟩)
    (h : Prepares w pre constants vs ops) :
    Prepares w pre constants ((v, k) :: vs) (.member i r pointer :: .callOn r f :: ops)
  | skip {v : VariableDecl} {k : Nat} {vs : List (VariableDecl × Nat)} {ops : List Op}
    (hinitial : v.initial = none) (hty : ∀ c ∈ w.classes, v.ty = .ofClass c.id → pre c = none)
    (h : Prepares w pre constants vs ops) : Prepares w pre constants ((v, k) :: vs) ops

theorem getElem?_of_begins {α : Type} {as bs : List α} (h : as <+: bs) {i : Nat} {a : α}
    (ha : as[i]? = some a) : bs[i]? = some a := by
  obtain ⟨more, rfl⟩ := h
  rw [List.getElem?_append_left (List.getElem?_eq_some_iff.mp ha).1]
  exact ha

namespace Prepares

variable {w : Tree} {pre : ClassDecl → Option FunctionRef} {constants constants' : List Constant}
  {vs vs' : List (VariableDecl × Nat)} {ops ops' : List Op}

section

variable (h : Prepares w pre constants vs ops)
include h

theorem mono (hconstants : constants <+: constants') :
    Prepares w pre constants' vs ops := by
  have hget : ∀ {i : Nat} {c : Constant}, constants[i]? = some c → constants'[i]? = some c :=
    getElem?_of_begins hconstants
  induction h with
  | nil => exact .nil
  | literal hinitial he hr hi hj _ ih => exact .literal hinitial he hr (hget hi) (hget hj) ih
  | object hinitial hc hty hpre hr hi _ ih => exact .object hinitial hc hty hpre hr (hget hi) ih
  | skip hinitial hty _ ih => exact .skip hinitial hty ih

theorem append (h' : Prepares w pre constants vs' ops') :
    Prepares w pre constants (vs ++ vs') (ops ++ ops') := by
  induction h with
  | nil => exact h'
  | literal hinitial he hr hi hj _ ih => exact .literal hinitial he hr hi hj ih
  | object hinitial hc hty hpre hr hi _ ih => exact .object hinitial hc hty hpre hr hi ih
  | skip hinitial hty _ ih => exact .skip hinitial hty ih

theorem not_terminator : ∀ op ∈ ops, op.isTerminator = false := by
  induction h with
  | nil => exact nofun
  | literal _ _ _ _ _ _ ih =>
    exact List.forall_mem_cons.mpr ⟨rfl, List.forall_mem_cons.mpr ⟨rfl, ih⟩⟩
  | object _ _ _ _ _ _ _ ih =>
    exact List.forall_mem_cons.mpr ⟨rfl, List.forall_mem_cons.mpr ⟨rfl, ih⟩⟩
  | skip _ _ _ ih => exact ih

end

end Prepares

/-! ### Emitting it -/

/-- Fields of different classes have different identities. -/
theorem Tree.Distinct.eq_of_property {t : Tree} (ht : t.Distinct) {c c' : ClassDecl}
    (hc : c ∈ t.classes) (hc' : c' ∈ t.classes) {v v' : VariableDecl} (hv : v ∈ c.members)
    (hv' : v' ∈ c'.members) (hid : v.id = v'.id) : c = c' ∧ v = v' := by
  have heq : Item.memberVariable v = .memberVariable v' :=
    List.inj_on_of_nodup_map ht (Tree.mem_items_of_member hc hv) (Tree.mem_items_of_member hc' hv')
      (congrArg Symbol.property hid)
  obtain rfl : v = v' := by injection heq
  refine ⟨?_, rfl⟩
  by_contra hne
  have hitems : t.items.Nodup := ht.of_map
  rw [Tree.items, List.nodup_flatMap] at hitems
  have hmem : ∀ {c : ClassDecl}, v ∈ c.members → .memberVariable v ∈ c.items := fun hv =>
    ClassDecl.mem_items.mpr (.inr (.inr (.inr (.inr ⟨v, hv, rfl⟩))))
  have : Std.Symm (Function.onFun List.Disjoint ClassDecl.items) := ⟨fun _ _ h => h.symm⟩
  have hdisjoint := hitems.2.forall hc hc' hne
  exact hdisjoint (hmem hv) (hmem hv')

/-- A field has one number. -/
theorem Tree.PlainOver.eq_of_slots {t foreign : Tree} (ht : t.PlainOver foreign) {c c' : ClassDecl}
    (hc : c ∈ t.classes) (hc' : c' ∈ t.classes) {p : PropertyId} {k k' : Nat} (h : (p, k) ∈ c.slots)
    (h' : (p, k') ∈ c'.slots) : k = k' := by
  have hfields : ∀ c ∈ t.classes, c.fields = c.members := fun c hc =>
    (ht.world.classes c (Tree.mem_merge_left hc)).fields_eq
  rw [ClassDecl.slots, hfields _ ‹_›, List.mem_zipIdx_iff_getElem?, List.getElem?_map] at h h'
  obtain ⟨v, hv, hid⟩ := Option.map_eq_some_iff.mp h
  obtain ⟨v', hv', hid'⟩ := Option.map_eq_some_iff.mp h'
  obtain ⟨rfl, rfl⟩ := ht.distinct.eq_of_property hc hc' (List.mem_of_getElem? hv)
    (List.mem_of_getElem? hv') (hid.trans hid'.symm)
  -- one member stands in one place, since members have names of their own
  have hnames := (ht.world.classes c (Tree.mem_merge_left hc)).names
  have hlt : k < (c.members.map VariableDecl.name).length := by
    rw [List.length_map]
    exact (List.getElem?_eq_some_iff.mp hv).1
  refine (List.getElem?_inj hlt hnames).mp ?_
  rw [List.getElem?_map, List.getElem?_map, hv]
  exact congrArg _ hv'.symm

variable {c : ClassDecl} {k : Nat}

namespace Scope

/-- **Settled scopes.** All is declared, and it is known what prepares the objects of each class. -/
structure Settled (t foreign : Tree) (pre : ClassDecl → Option FunctionRef) (ds : List Library)
    (s : Scope) : Prop extends Charted (t.merge foreign).world t ds s, Ready t foreign pre s where
  own : ∀ c ∈ t.classes, ∀ shape, s.classes.lookup c.id = some shape → shape.preConstructor = pre c

variable {t foreign : Tree} {pre : ClassDecl → Option FunctionRef} {ds : List Library} {s s' : Scope}

section

variable (hs : s.Settled t foreign pre ds)
include hs

theorem Settled.charts : s.Charts t foreign pre ds ∅ :=
  ⟨hs.toCharting, hs.toReady⟩

theorem Settled.grown (hs' : s'.Charts t foreign pre ds ∅) (h : s.Grown s') :
    s'.Settled t foreign pre ds where
  toCharted := hs.toCharted.follows ⟨hs'.toCharting, h.keeps, by rw [h.eq], by rw [h.eq]⟩
  toReady := hs'.toReady
  own c hc shape hshape := by
    obtain ⟨shape', hshape'⟩ := hs.hasShapes c hc
    obtain rfl := Option.some.inj ((h.classes _ _ hshape').symm.trans hshape)
    exact hs.own c hc shape' hshape'

/-- What is known of any class in sight. -/
theorem Settled.preConstructor (hc : c ∈ (t.merge foreign).classes) {shape : ClassShape}
    (hshape : s.classes.lookup c.id = some shape) : shape.preConstructor = pre c := by
  rcases Tree.mem_merge.mp hc with hc | hc
  · exact hs.own c hc shape hshape
  · exact hs.prepared c hc shape hshape

end

/-- **The number of a field.** -/
theorem Settled.fieldIndex? (ht : t.PlainOver foreign) (hs : s.Settled t foreign pre ds)
    (hc : c ∈ t.classes) {v : VariableDecl} (hv : c.members[k]? = some v) :
    s.fieldIndex? v.id = some k := by
  rw [← (ht.world.classes c (Tree.mem_merge_left hc)).fields_eq] at hv
  have hslot := ClassDecl.mem_slots hv
  have hmem : (v.id, k) ∈ s.fields := by
    rw [hs.fields, List.mem_reverse]
    exact List.mem_flatMap.mpr ⟨c, hc, hslot⟩
  have hlookup : s.fields.lookup v.id = some k := by
    cases hk : s.fields.lookup v.id with
    | none => exact absurd (List.lookup_eq_none_iff.mp hk _ hmem) (by simp)
    | some k' =>
      -- what is found belongs to the same field
      have hmem' := mem_of_lookup_eq_some hk
      rw [hs.fields, List.mem_reverse] at hmem'
      obtain ⟨c', hc', hslot'⟩ := List.mem_flatMap.mp hmem'
      rw [ht.eq_of_slots hc' hc hslot' hslot]
  rw [Scope.fieldIndex?, hlookup]

theorem pointerType_settled (ht : t.PlainOver foreign) (hs : s.Settled t foreign pre ds)
    {ty : TypeRef} (hty : ty.index < s.library.types.size) (location : Location) :
    Succeeds (onTypes location (Registry.pointerType ty)) s fun _ s' =>
      s'.Settled t foreign pre ds ∧ s.Grown s' :=
  (onTypes_pointerType ht hs.charts hty location).mono fun _ _ h => ⟨hs.grown h.1 h.2.1, h.2.1⟩

theorem lowerScalar_settled (ht : t.PlainOver foreign) (hs : s.Settled t foreign pre ds)
    (k : ScalarKind) (location : Location) :
    Succeeds (lowerType (.scalar k) location) s fun _ s' =>
      s'.Settled t foreign pre ds ∧ s.Grown s' := by
  rw [show lowerType (.scalar k) location = onTypes location (Registry.lowerBuiltin (.scalar k))
    from rfl]
  have hspec : (({} : Registry).enterBuiltin (.scalar k)).isOk = true := by cases k <;> rfl
  exact (onTypes_lowerBuiltin ht hs.charts hspec location).mono fun _ _ h =>
    ⟨hs.grown h.1 h.2.1, h.2.1⟩

/-- **Constants** are where their numbers say. -/
theorem constant_succeeds (hs : s.Settled t foreign pre ds) (ty : TypeRef) (l : Literal) :
    Succeeds (constant ty l) s fun c s' => s'.Settled t foreign pre ds ∧ s.Grown s' ∧
      s'.library.constants[c.index]? = some ⟨ty, l⟩ := by
  refine ⟨_, _, rfl, ?_⟩
  dsimp only [Library.addConstant]
  cases hi : s.library.constants.findIdx? (· = ⟨ty, l⟩) with
  | some i =>
    refine ⟨hs, ?_, ?_⟩
    · exact .refl s
    · obtain ⟨hlt, heq, -⟩ := List.findIdx?_eq_some_iff_getElem.mp hi
      rw [List.getElem?_eq_getElem hlt]
      exact congrArg some (of_decide_eq_true heq)
  | none =>
    have hgrown : s.Grown { s with library := { s.library with
        constants := s.library.constants ++ [⟨ty, l⟩] } } :=
      ⟨fun _ _ h => h, .refl ∅ _, List.prefix_append _ _, rfl⟩
    refine ⟨hs.grown { hs.charts with } hgrown, hgrown, ?_⟩
    exact List.getElem?_concat_length

end Scope

namespace Emit

open Scope

/-- A pre-constructor being emitted. -/
def preparing (s : Scope) (head : Routine) (pointer ty : TypeRef) (ops : List Op) (n : Nat) :
    Emitter where
  scope := s
  builder := .straight head pointer ops n
  this := some (⟨0⟩, ty)

variable {t foreign : Tree} {pre : ClassDecl → Option FunctionRef} {ds : List Library}
  {s : Scope} {head : Routine} {pointer ty : TypeRef} {ops : List Op} {n : Nat}

/-- A step on the scope of a pre-constructor. -/
theorem onScope_preparing {α : Type} {x : ScopeM α} {Q : α → Scope → Prop} (hx : Succeeds x s Q) :
    Succeeds (onScope x) (preparing s head pointer ty ops n) fun a e' =>
      ∃ s', e' = preparing s' head pointer ty ops n ∧ Q a s' := by
  obtain ⟨a, s', hrun, hq⟩ := hx
  exact ⟨a, _, onScope_ok.mpr ⟨s', hrun, rfl⟩, s', rfl, hq⟩

theorem store_preparing (r : ValueId) (m : ConstantId) (location : Location) :
    store r (.constant m) location (preparing s head pointer ty ops n) =
      (.ok (), preparing s head pointer ty (ops ++ [.put r m]) n) :=
  rfl

theorem call_preparing (f : FunctionRef) (r : ValueId) (location : Location) :
    call f none [.value r] location (preparing s head pointer ty ops n) =
      (.ok .void, preparing s head pointer ty (ops ++ [.callOn r f]) n) :=
  rfl

theorem constant_preparing (hs : s.Settled t foreign pre ds) (u : TypeRef) (l : Literal) :
    Succeeds (constant u l) (preparing s head pointer ty ops n) fun o e' => ∃ m s',
      o = .constant m ∧ e' = preparing s' head pointer ty ops n ∧ s'.Settled t foreign pre ds ∧
      s.Grown s' ∧ s'.library.constants[m.index]? = some ⟨u, l⟩ := by
  refine (onScope_preparing (constant_succeeds hs u l)).bind ?_
  rintro m _ ⟨s', rfl, hs', hgrown, hm⟩
  exact .pure ⟨m, s', rfl, rfl, hs', hgrown, hm⟩

section Steps

variable (ht : t.PlainOver foreign)
include ht

/-- **The place of a member.** -/
theorem memberOf_succeeds (hs : s.Settled t foreign pre ds) (hc : c ∈ t.classes)
    (hty : s.library.types.Named ty c.name) (hk : k < c.members.length) (location : Location) :
    Succeeds (memberOf (⟨0⟩, ty) k location) (preparing s head pointer ty ops n) fun m e' =>
      m.1 = ⟨n⟩ ∧ ∃ s' p i u, e' = preparing s' head pointer ty (ops ++ [.member i ⟨n⟩ p]) (n + 1) ∧
        s'.Settled t foreign pre ds ∧ s.Grown s' ∧
        s'.library.constants[i.index]? = some ⟨u, .int (Int32.ofNat k)⟩ := by
  have hw : c ∈ (t.merge foreign).classes := Tree.mem_merge_left hc
  unfold memberOf
  obtain ⟨i, hi, hname⟩ := hty
  have hkind : i.kind = .struct :=
    eq_struct_of_suits (hs.types.suits ty i hi) (hname ▸ ht.world.apart.className c hw)
  have hparts := (hs.types.whole ty i c hw hi hname (Set.notMem_empty _)).types
  rw [(ht.world.classes c hw).fields_eq] at hparts
  obtain ⟨part, hpart⟩ : ∃ part, i.parts[k]? = some part :=
    ⟨_, List.getElem?_eq_getElem (hparts.length_eq ▸ hk)⟩
  -- the type of the member
  have hpartAt : Succeeds (onTypes location do (← get).partAt ty k) s fun u s' =>
      u = part ∧ s = s' := by
    refine ⟨part, s, onTypes_ok.mpr ⟨s.library.types, ?_, s.withTypes_self.symm⟩, rfl, rfl⟩
    refine bind_ok.mpr ⟨s.library.types, s.library.types, rfl, lift_ok.mpr ⟨?_, rfl⟩⟩
    exact partAt_eq_ok.mpr ⟨i, hi, .inl hkind, hpart⟩
  refine (onScope_preparing hpartAt).bind ?_
  rintro _ _ ⟨_, rfl, rfl, rfl⟩
  have hlt := hs.closed.index_lt_of_holds (.member hi hkind (List.mem_of_getElem? hpart))
  -- the type of pointers to it, and its number
  refine (onScope_preparing (pointerType_settled ht hs hlt location)).bind ?_
  rintro p _ ⟨s₁, rfl, hs₁, hgrown₁⟩
  refine (onScope_preparing (lowerScalar_settled ht hs₁ .integer location)).bind ?_
  rintro u _ ⟨s₂, rfl, hs₂, hgrown₂⟩
  refine (constant_preparing hs₂ u (.int (Int32.ofNat k))).bind ?_
  rintro _ _ ⟨m, s₃, rfl, rfl, hs₃, hgrown₃, hm⟩
  exact ⟨_, _, rfl, rfl, s₃, p, m, u, rfl, hs₃, hgrown₁.trans (hgrown₂.trans hgrown₃), hm⟩

/-- The value of a literal. -/
theorem literal_succeeds (hs : s.Settled t foreign pre ds) {l : Literal} {location : Location} :
    Succeeds (value ⟨.literal l, .scalar l.kind, location⟩) (preparing s head pointer ty ops n)
      fun x e' => ∃ m s' u, x.1 = .constant m ∧ e' = preparing s' head pointer ty ops n ∧
        s'.Settled t foreign pre ds ∧ s.Grown s' ∧
        s'.library.constants[m.index]? = some ⟨u, l⟩ := by
  unfold value
  refine Succeeds.bind (Q := fun x e' => ∃ m s' u, x = .value (.constant m) u ∧
      e' = preparing s' head pointer ty ops n ∧ s'.Settled t foreign pre ds ∧ s.Grown s' ∧
      s'.library.constants[m.index]? = some ⟨u, l⟩) ?_ ?_
  · rw [expr, exprKind]
    refine (onScope_preparing (lowerScalar_settled ht hs l.kind location)).bind ?_
    rintro u _ ⟨s₁, rfl, hs₁, hgrown₁⟩
    refine (constant_preparing hs₁ u l).bind ?_
    rintro _ _ ⟨m, s₂, rfl, rfl, hs₂, hgrown₂, hm⟩
    exact .pure ⟨m, s₂, u, rfl, rfl, hs₂, hgrown₁.trans hgrown₂, hm⟩
  · rintro _ _ ⟨m, s', u, rfl, rfl, hs', hgrown, hm⟩
    exact .pure ⟨m, s', u, rfl, rfl, hs', hgrown, hm⟩

variable (hcharted : ∀ d ∈ ds, ∀ m : Library, m.Within d → m.Charted (t.merge foreign).world)
  (hds : Supplied foreign pre ds)
include hcharted hds

/-- **Preparing a member.** -/
theorem initializer_succeeds (hs : s.Settled t foreign pre ds) (hc : c ∈ t.classes)
    (hty : s.library.types.Named ty c.name) {v : VariableDecl} (hv : c.members[k]? = some v)
    (hn : 0 < n) :
    Succeeds (initializer (⟨0⟩, ty) v) (preparing s head pointer ty ops n) fun _ e' => ∃ s' ops' n',
      e' = preparing s' head pointer ty (ops ++ ops') n' ∧ 0 < n' ∧
      s'.Settled t foreign pre ds ∧ s.Grown s' ∧
      Prepares (t.merge foreign) pre s'.library.constants [(v, k)] ops' := by
  have hw : c ∈ (t.merge foreign).classes := Tree.mem_merge_left hc
  have hlt : k < c.members.length := (List.getElem?_eq_some_iff.mp hv).1
  have hne : (⟨n⟩ : ValueId) ≠ ⟨0⟩ := fun h => by
    have : n = 0 := congrArg ValueId.number h
    omega
  unfold initializer
  refine Succeeds.bind (Q := fun e e' => e = e' ∧ e' = preparing s head pointer ty ops n)
    ⟨_, _, rfl, rfl, rfl⟩ ?_
  rintro _ _ ⟨rfl, rfl⟩
  have hindex : (preparing s head pointer ty ops n).scope.fieldIndex? v.id = some k :=
    hs.fieldIndex? ht hc hv
  rw [hindex]
  -- a literal is stored, an object is prepared by a call if its class asks for it, all else is skipped
  cases (ht.world.classes c hw).members v (List.mem_of_getElem? hv) with
  | literal hscalar hinitial =>
    rw [hinitial]
    refine (literal_succeeds ht hs).bind ?_
    rintro x _ ⟨m, s₁, u, hx, rfl, hs₁, hgrown₁, hm⟩
    refine (memberOf_succeeds ht hs₁ hc (hgrown₁.keeps.named hty) hlt v.location).bind ?_
    rintro ⟨_, u'⟩ _ ⟨rfl, s₂, p, i, w, rfl, hs₂, hgrown₂, hi⟩
    dsimp only
    rw [hx]
    refine ⟨(), _, store_preparing .., s₂, [.member i ⟨n⟩ p, .put ⟨n⟩ m], n + 1, ?_, Nat.succ_pos n, hs₂,
      hgrown₁.trans hgrown₂, ?_⟩
    · rw [List.append_assoc]
      rfl
    · exact .literal hinitial rfl hne hi (getElem?_of_begins hgrown₂.constants hm) .nil
  | builtin hbuiltin hinitial =>
    rw [hinitial]
    have hclass : v.ty.isClass = false := Tree.isClass_of_enterBuiltin hbuiltin
    have hskip : ∀ c ∈ (t.merge foreign).classes, v.ty = .ofClass c.id → pre c = none := by
      intro c' _ heq
      rw [heq] at hclass
      cases hclass
    have hdone : Succeeds (pure () : EmitM Unit) (preparing s head pointer ty ops n) fun _ e' =>
        ∃ s' ops' n', e' = preparing s' head pointer ty (ops ++ ops') n' ∧ 0 < n' ∧
        s'.Settled t foreign pre ds ∧ s.Grown s' ∧
        Prepares (t.merge foreign) pre s'.library.constants [(v, k)] ops' :=
      .pure ⟨s, [], n, by rw [List.append_nil], hn, hs, .refl s, .skip hinitial hskip .nil⟩
    cases hspec : v.ty with
    | ofClass id =>
      rw [hspec] at hclass
      cases hclass
    | _ => exact hdone
  | @object c' hc' hobject hinitial =>
    rw [hinitial, hobject]
    refine Succeeds.bind (Q := fun shape e' => ∃ s', e' = preparing s' head pointer ty ops n ∧
      s'.Settled t foreign pre ds ∧ s.Grown s' ∧ shape.preConstructor = pre c') ?_ ?_
    · refine (onScope_preparing (classShape_succeeds ht hcharted hds hs.charts hc' v.location)).mono ?_
      rintro shape _ ⟨s', rfl, hs', hgrown, hshape⟩
      have hsettled := hs.grown hs' hgrown
      exact ⟨s', rfl, hsettled, hgrown, hsettled.preConstructor hc' hshape⟩
    rintro shape _ ⟨s₁, rfl, hs₁, hgrown₁, hpre⟩
    cases hf : pre c' with
    | none =>
      rw [hpre, hf]
      refine .pure ⟨s₁, [], n, by rw [List.append_nil], hn, hs₁, hgrown₁, .skip hinitial ?_ .nil⟩
      intro c'' hc'' heq
      have hid : c'.id = c''.id := TypeSpec.ofClass.inj (hobject.symm.trans heq)
      obtain rfl := ht.world.apart.eq_of_id c' hc' c'' hc'' hid
      exact hf
    | some f =>
      rw [hpre, hf]
      refine (memberOf_succeeds ht hs₁ hc (hgrown₁.keeps.named hty) hlt v.location).bind ?_
      rintro ⟨_, u'⟩ _ ⟨rfl, s₂, p, i, w, rfl, hs₂, hgrown₂, hi⟩
      refine ⟨(), _, bind_ok.mpr ⟨_, _, call_preparing .., rfl⟩, s₂, [.member i ⟨n⟩ p, .callOn ⟨n⟩ f],
        n + 1, ?_, Nat.succ_pos n, hs₂, hgrown₁.trans hgrown₂, ?_⟩
      · rw [List.append_assoc]
        rfl
      · exact .object hinitial hc' hobject hf hne hi .nil

/-- **Preparing all members**, from one of them on. -/
theorem forM_initializer_succeeds (hc : c ∈ t.classes) {rest : List VariableDecl}
    (hrest : c.members.drop k = rest) (hs : s.Settled t foreign pre ds)
    (hty : s.library.types.Named ty c.name) (hn : 0 < n) :
    Succeeds (rest.forM (initializer (⟨0⟩, ty))) (preparing s head pointer ty ops n) fun _ e' =>
      ∃ s' ops' n', e' = preparing s' head pointer ty (ops ++ ops') n' ∧
      s'.Settled t foreign pre ds ∧ s.Grown s' ∧
      Prepares (t.merge foreign) pre s'.library.constants (rest.zipIdx k) ops' := by
  induction rest generalizing k s ops n with
  | nil => exact .pure ⟨s, [], n, by rw [List.append_nil], hs, .refl s, .nil⟩
  | cons v rest ih =>
    have hv : c.members[k]? = some v := by
      rw [← List.head?_drop, hrest]
      rfl
    have htail : c.members.drop (k + 1) = rest := by
      rw [← List.tail_drop, hrest]
      rfl
    rw [forM_cons]
    refine (initializer_succeeds ht hcharted hds hs hc hty hv hn).bind ?_
    rintro _ _ ⟨s₁, ops₁, n₁, rfl, hn₁, hs₁, hgrown₁, hcode₁⟩
    refine (ih htail hs₁ (hgrown₁.keeps.named hty) hn₁).mono ?_
    rintro _ _ ⟨s₂, ops₂, n₂, rfl, hs₂, hgrown₂, hcode₂⟩
    refine ⟨s₂, ops₁ ++ ops₂, n₂, by rw [List.append_assoc], hs₂, hgrown₁.trans hgrown₂, ?_⟩
    rw [List.zipIdx_cons]
    exact (hcode₁.mono hgrown₂.constants).append hcode₂

end Steps

/-! ### Installing it -/

/-- A finished pre-constructor. -/
def prepared (head : Routine) (pointer : TypeRef) (ops : List Op) (n : Nat) : Routine :=
  (Builder.straight head pointer (ops ++ [.leave]) n).routine

theorem repair_straight (h : ∀ op ∈ ops, op.isTerminator = false) :
    (Builder.straight head pointer ops n).routine.repair none = prepared head pointer ops n := by
  have hany : (ops.any Op.isTerminator) = false := by simpa using h
  change Routine.repairBlock none (Builder.straight head pointer ops n).routine ⟨0⟩ = _
  unfold Routine.repairBlock
  change (if ops.any Op.isTerminator = true then _ else _ : Routine) = _
  rw [hany]
  rfl

theorem isWellFormed_prepared (h : ∀ op ∈ ops, op.isTerminator = false) :
    (prepared head pointer ops n).isWellFormed = true := by
  have hcount : (ops ++ [Op.leave]).countP Op.isTerminator = 1 := by
    rw [List.countP_append, List.countP_eq_zero.mpr fun op hop => by simp [h op hop]]
    rfl
  have hlast : (ops ++ [Op.leave]).getLast?.filter Op.isTerminator =
      some Op.leave := by
    rw [List.getLast?_concat]
    rfl
  change ((decide ((ops ++ [Op.leave]).countP Op.isTerminator = 1) &&
    ((ops ++ [Op.leave]).getLast?.filter Op.isTerminator).isSome) && true) = true
  rw [hcount, hlast]
  rfl

/-- The head of a pre-constructor. -/
theorem opening_succeeds (ht : t.PlainOver foreign) (hs : s.Settled t foreign pre ds)
    (hty : ty.index < s.library.types.size) (head : Routine) (location : Location) :
    Succeeds (opening (some ty) [] location) { scope := s, builder := ⟨head.shell, none⟩ } fun _ e' =>
      ∃ s' pointer, e' = preparing s' head.shell pointer ty [] 1 ∧
        s'.Settled t foreign pre ds ∧ s.Grown s' := by
  obtain ⟨pointer, s', hrun, hs', hgrown⟩ := pointerType_settled ht hs hty location
  refine ⟨(), preparing s' head.shell pointer ty [] 1, ?_, s', pointer, rfl, hs', hgrown⟩
  unfold opening
  refine bind_ok.mpr ⟨some (⟨0⟩, ty),
    { scope := s', builder := ⟨(head.shell.addParameter "this" pointer).2, none⟩ },
    bind_ok.mpr ⟨(⟨0⟩, ty), _, bind_ok.mpr ⟨pointer, _, onScope_ok.mpr ⟨s', hrun, rfl⟩, rfl⟩, rfl⟩, rfl⟩

/-- **Emitting a pre-constructor.** -/
theorem preConstructor_succeeds (ht : t.PlainOver foreign)
    (hcharted : ∀ d ∈ ds, ∀ m : Library, m.Within d → m.Charted (t.merge foreign).world)
    (hds : Supplied foreign pre ds) (hs : s.Settled t foreign pre ds) (hc : c ∈ t.classes)
    (hty : s.library.types.Named ty c.name) {f : FunctionRef} {r : Routine}
    (hr : s.library.routine? f = some r) :
    Succeeds (routine f (some ty) [] (initializers c) c.location) s fun _ s' =>
      ∃ s₁ pointer ops n, s₁.Settled t foreign pre ds ∧ s.Grown s₁ ∧
        s' = { s₁ with library := { s₁.library with
          routines := s₁.library.routines.set f.index (prepared r.shell pointer ops n) } } ∧
        Prepares (t.merge foreign) pre s₁.library.constants c.members.zipIdx ops := by
  -- the function returns nothing
  have hstart : start f c.location s = (.ok (⟨r.shell, none⟩, none), s) := by
    obtain ⟨i, hi, hkind⟩ := hs.functions r (Library.mem_routines_of_routine? hr)
    obtain ⟨u, ps, j, hparts, hj, hvoid⟩ := hs.procedures _ i hi hkind
    unfold start
    refine bind_ok.mpr ⟨s, s, rfl, ?_⟩
    rw [hr]
    refine onTypes_ok.mpr ⟨s.library.types, ?_, s.withTypes_self.symm⟩
    refine bind_ok.mpr ⟨_, _, rfl, bind_ok.mpr ⟨u, _, lift_ok.mpr ⟨?_, rfl⟩,
      bind_ok.mpr ⟨j, _, lift_ok.mpr ⟨info_eq hj, rfl⟩, ?_⟩⟩⟩
    · exact partAt_eq_ok.mpr ⟨i, hi, .inr hkind, by rw [hparts]; rfl⟩
    · rw [if_pos hvoid]
      rfl
  unfold routine
  refine Succeeds.bind (Q := fun p s' => p = (⟨r.shell, none⟩, none) ∧ s = s') ⟨_, _, hstart, rfl, rfl⟩ ?_
  rintro _ _ ⟨rfl, rfl⟩
  dsimp only
  have hemission : Succeeds (do
      opening (some ty) [] c.location
      initializers c
      finish f c.location : EmitM Unit) { scope := s, builder := ⟨r.shell, none⟩ } fun _ e' =>
      ∃ s₁ pointer ops n, s₁.Settled t foreign pre ds ∧ s.Grown s₁ ∧
        e'.scope = { s₁ with library := { s₁.library with
          routines := s₁.library.routines.set f.index (prepared r.shell pointer ops n) } } ∧
        Prepares (t.merge foreign) pre s₁.library.constants c.members.zipIdx ops := by
    refine (opening_succeeds ht hs hty.index_lt r c.location).bind ?_
    rintro _ _ ⟨s₁, pointer, rfl, hs₁, hgrown₁⟩
    refine Succeeds.bind (Q := fun _ e' => ∃ s' ops' n',
      e' = preparing s' r.shell pointer ty ([] ++ ops') n' ∧
      s'.Settled t foreign pre ds ∧ s₁.Grown s' ∧
      Prepares (t.merge foreign) pre s'.library.constants (c.members.zipIdx 0) ops')
      ?_ ?_
    · unfold initializers
      refine Succeeds.bind (Q := fun e e' => e = e' ∧ e' = preparing s₁ r.shell pointer ty [] 1)
        ⟨_, _, rfl, rfl, rfl⟩ ?_
      rintro _ _ ⟨rfl, rfl⟩
      exact forM_initializer_succeeds ht hcharted hds hc rfl hs₁ (hgrown₁.keeps.named hty) Nat.one_pos
    · rintro _ _ ⟨s₂, ops, n, rfl, hs₂, hgrown₂, hcode⟩
      have hr₂ : (preparing s₂ r.shell pointer ty ops n).scope.library.routine? f = some r := by
        rw [preparing, hgrown₂.eq, hgrown₁.eq]
        exact hr
      rw [List.nil_append]
      refine ⟨(), { preparing s₂ r.shell pointer ty ops n with
        scope := { s₂ with library := { s₂.library with
          routines := s₂.library.routines.set f.index (prepared r.shell pointer ops n) } } }, ?_, s₂,
        pointer, ops, n, hs₂, hgrown₁.trans hgrown₂, rfl, hcode⟩
      have hrepair : (preparing s₂ r.shell pointer ty ops n).builder.routine.repair
          (preparing s₂ r.shell pointer ty ops n).returnType = prepared r.shell pointer ops n :=
        repair_straight hcode.not_terminator
      unfold finish
      refine bind_ok.mpr ⟨_, _, rfl, ?_⟩
      rw [hrepair, isWellFormed_prepared hcode.not_terminator,
        Library.install?, hr₂]
      rfl
  obtain ⟨u, e', hrun, h⟩ := hemission
  exact ⟨u, e'.scope, by dsimp only; rw [hrun], h⟩

end Emit

/-! ### Whole trees -/

/-- **Equipped scopes.** Of the classes that have been through, the functions that prepare their
objects have their code. The rest is what the declared tree said. -/
structure Scope.Equipped (t foreign : Tree) (pre : ClassDecl → Option FunctionRef)
    (ds : List Library) (done : List ClassDecl) (s s₀ : Scope) : Prop extends
    Scope.Settled t foreign pre ds s where
  shapes : ∀ c ∈ t.classes, s.classes.lookup c.id = s₀.classes.lookup c.id
  id : s.library.id = s₀.library.id
  sameRecords : s.library.records = s₀.library.records
  sameTypes : s.library.classTypes = s₀.library.classTypes
  routines : ∀ c ∈ t.classes, ∀ f, pre c = some f → ∃ r, s.library.routine? f = some r
  code : ∀ c ∈ done, ∀ f, pre c = some f → ∃ head pointer ops n,
    s.library.routine? f = some (Emit.prepared head pointer ops n) ∧
    Prepares (t.merge foreign) pre s.library.constants c.members.zipIdx ops

namespace Emit

open Scope

variable {t foreign : Tree} {pre : ClassDecl → Option FunctionRef} {ds : List Library}
  {s s₀ : Scope} {done : List ClassDecl}

/-- **Emitting a plain class.** -/
theorem classDecl_succeeds (ht : t.PlainOver foreign)
    (hcharted : ∀ d ∈ ds, ∀ m : Library, m.Within d → m.Charted (t.merge foreign).world)
    (hds : Supplied foreign pre ds)
    (hinj : ∀ c ∈ t.classes, ∀ c' ∈ t.classes, ∀ f, pre c = some f → pre c' = some f → c = c')
    (hs : s.Equipped t foreign pre ds done s₀) (hc : c ∈ t.classes) (hnew : c ∉ done)
    (hdone : ∀ c ∈ done, c ∈ t.classes) :
    Succeeds (classDecl c) s fun _ s' => s'.Equipped t foreign pre ds (done ++ [c]) s₀ := by
  have hw : c ∈ (t.merge foreign).classes := Tree.mem_merge_left hc
  have hplain := ht.world.classes c hw
  obtain ⟨shape, hshape⟩ := hs.hasShapes c hc
  have hpre := hs.own c hc shape hshape
  unfold classDecl
  refine Succeeds.bind (Q := fun shape' s' => shape = shape' ∧ s = s')
    ⟨_, _, classShape_eq hshape c.location, rfl, rfl⟩ ?_
  rintro _ _ ⟨rfl, rfl⟩
  -- a plain class has no other functions
  have hrest : ∀ (p : Option FunctionRef) (s' : Scope), (do
      c.constructors.forM fun k => do
        let f ← Scope.function k.id k.location
        routine f (some shape.ty) k.parameters (constructorBody p k) k.location
      c.functions.forM fun f => functionDecl (if f.isStatic then none else some shape.ty) f
      c.members.forM fun v => v.accessors.forM (functionDecl (some shape.ty)) : ScopeM Unit) s' =
        (.ok (), s') := by
    intro p s'
    rw [hplain.constructors, hplain.functions]
    refine bind_ok.mpr ⟨(), s', rfl, bind_ok.mpr ⟨(), s', rfl, forM_done fun v hv => ?_⟩⟩
    obtain ⟨hgetter, hsetter⟩ := hplain.no_accessors hv
    rw [VariableDecl.accessors, hgetter, hsetter]
    rfl
  rw [hpre]
  cases hf : pre c with
  | none =>
    refine ⟨(), s, hrest none s, { hs with code := fun c' hc' f hf' => ?_ }⟩
    rcases List.mem_append.mp hc' with hc' | hc'
    · exact hs.code c' hc' f hf'
    · obtain rfl := List.mem_singleton.mp hc'
      cases hf.symm.trans hf'
  | some f =>
    obtain ⟨r, hr⟩ := hs.routines c hc f hf
    refine (preConstructor_succeeds ht hcharted hds hs.toSettled hc
      (hs.charts.named ht hw hshape) hr).bind ?_
    rintro _ _ ⟨s₁, pointer, ops, n, hs₁, hgrown, rfl, hcode⟩
    have hsame : ∀ g, s₁.library.routine? g = s.library.routine? g := fun g => by
      rw [hgrown.eq]
      rfl
    have hinstall : s₁.library.install? f (prepared r.shell pointer ops n) = some
        { s₁.library with
          routines := s₁.library.routines.set f.index (prepared r.shell pointer ops n) } := by
      rw [Library.install?, hsame f, hr]
    have hroutine := (Library.routine?_of_install? hinstall).2
    refine ⟨(), _, hrest (some f) _, ⟨{ hs₁ with functions := fun q hq => ?_ }, fun c' hc' => ?_, ?_,
      ?_, ?_, fun c' hc' f' hf' => ?_, fun c' hc' f' hf' => ?_⟩⟩
    · rcases List.mem_or_eq_of_mem_set hq with hq | rfl
      · exact hs₁.functions q hq
      · exact hs₁.functions r (Library.mem_routines_of_routine? ((hsame f).trans hr))
    · obtain ⟨shape', hshape'⟩ := hs.hasShapes c' hc'
      rw [← hs.shapes c' hc', hshape']
      exact hgrown.classes _ _ hshape'
    · rw [← hs.id, hgrown.eq]
    · rw [← hs.sameRecords, hgrown.eq]
    · rw [← hs.sameTypes, hgrown.eq]
    · rw [hroutine f']
      split
      · exact ⟨_, rfl⟩
      · rw [hsame]
        exact hs.routines c' hc' f' hf'
    · rw [hroutine f']
      by_cases heq : f' = f
      · rw [if_pos heq]
        have hcc : c' = c := by
          rcases List.mem_append.mp hc' with hc' | hc'
          · exact hinj c' (hdone c' hc') c hc f (heq ▸ hf') hf
          · exact List.mem_singleton.mp hc'
        exact ⟨r.shell, pointer, ops, n, rfl, hcc ▸ hcode⟩
      · rw [if_neg heq, hsame]
        have hc'' : c' ∈ done := (List.mem_append.mp hc').resolve_right fun h => by
          obtain rfl := List.mem_singleton.mp h
          exact heq (Option.some.inj (hf'.symm.trans hf))
        obtain ⟨head', pointer', ops', n', hr', hcode'⟩ := hs.code c' hc'' f' hf'
        exact ⟨head', pointer', ops', n', hr', hcode'.mono hgrown.constants⟩


end Emit

end Shader
