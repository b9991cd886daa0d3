import Shader.Proofs.Types.Steps
import Shader.Types.Mapped

/-!
# The maps of a registry

A registry with maps answers look-ups by name from its maps and everything else from its types. Nothing
in the data keeps the two together; the operations do.

* `MappedRegistry.Agrees` — the maps say what the types say. Entering a type, linking a pointer type and
  extending a struct keep this up (`Agrees.enter`, `Agrees.link`, `Agrees.extend`).
* `MappedRegistry.Refines` — an operation with maps gives what the one without gives, leaves the types
  that it leaves, and keeps the maps in agreement. All operations do (`refines_importType`), also where
  they are refused half way.
-/

namespace Shader

namespace MappedRegistry

open Outcome Relation Registry

variable {m : MappedRegistry} {t p : TypeRef} {i : TypeInfo} {name : String}

/-! ### Agreement -/

/-- A map gives the places of the entries of a list. -/
def Locates {α : Type} [BEq α] (map : List (α × Nat)) (xs : List α) : Prop :=
  ∀ x k, map.lookup x = some k ↔ xs[k]? = some x

/-- A new entry has the next place. -/
theorem Locates.concat {α : Type} [BEq α] [LawfulBEq α] {map : List (α × Nat)} {xs : List α} {x : α}
    (h : Locates map xs) (hx : x ∉ xs) : Locates ((x, xs.length) :: map) (xs ++ [x]) := by
  intro y k
  rw [List.lookup_cons]
  by_cases hy : y = x
  · rw [hy, beq_self_eq_true]
    grind
  · rw [beq_false_of_ne hy, h y k]
    grind

/-- **The maps agree with the types.** -/
structure Agrees (m : MappedRegistry) : Prop where
  indexed : m.toRegistry.Indexed
  sound : ∀ name t, m.byName.lookup name = some t → m.Named t name
  found : ∀ t i, m.info? t = some i → m.byName.lookup i.name = some t
  count : m.members.length = m.size
  /-- The members of a struct are found by their names, alone or with the names of their types. -/
  members : ∀ t i, m.info? t = some i → ∃ ms : List (String × String),
    ms.map Prod.fst = i.memberNames ∧ Locates (m.maps t).byName i.memberNames ∧
    Locates (m.maps t).byNameAndType ms ∧ ∀ (k : Nat) n typeName, ms[k]? = some (n, typeName) →
      ∃ u, i.parts[k]? = some u ∧ m.Named u typeName

theorem agrees_empty : Agrees {} := by
  refine ⟨indexed_empty, nofun, ?_, rfl, ?_⟩
  all_goals
    intro t i hi
    simp [info?] at hi

section Agrees

variable (h : m.Agrees)
include h

/-- **Types are found by their names**, with the map or without. -/
theorem Agrees.find?_eq (name : String) : m.find? name = m.toRegistry.find? name := by
  refine Option.ext fun t => ⟨fun ht => ?_, fun ht => ?_⟩
  · exact h.indexed.find?_eq_some_iff.mpr (h.sound name t ht)
  · obtain ⟨i, hi, rfl⟩ := find?_eq_some ht
    exact h.found t i hi

theorem Agrees.byName (hi : m.info? t = some i) : Locates (m.maps t).byName i.memberNames := by
  obtain ⟨_, -, hlocates, -⟩ := h.members t i hi
  exact hlocates

/-- The second map asks for the name of the type as well. -/
theorem Agrees.byNameAndType (hi : m.info? t = some i) (n typeName : String) (k : Nat) :
    (m.maps t).byNameAndType.lookup (n, typeName) = some k ↔
      i.memberNames[k]? = some n ∧ ∃ u, i.parts[k]? = some u ∧ m.Named u typeName := by
  obtain ⟨ms, hnames, -, hlocates, htypes⟩ := h.members t i hi
  rw [hlocates, ← hnames, List.getElem?_map, Option.map_eq_some_iff]
  constructor
  · exact fun hk => ⟨⟨_, hk, rfl⟩, htypes k n typeName hk⟩
  · rintro ⟨⟨⟨_, typeName'⟩, hk, rfl⟩, u, hu, hnamed⟩
    obtain ⟨u', hu', hnamed'⟩ := htypes k _ typeName' hk
    cases hu.symm.trans hu'
    rw [hnamed.unique hnamed']
    exact hk

/-- A map has an entry for each member, and so for no name that is new. -/
theorem Agrees.lookup_isSome (hi : m.info? t = some i) (name : String) :
    ((m.maps t).byName.lookup name).isSome = true ↔ name ∈ i.memberNames := by
  rw [Option.isSome_iff_exists, List.mem_iff_getElem?]
  exact exists_congr fun k => h.byName hi name k

/-- **A type with a new name.** It has no members yet, and the members of others are as before. -/
theorem Agrees.enter (hname : m.toRegistry.find? i.name = none) (hnames : i.memberNames = [])
    (hparts : i.kind = .struct → i.parts = []) (hpointee : i.pointee = none)
    (hpointer : i.pointer = none) : (m.enter i).Agrees := by
  refine ⟨h.indexed.enter hname hnames hparts hpointee hpointer, fun n u hu => ?_, fun u j hj => ?_, ?_,
    fun u j hj => ?_⟩
  · rw [MappedRegistry.enter, List.lookup_cons] at hu
    split at hu
    · next hn =>
      cases hu
      exact ⟨i, by rw [MappedRegistry.enter, info?_push, if_pos rfl], (eq_of_beq hn).symm⟩
    · exact named_push (h.sound n u hu) i
  · rw [MappedRegistry.enter, List.lookup_cons]
    rcases info?_push_cases hj with ⟨rfl, rfl⟩ | hj
    · rw [beq_self_eq_true]
    · rw [beq_false_of_ne (find?_eq_none hname hj)]
      exact h.found u j hj
  · rw [MappedRegistry.enter, List.length_append, h.count]
    exact (size_push m.toRegistry i).symm
  · rcases info?_push_cases hj with ⟨rfl, rfl⟩ | hj
    · have hempty : (m.enter j).maps ⟨m.size⟩ = {} := by
        rw [maps, MappedRegistry.enter, List.getElem?_append_right (Nat.le_of_eq h.count)]
        simp [h.count]
      rw [hempty, hnames]
      exact ⟨[], rfl, fun _ _ => ⟨nofun, nofun⟩, fun _ _ => ⟨nofun, nofun⟩, nofun⟩
    · have hold : (m.enter i).maps u = m.maps u := by
        rw [maps, maps, MappedRegistry.enter,
          List.getElem?_append_left (h.count ▸ index_lt_of_info? hj)]
      obtain ⟨ms, hms, hlocates, hlocates', htypes⟩ := h.members u j hj
      rw [hold]
      refine ⟨ms, hms, hlocates, hlocates', fun k n typeName hk => ?_⟩
      exact (htypes k n typeName hk).imp fun v hv => ⟨hv.1, named_push hv.2 i⟩

/-- **Linking a pointer type** touches neither names nor members. -/
theorem Agrees.link {j : TypeInfo} (hi : m.info? t = some i) (hj : m.info? p = some j)
    (hpointer : i.pointer = none) (hname : j.name = pointerName i.name) :
    Agrees { m with toRegistry := m.toRegistry.link t p } := by
  have hstep : ReflTransGen Step m.toRegistry (m.toRegistry.link t p) :=
    .single (.link hi hj hpointer hname)
  refine ⟨h.indexed.link hi hj hpointer hname, fun n u hu => named_of_steps hstep (h.sound n u hu), ?_,
    h.count.trans (size_link m.toRegistry t p).symm, ?_⟩ <;>
    simp only [info?_link, Option.map_eq_some_iff]
  · rintro u _ ⟨x, hx, rfl⟩
    exact h.found u x hx
  · rintro u _ ⟨x, hx, rfl⟩
    obtain ⟨ms, hms, hlocates, hlocates', htypes⟩ := h.members u x hx
    refine ⟨ms, hms, hlocates, hlocates', fun k n typeName hk => ?_⟩
    exact (htypes k n typeName hk).imp fun v hv => ⟨hv.1, named_of_steps hstep hv.2⟩

end Agrees

/-- A registry with one more member in a struct, and in its maps. -/
def extend (m : MappedRegistry) (owner member : TypeRef) (name typeName : String) (index : Nat) :
    MappedRegistry where
  toRegistry := m.toRegistry.extend owner member name
  byName := m.byName
  members := m.members.modify owner.index fun maps =>
    ⟨(name, index) :: maps.byName, ((name, typeName), index) :: maps.byNameAndType⟩

theorem maps_extend (h : m.Agrees) (hi : m.info? t = some i) (member : TypeRef) (name typeName : String)
    (index : Nat) (u : TypeRef) :
    (m.extend t member name typeName index).maps u = if u = t then
      ⟨(name, index) :: (m.maps t).byName, ((name, typeName), index) :: (m.maps t).byNameAndType⟩
    else m.maps u := by
  have hlt : t.index < m.members.length := h.count ▸ index_lt_of_info? hi
  rw [maps, maps, maps, extend,
    getElem?_modify_of_injective (fun ⟨_⟩ ⟨_⟩ => congrArg TypeRef.mk) m.members _ t u]
  split
  · next hu => simp [hu, List.getElem?_eq_getElem hlt]
  · rfl

/-- **A new member** of a struct. Its number is that of the names before it, which are distinct from it,
and the name of its type is the one that the type has from then on. -/
theorem Agrees.extend (h : m.Agrees) {j : TypeInfo} {member : TypeRef} (hi : m.info? t = some i)
    (hkind : i.kind = .struct) (hj : m.info? member = some j) (hname : name ∉ i.memberNames) :
    (m.extend t member name j.name i.parts.length).Agrees := by
  have hstep : ReflTransGen Step m.toRegistry (m.toRegistry.extend t member name) :=
    .single (.extend member hi hname)
  refine ⟨h.indexed.extend member hi hname, fun n u hu => named_of_steps hstep (h.sound n u hu), ?_, ?_,
    ?_⟩
  · intro u x hx
    rw [MappedRegistry.extend, info?_extend] at hx
    obtain ⟨y, hy, rfl⟩ := Option.map_eq_some_iff.mp hx
    split <;> exact h.found u y hy
  · rw [MappedRegistry.extend, List.length_modify, h.count]
    exact (size_modify m.toRegistry _ _).symm
  · intro u x hx
    rw [MappedRegistry.extend, info?_extend] at hx
    obtain ⟨y, hy, rfl⟩ := Option.map_eq_some_iff.mp hx
    obtain ⟨ms, hms, hlocates, hlocates', htypes⟩ := h.members u y hy
    have hnamed : ∀ (k : Nat) n typeName, ms[k]? = some (n, typeName) → ∃ v, y.parts[k]? = some v ∧
        (m.extend t member name j.name i.parts.length).Named v typeName := fun k n typeName hk =>
      (htypes k n typeName hk).imp fun v hv => ⟨hv.1, named_of_steps hstep hv.2⟩
    rw [maps_extend h hi]
    -- no maps but those of the struct itself change
    by_cases hu : u = t
    · subst hu
      cases hi.symm.trans hy
      have hnumber : i.memberNames.length = i.parts.length := h.indexed.lengths u i hi hkind
      have hnumber' : ms.length = i.parts.length := by rw [← hnumber, ← hms, List.length_map]
      have hnew : (name, j.name) ∉ ms := fun hmem => hname (hms ▸ List.mem_map_of_mem hmem)
      rw [if_pos rfl, if_pos rfl]
      refine ⟨ms ++ [(name, j.name)], by rw [List.map_append, hms]; rfl, hnumber ▸ hlocates.concat hname,
        hnumber' ▸ hlocates'.concat hnew, fun k n typeName hk => ?_⟩
      rw [List.getElem?_append, hnumber'] at hk
      dsimp only
      rw [List.getElem?_append]
      split
      · next hlt =>
        rw [if_pos hlt] at hk
        exact hnamed k n typeName hk
      · next hge =>
        rw [if_neg hge, List.getElem?_singleton] at hk
        split at hk
        · next hlast =>
          cases Option.some.inj hk
          exact ⟨member, by rw [hlast]; rfl, named_of_steps hstep ⟨j, hj, rfl⟩⟩
        · nomatch hk
    · rw [if_neg hu, if_neg hu]
      exact ⟨ms, hms, hlocates, hlocates', hnamed⟩

/-! ### Refinement -/

/-- **Refining an operation.** In agreement, the one with maps gives what the one without gives, and
leaves the types that it leaves, in agreement. -/
def Refines {α : Type} (x : MappedM α) (y : TypeM α) : Prop :=
  ∀ m, m.Agrees → y m.toRegistry = ((x m).1, (x m).2.toRegistry) ∧ (x m).2.Agrees

namespace Refines

variable {α β : Type} {x : MappedM α} {y : TypeM α}

protected theorem pure (a : α) : Refines (pure a) (pure a) := fun _ h => ⟨rfl, h⟩

protected theorem throw (e : IrError) : Refines (throw e : MappedM α) (throw e) := fun _ h => ⟨rfl, h⟩

protected theorem lift (x : Except IrError α) : Refines (liftM x) (liftM x) := fun _ h => ⟨rfl, h⟩

/-- Where a descriptor is asked for, it is there or both stop. -/
protected theorem info {r : Registry} {t : TypeRef} {f : TypeInfo → MappedM α} {g : TypeInfo → TypeM α}
    (h : ∀ i, r.info? t = some i → Refines (f i) (g i)) :
    Refines (liftM (r.info t) >>= f) (liftM (r.info t) >>= g) := by
  rw [Registry.info]
  cases hi : r.info? t with
  | none => exact fun _ hm => ⟨rfl, hm⟩
  | some i => exact h i hi

protected theorem bind {f : α → MappedM β} {g : α → TypeM β} (hx : Refines x y)
    (hf : ∀ a, Refines (f a) (g a)) : Refines (x >>= f) (y >>= g) := by
  intro m hm
  obtain ⟨hy, hagrees⟩ := hx m hm
  rw [bind_apply, bind_apply, hy]
  rcases hxm : x m with ⟨e | a, m'⟩ <;> rw [hxm] at hagrees
  · exact ⟨rfl, hagrees⟩
  · exact hf a m' hagrees

protected theorem map (hx : Refines x y) (f : α → β) : Refines (f <$> x) (f <$> y) := by
  rw [map_eq_pure_bind, map_eq_pure_bind]
  exact hx.bind fun a => .pure (f a)

protected theorem mapM {f : α → MappedM β} {g : α → TypeM β} (hf : ∀ a, Refines (f a) (g a))
    (as : List α) : Refines (as.mapM f) (as.mapM g) := by
  induction as with
  | nil => exact .pure []
  | cons a as ih =>
    rw [List.mapM_cons, List.mapM_cons]
    exact .bind (hf a) fun b => .bind ih fun bs => .pure (b :: bs)

end Refines

theorem Agrees.intern (h : m.Agrees) (name : String) (kind : Kind) (count : Nat)
    (component : Option TypeRef) :
    m.toRegistry.intern name kind count component =
        ((m.intern name kind count component).1, (m.intern name kind count component).2.toRegistry) ∧
      (m.intern name kind count component).2.Agrees := by
  have hfind := h.find?_eq name
  rw [MappedRegistry.intern, Registry.intern, ← hfind]
  cases hname : m.find? name with
  | some t => exact ⟨rfl, h⟩
  | none => exact ⟨rfl, h.enter (hfind.symm.trans hname) rfl (fun _ => rfl) rfl rfl⟩

theorem refines_intern (name : String) (kind : Kind) (count : Nat) (component : Option TypeRef) :
    Refines (modifyGet (·.intern name kind count component))
      (modifyGet (·.intern name kind count component)) := by
  intro m hm
  obtain ⟨heq, hagrees⟩ := hm.intern name kind count component
  rw [modifyGet_apply, modifyGet_apply, heq]
  exact ⟨rfl, hagrees⟩

theorem refines_functionType (result : TypeRef) (parameters : List TypeRef) :
    Refines (functionType result parameters) (Registry.functionType result parameters) := by
  intro m hm
  refine Refines.bind (.mapM (fun p => .lift (m.nameOf p)) parameters) (fun names =>
    .bind (.lift (m.nameOf result)) fun name => ?_) m hm
  dsimp only
  rw [← hm.find?_eq]
  cases hname : m.find? (signatureName name names) with
  | some t => exact .pure t
  | none =>
    exact fun _ _ => ⟨rfl, hm.enter ((hm.find?_eq _).symm.trans hname) rfl nofun rfl rfl⟩

theorem refines_pointerType (t : TypeRef) : Refines (pointerType t) (Registry.pointerType t) := by
  intro m hm
  refine Refines.info (fun i hi => ?_) m hm
  cases hpointer : i.pointer with
  | some p => exact .pure p
  | none =>
    obtain ⟨heq, hagrees⟩ := hm.intern (pointerName i.name) .pointer 0 none
    have hnamed := named_intern m.toRegistry (pointerName i.name) .pointer 0 none
    have hi' := info?_intern_of_some hi (pointerName i.name) .pointer 0 none
    rw [heq] at hnamed hi' ⊢
    obtain ⟨j, hj, hname⟩ := hnamed
    exact fun _ _ => ⟨rfl, hagrees.link hi' hj hpointer hname⟩

theorem refines_addMember (owner member : TypeRef) (name : String) :
    Refines (addMember owner member name) (Registry.addMember owner member name) := by
  intro m hm
  refine Refines.info (fun i hi => ?_) m hm
  by_cases hkind : i.kind = .struct
  · rw [if_neg (not_not.mpr hkind), if_neg (not_not.mpr hkind)]
    by_cases hname : name ∈ i.memberNames
    · rw [if_pos hname, if_pos ((hm.lookup_isSome hi name).mpr hname)]
      exact .throw _
    · rw [if_neg hname, if_neg (mt (hm.lookup_isSome hi name).mp hname)]
      exact .info fun j hj _ _ => ⟨rfl, hm.extend hi hkind hj hname⟩
  · rw [if_pos hkind, if_pos hkind]
    exact .throw _

theorem refines_importMembers {copy : TypeRef → MappedM TypeRef} {copy' : TypeRef → TypeM TypeRef}
    (hcopy : ∀ t, Refines (copy t) (copy' t)) (owner : TypeRef) (members : List (TypeRef × String)) :
    Refines (importMembers copy owner members) (Registry.importMembers copy' owner members) := by
  induction members with
  | nil => exact .pure ()
  | cons member members ih =>
    exact .bind (hcopy member.1) fun t => .bind (refines_addMember owner t member.2) fun _ => ih

theorem refines_importWithin (source : Registry) (depth : Nat) (t : TypeRef) :
    Refines (importWithin source depth t) (Registry.importWithin source depth t) := by
  induction depth generalizing t with
  | zero => exact .throw _
  | succ depth ih =>
    refine .bind (.lift (source.info t)) fun i m hm => ?_
    rw [bind_apply, bind_apply]
    dsimp only [get_apply]
    rw [← hm.find?_eq i.name]
    cases m.find? i.name with
    | some u => exact Refines.pure u m hm
    | none =>
      have hcomponent : Refines (i.component.mapM (importWithin source depth))
          (i.component.mapM (Registry.importWithin source depth)) := by
        cases i.component with
        | none => exact .pure none
        | some c => exact .bind (ih c) fun c' => .pure (some c')
      refine Refines.bind hcomponent (fun component => ?_) m hm
      cases i.kind with
      | pointer =>
        cases i.pointee with
        | none => exact .throw _
        | some p => exact .bind (ih p) refines_pointerType
      | function =>
        refine .bind (.mapM ih i.parts) fun parts => ?_
        cases parts with
        | nil => exact .throw _
        | cons result parameters => exact refines_functionType result parameters
      | struct =>
        exact .bind (refines_intern i.name .struct 0 none) fun owner =>
          .bind (refines_importMembers ih owner _) fun _ => .pure owner
      | _ => exact refines_intern i.name _ i.count component

theorem refines_importType (source : Registry) (t : TypeRef) :
    Refines (importType source t) (Registry.importType source t) :=
  refines_importWithin source _ t

end MappedRegistry

end Shader
