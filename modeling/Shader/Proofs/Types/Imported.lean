import Shader.Proofs.Types.Indexed
import Shader.Proofs.Types.Layers
import Shader.Proofs.Types.Remembered

/-!
# Imported types are faithful

A registry that is built with the usual operations can be read off by names: the types that a type
refers to are there, and the name of a pointer type or of a function type says what it is made of
(`Regular`). So a copy of one of its types in another registry says the same, provided that the other
registry does not have a different type of one of the names (`Agrees`).
-/

namespace Shader.Registry

open Outcome Relation

variable {source r r' : Registry} {s t u v : TypeRef} {i j : TypeInfo} {name : String}

/-! ### Registries that are built with the operations -/

/-- **Built registries.** No name that is chosen freely is that of a pointer type. In between, layouts
may be worked out and remembered. -/
inductive Built : Registry → Prop
  | empty : Built {}
  | lowerBuiltin {r : Registry} (h : Built r) (spec : TypeSpec) : Built (lowerBuiltin spec r).2
  | createStruct {r : Registry} (h : Built r) {name : String} (hname : ∀ n, name ≠ pointerName n) :
    Built (r.internStruct name).2
  | createArray {r : Registry} (h : Built r) {name : String} (hname : ∀ n, name ≠ pointerName n)
    (count : Nat) {element : TypeRef} (helement : element.index < r.size) :
    Built (r.intern name .array count (some element)).2
  | addMember {r : Registry} (h : Built r) (owner member : TypeRef) (name : String) :
    Built (addMember owner member name r).2
  | pointerType {r : Registry} (h : Built r) (t : TypeRef) : Built (pointerType t r).2
  | functionType {r : Registry} (h : Built r) (result : TypeRef) (parameters : List TypeRef) :
    Built (functionType result parameters r).2
  | remember {r r' : Registry} (h : Built r)
    (hsame : ∀ t, (r'.info? t).map bare = (r.info? t).map bare) : Built r'

/-- **A type of a built registry.** It has no more than what is copied of it, and outside of structs it
refers to types that are older. -/
structure Formed (r : Registry) (t : TypeRef) (i : TypeInfo) : Prop where
  blue : blueprint i = { i with pointer := none, functions := [], layout := none }
  proper : r.Proper i
  nodup : i.memberNames.Nodup
  pointer : ∀ n, i.name = pointerName n → i.kind = .pointer
  parts : ∀ u ∈ i.parts, u.index < r.size
  nested : ∀ u, i.component = some u ∨ i.pointee = some u ∨ i.kind ≠ .struct ∧ u ∈ i.parts →
    u.index < t.index

structure Regular (r : Registry) : Prop where
  apart : r.NamesApart
  formed : ∀ t i, r.info? t = some i → r.Formed t i

/-- Types stay what they are while others are entered, and pointers and layouts become known. -/
theorem Formed.mono (h : r.Formed t i) (hnamed : ∀ u name, r.Named u name → r'.Named u name)
    (pointer : Option TypeRef) (layout : Option Layout) :
    r'.Formed t { i with pointer := pointer, layout := layout } where
  blue := h.blue
  proper := by
    refine ⟨fun hkind => ?_, fun hkind => ?_, h.proper.struct⟩
    · obtain ⟨p, name, hp, hn, hname⟩ := h.proper.pointer hkind
      exact ⟨p, name, hp, hnamed p name hn, hname⟩
    · obtain ⟨result, ps, resultName, names, hparts, hresult, hps, hname⟩ := h.proper.function hkind
      exact ⟨result, ps, resultName, names, hparts, hnamed _ _ hresult, hps.imp hnamed, hname⟩
  nodup := h.nodup
  pointer := h.pointer
  parts u hu := by
    obtain ⟨name, hn⟩ := exists_named (h.parts u hu)
    exact (hnamed u name hn).index_lt
  nested := h.nested

theorem Regular.push (h : r.Regular) (hnew : r.find? i.name = none) (hi : r.Formed ⟨r.size⟩ i) :
    (r.push i).Regular := by
  refine ⟨NamesApart.push h.apart hnew, fun t j hj => ?_⟩
  rcases info?_push_cases hj with ⟨rfl, rfl⟩ | hj
  · exact hi.mono (fun _ _ hn => named_push hn j) _ _
  · exact (h.formed t j hj).mono (fun _ _ hn => named_push hn i) _ _

/-- Entering a type without parts. -/
theorem Regular.intern (h : r.Regular) (kind : Kind) (hpointer : kind ≠ .pointer)
    (hfunction : kind ≠ .function) (hname : ∀ n, name ≠ pointerName n) (count : Nat)
    {component : Option TypeRef} (hcomponent : ∀ c, component = some c → c.index < r.size)
    (hstruct : kind = .struct → count = 0 ∧ component = none) :
    (r.intern name kind count component).2.Regular := by
  rcases r.intern_cases name kind count component with ⟨_, -, heq⟩ | ⟨hnew, heq⟩ <;> rw [heq]
  · exact h
  · refine h.push hnew ⟨?_, ⟨fun hkind => absurd hkind hpointer, fun hkind => absurd hkind hfunction,
      fun hkind => (hstruct hkind).2⟩, List.nodup_nil, fun n hn => absurd hn (hname n),
      List.forall_mem_nil _, ?_⟩
    · by_cases hkind : kind = .struct
      · obtain ⟨rfl, rfl⟩ := hstruct hkind
        subst hkind
        rfl
      · exact blueprint_plain hpointer hfunction hkind
    · rintro u (hu | hu | ⟨-, hu⟩)
      · exact hcomponent u hu
      · cases hu
      · cases hu

/-- A type of the right name points to the right type already. -/
theorem Regular.pointerType (h : r.Regular) (t : TypeRef) : (pointerType t r).2.Regular := by
  rcases hrun : Registry.pointerType t r with ⟨e | p, r'⟩
  · rw [pointerType_error hrun]
    exact h
  have hsteps := (moves_pointerType t).steps hrun
  obtain ⟨i, hi, ⟨-, rfl⟩ | ⟨-, hp, rfl⟩⟩ := pointerType_cases hrun
  · exact h
  refine ⟨apart_of_steps hsteps h.apart, fun u j hj => ?_⟩
  have hmono := fun k hk pointer =>
    (h.formed u k hk).mono (fun _ _ => named_of_steps hsteps) pointer k.layout
  dsimp only at hj
  rw [info?_link, Option.map_eq_some_iff] at hj
  obtain ⟨k, hk, rfl⟩ := hj
  rcases r.intern_cases (pointerName i.name) .pointer 0 none with ⟨q, hfind, heq⟩ | ⟨-, heq⟩
  · -- found by its name, which tells what it points to
    rw [heq] at hp hk
    obtain rfl : p = q := hp
    by_cases hu : u = p
    · subst hu
      obtain ⟨k', hk', hname⟩ := find?_eq_some hfind
      cases hk.symm.trans hk'
      have hformed := h.formed u k hk
      obtain ⟨t', name, ht', hn, hname'⟩ := hformed.proper.pointer (hformed.pointer _ hname)
      obtain rfl := pointerName_inj (hname.symm.trans hname')
      obtain rfl := NamesApart.eq_of_named h.apart ⟨i, hi, rfl⟩ hn
      rw [if_pos rfl, ← ht']
      exact hmono k hk _
    · rw [if_neg hu]
      exact hmono k hk _
  · rw [heq] at hp hk
    obtain rfl : p = ⟨r.size⟩ := hp
    rcases info?_push_cases hk with ⟨rfl, rfl⟩ | hk
    · rw [if_pos rfl]
      have hnamed := named_of_steps hsteps ⟨i, hi, rfl⟩
      refine ⟨rfl, ⟨fun _ => ⟨t, i.name, rfl, hnamed, rfl⟩, nofun, nofun⟩, List.nodup_nil,
        fun _ _ => rfl, List.forall_mem_nil _, ?_⟩
      rintro v (hv | hv | ⟨-, hv⟩)
      · cases hv
      · exact Option.some.inj hv ▸ index_lt_of_info? hi
      · cases hv
    · rw [if_neg (ne_size_of_info? hk)]
      exact hmono k hk _

theorem Regular.functionType (h : r.Regular) (result : TypeRef) (parameters : List TypeRef) :
    (functionType result parameters r).2.Regular := by
  rw [functionType_apply]
  split
  · exact h
  · next name hname =>
    split
    · exact h
    · next hnew =>
      obtain ⟨resultName, names, hresult, hps, rfl⟩ := signatureOf_eq_ok.mp hname
      have hlt : ∀ u ∈ result :: parameters, u.index < r.size := by
        intro u hu
        obtain ⟨_, -, hn⟩ := forall₂_exists_of_mem (.cons hresult hps) hu
        exact Named.index_lt hn
      refine h.push hnew ⟨rfl, ⟨nofun, fun _ => ⟨result, parameters, resultName, names, rfl, hresult, hps,
        rfl⟩, nofun⟩, List.nodup_nil, fun n hn => ?_, hlt, ?_⟩
      · have hhead := congrArg (fun s => (String.toList s).head?) hn
        simp [toList_pointerName, toList_signatureName] at hhead
      · rintro u (hu | hu | ⟨-, hu⟩)
        · cases hu
        · cases hu
        · exact hlt u hu

theorem Regular.addMember (h : r.Regular) (owner member : TypeRef) (name : String) :
    (addMember owner member name r).2.Regular := by
  rcases hrun : Registry.addMember owner member name r with ⟨e | n, r'⟩
  · rw [addMember_error hrun]
    exact h
  have hsteps := (moves_addMember owner member name).steps hrun
  obtain ⟨i, k, hi, hk, hkind, hnew, -, rfl⟩ := addMember_cases hrun
  refine ⟨apart_of_steps hsteps h.apart, fun u j hj => ?_⟩
  rw [info?_extend, Option.map_eq_some_iff] at hj
  obtain ⟨j, hj, rfl⟩ := hj
  have hmono : ∀ pointer layout, (r.extend owner member name).Formed u
      { j with pointer := pointer, layout := layout } :=
    (h.formed u j hj).mono fun _ _ => named_of_steps hsteps
  split
  · next hu =>
    subst hu
    cases hi.symm.trans hj
    have hformed := hmono i.pointer none
    refine { hformed with blue := ?_, proper := ?_, nodup := ?_, parts := ?_, nested := ?_ }
    · have hblue := (h.formed u i hi).blue
      rw [blueprint_struct hkind] at hblue
      simp only [structOf, TypeInfo.mk.injEq, hkind] at hblue
      obtain ⟨-, -, hcount, hcomponent, hpointee, hparts, hnames, -⟩ := hblue
      -- a member has a part and a name, so the blueprint grows by both
      have hlength : i.parts.length = i.memberNames.length := by
        have hparts := congrArg List.length hparts
        have hnames := congrArg List.length hnames
        simp only [List.length_map, List.length_zip] at hparts hnames
        omega
      unfold blueprint
      simp only [hkind, structOf, List.zip_append hlength, List.map_append, hparts, hnames, ← hcount,
        ← hcomponent, ← hpointee]
      rfl
    · refine ⟨fun hp => ?_, fun hf => ?_, hformed.proper.struct⟩
      · cases hkind.symm.trans hp
      · cases hkind.symm.trans hf
    · have hconcat := (h.formed u i hi).nodup.concat hnew
      rwa [List.concat_eq_append] at hconcat
    · refine List.forall_mem_append.mpr ⟨hformed.parts, List.forall_mem_singleton.mpr ?_⟩
      exact (named_of_steps hsteps ⟨k, hk, rfl⟩).index_lt
    · rintro v (hv | hv | ⟨hne, -⟩)
      · exact hformed.nested v (.inl hv)
      · exact hformed.nested v (.inr (.inl hv))
      · exact absurd hkind hne
  · exact hmono _ _

/-- **Registries that are built are regular**, by induction on how. -/
theorem Built.regular (h : Built r) : r.Regular := by
  induction h with
  | empty => exact ⟨fun _ _ _ _ h => (nomatch h), fun _ _ h => (nomatch h)⟩
  | @lowerBuiltin r _ spec ih =>
    rw [lowerBuiltin_apply]
    cases henter : r.enterBuiltin spec with
    | error e => exact ih
    | ok p =>
      refine (enterBuiltin_rule (P := Regular) (fun {r spec component name} hr hname hc => ?_) ih henter).1
      have hkind := builtinKind_ne spec
      refine hr.intern _ hkind.1 hkind.2.1 (fun n hn => ?_) _ (fun c hmem => ?_) (absurd · hkind.2.2)
      · exact not_valueName_pointerName n (.inl ⟨spec, hn ▸ hname⟩)
      · obtain ⟨_, _, _, -, -, hnamed⟩ := hc.of_some hmem
        exact hnamed.index_lt
  | createStruct _ hname ih =>
    exact ih.intern .struct nofun nofun hname 0 (fun _ hc => nomatch hc) fun _ => ⟨rfl, rfl⟩
  | createArray _ hname count helement ih =>
    exact ih.intern .array nofun nofun hname count (fun c hc => Option.some.inj hc ▸ helement) nofun
  | addMember _ owner member name ih => exact ih.addMember owner member name
  | pointerType _ t ih => exact ih.pointerType t
  | functionType _ result parameters ih => exact ih.functionType result parameters
  | @remember r r' _ hsame ih =>
    have hback : ∀ {t i}, r'.info? t = some i →
        ∃ j, r.info? t = some j ∧ i = { j with layout := i.layout } := by
      intro t i hi
      have hbare := hsame t
      rw [hi] at hbare
      obtain ⟨j, hj, hbare⟩ := Option.map_eq_some_iff.mp hbare.symm
      exact ⟨j, hj, congrArg (fun k => { k with layout := i.layout }) hbare.symm⟩
    have hnamed : ∀ t name, r.Named t name → r'.Named t name := by
      rintro t _ ⟨i, hi, rfl⟩
      have hbare := hsame t
      rw [hi] at hbare
      obtain ⟨j, hj, hbare⟩ := Option.map_eq_some_iff.mp hbare
      exact ⟨j, hj, congrArg (·.name) hbare⟩
    refine ⟨fun t t' i i' hi hi' hname => ?_, fun t i hi => ?_⟩
    · obtain ⟨j, hj, hij⟩ := hback hi
      obtain ⟨j', hj', hij'⟩ := hback hi'
      rw [hij, hij'] at hname
      exact ih.apart t t' j j' hj hj' hname
    · obtain ⟨j, hj, hij⟩ := hback hi
      rw [hij]
      exact (ih.formed t j hj).mono hnamed _ _

/-! ### Registries that agree -/

/-- **Agreeing registries.** Types of the same name say the same. -/
def Agrees (source r : Registry) : Prop :=
  ∀ s j v i, source.info? s = some j → r.info? v = some i → i.name = j.name → Mirrors source r j i

theorem Agrees.mirrors (h : Agrees source r) (hv : Namesakes source r s v) :
    ∃ j i, source.info? s = some j ∧ r.info? v = some i ∧ Mirrors source r j i := by
  obtain ⟨_, ⟨j, hj, rfl⟩, i, hi, hname⟩ := hv
  exact ⟨j, i, hj, hi, h s j v i hj hi hname⟩

theorem Mirrors.componentOf (h : Mirrors source r j i) :
    (∃ e, Registry.componentOf j = .error e ∧ Registry.componentOf i = .error e) ∨
      ∃ c c', Registry.componentOf j = .ok c ∧ Registry.componentOf i = .ok c' ∧
        Namesakes source r c c' := by
  unfold Registry.componentOf
  rw [h.name]
  have hcomponent := h.component
  generalize j.component = o, i.component = o' at hcomponent ⊢
  cases hcomponent with
  | some hnames => exact .inr ⟨_, _, rfl, rfl, hnames⟩
  | none => exact .inl ⟨_, rfl, rfl⟩

variable {depth : Nat}

theorem Faithful.layout_eq (h : r.Faithful) (hs : Shallow r.RestsOn depth s) :
    (Registry.layout s r).1 = r.shapeLayout s := by
  obtain ⟨_, hlayout, -⟩ := layout_answers (S := fun _ => True) (fun _ _ _ _ => True.intro) hs
    True.intro r (.refl fun t l _ => h t l)
  rw [hlayout]

section

variable (h : Agrees source r)
include h

/-- The rules ask for the layouts of types with the same names. -/
theorem Agrees.asked (hm : Mirrors source r j i) :
    (∃ e, source.asked j = .error e ∧ r.asked i = .error e) ∨
      ∃ ts us, source.asked j = .ok ts ∧ r.asked i = .ok us ∧
        List.Forall₂ (Namesakes source r) ts us := by
  unfold Registry.asked
  rw [hm.kind, hm.name]
  cases j.kind with
  | bool | int | float => exact .inr ⟨[], [], rfl, rfl, .nil⟩
  | vector | array =>
    rcases hm.componentOf with ⟨e, hj, hi⟩ | ⟨c, c', hj, hi, hc⟩ <;> simp only [hj, hi]
    · exact .inl ⟨e, rfl, rfl⟩
    · exact .inr ⟨[c], [c'], rfl, rfl, .cons hc .nil⟩
  | matrix =>
    rcases hm.componentOf with ⟨e, hj, hi⟩ | ⟨c, c', hj, hi, hc⟩ <;> simp only [hj, hi]
    · exact .inl ⟨e, rfl, rfl⟩
    · obtain ⟨k, k', hk, hk', hcolumn⟩ := h.mirrors hc
      rcases hcolumn.componentOf with ⟨e, hj, hi⟩ | ⟨d, d', hj, hi, hd⟩ <;>
        simp only [hj, hi, bind, Except.bind, info_eq hk, info_eq hk']
      · exact .inl ⟨e, rfl, rfl⟩
      · exact .inr ⟨[d], [d'], rfl, rfl, .cons hd .nil⟩
  | struct => exact .inr ⟨j.parts, i.parts, rfl, rfl, hm.parts⟩
  | _ => exact .inl ⟨_, rfl, rfl⟩

theorem Agrees.compose (hm : Mirrors source r j i) (ls : List Layout) :
    r.compose i ls = source.compose j ls := by
  unfold Registry.compose
  rw [hm.kind, hm.count]
  cases j.kind with
  | array =>
    rcases hm.componentOf with ⟨e, hj, hi⟩ | ⟨c, c', hj, hi, hc⟩ <;> simp only [hj, hi]
    · rfl
    · obtain ⟨k, k', hk, hk', helement⟩ := h.mirrors hc
      simp only [bind, Except.bind, info_eq hk, info_eq hk', helement.kind]
  | _ => rfl

/-- Layouts by the rules alone, by induction on the depth. -/
theorem Agrees.shapeLayoutWithin (hs : Shallow source.RestsOn depth s)
    (hv : Namesakes source r s v) :
    Shallow r.RestsOn depth v ∧ r.shapeLayoutWithin depth v = source.shapeLayoutWithin depth s := by
  induction depth generalizing s v with
  | zero => exact hs.elim
  | succ depth ih =>
    obtain ⟨j, i, hj, hi, hm⟩ := h.mirrors hv
    rw [shapeLayoutWithin_succ, shapeLayoutWithin_succ, info_eq hj, info_eq hi]
    rcases h.asked hm with ⟨e, hts, hus⟩ | ⟨ts, us, hts, hus, hnames⟩
    · refine ⟨?_, by simp only [bind, Except.bind, hts, hus]⟩
      rintro u ⟨i', us, hi', hus', -⟩
      cases hi.symm.trans hi'
      cases hus.symm.trans hus'
    · have hbelow : ∀ t ∈ ts, source.RestsOn s t := fun t ht => ⟨j, ts, hj, hts, ht⟩
      refine ⟨?_, ?_⟩
      · rintro u ⟨i', us', hi', hus', hu⟩
        cases hi.symm.trans hi'
        cases hus.symm.trans hus'
        obtain ⟨t, ht, htu⟩ := forall₂_exists_of_mem hnames.flip hu
        exact (ih (hs t (hbelow t ht)) htu).1
      · have hmap : ts.mapM (source.shapeLayoutWithin depth) = us.mapM (r.shapeLayoutWithin depth) :=
          mapM_congr (((List.forall₂_and_left ..).mpr ⟨hbelow, hnames⟩).imp
            fun t u htu => (ih (hs t htu.1) htu.2).2.symm)
        simp only [bind, Except.bind, hts, hus, hmap, h.compose hm]

/-- **Types of the same name have the same layout**, or fail to have one for the same reason. -/
theorem Agrees.layout (hsource : source.Faithful) (hr : r.Faithful)
    (hs : ∀ w, ReflTransGen source.RestsOn s w → ¬ TransGen source.RestsOn w w)
    (hv : Namesakes source r s v) : (Registry.layout v r).1 = (Registry.layout s source).1 := by
  have hshallow : Shallow source.RestsOn (source.size + 1) s :=
    shallow_of_forall RestsOn.index_lt hs (Nat.le_refl _)
  obtain ⟨hshallow', heq⟩ := h.shapeLayoutWithin hshallow hv
  rw [hsource.layout_eq hshallow, hr.layout_eq hshallow']
  calc r.shapeLayout v = r.shapeLayoutWithin (max (r.size + 1) (source.size + 1)) v :=
        (hshallow'.bounded.shapeLayoutWithin_eq (Nat.le_max_left ..)).symm
    _ = r.shapeLayoutWithin (source.size + 1) v := hshallow'.shapeLayoutWithin_eq (Nat.le_max_right ..)
    _ = source.shapeLayout s := heq

end

/-! ### The copy of a type -/

/-- What the descriptor of a type refers to. -/
def Mentions (r : Registry) (t u : TypeRef) : Prop :=
  ∃ i, r.info? t = some i ∧ (i.component = some u ∨ i.pointee = some u ∨ u ∈ i.parts)

theorem Regular.index_lt_of_refers (h : source.Regular) (ht : t.index < source.size)
    (hs : ReflTransGen source.Refers t s) : s.index < source.size := by
  induction hs with
  | refl => exact ht
  | tail _ hu ih =>
    cases hu with
    | component hi hu => exact ((h.formed _ _ hi).nested _ (.inl hu)).trans ih
    | pointee hi _ hu => exact ((h.formed _ _ hi).nested _ (.inr (.inl hu))).trans ih
    | part hi _ hu => exact (h.formed _ _ hi).parts _ hu

/-- Outside of structs, every way down leads to older types. -/
theorem Regular.shallow_nests (h : source.Regular) (hs : s.index < depth) :
    Shallow source.Nests depth s := by
  induction depth generalizing s with
  | zero => exact absurd hs (Nat.not_lt_zero _)
  | succ depth ih =>
    rintro u ⟨hu, hkind⟩
    refine ih (Nat.lt_of_lt_of_le ?_ (Nat.lt_succ_iff.mp hs))
    cases hu with
    | component hi hu => exact (h.formed _ _ hi).nested u (.inl hu)
    | pointee hi _ hu => exact (h.formed _ _ hi).nested u (.inr (.inl hu))
    | part hi _ hu => exact (h.formed _ _ hi).nested u (.inr (.inr ⟨hkind _ hi, hu⟩))

/-- What is new says the same as its original. -/
theorem Copied.agrees (h : Copied source t ∅ r r') (hsource : source.Regular)
    (hagrees : Agrees source r) : Agrees source r' := by
  intro s j v i hj hi hname
  by_cases hold : v.index < r.size
  · obtain ⟨i, _, hi₀, rfl⟩ := h.stays.info?_back hi hold
    exact { (hagrees s j v i hj hi₀ hname).mono h.steps with }
  · have hmirrors := h.mirrors hsource.apart hj hi (Nat.le_of_not_lt hold) hname
    rw [(hsource.formed s j hj).blue] at hmirrors
    exact { hmirrors with }

theorem Copied.faithful (h : Copied source t ∅ r r') (hmemory : r.Faithful) : r'.Faithful := by
  refine Retains.faithful ⟨⟨fun v i hi => ?_, fun _ _ _ _ => True.intro⟩, ?_, ?_⟩ hmemory
  · obtain ⟨_, hi'⟩ := h.stays v i hi
    exact ⟨_, hi', rfl, rfl, rfl, fun _ => rfl⟩
  · refine Nat.le_of_not_lt fun hlt => ?_
    obtain ⟨name, hn⟩ := exists_named (t := ⟨r'.size⟩) hlt
    exact Nat.lt_irrefl _ (named_of_steps h.steps hn).index_lt
  · rintro v l ⟨i, hi, hl⟩
    by_cases hold : v.index < r.size
    · obtain ⟨i, _, hi₀, rfl⟩ := h.stays.info?_back hi hold
      exact ⟨i, hi₀, hl⟩
    · cases (h.drawn v i hi (Nat.le_of_not_lt hold) (Set.notMem_empty v)).1.symm.trans hl

/-- What a type refers to has a namesake wherever the type has one. -/
theorem Agrees.namesakes (h : Agrees source r) (hv : Namesakes source r t v)
    (hs : ReflTransGen source.Mentions t s) : ∃ w, Namesakes source r s w := by
  induction hs with
  | refl => exact ⟨v, hv⟩
  | tail _ hw ih =>
    obtain ⟨v, hv⟩ := ih
    obtain ⟨j, i, hj, -, hm⟩ := h.mirrors hv
    obtain ⟨j', hj', hw⟩ := hw
    cases hj.symm.trans hj'
    rcases hw with hw | hw | hw
    · obtain ⟨v, -, hv⟩ := exists_of_rel_some (hw ▸ hm.component)
      exact ⟨v, hv⟩
    · obtain ⟨v, -, hv⟩ := exists_of_rel_some (hw ▸ hm.pointee)
      exact ⟨v, hv⟩
    · obtain ⟨v, -, hv⟩ := forall₂_exists_of_mem hm.parts hw
      exact ⟨v, hv⟩

/-- **Imported types are faithful.** A type of a built registry can be copied into any registry that
does not have a different type of the same name. The copy bears its name; all that it refers to has a
copy that says the same; types that do not contain themselves have the same layout, or fail to have
one for the same reason; what was there before is as it was; and copying it again finds the copy. So
the registry is again one that the next type can be copied into. -/
theorem importType_faithful {target : Registry} (hsource : Built source) (htarget : target.Indexed)
    (hagrees : Agrees source target) (hmemory : source.Faithful) (hmemory' : target.Faithful)
    (ht : t.index < source.size) :
    ∃ u r', importType source t target = (.ok u, r') ∧ Namesakes source r' t u ∧
      (∀ s, ReflTransGen source.Mentions t s →
        ∃ j v i, source.info? s = some j ∧ r'.info? v = some i ∧ Mirrors source r' j i) ∧
      (∀ s v, Namesakes source r' s v →
        (∀ w, ReflTransGen source.RestsOn s w → ¬ TransGen source.RestsOn w w) →
        (layout v r').1 = (layout s source).1) ∧
      (∀ v i, target.info? v = some i → ∃ pointer, r'.info? v = some { i with pointer := pointer }) ∧
      importType source t r' = (.ok u, r') ∧
      r'.Indexed ∧ Agrees source r' ∧ r'.Faithful := by
  have hregular := hsource.regular
  have hproper : ∀ s i, ReflTransGen source.Refers t s → source.info? s = some i → source.Proper i :=
    fun s i _ hi => (hregular.formed s i hi).proper
  have hreceives : Receives source t target := ⟨htarget.unique, fun _ => htarget⟩
  obtain ⟨u, r', h, -⟩ := importType_succeeds hregular.apart hproper
    (fun _ => hregular.index_lt_of_refers ht) (fun s i _ hi hkind => by
      have hnames := congrArg TypeInfo.memberNames (hregular.formed s i hi).blue
      rw [blueprint_struct hkind] at hnames
      exact (congrArg List.Nodup hnames).mpr (hregular.formed s i hi).nodup)
    (fun _ hs => hregular.shallow_nests (Nat.lt_succ_of_lt (hregular.index_lt_of_refers ht hs)))
    hreceives
  obtain ⟨hcopied, hu⟩ := importWithin_copied hregular.apart hproper _ .refl target u r' hreceives h
  have hindexed := indexed_of_steps hcopied.steps htarget
  have hagrees' := hcopied.agrees hregular hagrees
  have hfaithful := hcopied.faithful hmemory'
  refine ⟨u, r', h, hu, fun s hs => ?_, fun s v hv hends => hagrees'.layout hmemory hfaithful hends hv,
    hcopied.stays, ?_, hindexed, hagrees', hfaithful⟩
  · obtain ⟨v, hv⟩ := hagrees'.namesakes hu hs
    obtain ⟨j, i, hj, hi, hm⟩ := hagrees'.mirrors hv
    exact ⟨j, v, i, hj, hi, hm⟩
  · obtain ⟨_, ⟨j, hj, rfl⟩, hn⟩ := hu
    rw [importType, Nat.succ_mul]
    exact importWithin_ok.mpr ⟨j, hj, .inl ⟨hindexed.find?_eq_some_iff.mpr hn, rfl⟩⟩

/-- A struct that leads to itself by way of a pointer. -/
def nodes : Registry :=
  (addMember ⟨0⟩ ⟨3⟩ "place" (lowerBuiltin (.vector .real 3) (addMember ⟨0⟩ ⟨1⟩ "next"
    (pointerType ⟨0⟩ (internStruct {} "Node").2).2).2).2).2

theorem importType_faithful_nodes :
    nodes.Mentions ⟨0⟩ ⟨1⟩ ∧ nodes.Mentions ⟨1⟩ ⟨0⟩ ∧
      ∃ u r', importType nodes ⟨1⟩ {} = (.ok u, r') ∧ Namesakes nodes r' ⟨1⟩ u ∧
        importType nodes ⟨1⟩ r' = (.ok u, r') := by
  have hname : ∀ n, "Node" ≠ pointerName n := by
    intro n hn
    have hhead := congrArg (fun s => (String.toList s).head?) hn
    rw [toList_pointerName] at hhead
    exact absurd hhead (by simp)
  have hbuilt : Built nodes := .addMember (.lowerBuiltin (.addMember (.pointerType
    (.createStruct .empty hname) ⟨0⟩) ⟨0⟩ ⟨1⟩ "next") (.vector .real 3)) ⟨0⟩ ⟨3⟩ "place"
  have hblank : ∀ i ∈ nodes.types, i.layout = none := by decide
  obtain ⟨u, r', h, hu, -, -, -, hagain, -⟩ := importType_faithful (t := ⟨1⟩) hbuilt indexed_empty
    (fun s j v i _ hi => by simp [info?] at hi)
    (fun t l ⟨i, hi, hl⟩ => by cases (hblank i (List.mem_of_getElem? hi)).symm.trans hl)
    (fun t l ⟨i, hi, _⟩ => by simp [info?] at hi) (by decide)
  exact ⟨⟨_, rfl, .inr (.inr List.mem_cons_self)⟩, ⟨_, rfl, .inr (.inl rfl)⟩, u, r', h, hu, hagain⟩

end Shader.Registry
