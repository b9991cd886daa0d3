import Shader.Proofs.Calls.Bodies
import Shader.Proofs.Machine.Limit

/-!
# What repair changes, and what it does not

Repair gives every placed block one terminator, at its end. Run by the rules of `Machine.Runs`, a
function does the same afterwards as before, unless it fell off the end of a block.
-/

namespace Shader

open Outcome

/-! ### Mended blocks -/

namespace Block

variable {b : Block}

theorem isWellFormed_of_split {before : List Op} {last : Op}
    (hbefore : ∀ op ∈ before, op.isTerminator = false) (hlast : last.isTerminator = true)
    (hops : b.ops = before ++ [last]) : b.isWellFormed = true := by
  have hcount : before.countP Op.isTerminator = 0 :=
    List.countP_eq_zero.mpr fun op hop => by simp [hbefore op hop]
  unfold isWellFormed terminator?
  rw [hops, List.countP_append, hcount, List.countP_singleton, if_pos hlast, List.getLast?_concat,
    Option.filter_some, if_pos hlast]
  rfl

variable {returnType : Option TypeRef} {tail : List Op}

theorem isWellFormed_mended (h : Routine.Fallback returnType tail) :
    (b.mended tail).isWellFormed = true := by
  obtain ⟨before, last, after, -, hbefore, hlast, hcut⟩ := exists_split (h.any b.ops)
  exact isWellFormed_of_split hbefore hlast hcut

/-- **A mended block**: its operations up to and including the first terminator, or all of them and a
return. -/
theorem mended_cases (b : Block) (h : Routine.Fallback returnType tail) :
    (∃ before last after, b.ops = before ++ last :: after ∧
      (∀ op ∈ before, op.isTerminator = false) ∧ last.isTerminator = true ∧
      b.mended tail = { b with ops := before ++ [last] }) ∨
    (∀ op ∈ b.ops, op.isTerminator = false) ∧ b.mended tail = { b with ops := b.ops ++ tail } := by
  by_cases hterminator : b.ops.any Op.isTerminator = true
  · obtain ⟨before, last, after, hops, hbefore, hlast, -⟩ := exists_split hterminator
    refine .inl ⟨before, last, after, hops, hbefore, hlast, ?_⟩
    rw [mended, hops, List.append_assoc, List.cons_append, throughTerminator_split hbefore hlast]
  · have hnone : ∀ op ∈ b.ops, op.isTerminator = false := by simpa using hterminator
    refine .inr ⟨hnone, ?_⟩
    rw [mended, throughTerminator_append_of_none hnone, h.cut]

/-- A well-formed block has nothing to cut off. -/
theorem truncate_mended (h : Routine.Fallback returnType tail) :
    (b.mended tail).hasTerminator = true ∧ (b.mended tail).truncate = b.mended tail := by
  obtain ⟨before, last, after, -, hbefore, hlast, hcut⟩ := exists_split (h.any b.ops)
  rw [hasTerminator, truncate, mended, hcut]
  dsimp only
  rw [throughTerminator_split hbefore hlast]
  exact ⟨by simp [hlast], rfl⟩

end Block

namespace Routine

/-- A block that is in order is left alone. -/
theorem repairBlock_eq_self {f : Routine} {id : BlockId} (returnType : Option TypeRef)
    (h : ∀ b, f.block? id = some b → b.hasTerminator = true ∧ b.truncate = b) :
    repairBlock returnType f id = f := by
  unfold repairBlock
  split
  · rfl
  · next b hb =>
    obtain ⟨hterminator, htruncate⟩ := h b hb
    have hblocks : f.blocks.modify id.index Block.truncate = f.blocks := by
      refine List.ext_getElem? fun i => ?_
      rw [List.getElem?_modify]
      by_cases hi : id.index = i
      · subst hi
        have hb' : f.blocks[id.index]? = some b := hb
        simp [hb', htruncate]
      · cases f.blocks[i]? <;> simp [hi]
    rw [if_pos hterminator, modifyBlock, hblocks]

/-- **Repair repairs everything**: there is nothing left to do. -/
theorem repair_repair (f : Routine) (returnType returnType' : Option TypeRef) :
    (f.repair returnType).repair returnType' = f.repair returnType := by
  have hall : ∀ id ∈ f.order, ∀ b, (f.repair returnType).block? id = some b →
      b.hasTerminator = true ∧ b.truncate = b := by
    intro id hid b hb
    obtain ⟨_, -, hin, -⟩ := exists_of_block?_repair hb
    obtain ⟨tail, hfallback, rfl⟩ := hin hid
    exact Block.truncate_mended hfallback
  have hfold : ∀ ids : List BlockId, (∀ id ∈ ids, id ∈ f.order) →
      ids.foldl (repairBlock returnType') (f.repair returnType) = f.repair returnType := by
    intro ids
    induction ids with
    | nil => exact fun _ => rfl
    | cons id ids ih =>
      intro hmem
      obtain ⟨hid, hids⟩ := List.forall_mem_cons.mp hmem
      rw [List.foldl_cons, repairBlock_eq_self returnType' (hall id hid), ih hids]
  exact hfold _ fun id hid => f.order_repair returnType ▸ hid

end Routine

/-! ### Code that runs alike -/

section Rel

variable {α β : Type} {R : α → β → Prop} {a : α} {x : Option α} {y : Option β}

theorem rel_none (h : Option.Rel R x y) (hx : x = none) : y = none := by
  subst hx
  cases h
  rfl

theorem rel_some (h : Option.Rel R x y) (hx : x = some a) : ∃ b, y = some b ∧ R a b := by
  subst hx
  cases h with
  | some hab => exact ⟨_, rfl, hab⟩

end Rel

namespace Routine

/-- **Functions that run alike** until the first one falls off the end of a block: their blocks share
the operations up to the first terminator. -/
structure Extends (f f' : Routine) : Prop where
  name : f'.name = f.name
  parameters : f'.parameters = f.parameters
  order : f'.order = f.order
  blocks : ∀ c, Option.Rel (fun b b' : Block => b'.id = b.id ∧ b'.locals = b.locals ∧
    Block.throughTerminator b.ops <+: b'.ops) (f.block? c) (f'.block? c)

theorem Extends.refl (f : Routine) : f.Extends f := by
  refine ⟨rfl, rfl, rfl, fun c => ?_⟩
  cases f.block? c with
  | none => exact .none
  | some b => exact .some ⟨rfl, rfl, Block.throughTerminator_prefix _⟩

theorem extends_repair (f : Routine) (returnType : Option TypeRef) :
    f.Extends (f.repair returnType) := by
  refine ⟨congrArg (·.1) (f.head_repair returnType), f.parameters_repair returnType,
    f.order_repair returnType, fun c => ?_⟩
  cases hb : f.block? c with
  | none =>
    have hlength := List.getElem?_eq_none_iff.mp hb
    rw [← f.length_repair returnType] at hlength
    rw [block?, List.getElem?_eq_none hlength]
    exact .none
  | some b =>
    obtain ⟨hin, hout⟩ := f.block?_repair returnType hb
    by_cases hc : c ∈ f.order
    · obtain ⟨tail, hfallback, hmended⟩ := hin hc
      rw [hmended]
      refine .some ⟨rfl, rfl, ?_⟩
      rcases b.mended_cases hfallback with ⟨before, last, after, hops, hbefore, hlast, heq⟩ | ⟨-, heq⟩
      · have hcut := Block.throughTerminator_split hbefore hlast after
        rw [heq, hops]
        exact hcut ▸ List.prefix_rfl
      · rw [heq]
        exact (Block.throughTerminator_prefix _).trans (List.prefix_append _ _)
    · rw [hout hc]
      exact .some ⟨rfl, rfl, Block.throughTerminator_prefix _⟩

theorem Extends.entryBlock? {f f' : Routine} (h : f.Extends f') :
    Option.Rel (fun b b' : Block => b'.id = b.id ∧ b'.locals = b.locals)
      f.entryBlock? f'.entryBlock? := by
  unfold Routine.entryBlock? Routine.entry?
  rw [h.order]
  cases f.order.head? with
  | none => exact .none
  | some c =>
    rw [Option.bind_some, Option.bind_some]
    cases hb : f.block? c with
    | none =>
      rw [rel_none (h.blocks c) hb]
      exact .none
    | some b =>
      obtain ⟨b', hb', hid, hlocals, -⟩ := rel_some (h.blocks c) hb
      rw [hb']
      exact .some ⟨hid, hlocals⟩

end Routine

namespace Library

/-- Libraries that differ only in functions that run alike. -/
structure Extends (l l' : Library) : Prop where
  eq : l' = { l with routines := l'.routines }
  routine? : ∀ f, Option.Rel Routine.Extends (l.routine? f) (l'.routine? f)

theorem Extends.refl (l : Library) : l.Extends l := by
  refine ⟨by cases l; rfl, fun f => ?_⟩
  cases l.routine? f with
  | none => exact .none
  | some r => exact .some (.refl r)

theorem extends_install? {l l' : Library} {g : FunctionRef} {f f' : Routine}
    (hf : l.routine? g = some f) (hl' : l.install? g f' = some l') (h : f.Extends f') :
    l.Extends l' := by
  obtain ⟨rfl, hroutine⟩ := Library.routine?_of_install? hl'
  refine ⟨rfl, fun k => ?_⟩
  rw [hroutine]
  split
  · next heq =>
    rw [heq, hf]
    exact .some h
  · exact (Extends.refl l).routine? k

theorem Extends.findLibrary? {l l' : Library} (h : l.Extends l') (id : LibraryId) :
    Option.Rel Extends (l.findLibrary? id) (l'.findLibrary? id) := by
  have hid : l'.id = l.id := by rw [h.eq]
  have hdependencies : l'.dependencies = l.dependencies := by rw [h.eq]
  unfold Library.findLibrary?
  by_cases heq : l.id = id
  · rw [search?_of_own (if_pos heq), search?_of_own (if_pos (hid.trans heq))]
    exact .some h
  · rw [search?_of_none (if_neg heq), search?_of_none (if_neg (hid.symm ▸ heq)), hdependencies]
    generalize searchAll? _ l.dependencies = found
    cases found with
    | none => exact .none
    | some k => exact .some (.refl k)

end Library

theorem Block.exists_cons_of_prefix {op : Op} {ops ops' : List Op}
    (h : throughTerminator (op :: ops) <+: ops') : ∃ rest, ops' = op :: rest ∧
      (op.isTerminator = false → throughTerminator ops <+: rest) := by
  obtain ⟨more, rfl⟩ := h
  rw [throughTerminator_cons]
  split
  · next hop => exact ⟨more, rfl, fun hnot => absurd (hop.symm.trans hnot) (by decide)⟩
  · exact ⟨_, rfl, fun _ => List.prefix_append _ _⟩

namespace Machine

section Extends

variable {l l' : Library} (h : l.Extends l')
include h

theorem terminate?_extends (frame : Frame) (op : Op) :
    terminate? l' frame op = terminate? l frame op := by
  rw [h.eq]
  rfl

theorem callee?_extends (frame : Frame) (op : Op) : callee? l' frame op = callee? l frame op := by
  rw [h.eq]
  rfl

theorem performAlone_extends (frame : Frame) (op : Op) :
    performAlone l' frame op = performAlone l frame op := by
  rw [h.eq]
  rfl

theorem allocateLocals_extends (frame : Frame) (ops : List Op) :
    allocateLocals l' frame ops = allocateLocals l frame ops := by
  rw [h.eq]
  induction ops generalizing frame with
  | nil => rfl
  | cons op ops ih =>
    unfold allocateLocals
    simp only [ih]
    rfl

end Extends

/-- Calls in progress of functions that run alike. -/
structure Extends (a a' : Activation) : Prop where
  library : a.library.Extends a'.library
  function : a'.function = a.function
  routine : a.routine.Extends a'.routine

theorem entering_extends {a a' : Activation} (h : Extends a a') (m : Machine) (b : BlockId) :
    entering a' m b = entering a m b := by
  rw [entering, h.function]
  rfl

theorem isTerminator_of_terminate? {l : Library} {frame : Frame} {op : Op}
    (h : terminate? l frame op = none) : op.isTerminator = false := by
  rw [← terminate?_isSome l frame op, h]
  rfl

/-- Tasks that run alike. -/
inductive Task.Extends : Task → Task → Prop
  | call (f vs) : Extends (.call f vs) (.call f vs)
  | block {a a'} (ha : Machine.Extends a a') (frame b) :
    Extends (.block a frame b) (.block a' frame b)
  | rest {a a' ops ops'} (ha : Machine.Extends a a') (frame b)
    (hops : Block.throughTerminator ops <+: ops') :
    Extends (.rest a frame b ops) (.rest a' frame b ops')

/-- Calls are prepared alike. -/
theorem enter_extends {root root' : Library} (h : root.Extends root') (f : FunctionRef)
    (vs : List Value) (m : Machine) :
    (∃ e m', enter root f vs m = (.error e, m') ∧ enter root' f vs m = (.error e, m')) ∨
    ∃ a a' frame b m', Extends a a' ∧ enter root f vs m = (.ok (a, frame, b), m') ∧
      enter root' f vs m = (.ok (a', frame, b), m') := by
  cases hl : root.findLibrary? f.library with
  | none =>
    unfold enter
    rw [hl, rel_none (h.findLibrary? f.library) hl]
    exact .inl ⟨_, m, rfl, rfl⟩
  | some l =>
  obtain ⟨l', hl', hlibrary⟩ := rel_some (h.findLibrary? f.library) hl
  cases hr : l.routine? f with
  | none =>
    unfold enter
    rw [hl, hl']
    dsimp only
    rw [hr, rel_none (hlibrary.routine? f) hr]
    exact .inl ⟨_, m, rfl, rfl⟩
  | some routine =>
  obtain ⟨routine', hr', hroutine⟩ := rel_some (hlibrary.routine? f) hr
  rw [enter_apply hl hr, enter_apply hl' hr', hroutine.parameters, hroutine.name]
  split
  · cases hentry : routine.entryBlock? with
    | none =>
      rw [rel_none hroutine.entryBlock? hentry]
      exact .inl ⟨_, _, rfl, rfl⟩
    | some entry =>
      obtain ⟨entry', hentry', hid, hlocals⟩ := rel_some hroutine.entryBlock? hentry
      rw [hentry']
      dsimp only
      rw [hlocals, hid, allocateLocals_extends hlibrary]
      split
      · exact .inr ⟨⟨l, f, routine⟩, ⟨l', f, routine'⟩, _, _, _, ⟨hlibrary, rfl, hroutine⟩, rfl, rfl⟩
      · exact .inl ⟨_, _, rfl, rfl⟩
  · exact .inl ⟨_, _, rfl, rfl⟩

/-- **Runs go alike** in libraries whose functions do, unless one falls off the end of a block. -/
theorem Runs.extends {root root' : Library} {limit : Nat} (h : root.Extends root') {t t' : Task}
    {m : Machine} {r : Except RunError (Option Value) × Machine} (hrun : Runs root limit t m r)
    (hends : ∀ b, r.1 ≠ .error (.noTerminator b)) (ht : t.Extends t') : Runs root' limit t' m r := by
  -- by induction on the run: up to a terminator the other code begins with this one
  induction hrun generalizing t' with
  | refused henter =>
    cases ht
    rcases enter_extends h _ _ _ with ⟨e, m', he, he'⟩ | ⟨a, a', frame, b, m', -, he, -⟩
    · cases henter.symm.trans he
      exact .refused he'
    · cases henter.symm.trans he
  | entered henter _ ih =>
    cases ht
    rcases enter_extends h _ _ _ with ⟨e, m', he, -⟩ | ⟨a, a', frame, b, m', ha, he, he'⟩
    · cases henter.symm.trans he
    · cases henter.symm.trans he
      exact .entered he' (ih hends (.block ha frame b))
  | limit hlimit =>
    cases ht
    exact .limit hlimit
  | unknown hlimit hb =>
    cases ht with | block ha =>
    rw [← entering_extends ha]
    exact .unknown hlimit (rel_none (ha.routine.blocks _) hb)
  | block hlimit hb _ ih =>
    cases ht with | block ha =>
    obtain ⟨x', hx', -, -, hops⟩ := rel_some (ha.routine.blocks _) hb
    have hrun := ih hends (.rest ha _ _ hops)
    rw [← entering_extends ha] at hrun
    exact .block hlimit hx' hrun
  | unended => exact absurd rfl (hends _)
  | stuck hflow =>
    cases ht with | rest ha _ _ hops =>
    obtain ⟨rest, rfl, -⟩ := Block.exists_cons_of_prefix hops
    exact .stuck ((terminate?_extends ha.library _ _).trans hflow)
  | leave hflow =>
    cases ht with | rest ha _ _ hops =>
    obtain ⟨rest, rfl, -⟩ := Block.exists_cons_of_prefix hops
    exact .leave ((terminate?_extends ha.library _ _).trans hflow)
  | jump hflow _ ih =>
    cases ht with | rest ha _ _ hops =>
    obtain ⟨rest, rfl, -⟩ := Block.exists_cons_of_prefix hops
    exact .jump ((terminate?_extends ha.library _ _).trans hflow) (ih hends (.block ha _ _))
  | failed hflow hcallee hop =>
    cases ht with | rest ha _ _ hops =>
    obtain ⟨rest, rfl, -⟩ := Block.exists_cons_of_prefix hops
    refine .failed ((terminate?_extends ha.library _ _).trans hflow)
      ((callee?_extends ha.library _ _).trans hcallee) ?_
    rw [performAlone_extends ha.library, hop]
  | operation hflow hcallee hop _ ih =>
    cases ht with | rest ha _ _ hops =>
    obtain ⟨rest, rfl, hrest⟩ := Block.exists_cons_of_prefix hops
    refine .operation ((terminate?_extends ha.library _ _).trans hflow)
      ((callee?_extends ha.library _ _).trans hcallee) ?_
      (ih hends (.rest ha _ _ (hrest (isTerminator_of_terminate? hflow))))
    rw [performAlone_extends ha.library, hop]
  | uncallable hflow hcallee =>
    cases ht with | rest ha _ _ hops =>
    obtain ⟨rest, rfl, -⟩ := Block.exists_cons_of_prefix hops
    exact .uncallable ((terminate?_extends ha.library _ _).trans hflow)
      ((callee?_extends ha.library _ _).trans hcallee)
  | thrown hflow hcallee _ ih =>
    cases ht with | rest ha _ _ hops =>
    obtain ⟨rest, rfl, -⟩ := Block.exists_cons_of_prefix hops
    exact .thrown ((terminate?_extends ha.library _ _).trans hflow)
      ((callee?_extends ha.library _ _).trans hcallee) (ih hends (.call _ _))
  | returned hflow hcallee _ _ ih ih' =>
    cases ht with | rest ha _ _ hops =>
    obtain ⟨rest, rfl, hrest⟩ := Block.exists_cons_of_prefix hops
    exact .returned ((terminate?_extends ha.library _ _).trans hflow)
      ((callee?_extends ha.library _ _).trans hcallee) (ih (fun _ h => by cases h) (.call _ _))
      (ih' hends (.rest ha _ _ (hrest (isTerminator_of_terminate? hflow))))

end Machine

/-- **Repair.** A placed block becomes well-formed: it keeps its operations up to and including the
first terminator, or all of them, followed by a return. Everything else stays as it was, and a second
repair changes nothing. In a library with the repaired function in place of the old one every call
has the same outcome and leaves the same machine, unless it fell off the end of a block. -/
theorem Routine.repair_completes (f : Routine) (returnType : Option TypeRef) :
    (∀ c b, f.block? c = some b → c ∈ f.order → ∃ ops,
      (f.repair returnType).block? c = some { b with ops := ops } ∧
      Block.isWellFormed { b with ops := ops } = true ∧
      ((∃ before last after, b.ops = before ++ last :: after ∧
          (∀ op ∈ before, op.isTerminator = false) ∧ last.isTerminator = true ∧
          ops = before ++ [last]) ∨
        (∀ op ∈ b.ops, op.isTerminator = false) ∧
          ∃ tail, Fallback returnType tail ∧ ops = b.ops ++ tail)) ∧
    (∀ c b, f.block? c = some b → c ∉ f.order → (f.repair returnType).block? c = some b) ∧
    (f.repair returnType).head = f.head ∧
    (f.repair returnType).repair returnType = f.repair returnType ∧
    ∀ (l : Library) (g : FunctionRef), l.routine? g = some f →
      ∃ l', l.install? g (f.repair returnType) = some l' ∧ ∀ limit callee vs m,
        (∀ b, (Machine.call l limit callee vs m).1 ≠ .error (.noTerminator b)) →
          Machine.call l' limit callee vs m = Machine.call l limit callee vs m := by
  refine ⟨fun c b hb hc => ?_, fun c b hb => (f.block?_repair returnType hb).2,
    f.head_repair returnType, f.repair_repair returnType returnType, fun l g hg => ?_⟩
  · obtain ⟨tail, hfallback, hmended⟩ := (f.block?_repair returnType hb).1 hc
    have hwell := Block.isWellFormed_mended (b := b) hfallback
    rcases b.mended_cases hfallback with
      ⟨before, last, after, hops, hbefore, hlast, heq⟩ | ⟨hnone, heq⟩
    · rw [heq] at hmended hwell
      exact ⟨_, hmended, hwell, .inl ⟨before, last, after, hops, hbefore, hlast, rfl⟩⟩
    · rw [heq] at hmended hwell
      exact ⟨_, hmended, hwell, .inr ⟨hnone, tail, hfallback, rfl⟩⟩
  · obtain ⟨l', hinstall⟩ : ∃ l', l.install? g (f.repair returnType) = some l' := by
      rw [Library.install?, hg]
      exact ⟨_, rfl⟩
    refine ⟨l', hinstall, fun limit callee vs m hends => ?_⟩
    have hextends := Library.extends_install? hg hinstall (f.extends_repair returnType)
    exact Machine.runs_call_iff.mp
      ((Machine.runs_call_iff.mpr rfl).extends hextends hends (.call callee vs))

/-- Dead code behind a branch, a block that falls off its end, one that was never placed and one that
was never allocated. -/
def Routine.looseEnds : Routine where
  name := "looseEnds"
  owner := ⟨0⟩
  functionType := ⟨0⟩
  blocks := [
    { id := ⟨0⟩, name := "entry",
      ops := [⟨.branch, none, none, [.block ⟨1⟩], none⟩, ⟨.branch, none, none, [.block ⟨2⟩], none⟩] },
    { id := ⟨1⟩, name := "done", ops := [⟨.ret, none, none, [], none⟩] },
    { id := ⟨2⟩, name := "dead" }, { id := ⟨3⟩, name := "aside" }]
  order := [⟨0⟩, ⟨2⟩, ⟨7⟩, ⟨1⟩]

theorem Routine.repair_completes_looseEnds :
    (looseEnds.repair (some ⟨4⟩)).block? ⟨3⟩ = looseEnds.block? ⟨3⟩ ∧
    ∃ l l' : Library, l.routine? ⟨l.id, 0⟩ = some looseEnds ∧
      l'.routine? ⟨l.id, 0⟩ = some (looseEnds.repair (some ⟨4⟩)) ∧
      (Machine.call l' 9 ⟨l.id, 0⟩ [] {}).2.executed =
        (Machine.call l 9 ⟨l.id, 0⟩ [] {}).2.executed ∧
      (Machine.call l 9 ⟨l.id, 0⟩ [] {}).2.executed = #[(⟨l.id, 0⟩, ⟨0⟩), (⟨l.id, 0⟩, ⟨1⟩)] := by
  obtain ⟨-, hunplaced, -, -, hcalls⟩ := looseEnds.repair_completes (some ⟨4⟩)
  obtain ⟨l', hinstall, hcall⟩ := hcalls ⟨⟨0⟩, "core", {}, {}, [looseEnds], [], [], [], [], [], true⟩
    ⟨⟨0⟩, 0⟩ rfl
  refine ⟨hunplaced ⟨3⟩ _ rfl (by decide),
    ⟨⟨0⟩, "core", {}, {}, [looseEnds], [], [], [], [], [], true⟩, l', rfl, ?_, ?_, rfl⟩
  · rw [(Library.routine?_of_install? hinstall).2, if_pos rfl]
  · rw [hcall 9 ⟨⟨0⟩, 0⟩ [] {} fun b h => by cases h]

end Shader
