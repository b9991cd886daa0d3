import Shader.Proofs.Machine.Course

/-!
# Repaired functions

A finished function is repaired: what follows a terminator is dropped, and a block without one
returns. A run never gets past the first terminator.
-/

namespace Shader

open Outcome

/-! ### Up to the first terminator -/

namespace Block

theorem throughTerminator_cons (op : Op) (ops : List Op) :
    throughTerminator (op :: ops) =
      if op.isTerminator then [op] else op :: throughTerminator ops := rfl

theorem throughTerminator_prefix (ops : List Op) : throughTerminator ops <+: ops := by
  induction ops with
  | nil => exact List.prefix_rfl
  | cons op ops ih =>
    rw [throughTerminator_cons]
    split
    · exact ⟨ops, rfl⟩
    · exact List.cons_prefix_cons.mpr ⟨rfl, ih⟩

theorem throughTerminator_append_of_none {ops : List Op} (h : ∀ op ∈ ops, op.isTerminator = false)
    (more : List Op) : throughTerminator (ops ++ more) = ops ++ throughTerminator more := by
  induction ops with
  | nil => rfl
  | cons op ops ih =>
    obtain ⟨hop, hops⟩ := List.forall_mem_cons.mp h
    rw [List.cons_append, throughTerminator_cons, if_neg (by simp [hop]), ih hops, List.cons_append]

theorem throughTerminator_split {before : List Op} {last : Op}
    (hbefore : ∀ op ∈ before, op.isTerminator = false) (hlast : last.isTerminator = true)
    (after : List Op) : throughTerminator (before ++ last :: after) = before ++ [last] := by
  rw [throughTerminator_append_of_none hbefore, throughTerminator_cons, if_pos hlast]

/-- **The first terminator.** Nothing after it counts. -/
theorem exists_split {ops : List Op} (h : ops.any Op.isTerminator = true) :
    ∃ before last after, ops = before ++ last :: after ∧ (∀ op ∈ before, op.isTerminator = false) ∧
      last.isTerminator = true ∧ throughTerminator ops = before ++ [last] := by
  obtain ⟨last, hfind⟩ := Option.isSome_iff_exists.mp (List.find?_isSome.mpr (List.any_eq_true.mp h))
  obtain ⟨hlast, before, after, rfl, hbefore⟩ := List.find?_eq_some_iff_append.mp hfind
  have hnone : ∀ op ∈ before, op.isTerminator = false := by simpa using hbefore
  exact ⟨before, last, after, rfl, hnone, hlast, throughTerminator_split hnone hlast after⟩

end Block

namespace Machine

theorem terminate?_isSome (l : Library) (frame : Frame) (op : Op) :
    (terminate? l frame op).isSome = op.isTerminator := by
  obtain ⟨opcode, _, _, _, _⟩ := op
  cases opcode <;> rfl

/-- A run never gets past the first terminator. -/
theorem runOps_throughTerminator (call : FunctionRef → List Value → RunM (Option Value))
    (l : Library) (block : BlockId) (frame : Frame) (ops : List Op) :
    runOps call l block frame (Block.throughTerminator ops) = runOps call l block frame ops := by
  induction ops generalizing frame with
  | nil => rfl
  | cons op ops ih =>
    have hterminate := terminate?_isSome l frame op
    rw [Block.throughTerminator_cons]
    by_cases hop : op.isTerminator
    · rw [if_pos hop]
      unfold runOps
      rw [hop] at hterminate
      obtain ⟨flow, hflow⟩ := Option.isSome_iff_exists.mp hterminate
      rw [hflow]
    · rw [if_neg hop]
      unfold runOps
      rw [Bool.not_eq_true] at hop
      rw [hop, Option.isSome_eq_false_iff, Option.isNone_iff_eq_none] at hterminate
      rw [hterminate]
      dsimp only
      refine bind_congr fun v => ?_
      cases op.result with
      | some id => exact ih _
      | none => exact ih _

end Machine

/-! ### Repair -/

namespace Routine

/-- What returns from a block that would fall off its end. -/
def Fallback (returnType : Option TypeRef) (ops : List Op) : Prop :=
  match returnType with
  | none => ops = [{ opcode := .ret }]
  | some ty => ∃ v, ops = [{ opcode := .undef, result := some v, resultType := some ty },
      { opcode := .retValue, operands := [.value v] }]

theorem fallback_fallbackReturn (f : Routine) (returnType : Option TypeRef) :
    Fallback returnType (f.fallbackReturn returnType).1 := by
  cases returnType with
  | none => rfl
  | some ty => exact ⟨_, rfl⟩

variable {returnType : Option TypeRef} {tail : List Op}

section

variable (h : Fallback returnType tail)
include h

/-- It returns in its last operation, and goes nowhere else. -/
theorem Fallback.exists_return :
    ∃ before last, tail = before ++ [last] ∧
      (∀ op ∈ before, op.opcode = .undef) ∧ (last.opcode = .ret ∨ last.opcode = .retValue) := by
  cases returnType with
  | none => exact ⟨[], _, h, List.forall_mem_nil _, .inl rfl⟩
  | some ty =>
    obtain ⟨v, rfl⟩ := h
    exact ⟨[_], _, rfl, List.forall_mem_singleton.mpr rfl, .inr rfl⟩

theorem Fallback.opcode {op : Op} (hop : op ∈ tail) :
    op.opcode = .undef ∨ op.opcode = .ret ∨ op.opcode = .retValue := by
  obtain ⟨before, last, rfl, hbefore, hlast⟩ := h.exists_return
  rcases List.mem_append.mp hop with hop | hop
  · exact .inl (hbefore op hop)
  · exact .inr (List.mem_singleton.mp hop ▸ hlast)

theorem Fallback.cut : Block.throughTerminator tail = tail := by
  cases returnType with
  | none =>
    obtain rfl : tail = _ := h
    rfl
  | some ty =>
    obtain ⟨v, rfl⟩ := h
    rfl

theorem Fallback.any (ops : List Op) :
    (ops ++ tail).any Op.isTerminator = true := by
  obtain ⟨before, last, rfl, -, hlast⟩ := h.exists_return
  have hterminator : last.isTerminator = true := by
    rcases hlast with h | h <;> rw [Op.isTerminator, h] <;> rfl
  simp [hterminator]

end

end Routine

/-- **A repaired block**: its operations are followed by a return, and what comes after the first
terminator is dropped. -/
def Block.mended (b : Block) (tail : List Op) : Block :=
  { b with ops := throughTerminator (b.ops ++ tail) }

theorem Block.mended_mended {b : Block} {tail : List Op} (h : (b.ops ++ tail).any Op.isTerminator = true)
    (tail' : List Op) : (b.mended tail).mended tail' = b.mended tail := by
  obtain ⟨before, last, after, -, hbefore, hlast, hcut⟩ := exists_split h
  rw [mended, mended, hcut, List.append_assoc, List.singleton_append,
    throughTerminator_split hbefore hlast]

namespace Routine

theorem block?_modifyBlock (f : Routine) (id c : BlockId) (change : Block → Block) :
    (f.modifyBlock id change).block? c = if c = id then (f.block? c).map change else f.block? c :=
  Outcome.getElem?_modify_of_injective (fun ⟨_⟩ ⟨_⟩ => congrArg BlockId.mk) f.blocks change id c

/-- A block that has a terminator is cut off behind it, and any other one returns. -/
theorem block?_repairBlock (returnType : Option TypeRef) (f : Routine) (id c : BlockId) :
    ∃ tail, Fallback returnType tail ∧ (repairBlock returnType f id).block? c =
      if c = id then (f.block? c).map (·.mended tail) else f.block? c := by
  have hfallback := f.fallback_fallbackReturn returnType
  refine ⟨_, hfallback, ?_⟩
  unfold repairBlock
  split
  · next hnone =>
    split
    · next heq => rw [heq, hnone]; rfl
    · rfl
  next b hb =>
  split
  · next hterminator =>
    rw [block?_modifyBlock]
    split
    · next heq =>
      obtain ⟨before, last, after, hops, hbefore, hlast, hcut⟩ := Block.exists_split hterminator
      rw [heq, hb, Option.map_some, Option.map_some, Block.truncate, Block.mended, hcut, hops,
        List.append_assoc, List.cons_append, Block.throughTerminator_split hbefore hlast]
    · rfl
  · next hterminator =>
    have hnone : ∀ op ∈ b.ops, op.isTerminator = false := by
      simpa [Block.hasTerminator] using hterminator
    have hblocks : (f.fallbackReturn returnType).2.block? c = f.block? c := by
      cases returnType <;> rfl
    rw [block?_modifyBlock, hblocks]
    split
    · next heq =>
      rw [heq, hb, Option.map_some, Option.map_some, Block.mended,
        Block.throughTerminator_append_of_none hnone, hfallback.cut]
    · rfl

/-- **Repaired blocks.** A placed block is mended, and any other one stays as it is. -/
theorem block?_repair (f : Routine) (returnType : Option TypeRef) {c : BlockId} {b : Block}
    (h : f.block? c = some b) :
    (c ∈ f.order → ∃ tail, Fallback returnType tail ∧
      (f.repair returnType).block? c = some (b.mended tail)) ∧
    (c ∉ f.order → (f.repair returnType).block? c = some b) := by
  unfold repair
  -- a block that is listed twice is mended twice, which changes nothing
  generalize f.order = ids
  induction ids generalizing f b with
  | nil => exact ⟨fun hmem => absurd hmem List.not_mem_nil, fun _ => h⟩
  | cons id ids ih =>
    rw [List.foldl_cons]
    obtain ⟨tail, hfallback, hblock⟩ := block?_repairBlock returnType f id c
    by_cases hc : c = id
    · rw [if_pos hc, h, Option.map_some] at hblock
      refine ⟨fun _ => ⟨tail, hfallback, ?_⟩, fun hmem => absurd (hc ▸ List.mem_cons_self) hmem⟩
      obtain ⟨hin, hout⟩ := ih _ hblock
      by_cases hmem : c ∈ ids
      · obtain ⟨tail', -, hagain⟩ := hin hmem
        rw [hagain, Block.mended_mended (hfallback.any b.ops)]
      · exact hout hmem
    · rw [if_neg hc, h] at hblock
      obtain ⟨hin, hout⟩ := ih _ hblock
      refine ⟨fun hmem => hin ((List.mem_cons.mp hmem).resolve_left hc), fun hmem => hout fun h => ?_⟩
      exact hmem (List.mem_cons_of_mem id h)

/-- What repair leaves alone. -/
def head (f : Routine) : String × TypeRef × TypeRef × List Parameter × List BlockId × Nat :=
  (f.name, f.owner, f.functionType, f.parameters, f.order, f.blocks.length)

theorem head_repair (f : Routine) (returnType : Option TypeRef) :
    (f.repair returnType).head = f.head := by
  have hstep : ∀ (g : Routine) (id : BlockId), (repairBlock returnType g id).head = g.head := by
    intro g id
    unfold repairBlock
    split
    · rfl
    · split
      · simp [head, modifyBlock]
      · cases returnType <;> simp [head, modifyBlock, fallbackReturn, newValue]
  have hfold : ∀ (ids : List BlockId) (g : Routine),
      (ids.foldl (repairBlock returnType) g).head = g.head := by
    intro ids
    induction ids with
    | nil => exact fun _ => rfl
    | cons id ids ih => exact fun g => (ih _).trans (hstep g id)
  exact hfold f.order f

theorem parameters_repair (f : Routine) (returnType : Option TypeRef) :
    (f.repair returnType).parameters = f.parameters := congrArg (·.2.2.2.1) (f.head_repair returnType)

theorem order_repair (f : Routine) (returnType : Option TypeRef) :
    (f.repair returnType).order = f.order := congrArg (·.2.2.2.2.1) (f.head_repair returnType)

theorem length_repair (f : Routine) (returnType : Option TypeRef) :
    (f.repair returnType).blocks.length = f.blocks.length :=
  congrArg (·.2.2.2.2.2) (f.head_repair returnType)

theorem exists_of_block?_repair {f : Routine} {returnType : Option TypeRef} {c : BlockId} {b' : Block}
    (h : (f.repair returnType).block? c = some b') : ∃ b, f.block? c = some b ∧
      (c ∈ f.order → ∃ tail, Fallback returnType tail ∧ b' = b.mended tail) ∧
      (c ∉ f.order → b' = b) := by
  have hlt : c.index < f.blocks.length := f.length_repair returnType ▸ (List.getElem?_eq_some_iff.mp h).1
  have hb : f.block? c = some _ := List.getElem?_eq_getElem hlt
  obtain ⟨hin, hout⟩ := f.block?_repair returnType hb
  refine ⟨_, hb, fun hmem => ?_, fun hmem => Option.some.inj (h.symm.trans (hout hmem))⟩
  obtain ⟨tail, hfallback, hmended⟩ := hin hmem
  exact ⟨tail, hfallback, Option.some.inj (h.symm.trans hmended)⟩

end Routine

end Shader
