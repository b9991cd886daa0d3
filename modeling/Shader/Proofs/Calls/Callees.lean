import Shader.IR.Builder
import Shader.Proofs.IR.Repair
import Shader.Proofs.Library.Within

/-!
# The functions that a function calls

`Routine.callees` lists the functions that the operations of a body call, wherever they stand, and
`Library.Calls` is the relation between functions that it gives.

All operations of a function may have a property (`Routine.Each`); repairing a function adds none that
matters.
-/

namespace Shader

open Outcome

/-- The function that an operation calls. -/
def Op.callee? (op : Op) : Option FunctionRef :=
  match op.opcode, op.operands with
  | .functionCall, .function f :: _ => some f
  | _, _ => none

/-- The functions that a block calls. -/
def Block.callees (b : Block) : List FunctionRef := b.ops.filterMap Op.callee?

/-- The functions that a function calls. -/
def Routine.callees (f : Routine) : List FunctionRef := f.blocks.flatMap Block.callees

/-- The body of one function of a library contains a call of another function. -/
def Library.Calls (l : Library) (f g : FunctionRef) : Prop :=
  ∃ r, l.routine? f = some r ∧ g ∈ r.callees

variable {g f : FunctionRef} {l : Library}

theorem Library.calls_iff :
    l.Calls f g ↔ g ∈ (l.routine? f).elim [] Routine.callees := by
  unfold Calls
  cases l.routine? f with
  | none => simp
  | some r => simp

instance (l : Library) (f g : FunctionRef) : Decidable (l.Calls f g) :=
  decidable_of_iff _ Library.calls_iff.symm

theorem Library.mem_routines_of_routine? {r : Routine} (h : l.routine? f = some r) :
    r ∈ l.routines := by
  rw [routine?, if_pos (library_of_routine? h)] at h
  exact List.mem_of_getElem? h

/-- The functions of a library in which one has been installed. -/
theorem Library.routine?_of_install? {l l' : Library} {body : Routine}
    (h : l.install? f body = some l') :
    l' = { l with routines := l.routines.set f.index body } ∧
      ∀ g, l'.routine? g = if g = f then some body else l.routine? g := by
  unfold install? at h
  split at h
  · next r hr =>
    cases h
    refine ⟨rfl, fun g => ?_⟩
    have hf : f.library = l.id := library_of_routine? hr
    have hlt : f.index < l.routines.length := by
      rw [routine?, if_pos hf] at hr
      exact (List.getElem?_eq_some_iff.mp hr).1
    by_cases hgf : g = f
    · rw [if_pos hgf, hgf, routine?, if_pos hf]
      exact List.getElem?_set_self hlt
    · rw [if_neg hgf, routine?, routine?]
      by_cases hg : g.library = l.id
      · have hne : f.index ≠ g.index := by
          intro hindex
          obtain ⟨lib, index⟩ := f
          obtain ⟨lib', index'⟩ := g
          simp_all
        rw [if_pos hg, if_pos hg]
        exact List.getElem?_set_ne hne
      · rw [if_neg hg, if_neg hg]
  · cases h

theorem Block.mem_callees {b : Block} :
    g ∈ b.callees ↔ ∃ op ∈ b.ops, op.callee? = some g := List.mem_filterMap

variable {f : Routine}

theorem Routine.mem_callees :
    g ∈ f.callees ↔ ∃ b ∈ f.blocks, g ∈ b.callees := List.mem_flatMap

/-- All operations of a function, wherever they stand, have a property. -/
def Routine.Each (P : Op → Prop) (f : Routine) : Prop := ∀ b ∈ f.blocks, ∀ op ∈ b.ops, P op

section Each

variable {P : Op → Prop}

/-- A change of one block after which all its operations have the property. -/
theorem Routine.Each.modifyBlock {id : BlockId} {change : Block → Block}
    (hchange : ∀ b : Block, (∀ op ∈ b.ops, P op) → ∀ op ∈ (change b).ops, P op) (h : f.Each P) :
    (f.modifyBlock id change).Each P := forall_mem_modify hchange h _

/-! ### Repair -/

namespace Routine

/-- Repairing a function adds no calls. -/
theorem Each.repair (hP : ∀ op : Op, op.opcode ≠ .functionCall → P op) {ty : Option TypeRef}
    (h : f.Each P) : (f.repair ty).Each P := by
  intro b' hb' op hop
  obtain ⟨index, hindex⟩ := List.mem_iff_getElem?.mp hb'
  obtain ⟨b, hb, hin, hout⟩ := exists_of_block?_repair (c := ⟨index⟩) hindex
  have hold := h b (List.mem_of_getElem? hb)
  by_cases hmem : ⟨index⟩ ∈ f.order
  · obtain ⟨tail, hfallback, rfl⟩ := hin hmem
    rcases List.mem_append.mp ((Block.throughTerminator_prefix _).subset hop) with hop | hop
    · exact hold op hop
    · refine hP op ?_
      rcases hfallback.opcode hop with h | h | h <;> rw [h] <;> decide
  · exact hold op (hout hmem ▸ hop)

end Routine

end Each

end Shader
