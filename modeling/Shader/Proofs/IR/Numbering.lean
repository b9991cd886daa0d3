import Shader.Proofs.IR.Growth
import Mathlib.Data.List.Nodup
import Mathlib.Data.List.Perm.Subperm

/-!
# What construction keeps in order

Any sequence of steps of construction, refused ones included, leaves a function whose numbers fit
together (`Builder.built_numbered`).

* `Builder.Effect` — all that one step can do. `Builder.Effect.numbered` is the step lemma, and
  `Builder.Effect.order`, `Builder.Effect.opsOf` say what a step leaves where it was.

A new number is always the next one, so it differs from all numbers in use. This is said once, of the
list of all numbers of a function (`Routine.Counted.of_subperm`).
-/

namespace Shader

open Outcome

/-! ### Numbers in use -/

/-- The numbers of the variables and results in a block. -/
def Block.values (b : Block) : List ValueId :=
  b.locals.filterMap Op.result ++ b.ops.filterMap Op.result

namespace Routine

/-- The numbers of the parameters, variables and results of a function. -/
def values (f : Routine) : List ValueId :=
  f.parameters.map Parameter.id ++ f.blocks.flatMap Block.values

/-- All numbers differ, and the next one is above them. -/
structure Counted (f : Routine) : Prop where
  nodup : f.values.Nodup
  lt : ∀ v ∈ f.values, v.number < f.nextValue

/-- **A function whose numbers fit together.** -/
structure Numbered (f : Routine) : Prop where
  counted : f.Counted
  ids : ∀ c b, f.block? c = some b → b.id = c
  order : f.order.Nodup
  locals : ∀ c b, f.block? c = some b → b.locals ≠ [] → f.order.head? = some c

/-- Dropping numbers and adding the next one keeps them apart. -/
theorem Counted.of_subperm {f f' : Routine} (hf : f.Counted) (new : Option ValueId)
    (hvalues : f'.values.Subperm (new.toList ++ f.values))
    (hnew : ∀ v ∈ new, v.number = f.nextValue ∧ f.nextValue < f'.nextValue)
    (hle : f.nextValue ≤ f'.nextValue) : f'.Counted := by
  have hfresh : (new.toList ++ f.values).Nodup := by
    refine List.nodup_append.mpr ⟨by cases new <;> simp, hf.nodup, fun v hv w hw heq => ?_⟩
    have hlt := hf.lt w hw
    have hnumber := (hnew v (Option.mem_toList.mp hv)).1
    rw [heq] at hnumber
    omega
  obtain ⟨vs, hperm, hsub⟩ := hvalues
  refine ⟨hperm.nodup_iff.mp (hsub.nodup hfresh), fun v hv => ?_⟩
  rcases List.mem_append.mp (hsub.subset (hperm.mem_iff.mpr hv)) with hv | hv
  · obtain ⟨hnumber, hlt⟩ := hnew v (Option.mem_toList.mp hv)
    omega
  · exact Nat.lt_of_lt_of_le (hf.lt v hv) hle

theorem flatMap_modify_subperm {change : Block → Block} {new : List ValueId}
    (h : ∀ x : Block, (change x).values.Subperm (new ++ x.values)) (bs : List Block) (i : Nat) :
    ((bs.modify i change).flatMap Block.values).Subperm (new ++ bs.flatMap Block.values) := by
  induction bs generalizing i with
  | nil => exact (List.modify_nil change i).symm ▸ List.nil_subperm
  | cons x bs ih =>
    cases i with
    | zero =>
      rw [List.modify_zero_cons, List.flatMap_cons, List.flatMap_cons, ← List.append_assoc]
      exact (List.subperm_append_right _).mpr (h x)
    | succ i =>
      rw [List.modify_succ_cons, List.flatMap_cons, List.flatMap_cons]
      refine ((List.subperm_append_left _).mpr (ih i)).trans ?_
      exact (List.perm_append_comm_assoc _ _ _).subperm

/-- Changing a block adds to the numbers of a function what it adds to those of the block. -/
theorem values_modifyBlock {change : Block → Block} {new : List ValueId}
    (h : ∀ x : Block, (change x).values.Subperm (new ++ x.values)) (f : Routine) (c : BlockId) :
    (f.modifyBlock c change).values.Subperm (new ++ f.values) := by
  refine ((List.subperm_append_left _).mpr (flatMap_modify_subperm h f.blocks c.index)).trans ?_
  exact (List.perm_append_comm_assoc _ _ _).subperm

end Routine

namespace Block

theorem values_append (b : Block) (ops : List Op) :
    ({ b with ops := b.ops ++ ops } : Block).values.Subperm (ops.filterMap Op.result ++ b.values) := by
  unfold values
  dsimp only
  rw [List.filterMap_append, ← List.append_assoc]
  exact List.perm_append_comm.subperm

theorem values_push (b : Block) (op : Op) :
    (b.push op).values.Subperm (op.result.toList ++ b.values) := by
  have hresult : [op].filterMap Op.result = op.result.toList := by
    cases h : op.result <;> simp [h]
  exact hresult ▸ b.values_append [op]

theorem values_pushLocal (b : Block) (op : Op) :
    (b.pushLocal op).values.Subperm (op.result.toList ++ b.values) := by
  have hresult : [op].filterMap Op.result = op.result.toList := by
    cases h : op.result <;> simp [h]
  unfold values pushLocal
  dsimp only
  rw [List.filterMap_append, hresult, ← List.append_assoc]
  exact (List.perm_append_comm.append_right _).subperm

theorem values_truncate (b : Block) : b.truncate.values.Subperm b.values :=
  ((List.Sublist.filterMap _ (Block.throughTerminator_prefix b.ops).sublist).append_left _).subperm

end Block

/-! ### One step -/

namespace Builder

/-- A builder that has used up some numbers. -/
def skip (b : Builder) (n : Nat) : Builder :=
  { b with routine := { b.routine with nextValue := b.routine.nextValue + n } }

/-- **All that a step of construction can do.** -/
inductive Effect (b : Builder) : Builder → Prop
  | parameter (name : String) (ty : TypeRef) :
    Effect b { b with routine := (b.routine.addParameter name ty).2 }
  | block (name : String) : Effect b { b with routine := (b.routine.allocateBlock name).2 }
  | place (id : BlockId) : Effect b { b with routine := b.routine.place id }
  | enter (id : BlockId) : Effect b { b with current := some id }
  /-- The step is refused, after it may have used up a number. -/
  | refused (n : Nat) : Effect b (b.skip n)
  | append {n : Nat} {op : Op} {b' : Builder} {c : BlockId} {x : Block}
    (h : Appends n op b b' c x) (hnew : ∀ v ∈ op.result, v.number = b.routine.nextValue ∧ 0 < n) :
    Effect b b'
  | declare {op : Op} {v : ValueId} {b' : Builder} (h : Declares op v b b')
    (hv : op.result = some v) : Effect b b'

namespace Effect

variable {b b' : Builder}

section

variable (h : Effect b b')
include h

/-- A step adds one result at most, and it has the next number. -/
theorem counted (hb : b.routine.Counted) : b'.routine.Counted := by
  cases h with
  | parameter name ty =>
    refine hb.of_subperm (some ⟨b.routine.nextValue⟩) ?_ ?_ (Nat.le_succ _)
    · change (List.map Parameter.id (_ ++ [_]) ++ _).Subperm _
      rw [List.map_append, List.append_assoc]
      exact (List.perm_append_comm_assoc _ _ _).subperm
    · intro v hv
      cases hv
      exact ⟨rfl, Nat.lt_succ_self _⟩
  | block name =>
    refine hb.of_subperm none ?_ nofun (Nat.le_refl _)
    change (_ ++ (_ ++ [_]).flatMap Block.values).Subperm _
    rw [List.flatMap_append]
    exact (List.Perm.of_eq (congrArg _ (List.append_nil _))).subperm
  | place id =>
    have hplace : (b.routine.place id).Counted := by
      unfold Routine.place
      split
      · exact hb
      · exact hb.of_subperm none (List.Subperm.refl _) nofun (Nat.le_refl _)
    exact hplace
  | enter id => exact hb
  | refused n => exact hb.of_subperm none (List.Subperm.refl _) nofun (Nat.le_add_right _ _)
  | @append n op _ c x h hnew =>
    refine hb.of_subperm op.result ?_ (fun v hv => ?_) ?_
    · rw [h.eq]
      exact Routine.values_modifyBlock (fun x => x.values_push op) _ c
    · obtain ⟨hnumber, hpos⟩ := hnew v hv
      rw [h.nextValue]
      omega
    · rw [h.nextValue]
      exact Nat.le_add_right _ _
  | @declare op v _ h hv =>
    refine hb.of_subperm op.result ?_ (fun w hw => ?_) ?_
    · obtain ⟨c, x, -, -, rfl⟩ := h.eq
      exact Routine.values_modifyBlock (fun x => x.values_pushLocal op) _ c
    · cases hv.symm.trans hw
      rw [h.nextValue, h.id]
      exact ⟨rfl, Nat.lt_succ_self _⟩
    · rw [h.nextValue]
      exact Nat.le_succ _

/-- Where a block comes from: it is a new one, or it was there before, and then it has no new variables
unless it is the first one placed. -/
theorem origin {c : BlockId} {x' : Block} (hx' : b'.routine.block? c = some x') :
    (∃ x, b.routine.block? c = some x ∧ x'.id = x.id ∧
      (x'.locals = x.locals ∨ b.routine.order.head? = some c)) ∨ x'.id = c ∧ x'.locals = [] := by
  cases h with
  | block name =>
    change (b.routine.blocks ++ [_])[c.index]? = some x' at hx'
    rw [List.getElem?_append] at hx'
    split at hx'
    · exact .inl ⟨x', hx', rfl, .inl rfl⟩
    · next hge =>
      obtain ⟨hlt, rfl⟩ := List.getElem?_eq_some_iff.mp hx'
      rw [List.length_singleton] at hlt
      refine .inr ⟨?_, by rw [List.getElem_singleton]⟩
      rw [List.getElem_singleton]
      exact congrArg BlockId.mk (by omega)
  | place id =>
    have hblock : (b.routine.place id).block? c = b.routine.block? c := by
      unfold Routine.place
      split <;> rfl
    exact .inl ⟨x', hblock.symm.trans hx', rfl, .inl rfl⟩
  | append h hnew =>
    rw [h.eq, Routine.block?_modifyBlock] at hx'
    split at hx'
    · obtain ⟨x, hx, rfl⟩ := Option.map_eq_some_iff.mp hx'
      exact .inl ⟨x, hx, rfl, .inl rfl⟩
    · exact .inl ⟨x', hx', rfl, .inl rfl⟩
  | declare h hv =>
    obtain ⟨d, y, hd, -, rfl⟩ := h.eq
    rw [Routine.block?_modifyBlock] at hx'
    split at hx'
    · next hc =>
      obtain ⟨x, hx, rfl⟩ := Option.map_eq_some_iff.mp hx'
      exact .inl ⟨x, hx, rfl, .inr (hc ▸ hd)⟩
    · exact .inl ⟨x', hx', rfl, .inl rfl⟩
  | _ => exact .inl ⟨x', hx', rfl, .inl rfl⟩

/-- The emission order only grows at its end. -/
theorem order : b.routine.order <+: b'.routine.order := by
  cases h with
  | place id =>
    change b.routine.order <+: (b.routine.place id).order
    unfold Routine.place
    split
    · exact List.prefix_rfl
    · exact List.prefix_append _ _
  | append h hnew => exact h.changes.order ▸ List.prefix_rfl
  | declare h hv => exact h.changes.order ▸ List.prefix_rfl
  | _ => exact List.prefix_rfl

theorem nodup_order (hb : b.routine.order.Nodup) : b'.routine.order.Nodup := by
  cases h with
  | place id =>
    change (b.routine.place id).order.Nodup
    unfold Routine.place
    split
    · exact hb
    · next hnot => exact List.nodup_append.mpr ⟨hb, List.nodup_singleton id, by grind⟩
  | append h hnew => rw [h.changes.order]; exact hb
  | declare h hv => rw [h.changes.order]; exact hb
  | _ => exact hb

/-- **The step lemma.** -/
theorem numbered (hb : b.routine.Numbered) : b'.routine.Numbered where
  counted := h.counted hb.counted
  ids c x' hx' := by
    rcases h.origin hx' with ⟨x, hx, hid, -⟩ | ⟨hid, -⟩
    · exact hid.trans (hb.ids c x hx)
    · exact hid
  order := h.nodup_order hb.order
  locals c x' hx' hne := by
    have hhead : b.routine.order.head? = some c → b'.routine.order.head? = some c := by
      intro hc
      obtain ⟨more, hmore⟩ := h.order
      rw [← hmore, List.head?_append, hc, Option.some_or]
    rcases h.origin hx' with ⟨x, hx, -, hlocals | hc⟩ | ⟨-, hempty⟩
    · exact hhead (hb.locals c x hx (hlocals ▸ hne))
    · exact hhead hc
    · exact absurd hempty hne

/-- Operations are only appended, and only to the current block. -/
theorem opsOf (c : BlockId) :
    b'.routine.opsOf c = b.routine.opsOf c ∨
      b.current = some c ∧ ∃ op, b'.routine.opsOf c = b.routine.opsOf c ++ [op] := by
  cases h with
  | block name => exact .inl (opsOf_block rfl c)
  | place id =>
    refine .inl ?_
    change (b.routine.place id).opsOf c = _
    unfold Routine.place
    split <;> rfl
  | @append n op _ d x h hnew =>
    by_cases hc : c = d
    · exact .inr ⟨hc ▸ h.current, op, hc ▸ h.opsOf⟩
    · rw [h.eq]
      exact .inl (opsOf_modifyBlock_of_ne _ hc _)
  | declare h hv => exact .inl (h.opsOf c)
  | _ => exact .inl rfl

end

end Effect

/-! ### Commands -/

/-- A step of construction, with its arguments. -/
inductive Command where
  | parameter (name : String) (ty : TypeRef)
  | block (name : String)
  | place (id : BlockId)
  | enter (id : BlockId)
  | build (opcode : Opcode) (resultType : Option TypeRef) (operands : List Operand)
  | value (opcode : Opcode) (resultType : TypeRef) (operands : List Operand)
  | localVariable (pointerType : TypeRef) (name : String)
  | load (ty : TypeRef) (pointer : Operand)
  | store (pointer value : Operand)
  | branch (target : BlockId)
  | branchIf (condition : Operand) (ifTrue ifFalse : BlockId)
  | ret (result : Option Operand)

/-- The builder after a command, whether it was carried out or refused. -/
def obey (b : Builder) : Command → Builder
  | .parameter name ty => (Builder.parameter name ty b).2
  | .block name => (Builder.block name b).2
  | .place id => (Builder.place id b).2
  | .enter id => (Builder.enter id b).2
  | .build opcode resultType operands => (Builder.build opcode resultType operands b).2
  | .value opcode resultType operands => (Builder.value opcode resultType operands b).2
  | .localVariable pointerType name => (Builder.localVariable pointerType name b).2
  | .load ty pointer => (Builder.load ty pointer b).2
  | .store pointer value => (Builder.store pointer value b).2
  | .branch target => (Builder.branch target b).2
  | .branchIf condition ifTrue ifFalse => (Builder.branchIf condition ifTrue ifFalse b).2
  | .ret result => (Builder.ret result b).2

/-- The builder after some commands, from the signature of a function on. -/
def built (f : Routine) (commands : List Command) : Builder := commands.foldl obey ⟨f.shell, none⟩

theorem changeBlock_snd (c : BlockId) (change : Block → Block) (b : Builder) :
    (changeBlock c change b).2 = b ∨ ∃ x, b.routine.block? c = some x ∧
      (changeBlock c change b).2 = { b with routine := b.routine.modifyBlock c change } := by
  unfold changeBlock
  rw [bind_apply, get_apply]
  dsimp only
  cases b.routine.block? c with
  | none => exact .inl rfl
  | some x => exact .inr ⟨x, rfl, rfl⟩

theorem changeCurrent_snd (change : Block → Block) (b : Builder) :
    (changeCurrent change b).2 = b ∨ ∃ c x, b.current = some c ∧ b.routine.block? c = some x ∧
      (changeCurrent change b).2 = { b with routine := b.routine.modifyBlock c change } := by
  obtain ⟨f, current⟩ := b
  cases current with
  | none => exact .inl rfl
  | some c =>
    rcases changeBlock_snd c change ⟨f, some c⟩ with h | ⟨x, hx, h⟩
    · exact .inl h
    · exact .inr ⟨c, x, rfl, hx, h⟩

/-- What a step makes of its value does not matter for the builder. -/
theorem bind_pure_snd {α β : Type} (x : BuildM α) (g : α → β) (b : Builder) :
    ((x >>= fun a => pure (g a) : BuildM β) b).2 = (x b).2 := by
  rw [bind_apply]
  rcases x b with ⟨_ | _, _⟩ <;> rfl

/-- Appending an operation with the next number, or without one. -/
theorem effect_append {b : Builder} {op : Op} {n : Nat}
    (hnew : ∀ v ∈ op.result, v.number = b.routine.nextValue ∧ 0 < n) :
    Effect b (append op (b.skip n)).2 := by
  unfold append
  rcases changeCurrent_snd (·.push op) (b.skip n) with h | ⟨c, x, hc, hx, h⟩
  · rw [h]
    exact .refused n
  · exact .append ⟨hc, hx, h⟩ hnew

/-- Appending an operation with a result. -/
theorem effect_append_result (opcode : Opcode) (ty : TypeRef) (operands : List Operand)
    (b : Builder) :
    Effect b (append ⟨opcode, some ⟨b.routine.nextValue⟩, some ty, operands, none⟩ (b.skip 1)).2 :=
  effect_append fun _ hv => ⟨Option.some.inj hv ▸ rfl, Nat.one_pos⟩

theorem effect_value (opcode : Opcode) (ty : TypeRef) (operands : List Operand) (b : Builder) :
    Effect b (value opcode ty operands b).2 := by
  have h := effect_append_result opcode ty operands b
  rw [← bind_pure_snd _ fun _ => (⟨b.routine.nextValue⟩ : ValueId)] at h
  exact h

theorem effect_build (opcode : Opcode) (ty : Option TypeRef) (operands : List Operand)
    (b : Builder) :
    Effect b (build opcode ty operands b).2 := by
  cases ty with
  | some ty =>
    have h := effect_append_result opcode ty operands b
    rw [← bind_pure_snd _ fun _ => some (⟨b.routine.nextValue⟩ : ValueId)] at h
    exact h
  | none =>
    have h : Effect b (append ⟨opcode, none, none, operands, none⟩ (b.skip 0)).2 := effect_append nofun
    rw [← bind_pure_snd _ fun _ => (none : Option ValueId)] at h
    exact h

theorem effect_localVariable (ty : TypeRef) (name : String) (b : Builder) :
    Effect b (localVariable ty name b).2 := by
  unfold localVariable
  rw [bind_apply, get_apply]
  dsimp only
  cases hentry : b.routine.entry? with
  | none => exact .refused 0
  | some c =>
    change Effect b ((changeBlock c (·.pushLocal ⟨.declare, some ⟨b.routine.nextValue⟩, some ty, [],
      some name⟩) >>= fun _ => pure _ : BuildM ValueId) (b.skip 1)).2
    rw [bind_pure_snd]
    rcases changeBlock_snd c _ (b.skip 1) with h | ⟨x, hx, h⟩
    · rw [h]
      exact .refused 1
    · exact .declare ⟨rfl, c, x, hentry, hx, h⟩ rfl

/-- Every command is one step. -/
theorem effect_obey (b : Builder) (command : Command) : Effect b (b.obey command) := by
  have hplain : ∀ opcode operands, Effect b
      ((do let _ ← build opcode none operands : BuildM Unit) b).2 := by
    intro opcode operands
    rw [bind_pure_snd]
    exact effect_build opcode none operands b
  cases command with
  | parameter name ty => exact .parameter name ty
  | block name => exact .block name
  | place id => exact .place id
  | enter id => exact .enter id
  | build opcode ty operands => exact effect_build opcode ty operands b
  | value opcode ty operands => exact effect_value opcode ty operands b
  | localVariable ty name => exact effect_localVariable ty name b
  | load ty pointer => exact effect_value .load ty [pointer] b
  | store pointer value => exact hplain .store _
  | branch target => exact hplain .branch _
  | branchIf condition ifTrue ifFalse => exact hplain .branchConditional _
  | ret result =>
    cases result with
    | none => exact hplain .ret _
    | some v => exact hplain .retValue _

end Builder

/-! ### Repair -/

namespace Routine

variable {f : Routine}

theorem Counted.repairBlock (hf : f.Counted) (returnType : Option TypeRef) (id : BlockId) :
    (repairBlock returnType f id).Counted := by
  unfold Routine.repairBlock
  split
  · exact hf
  split
  · exact hf.of_subperm none (values_modifyBlock Block.values_truncate f id) nofun (Nat.le_refl _)
  · cases returnType with
    | none =>
      exact hf.of_subperm none (values_modifyBlock (fun x => x.values_append _) f id) nofun
        (Nat.le_refl _)
    | some ty =>
      refine hf.of_subperm (some ⟨f.nextValue⟩)
        (values_modifyBlock (fun x => x.values_append _) f.newValue.2 id) (fun v hv => ?_)
        (Nat.le_succ _)
      cases hv
      exact ⟨rfl, Nat.lt_succ_self _⟩

theorem Counted.repair (hf : f.Counted) (returnType : Option TypeRef) :
    (f.repair returnType).Counted := by
  unfold Routine.repair
  generalize f.order = ids
  induction ids generalizing f with
  | nil => exact hf
  | cons id ids ih => exact ih (hf.repairBlock returnType id)

/-- **Repair keeps a function in order.** -/
theorem Numbered.repair (hf : f.Numbered) (returnType : Option TypeRef) :
    (f.repair returnType).Numbered := by
  have hblock : ∀ c x', (f.repair returnType).block? c = some x' →
      ∃ x, f.block? c = some x ∧ x'.id = x.id ∧ x'.locals = x.locals := by
    intro c x' hx'
    obtain ⟨x, hx, hin, hout⟩ := exists_of_block?_repair hx'
    refine ⟨x, hx, ?_⟩
    by_cases hc : c ∈ f.order
    · obtain ⟨tail, -, rfl⟩ := hin hc
      exact ⟨rfl, rfl⟩
    · rw [hout hc]
      exact ⟨rfl, rfl⟩
  refine ⟨hf.counted.repair returnType, fun c x' hx' => ?_, ?_, fun c x' hx' hne => ?_⟩
  · obtain ⟨x, hx, hid, -⟩ := hblock c x' hx'
    exact hid.trans (hf.ids c x hx)
  · rw [order_repair]
    exact hf.order
  · obtain ⟨x, hx, -, hlocals⟩ := hblock c x' hx'
    rw [order_repair]
    exact hf.locals c x hx (hlocals ▸ hne)

end Routine

/-! ### Runs of commands -/

namespace Builder

theorem numbered_shell (f : Routine) : f.shell.Numbered :=
  ⟨⟨List.nodup_nil, nofun⟩, nofun, List.nodup_nil, nofun⟩

theorem numbered_foldl {b : Builder} (hb : b.routine.Numbered) (commands : List Command) :
    (commands.foldl obey b).routine.Numbered := by
  induction commands generalizing b with
  | nil => exact hb
  | cons command commands ih => exact ih ((b.effect_obey command).numbered hb)

/-- Along a run of commands, what has been placed stays placed and what has been appended stays. -/
theorem prefix_foldl (b : Builder) (commands : List Command) :
    b.routine.order <+: (commands.foldl obey b).routine.order ∧
      ∀ c, b.routine.opsOf c <+: (commands.foldl obey b).routine.opsOf c := by
  induction commands generalizing b with
  | nil => exact ⟨List.prefix_rfl, fun _ => List.prefix_rfl⟩
  | cons command commands ih =>
    have heffect := b.effect_obey command
    obtain ⟨horder, hops⟩ := ih (b.obey command)
    refine ⟨heffect.order.trans horder, fun c => List.IsPrefix.trans ?_ (hops c)⟩
    rcases heffect.opsOf c with h | ⟨-, op, h⟩
    · exact h ▸ List.prefix_rfl
    · exact h ▸ List.prefix_append _ _

/-- **Construction keeps everything in order.** After any commands, refused ones included, and after a
repair, the numbers of parameters, variables and results differ and are below the next one, the blocks
have the numbers of their places, no block is placed twice and only the first placed one has variables.
Later commands only add to the emission order and to the operations of a block, at the end, and each
command appends at most one operation, to the current block. -/
theorem built_numbered (f : Routine) (commands later : List Command) (returnType : Option TypeRef) :
    (built f commands).routine.Numbered ∧
    ((built f commands).routine.repair returnType).Numbered ∧
    ((built f commands).routine.repair returnType).order = (built f commands).routine.order ∧
    (built f commands).routine.order <+: (built f (commands ++ later)).routine.order ∧
    (∀ c, (built f commands).routine.opsOf c <+: (built f (commands ++ later)).routine.opsOf c) ∧
    ∀ command c,
      (built f (commands ++ [command])).routine.opsOf c = (built f commands).routine.opsOf c ∨
      (built f commands).current = some c ∧ ∃ op, (built f (commands ++ [command])).routine.opsOf c =
        (built f commands).routine.opsOf c ++ [op] := by
  have hnumbered : (built f commands).routine.Numbered := numbered_foldl (numbered_shell f) commands
  have happend : ∀ more, built f (commands ++ more) = more.foldl obey (built f commands) :=
    fun more => List.foldl_append
  obtain ⟨horder, hops⟩ := (built f commands).prefix_foldl later
  refine ⟨hnumbered, hnumbered.repair returnType, Routine.order_repair _ _, ?_, fun c => ?_,
    fun command c => ?_⟩
  · rw [happend]
    exact horder
  · rw [happend]
    exact hops c
  · rw [happend]
    exact ((built f commands).effect_obey command).opsOf c

end Builder

end Shader
