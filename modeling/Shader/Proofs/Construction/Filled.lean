import Shader.Proofs.Construction.Prepared
import Shader.Proofs.Machine.Focus

/-!
# Running pre-constructors

The code of a pre-constructor takes a zero value in memory, wherever it is, and leaves the default
of the class in its place. It enters one block, and the pre-constructors that it calls enter theirs,
so that the number of blocks is known beforehand.
-/

namespace Shader

open Outcome

/-! ### Members one by one -/

variable {vs : List VariableDecl}

/-- The first of several zero values. -/
theorem AreZeros.exists_cons {w : Tree} {v : VariableDecl} {zs : List Value} (hw : w.Plain)
    (h : AreZeros w (v :: vs) zs) :
    ∃ z zs', zs = z :: zs' ∧ (v.ty.isClass = false → z = v.ty.zero) ∧
      (∀ c ∈ w.classes, v.ty = .ofClass c.id → IsZero w c z) ∧ AreZeros w vs zs' := by
  cases h with
  | builtin hty h =>
    refine ⟨_, _, rfl, fun _ => rfl, fun c _ hty' => ?_, h⟩
    rw [hty'] at hty
    nomatch hty
  | object hc hty hx h =>
    refine ⟨_, _, rfl, fun hty' => ?_, fun c' hc' hty' => ?_, h⟩
    · rw [hty] at hty'
      nomatch hty'
    · obtain rfl := hw.apart.eq_of_id _ hc _ hc' (TypeSpec.ofClass.inj (hty.symm.trans hty'))
      exact hx

/-- The first of several defaults. -/
theorem AreDefaults.exists_cons {w : Tree} {v : VariableDecl} {xs : List Value} {n : Nat}
    (hw : w.Plain) (h : AreDefaults w (v :: vs) xs n) :
    ∃ x xs' n₁ n₂, xs = x :: xs' ∧ n = n₁ + n₂ ∧
      (∀ e l, v.initial = some e → e.kind = .literal l → x = .ofLiteral l ∧ n₁ = 0) ∧
      (v.initial = none → v.ty.isClass = false → x = v.ty.zero ∧ n₁ = 0) ∧
      (v.initial = none → ∀ c ∈ w.classes, v.ty = .ofClass c.id → IsDefault w c x n₁) ∧
      AreDefaults w vs xs' n₂ := by
  cases h with
  | literal hinitial he h =>
    refine ⟨_, _, 0, _, rfl, (Nat.zero_add _).symm, fun e l he' hl => ?_, fun hnone => ?_,
      fun hnone => ?_, h⟩
    · cases hinitial.symm.trans he'
      exact ⟨congrArg Value.ofLiteral (ExprKind.literal.inj (he.symm.trans hl)), rfl⟩
    · cases hinitial.symm.trans hnone
    · cases hinitial.symm.trans hnone
  | builtin hinitial hty h =>
    refine ⟨_, _, 0, _, rfl, (Nat.zero_add _).symm, fun e l he' => ?_, fun _ _ => ⟨rfl, rfl⟩,
      fun _ c _ hty' => ?_, h⟩
    · cases hinitial.symm.trans he'
    · rw [hty'] at hty
      cases hty
  | object hinitial hc hty hx h =>
    refine ⟨_, _, _, _, rfl, rfl, fun e l he' => ?_, fun _ hty' => ?_, fun _ c' hc' hty' => ?_, h⟩
    · cases hinitial.symm.trans he'
    · rw [hty] at hty'
      cases hty'
    · obtain rfl := hw.apart.eq_of_id _ hc _ hc' (TypeSpec.ofClass.inj (hty.symm.trans hty'))
      exact hx

/-- A member number is read back as it was meant. -/
theorem toNat_index {k : Nat} (hk : k < UInt32.size) : (Int32.ofNat k).toUInt32.toNat = k := by
  rw [Int32.toUInt32_ofNat', UInt32.toNat_ofNat', Nat.mod_eq_of_lt hk]

namespace Machine

/-! ### What a run costs -/

/-- **Runs with a price.** The run enters `n` blocks, if the limit allows for them, and otherwise it
hits the limit. -/
structure Spends {α : Type} (limit n : Nat) (x : RunM α) (M : Machine) (Q : α → Machine → Prop) :
    Prop where
  ok : M.executed.size + n ≤ limit →
    ∃ a M', x M = (.ok a, M') ∧ M'.executed.size = M.executed.size + n ∧ Q a M'
  stops : limit < M.executed.size + n → ∃ M', x M = (.error (.stepLimit limit), M')

namespace Spends

variable {α β : Type} {limit n n' : Nat} {x : RunM α} {M : Machine} {Q : α → Machine → Prop}

theorem free {a : α} {M' : Machine} (hx : x M = (.ok a, M')) (hsize : M'.executed.size = M.executed.size)
    (hM : M.executed.size ≤ limit) (hQ : Q a M') : Spends limit 0 x M Q where
  ok _ := ⟨a, M', hx, hsize, hQ⟩
  stops h := absurd hM (by omega)

theorem bind {f : α → RunM β} {R : β → Machine → Prop} (hx : Spends limit n x M Q)
    (hf : ∀ a M', M'.executed.size ≤ limit → Q a M' → Spends limit n' (f a) M' R) :
    Spends limit (n + n') (x >>= f) M R where
  ok hlimit := by
    obtain ⟨a, M₁, h₁, hsize₁, hQ⟩ := hx.ok (by omega)
    obtain ⟨b, M₂, h₂, hsize₂, hR⟩ := (hf a M₁ (by omega) hQ).ok (by omega)
    refine ⟨b, M₂, ?_, by omega, hR⟩
    rw [bind_apply, h₁]
    exact h₂
  stops hlimit := by
    by_cases hn : M.executed.size + n ≤ limit
    · obtain ⟨a, M₁, h₁, hsize₁, hQ⟩ := hx.ok hn
      obtain ⟨M₂, h₂⟩ := (hf a M₁ (by omega) hQ).stops (by omega)
      refine ⟨M₂, ?_⟩
      rw [bind_apply, h₁]
      exact h₂
    · obtain ⟨M₁, h₁⟩ := hx.stops (by omega)
      refine ⟨M₁, ?_⟩
      rw [bind_apply, h₁]

theorem mono {R : α → Machine → Prop} (hx : Spends limit n x M Q) (h : ∀ a M', Q a M' → R a M') :
    Spends limit n x M R where
  ok hlimit := by
    obtain ⟨a, M', h', hsize, hQ⟩ := hx.ok hlimit
    exact ⟨a, M', h', hsize, h a M' hQ⟩
  stops := hx.stops

theorem congr {y : RunM α} {M' : Machine} (h : x M = y M') (hsize : M.executed = M'.executed)
    (hy : Spends limit n y M' Q) : Spends limit n x M Q where
  ok hlimit := by
    rw [h, hsize]
    exact hy.ok (hsize ▸ hlimit)
  stops hlimit := by
    rw [h]
    exact hy.stops (hsize ▸ hlimit)

/-- Entering a block has its price. -/
theorem runBlock {root : Library} {a : Activation} {frame : Frame} {block : BlockId} {b : Block}
    {Q : Option Value → Machine → Prop} (hb : a.routine.block? block = some b)
    (h : M.executed.size < limit →
      Spends limit n (rest root limit a block frame b.ops) (entering a M block) Q) :
    Spends limit (n + 1) (runBlock root limit a frame block) M Q := by
  have hrun := runBlock_eq root limit a frame block M
  have hsize : (entering a M block).executed.size = M.executed.size + 1 := Array.size_push _
  by_cases hM : limit ≤ M.executed.size
  · rw [if_pos hM] at hrun
    exact ⟨fun hlimit => by omega, fun _ => ⟨M, hrun⟩⟩
  · rw [if_neg hM, hb] at hrun
    have hrest := h (by omega)
    refine ⟨fun hlimit => ?_, fun hlimit => ?_⟩
    · obtain ⟨v, M', hok, hsize', hQ⟩ := hrest.ok (by omega)
      exact ⟨v, M', hrun.trans hok, by omega, hQ⟩
    · obtain ⟨M', hstop⟩ := hrest.stops (by omega)
      exact ⟨M', hrun.trans hstop⟩

end Spends

/-! ### Operations of a pre-constructor -/

section Operations

variable (call : FunctionRef → List Value → RunM (Option Value)) {l : Library} (block : BlockId)
  {frame : Frame} (ops : List Op) (M : Machine)

theorem runOps_member {p : Pointer} {i : ConstantId} {ty : TypeRef} {k : Nat}
    (hframe : frame.lookup ⟨0⟩ = some (.pointer p))
    (hi : l.constants[i.index]? = some ⟨ty, .int (Int32.ofNat k)⟩) (hk : k < UInt32.size)
    (r : ValueId) (pointer : TypeRef) :
    runOps call l block frame (.member i r pointer :: ops) M =
      runOps call l block (frame.set r (.pointer (p.part [k]))) ops M := by
  have hobject : operand l frame (.member i r pointer) 0 = .ok (.pointer p) :=
    operand_value rfl hframe
  have hindex : operand l frame (.member i r pointer) 1 = .ok (.int (Int32.ofNat k)) :=
    operand_constant rfl hi
  have hindices : indices l frame (.member i r pointer) 1 = .ok [k] := by
    have hrange : List.range' 1 ((Op.member i r pointer).operands.length - 1) = [1] := rfl
    rw [indices, hrange, List.mapM_cons, hindex]
    change Except.ok [(Int32.ofNat k).toUInt32.toNat] = _
    rw [toNat_index hk]
  have hcompute : compute l frame (.member i r pointer) = .ok (.pointer (p.part [k])) := by
    unfold compute
    dsimp only [Op.member]
    change (operand l frame (.member i r pointer) 0 >>= _) = _
    rw [hobject]
    change (indices l frame (.member i r pointer) 1 >>= _) = _
    rw [hindices]
    rfl
  have hperform : perform call l frame (.member i r pointer) M = (.ok (.pointer (p.part [k])), M) := by
    change (liftM (compute l frame (.member i r pointer)) : RunM Value) M = _
    rw [hcompute]
    rfl
  change (perform call l frame (.member i r pointer) >>= fun v =>
    runOps call l block (frame.set r v) ops) M = _
  rw [bind_apply, hperform]

theorem runOps_put {q : Pointer} {r : ValueId} {j : ConstantId} {ty : TypeRef} {literal : Literal}
    {x : Value} (hframe : frame.lookup r = some (.pointer q))
    (hj : l.constants[j.index]? = some ⟨ty, literal⟩) (hx : M.memory.read? q = some x) :
    runOps call l block frame (.put r j :: ops) M =
      runOps call l block frame ops
        { M with memory := M.memory.write q (.ofLiteral literal) } := by
  have htarget : operand l frame (.put r j) 0 = .ok (.pointer q) := operand_value rfl hframe
  have hvalue : operand l frame (.put r j) 1 = .ok (.ofLiteral literal) := operand_constant rfl hj
  have hwrite : write (.pointer q) (.ofLiteral literal) M =
      (.ok (), { M with memory := M.memory.write q (.ofLiteral literal) }) := by
    unfold write
    dsimp only
    rw [Memory.write?_eq, hx]
    rfl
  have hperform : perform call l frame (.put r j) M =
      (.ok .undefined, { M with memory := M.memory.write q (.ofLiteral literal) }) := by
    change (do
      let p ← liftM (operand l frame (.put r j) 0)
      let v ← liftM (operand l frame (.put r j) 1)
      write p v
      return Value.undefined : RunM Value) M = _
    rw [htarget, hvalue]
    change (do
      write (.pointer q) (.ofLiteral literal)
      return Value.undefined : RunM Value) M = _
    rw [bind_apply, hwrite]
    rfl
  change (perform call l frame (.put r j) >>= fun _ => runOps call l block frame ops) M = _
  rw [bind_apply, hperform]

end Operations

/-! ### Filling objects -/

/-- **Functions that fill objects**: a call turns the zero value of a class into the default, at any
place in memory, and leaves all else as it is. -/
def Fills (root : Library) (w : Tree) (c : ClassDecl) (f : FunctionRef) : Prop :=
  ∀ ⦃limit : Nat⦄ ⦃M : Machine⦄ ⦃p : Pointer⦄ ⦃z x : Value⦄ ⦃n : Nat⦄, M.executed.size ≤ limit →
    IsZero w c z → IsDefault w c x n → M.memory.read? p = some z →
    Spends limit n (call root limit f [.pointer p]) M fun _ M' => M'.memory = M.memory.write p x

variable {root l : Library} {w t : Tree} {pre : ClassDecl → Option FunctionRef}

/-- **The code of a pre-constructor runs** from member to member. The members before are defaults,
and those behind are zero. -/
theorem runOps_prepares (hw : w.Plain) (hsub : ∀ c ∈ t.classes, c ∈ w.classes)
    (hprepared : ∀ c ∈ t.classes, (pre c).isSome = c.isPrepared) {limit : Nat} {p : Pointer}
    (block : BlockId) (hplain : ∀ v ∈ vs, v.Plain t)
    (hfills : ∀ v ∈ vs, ∀ c ∈ t.classes, v.ty = .ofClass c.id → ∀ f, pre c = some f →
      Fills root w c f) :
    ∀ {k n : Nat} {ops : List Op} {ds zs xs : List Value} {frame : Frame} {M : Machine},
      Prepares t pre l.constants (vs.zipIdx k) ops → AreZeros w vs zs → AreDefaults w vs xs n →
      ds.length = k → k + vs.length ≤ UInt32.size → frame.lookup ⟨0⟩ = some (.pointer p) →
      M.executed.size ≤ limit → M.memory.read? p = some (.composite (ds ++ zs)) →
      Spends limit n (runOps (call root limit) l block frame (ops ++ [.leave])) M fun r M' =>
        r.1 = .leave none ∧ M'.memory = M.memory.write p (.composite (ds ++ xs)) := by
  induction vs with
  | nil =>
    intro k n ops ds zs xs frame M hops hzs hxs hk hsize hframe hM hread
    cases hops
    cases hzs
    cases hxs
    exact .free rfl rfl hM ⟨rfl, (Memory.write_read? hread).symm⟩
  | cons v vs ih =>
    intro k n ops ds zs xs frame M hops hzs hxs hk hsize hframe hM hread
    obtain ⟨z, zs, rfl, hzero, hobject, hzs⟩ := hzs.exists_cons hw
    obtain ⟨x, xs, n₁, n₂, rfl, rfl, hliteral, hbuiltin, hdefault, hxs⟩ := hxs.exists_cons hw
    rw [List.zipIdx_cons] at hops
    rw [List.length_cons] at hsize
    have hlt : k < UInt32.size := by omega
    have hget : (ds ++ z :: zs)[k]? = some z := by
      rw [List.getElem?_append_right (by omega), hk, Nat.sub_self, List.getElem?_cons_zero]
    have hpart : M.memory.read? (p.part [k]) = some z := by
      rw [Memory.read?_part hread, Value.get?, hget]
      simp only [Value.get?]
    have hset : (Value.composite (ds ++ z :: zs)).set? [k] x = some (.composite (ds ++ x :: zs)) := by
      have hlist : (ds ++ z :: zs).set k x = ds ++ x :: zs := by
        rw [List.set_append_right _ _ (by omega), hk, Nat.sub_self, List.set_cons_zero]
      simp only [Value.set?, hget, Option.map_some, hlist]
    -- once this member is done, the induction takes care of the others
    have hnext : ∀ {frame : Frame} {M' : Machine} {ops : List Op},
        frame.lookup ⟨0⟩ = some (.pointer p) → M'.executed.size ≤ limit →
        M'.memory = M.memory.write p (.composite (ds ++ x :: zs)) →
        Prepares t pre l.constants (vs.zipIdx (k + 1)) ops →
        Spends limit n₂ (runOps (call root limit) l block frame (ops ++ [.leave])) M' fun r M'' =>
          r.1 = .leave none ∧ M''.memory = M.memory.write p (.composite (ds ++ x :: xs)) := by
      intro frame M' ops hframe hM' hmemory hops
      have hread' : M'.memory.read? p = some (.composite ((ds ++ [x]) ++ zs)) := by
        rw [hmemory, Memory.read?_write hread, List.append_assoc, List.singleton_append]
      refine (ih (fun v hv => hplain v (List.mem_cons_of_mem _ hv))
        (fun v hv => hfills v (List.mem_cons_of_mem _ hv)) hops hzs hxs
        (by rw [List.length_append, hk]; rfl) (by omega) hframe hM' hread').mono fun r M'' hM'' => ?_
      refine ⟨hM''.1, ?_⟩
      rw [hM''.2, hmemory, Memory.write_write hread, List.append_assoc, List.singleton_append]
    have hself : ∀ r v, (frame.set r v).lookup r = some v := fun r v => by
      rw [Frame.lookup_set, if_pos rfl]
    cases hops with
    | literal hinitial he hr hi hj hops =>
      obtain ⟨rfl, rfl⟩ := hliteral _ _ hinitial he
      rw [Nat.zero_add]
      refine .congr (runOps_member _ block _ M hframe hi hlt _ _) rfl ?_
      refine .congr (runOps_put _ block _ M (hself _ _) hj hpart) rfl ?_
      refine hnext ?_ hM (Memory.write_part hread hset) hops
      rw [Frame.lookup_set, if_neg hr.symm]
      exact hframe
    | object hinitial hc hty hpre hr hi hops =>
      refine .congr (runOps_member _ block _ M hframe hi hlt _ _) rfl ?_
      refine .congr (congrFun (runOps_call _ _ _ (hself _ _) _ _) M) rfl ?_
      refine (hfills v List.mem_cons_self _ hc hty _ hpre hM (hobject _ (hsub _ hc) hty)
        (hdefault hinitial _ (hsub _ hc) hty) hpart).bind fun _ M' hM' hmemory => ?_
      refine hnext ?_ hM' (hmemory.trans (Memory.write_part hread hset)) hops
      rw [Frame.lookup_set, if_neg hr.symm]
      exact hframe
    | skip hinitial hty hops =>
      -- nothing is done for the member, since its default is its zero value
      obtain ⟨rfl, rfl⟩ : x = z ∧ n₁ = 0 := by
        cases hplain v List.mem_cons_self with
        | literal _ hinitial' => cases hinitial.symm.trans hinitial'
        | builtin hty' _ =>
          have hbuiltinType := Tree.isClass_of_enterBuiltin hty'
          rw [hzero hbuiltinType]
          exact hbuiltin hinitial hbuiltinType
        | @object c hc hty' _ =>
          have hnone : c.isPrepared = false := by
            rw [← hprepared _ hc, hty _ hc hty']
            rfl
          exact hw.default_of_not_prepared (hsub _ hc) hnone (hobject _ (hsub _ hc) hty')
            (hdefault hinitial _ (hsub _ hc) hty')
      rw [Nat.zero_add]
      exact hnext hframe hM (Memory.write_read? hread).symm hops

/-- **Pre-constructors fill objects**, if the pre-constructors that they call do. -/
theorem fills_prepared (hw : w.Plain) (hsub : ∀ c ∈ t.classes, c ∈ w.classes)
    (hprepared : ∀ c ∈ t.classes, (pre c).isSome = c.isPrepared) {c : ClassDecl} {f : FunctionRef}
    (hplain : c.Plain t) (hc : c.isPrepared = true)
    (hfills : ∀ v ∈ c.members, ∀ c' ∈ t.classes, v.ty = .ofClass c'.id → ∀ f, pre c' = some f →
      Fills root w c' f)
    (hl : root.findLibrary? f.library = some l) {head : Routine} {pointer : TypeRef} {ops : List Op}
    {k : Nat} (hroutine : l.routine? f = some (Emit.prepared head pointer ops k))
    (hops : Prepares t pre l.constants c.members.zipIdx ops) : Fills root w c f := by
  intro limit M p z x n hM hz hx hread
  obtain ⟨hz⟩ := hz
  obtain @⟨_, xs, n, hx⟩ := hx
  rw [hc, if_pos rfl]
  let a : Activation := ⟨l, f, Emit.prepared head pointer ops k⟩
  let frame : Frame := [(⟨0⟩, .pointer p)]
  let M₁ : Machine := { M with calls := M.calls.push f }
  have henter : enter root f [.pointer p] M = (.ok (a, frame, ⟨0⟩), M₁) := by
    rw [enter_apply hl hroutine]
    rfl
  have hcall : call root limit f [.pointer p] M = runBlock root limit a frame ⟨0⟩ M₁ := by
    rw [call_eq, bind_apply, henter]
  refine .congr (y := runBlock root limit a frame ⟨0⟩) hcall rfl (Spends.runBlock rfl fun hM₁ => ?_)
  have hsize : (entering a M₁ ⟨0⟩).executed.size ≤ limit := by
    have hpush : (entering a M₁ ⟨0⟩).executed.size = M₁.executed.size + 1 := Array.size_push _
    omega
  have hcount : 0 + c.members.length ≤ UInt32.size := by
    rw [Nat.zero_add]
    exact hplain.count
  have hframe : frame.lookup ⟨0⟩ = some (.pointer p) := rfl
  have hcode := runOps_prepares hw hsub hprepared ⟨0⟩ hplain.members hfills hops hz hx
    (List.length_nil (α := Value)) hcount hframe hsize hread
  refine (hcode.bind fun r M' hM' hr => ?_ : Spends limit (n + 0) _ _ _)
  obtain ⟨flow, frame'⟩ := r
  obtain ⟨rfl, hmemory⟩ := hr
  exact .free rfl rfl hM' hmemory

end Machine

end Shader
