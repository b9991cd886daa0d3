import Shader.Proofs.Lowering.Stages

/-!
# The walk through the syntax
-/

namespace Shader

open Outcome

namespace Emit

namespace Stages

variable {returnType : Option TypeRef} {o : Outline} {x : Emitted}

section Parts

variable {W : Type} {S : Stages W} (hS : S.Sound) {w : W}
include hS

/-! ### Values and storage -/

theorem function_emits (id : FunctionId) (location : Location) :
    S.Emits w (function id location) .straight
      fun f _ => S.scope.library.findFunction? id = some f ∧ S.Named id f := by
  intro f e he
  obtain ⟨w', rfl, hw', hdraw, hf⟩ := (hS.function id location).straight f e he
  obtain ⟨s, hs, -⟩ := onScope_ok.mp he
  obtain ⟨-, hfind⟩ := Scope.function_ok hs
  exact ⟨w', rfl, hw', hdraw, ((hS.reads w).findFunction?_eq id).symm.trans hfind, hf⟩

theorem constant_emits (ty : TypeRef) (value : Literal) :
    S.Emits w (constant ty value) .straight fun o w' => S.Usable w' o :=
  (hS.constant ty value).emits ((onScope_draws _).straight fun _ => .pure _)

section

variable {opcode : Opcode} {ty : TypeRef} {operands : List Operand} (hopcode : S.Allowed opcode)
  (hoperands : ∀ o ∈ operands, S.Usable w o) (hty : S.HasType w ty) (location : Location)
include hopcode hoperands hty

theorem computed_emits : S.Emits w (build location (Builder.value opcode ty operands))
    (.ruled opcode) fun v w' => S.HasValue (.value v, ty) w' := by
  intro v e he
  obtain ⟨w', rfl, hw', hdraw, hv⟩ :=
    (hS.value location hopcode hoperands hty).emits (value_draws _ _ _ location) v e he
  exact ⟨w', rfl, hw', hdraw, hv, S.hasType hw' hty⟩

theorem operation_emits :
    S.Emits w (operation opcode ty operands location) (.ruled opcode) S.Has :=
  (computed_emits hS hopcode hoperands hty location).bind_straight fun _ _ _ hv => .pure hv

end

theorem localVariable_emits {ty : TypeRef} (name : String) (location : Location)
    (hty : S.HasType w ty) : S.Emits w (build location (Builder.localVariable ty name)) .straight
      fun v w' => S.Usable w' (.value v) :=
  (hS.localVariable name location hty).emits (localVariable_draws _ _ location)

theorem newStorage_emits (ty : TypeRef) (name : String) (location : Location) :
    S.Emits w (newStorage ty name location) .straight fun v w' => S.Usable w' (.value v) :=
  (hS.pointerType ty location).straight.bind fun _ _ _ hpointer =>
    localVariable_emits hS name location hpointer

theorem store_emits {pointer : ValueId} {value : Operand} (hpointer : S.Usable w (.value pointer))
    (hvalue : S.Usable w value) (location : Location) :
    S.Emits w (store pointer value location) .straight fun _ _ => True :=
  (hS.plain location (hS.allowed _ (by decide)) (List.forall_mem_cons.mpr
    ⟨hpointer, List.forall_mem_singleton.mpr hvalue⟩)).emits (plain_draws .store _ location)

theorem load_emits (hx : S.Has x w) (location : Location) :
    S.Emits w (load x location) .straight S.HasValue := by
  cases x with
  | value operand ty => exact .pure hx
  | storage pointer ty =>
    exact (computed_emits hS (hS.allowed .load (by decide))
      (List.forall_mem_singleton.mpr hx.1) hx.2 location).bind fun _ _ _ hv => .pure hv
  | void => exact .throw

theorem toStorage_emits (hx : S.Has x w) (location : Location) :
    S.Emits w (toStorage x location) .straight S.HasStorage := by
  cases x with
  | storage pointer ty => exact .pure hx
  | value operand ty =>
    refine (newStorage_emits hS ty "temp" location).bind fun pointer w₁ hw₁ hpointer => ?_
    exact (store_emits hS hpointer (S.usable hw₁ hx.1) location).bind fun _ w₂ hw₂ _ =>
      .pure ⟨S.usable hw₂ hpointer, S.hasType (S.trans hw₁ hw₂) hx.2⟩
  | void => exact .throw

/-! ### Constructs -/

theorem shortCircuit_emits (kind : ShortCircuit) {left : Typed} {right : EmitM Typed}
    (hleft : S.HasValue left w) (hright : ∀ w', S.Emits w' right o S.HasValue)
    (location : Location) :
    S.Emits w (shortCircuit kind left right location) (.shortCircuit o) S.Has := by
  obtain ⟨B⟩ := hS.blocks
  rw [shortCircuit_eq]
  refine (newStorage_emits hS left.2 _ location).bind fun temp w₁ hw₁ htemp => ?_
  have hleft := hleft.mono hw₁
  refine .of_passes B fun k => B.block_bind 0 (B.block_bind 1 (B.block_bind 2 ?_))
  refine ((B.fork location (by simp) (by cases kind <;> simp [either])
    (by cases kind <;> simp [either]) hleft.1).at (fork_draws _ _ _ _ location)).bind fun _ => ?_
  refine (B.arm (o := .straight) location (by simp) fun w' hw' => ?_).bind fun _ => ?_
  · exact store_emits hS (B.usable (B.within hw') htemp) (B.usable (B.within hw') hleft.1) location
  refine (B.arm (o := o) location (by simp) fun w' hw' => ?_).bind fun _ => ?_
  · refine (hright w').bind_straight fun value w'' hw'' hvalue => ?_
    exact store_emits hS (S.usable hw'' (B.usable (B.within hw') htemp)) hvalue.1 location
  refine (B.last location).bind fun _ => ?_
  rintro _ x e' h ⟨w', rfl, hw', hk, -⟩
  obtain ⟨rfl, rfl⟩ := ok_eq_ok.mp h
  exact ⟨w', rfl, hw', hk, S.usable hw' htemp, S.hasType hw' hleft.2⟩

section

variable {condition : Expr} {body rest : EmitM Unit} {o o' o'' : Outline} (location : Location)
  (hcondition : S.Emits w (Emit.value condition) o S.HasValue)
  (hbody : ∀ w', S.Within w w' → S.Emits w' body o' fun _ _ => True)
include hcondition hbody

/-- A condition without a second branch. -/
theorem selection_emits_ifThen :
    S.Emits w (selection condition body none location) (.seq o (.ifThen o')) fun _ _ => True := by
  obtain ⟨B⟩ := hS.blocks
  rw [selection_eq_ifThen]
  refine hcondition.seq fun test w₁ hw₁ htest => .of_passes B fun k =>
    B.block_bind 0 (B.block_bind 1 ?_)
  refine B.rotated ?_
  refine ((B.fork location (by simp) (by simp) (by simp) htest.1).at
    (fork_draws _ _ _ _ location)).bind fun _ => ?_
  refine (B.arm (o := o') location (by simp) fun w' hw' => ?_).bind fun _ => B.last location
  exact hbody w' (B.trans (S.within hw₁) (B.within hw'))

/-- A condition with a second branch. -/
theorem selection_emits_ifElse (hrest : ∀ w', S.Within w w' → S.Emits w' rest o'' fun _ _ => True) :
    S.Emits w (selection condition body (some rest) location) (.seq o (.ifElse o' o''))
      fun _ _ => True := by
  obtain ⟨B⟩ := hS.blocks
  rw [selection_eq_ifElse]
  refine hcondition.seq fun test w₁ hw₁ htest => .of_passes B fun k =>
    B.block_bind 0 (B.block_bind 1 (B.block_bind 2 ?_))
  refine B.rotated ?_
  refine ((B.fork location (by simp) (by simp) (by simp) htest.1).at
    (fork_draws _ _ _ _ location)).bind fun _ => ?_
  refine (B.arm (o := o') location (by simp) fun w' hw' => ?_).bind fun _ => ?_
  · exact hbody w' (B.trans (S.within hw₁) (B.within hw'))
  refine (B.arm (o := o'') location (by simp) fun w' hw' => ?_).bind fun _ => B.last location
  exact hrest w' (B.trans (S.within hw₁) (B.within hw'))

end

theorem loop_emits {condition : Option Expr} {body : LoopTargets → EmitM Unit} {step : EmitM Unit}
    {inner last : Outline} (location : Location)
    (hcondition : ∀ x ∈ condition, ∀ w',
      S.Emits w' (Emit.value x) (x.outline S.scope) S.HasValue)
    (hbody : ∀ targets w', S.Offers w' targets → S.Emits w' (body targets) inner fun _ _ => True)
    (hstep : ∀ w', S.Within w w' → S.Emits w' step last fun _ _ => True) :
    S.Emits w (loop condition body step location)
      (.loop condition.isSome (exprOutline? S.scope condition) inner last) fun _ _ => True := by
  obtain ⟨B⟩ := hS.blocks
  rw [loop_eq]
  refine .of_passes B fun k => B.block_bind 0 (B.block_bind 1 (B.block_bind 2 (B.block_bind 3
    (B.block_bind 4 ?_))))
  refine ((B.enter location (by simp)).at (plain_draws .branch _ location)).bind fun _ => ?_
  refine ((B.head location (by simp) (by simp) (by simp)).at
    (arm_draws _ (mark_draws (Node.markLoop _ _) location fun _ => rfl) _ location)).bind fun _ => ?_
  rw [← bind_assoc]
  refine (B.test location (by simp) (by simp) hcondition).bind fun _ => ?_
  refine (B.arm (o := inner) location (by simp) fun w' hw' => ?_).bind fun _ => ?_
  · exact hbody _ w' (B.offers hw' (by simp) (by simp))
  refine (B.arm (o := last) location (by simp) fun w' hw' => ?_).bind fun _ => B.last location
  exact hstep w' (B.within hw')

/-! ### Calls -/

theorem call_emits {f : FunctionRef} {arguments : List Operand} (hf : S.Callable f arguments.length)
    (hreturn : ∀ t ∈ returnType, S.HasType w t) (harguments : ∀ o ∈ arguments, S.Usable w o)
    (location : Location) :
    S.Emits w (call f returnType arguments location) .straight S.Has := by
  unfold call
  refine ((hS.called location hf harguments hreturn).emits (operation_draws .functionCall _ _
    location)).bind fun result w' hw hresult => ?_
  split
  · next v ty => exact .pure ⟨hresult v rfl, S.hasType hw (hreturn ty rfl)⟩
  · exact .pure True.intro

theorem memberOf_emits {object : Storage} (hobject : S.HasStorage object w) (index : Nat)
    (location : Location) :
    S.Emits w (memberOf object index location) .straight S.HasStorage := by
  unfold memberOf
  refine (hS.partAt object.2 index location).straight.bind fun ty w₁ hw₁ hty => ?_
  refine (hS.pointerType ty location).straight.bind fun pointer w₂ hw₂ hpointer => ?_
  refine (hS.lowerType .integer location).straight.bind fun integer w₃ hw₃ _ => ?_
  refine (constant_emits hS integer _).bind fun c w₄ hw₄ hc => ?_
  have hw := S.trans hw₂ (S.trans hw₃ hw₄)
  refine (computed_emits hS (hS.allowed .accessChain (by decide))
    (List.forall_mem_cons.mpr
      ⟨S.usable (S.trans hw₁ hw) hobject.1, List.forall_mem_singleton.mpr hc⟩)
    (S.hasType (S.trans hw₃ hw₄) hpointer) location).bind fun v w₅ hw₅ hv => ?_
  exact .pure ⟨hv.1, S.hasType (S.trans hw hw₅) hty⟩

omit hS in
theorem usable_replicate {o : Operand} (ho : S.Usable w o) (n : Nat) :
    ∀ p ∈ List.replicate n o, S.Usable w p :=
  fun _ hp => List.eq_of_mem_replicate hp ▸ ho

theorem splat_emits (ty : TypeSpec) (value : Literal) (location : Location) :
    S.Emits w (splat ty value location) .straight fun o w' => S.Usable w' o := by
  unfold splat
  refine (hS.lowerType _ location).straight.bind fun scalar w₁ _ _ => ?_
  refine (constant_emits hS scalar value).bind fun c w₂ _ hc => ?_
  split
  · refine .ite (fun _ => ?_) fun _ => .pure hc
    refine (hS.lowerType _ location).straight.bind fun vector w₃ hw₃ hvector => ?_
    exact (computed_emits hS (hS.allowed .compositeConstruct (by decide))
      (usable_replicate (S.usable hw₃ hc) _) hvector location).bind fun v _ _ hv => .pure hv.1
  · exact .pure hc

/-! ### Parts of expressions -/

theorem binaryRule_emits (key : BinaryKey) (location : Location) :
    S.Emits w (binaryRule key location) .straight
      fun rule _ => S.scope.library.binaryRule? key = some rule := by
  unfold binaryRule
  refine .get_bind ?_
  rw [(hS.reads w).binaryRule?_eq]
  split
  · next rule hrule => exact .pure hrule
  · exact .throw

theorem applyBinary_emits {key : BinaryKey} {rule : BinaryRule}
    (hrule : S.scope.library.binaryRule? key = some rule) {left : Typed} (hleft : S.HasValue left w)
    {right : EmitM Typed} (hright : ∀ w', S.Emits w' right o S.HasValue)
    (result : TypeSpec) (location : Location) :
    S.Emits w (applyBinary rule left right result location) (S.scope.combine key o) S.Has := by
  unfold Scope.combine
  rw [hrule]
  cases rule with
  | shortCircuit kind => exact shortCircuit_emits hS kind hleft hright location
  | instruction opcode =>
    refine (hright w).seq fun value w₁ hw₁ hvalue => ?_
    refine (hS.lowerType result location).straight.bind fun ty w₂ hw₂ hty => ?_
    refine operation_emits hS (hS.binary hrule) (List.forall_mem_cons.mpr ⟨?_, ?_⟩) hty location
    · exact S.usable (S.trans hw₁ hw₂) hleft.1
    · exact List.forall_mem_singleton.mpr (S.usable hw₂ hvalue.1)

theorem convert_emits (source target : TypeSpec) {operand : EmitM Typed}
    (hoperand : S.Emits w operand o S.HasValue) (location : Location) :
    S.Emits w (convert source target operand location) (S.scope.conversion ⟨source, target⟩ o)
      S.Has := by
  unfold convert Scope.conversion
  refine .get_bind ?_
  rw [(hS.reads w).conversionRule?_eq]
  cases hrule : S.scope.library.conversionRule? ⟨source, target⟩ with
  | none => exact .throw
  | some rule =>
    obtain ⟨hinstruction, hcompare⟩ := hS.conversion hrule
    cases rule with
    | instruction opcode =>
      refine hoperand.seq fun value w₁ _ hvalue => ?_
      refine (hS.lowerType target location).straight.bind fun ty w₂ hw₂ hty => ?_
      exact operation_emits hS (hinstruction _ rfl)
        (List.forall_mem_singleton.mpr (S.usable hw₂ hvalue.1)) hty location
    | ofBool zero one =>
      refine hoperand.bind_straight fun value w₁ _ hvalue => ?_
      refine (hS.lowerType target location).straight.bind fun ty w₂ hw₂ hty => ?_
      refine (splat_emits hS target one location).bind fun one w₃ hw₃ hone => ?_
      refine (splat_emits hS target zero location).bind fun zero w₄ hw₄ hzero => ?_
      have hw := S.trans hw₃ hw₄
      refine operation_emits hS (hS.allowed .select (by decide))
        (List.forall_mem_cons.mpr ⟨?_, ?_⟩) (S.hasType hw hty) location
      · exact S.usable (S.trans hw₂ hw) hvalue.1
      · exact List.forall_mem_cons.mpr ⟨S.usable hw₄ hone, List.forall_mem_singleton.mpr hzero⟩
    | toBool compare zero =>
      refine hoperand.seq fun value w₁ _ hvalue => ?_
      refine (hS.lowerType target location).straight.bind fun ty w₂ hw₂ hty => ?_
      refine (splat_emits hS source zero location).bind fun zero w₃ hw₃ hzero => ?_
      refine operation_emits hS (hcompare _ _ rfl) (List.forall_mem_cons.mpr ⟨?_, ?_⟩)
        (S.hasType hw₃ hty) location
      · exact S.usable (S.trans hw₂ hw₃) hvalue.1
      · exact List.forall_mem_singleton.mpr hzero

variable {receiver : EmitM Storage} {name : String} {accessed : Accessed}
  {arguments : EmitM (List Typed)} {o o' : Outline}

theorem callAccessor_emits {accessor : FunctionId} {arguments : List Operand}
    (hC : ∀ f, S.Named accessor f → S.Callable f (arguments.length + 1))
    (hreceiver : ∀ w', S.Emits w' receiver o S.HasStorage)
    (harguments : ∀ o ∈ arguments, S.Usable w o) (hreturn : ∀ t ∈ returnType, S.HasType w t)
    (location : Location) :
    S.Emits w (callAccessor accessor receiver arguments returnType location) o S.Has := by
  unfold callAccessor
  refine (function_emits hS accessor location).bind fun f w₁ hw₁ ⟨_, hf⟩ => ?_
  refine (hreceiver w₁).bind_straight fun object w₂ hw₂ hobject => ?_
  have hw := S.trans hw₁ hw₂
  exact call_emits hS (hC f hf) (fun t ht => S.hasType hw (hreturn t ht)) (List.forall_mem_cons.mpr
    ⟨hobject.1, fun o ho => S.usable hw (harguments o ho)⟩) location

/-- A member that is read from where it is stored. -/
theorem readMember_stored_emits (hget : S.scope.getter? accessed = none)
    (hreceiver : ∀ w', S.Emits w' receiver o S.HasStorage) (ty : TypeSpec)
    (location : Location) :
    S.Emits w (readMember name accessed receiver ty location) o S.Has := by
  unfold readMember
  refine .get_bind ?_
  dsimp only
  rw [(hS.reads w).getter?_eq, hget]
  dsimp only
  split
  · split
    · next index _ =>
      refine (hreceiver w).bind_straight fun object w₁ _ hobject => ?_
      exact (memberOf_emits hS hobject index location).bind fun p _ _ hp => .pure hp
    · exact .throw
  · exact .throw
  · exact .throw
  · exact .throw

theorem readMember_emits
    (hC : ∀ id f, S.scope.getter? accessed = some id → S.Named id f → S.Callable f 1)
    (hreceiver : ∀ w', S.Emits w' receiver o S.HasStorage) (ty : TypeSpec)
    (location : Location) :
    S.Emits w (readMember name accessed receiver ty location) o S.Has := by
  cases hget : S.scope.getter? accessed with
  | none => exact readMember_stored_emits hS hget hreceiver ty location
  | some getter =>
    unfold readMember
    refine .get_bind ?_
    dsimp only
    rw [(hS.reads w).getter?_eq, hget]
    refine (hS.lowerType ty location).straight.bind fun returnType w₁ _ hreturn => ?_
    refine callAccessor_emits hS (fun f hf => ?_) hreceiver (List.forall_mem_nil _)
      (fun t ht => Option.some.inj ht ▸ hreturn) location
    exact hC getter f hget hf

theorem callIntrinsic_emits (key : IntrinsicKey)
    (harguments : S.Emits w arguments o S.HasValues) (ty : TypeSpec)
    (location : Location) :
    S.Emits w (callIntrinsic key arguments ty location) (S.scope.intrinsic key o) S.Has := by
  unfold callIntrinsic Scope.intrinsic
  refine .get_bind ?_
  rw [(hS.reads w).intrinsicRule?_eq]
  cases hrule : S.scope.library.intrinsicRule? key with
  | none => exact .throw
  | some rule =>
    cases rule with
    | identity =>
      refine harguments.bind_straight fun values w₁ _ hvalues => ?_
      dsimp only
      split
      · exact .pure (hvalues _ List.mem_cons_self)
      · exact .throw
    | instruction opcode =>
      refine harguments.seq fun values w₁ _ hvalues => ?_
      refine (hS.lowerType ty location).straight.bind fun ty w₂ hw₂ hty => ?_
      exact operation_emits hS (hS.intrinsic hrule) (hvalues.mono hw₂).usable hty location

/-- The target of a call is emitted only for a function that takes an object. -/
theorem callFunction_emits {id : FunctionId} {n : Nat}
    (hC : ∀ f, S.Named id f → S.Callable f ((S.scope.takesObject id f).toNat + n))
    (hreceiver : ∀ w', S.Emits w' receiver o S.HasStorage)
    (argumentTypes : List TypeSpec)
    (harguments : ∀ w', S.Emits w' arguments o' fun vs w'' => vs.length = n ∧ S.HasValues vs w'')
    (ty : TypeSpec) (location : Location) :
    S.Emits w (callMember name (.function id) receiver argumentTypes arguments ty location)
      (if S.scope.takes id then .seq o o' else o') S.Has := by
  refine (function_emits hS id location).bind fun f w₁ _ ⟨hfind, hf⟩ => ?_
  refine .get_bind ?_
  have hCf := hC f hf
  -- whether there is an object and whether there is a result, the call is the same
  have hcall : ∀ w' (object : List Operand), (∀ o ∈ object, S.Usable w' o) →
      S.Callable f (object.length + n) → S.Emits w' (do
        let values ← arguments
        let returnType ← if ty.isVoid then pure none else some <$> lowerType ty location
        call f returnType (object ++ values.map Prod.fst) location) o' S.Has := by
    intro w' object hobject hCf
    refine (harguments w').bind_straight fun values w₂ hw₂ ⟨hlength, hvalues⟩ => ?_
    have hfinal : ∀ w₃ (returnType : Option TypeRef), S.Follows w₂ w₃ →
        (∀ t ∈ returnType, S.HasType w₃ t) →
        S.Emits w₃ (call f returnType (object ++ values.map Prod.fst) location) .straight
          S.Has := by
      intro w₃ returnType hw₃ hreturn
      refine call_emits hS ?_ hreturn (List.forall_mem_append.mpr ⟨fun o ho => ?_, ?_⟩) location
      · rw [List.length_append, List.length_map, hlength]
        exact hCf
      · exact S.usable (S.trans hw₂ hw₃) (hobject o ho)
      · exact (hvalues.mono hw₃).usable
    refine .ite (fun _ => ?_) fun _ => ?_
    · rw [pure_bind]
      exact hfinal w₂ none (S.refl w₂) nofun
    · rw [map_eq_pure_bind, bind_assoc]
      refine (hS.lowerType ty location).straight.bind fun t w₃ hw₃ ht => ?_
      rw [pure_bind]
      exact hfinal w₃ (some t) hw₃ fun u hu => Option.some.inj hu ▸ ht
  dsimp only
  rw [hS.takes hfind, Scope.takes, hfind]
  dsimp only
  by_cases htakes : S.scope.takesObject id f = true
  · rw [if_pos htakes, if_pos htakes]
    refine (hreceiver w₁).seq fun object w₂ _ hobject => ?_
    rw [pure_bind]
    refine hcall w₂ _ (List.forall_mem_singleton.mpr hobject.1) ?_
    rwa [htakes] at hCf
  · rw [if_neg htakes, if_neg htakes, pure_bind]
    refine hcall w₁ [] (List.forall_mem_nil _) ?_
    rwa [Bool.of_not_eq_true htakes] at hCf

theorem newObject_emits (id : ClassId) {constructor : Option FunctionId} {n : Nat}
    (hC : ∀ k f, constructor = some k → S.Named k f → S.Callable f (1 + n))
    (hC' : constructor = none → ∀ shape f, S.Shaped id shape → shape.preConstructor = some f →
      S.Callable f 1)
    (harguments : ∀ w', S.Emits w' arguments o fun vs w'' => vs.length = n ∧ S.HasValues vs w'')
    (location : Location) :
    S.Emits w (newObject id constructor arguments location)
      (if constructor.isSome then o else .straight) S.Has := by
  unfold newObject
  refine (hS.classShape id location).straight.bind fun shape w₁ _ ⟨hty, hshape⟩ => ?_
  refine (hS.pointerType shape.ty location).straight.bind fun pointer w₂ hw₂ hpointer => ?_
  refine (hS.nameOf shape.ty location).straight.bind fun name w₃ hw₃ _ => ?_
  refine (localVariable_emits hS name location (S.hasType hw₃ hpointer)).bind
    fun object w₄ hw₄ hobject => ?_
  have hstorage : S.HasStorage (object, shape.ty) w₄ :=
    ⟨hobject, S.hasType (S.trans hw₂ (S.trans hw₃ hw₄)) hty⟩
  cases constructor with
  | some k =>
    refine (harguments w₄).bind_straight fun values w₅ hw₅ ⟨hlength, hvalues⟩ => ?_
    refine (function_emits hS k location).bind fun f w₆ hw₆ ⟨_, hf⟩ => ?_
    have hw := S.trans hw₅ hw₆
    have hCf : S.Callable f (Operand.value object :: values.map Prod.fst).length := by
      rw [List.length_cons, List.length_map, hlength, Nat.add_comm]
      exact hC k f rfl hf
    exact (call_emits hS hCf (by simp) (List.forall_mem_cons.mpr
      ⟨S.usable hw hobject, (hvalues.mono hw₆).usable⟩) location).bind
        fun _ w₇ hw₇ _ => .pure (hstorage.mono (S.trans hw hw₇))
  | none =>
    dsimp only
    split
    · next f hf =>
      exact (call_emits hS (hC' rfl shape f hshape hf) (by simp) (List.forall_mem_singleton.mpr hobject)
        location).bind fun _ w₅ hw₅ _ => .pure (hstorage.mono hw₅)
    · exact .pure hstorage

theorem newValue_emits (ty : TypeSpec)
    (harguments : ∀ w', S.Emits w' arguments o S.HasValues)
    (location : Location) :
    S.Emits w (newValue ty arguments location) o S.Has := by
  unfold newValue
  refine (hS.lowerType ty location).straight.bind fun result w₁ _ hresult => ?_
  refine (harguments w₁).bind_straight fun values w₂ hw₂ hvalues => ?_
  have compose : ∀ {w₃ operands}, S.Follows w₂ w₃ → (∀ o ∈ operands, S.Usable w₃ o) →
      S.Emits w₃ (operation .compositeConstruct result operands location) .straight S.Has :=
    fun hw₃ h => operation_emits hS (hS.allowed _ (by decide)) h
      (S.hasType (S.trans hw₂ hw₃) hresult) location
  split
  · split
    · refine (hS.lowerType _ location).straight.bind fun scalar w₃ hw₃ _ => ?_
      refine (constant_emits hS scalar _).bind fun zero w₄ hw₄ hzero => ?_
      have hw := S.trans hw₃ hw₄
      exact .ite (fun _ => .pure ⟨hzero, S.hasType (S.trans hw₂ hw) hresult⟩)
        fun _ => compose hw (usable_replicate hzero _)
    · exact .throw
  · next operand single =>
    have hoperand := (hvalues _ List.mem_cons_self).1
    split
    · exact .pure ⟨hoperand, S.hasType hw₂ hresult⟩
    · have hscalar : S.Emits w₂ (isScalar single) .straight fun _ _ => True := by
        unfold isScalar
        refine .get_bind ?_
        split
        · exact .pure True.intro
        · exact .pure True.intro
      refine hscalar.bind fun isScalar w₃ hw₃ _ => ?_
      have hoperand := S.usable hw₃ hoperand
      exact .ite (fun _ => compose hw₃ (usable_replicate hoperand _))
        fun _ => compose hw₃ (List.forall_mem_singleton.mpr hoperand)
  · exact compose (S.refl w₂) hvalues.usable

end Parts

/-! ### Expressions -/

section Expressions

variable {W : Type} {S : Stages W}

mutual

/-- **Expressions.** The code of an expression draws its outline, and what it has become may be used
where the code ends. -/
theorem expr_emits (hS : S.Sound) :
    ∀ (e : Expr) (w : W), (∀ n ∈ e.nodes, S.Granted .read n) →
      S.Emits w (expr e) (e.outline S.scope) S.Has
  | ⟨kind, ty, location⟩, w, h => by
    rw [Expr.nodes, List.forall_mem_cons] at h
    rw [expr, Expr.outline]
    exact exprKind_emits hS ty location kind w h.1 h.2

theorem exprKind_emits (hS : S.Sound) (ty : TypeSpec) (location : Location) :
    ∀ (k : ExprKind) (w : W), S.Granted .read ⟨k, ty, location⟩ →
      (∀ n ∈ k.nodes, S.Granted .read n) →
      S.Emits w (exprKind ty location k) (k.outline S.scope ty) S.Has
  | .literal value, w, _, _ => by
    rw [exprKind, ExprKind.outline]
    refine (hS.lowerType ty location).straight.bind fun ty w₁ _ hty => ?_
    exact (constant_emits hS ty value).bind fun c w₂ hw₂ hc => .pure ⟨hc, S.hasType hw₂ hty⟩
  | .localVar id, w, _, _ => by
    rw [exprKind, ExprKind.outline]
    refine .get_bind ?_
    split
    · next hlookup => exact .pure (hS.locals hlookup)
    · exact .throw
  | .thisObject, w, _, _ => by
    rw [exprKind, ExprKind.outline]
    refine .get_bind ?_
    split
    · next hthis => exact .pure (hS.this hthis)
    · exact .throw
  | .binary op left right, w, _, h => by
    rw [ExprKind.nodes, List.forall_mem_append] at h
    rw [exprKind, ExprKind.outline]
    refine (binaryRule_emits hS _ location).bind fun rule w₁ _ hrule => ?_
    refine (expr_emits hS left w₁ h.1).seq fun x w₂ _ hx => ?_
    refine (load_emits hS hx left.location).bind fun value w₃ _ hvalue => ?_
    exact applyBinary_emits hS hrule hvalue (fun w' => (expr_emits hS right w' h.2).bind_straight
      fun x w'' _ hx => load_emits hS hx _) ty location
  | .unary op operand, w, _, h => by
    rw [ExprKind.nodes] at h
    rw [exprKind, ExprKind.outline]
    refine .get_bind ?_
    rw [(hS.reads w).unaryRule?_eq]
    cases hrule : S.scope.library.unaryRule? ⟨operand.ty, op⟩ with
    | none => exact .throw
    | some rule =>
      obtain ⟨opcode⟩ := rule
      refine (expr_emits hS operand w h).seq fun x w₁ _ hx => ?_
      refine (load_emits hS hx operand.location).bind fun value w₂ _ hvalue => ?_
      refine (hS.lowerType ty location).straight.bind fun ty w₃ hw₃ hty => ?_
      exact operation_emits hS (hS.unary hrule)
        (List.forall_mem_singleton.mpr (S.usable hw₃ hvalue.1)) hty location
  | .cast operand, w, _, h => by
    rw [ExprKind.nodes] at h
    rw [exprKind, ExprKind.outline]
    have hoperand := expr_emits hS operand w h
    by_cases hty : operand.ty = ty
    · rw [if_pos hty, if_pos hty]
      exact hoperand
    · rw [if_neg hty, if_neg hty]
      exact convert_emits hS operand.ty ty
        (hoperand.bind_straight fun x w' _ hx => load_emits hS hx _) location
  | .member access, w, hself, h => by
    rw [ExprKind.nodes] at h
    rw [exprKind, ExprKind.outline]
    exact readMember_emits hS (fun id f hget hf => hS.getter hself (by simp [IoMode.Reads]) hget hf)
      (fun w' => receiver_emits hS location access w' h) ty location
  | .call access arguments, w, hself, h => by
    rw [ExprKind.nodes, List.forall_mem_append] at h
    rw [exprKind, ExprKind.outline]
    have harguments := fun w' => exprs_emits hS arguments w' h.2
    cases haccessed : access.accessed with
    | intrinsic owner =>
      exact callIntrinsic_emits hS _ ((harguments w).imp fun _ _ h => h.2) ty location
    | function id =>
      exact callFunction_emits hS (fun f hf => hS.call hself haccessed hf)
        (fun w' => receiver_emits hS location access w' h.1) _ harguments ty location
    | property | accessors => exact .throw
  | .construct constructor arguments, w, hself, h => by
    rw [ExprKind.nodes] at h
    have harguments := fun w' => exprs_emits hS arguments w' h
    by_cases hty : ∃ id, ty = .ofClass id
    · obtain ⟨id, rfl⟩ := hty
      rw [exprKind, ExprKind.outline]
      refine newObject_emits hS id (fun k f hk hf => ?_) (fun hnone shape f hshape hf => ?_)
        harguments location
      · subst hk
        exact hS.constructor hself hf
      · subst hnone
        exact hS.object hself hshape hf
    · have hne : ∀ id, ty ≠ .ofClass id := fun id h => hty ⟨id, h⟩
      rw [exprKind, ExprKind.outline]
      · exact newValue_emits hS ty (fun w' => (harguments w').imp fun _ _ h => h.2) location
      · exact hne
      · exact hne

theorem receiver_emits (hS : S.Sound) (location : Location) :
    ∀ (a : Access) (w : W), (∀ n ∈ a.nodes, S.Granted .read n) →
      S.Emits w (receiver location a) (a.outline S.scope) S.HasStorage
  | ⟨some target, _, _, _⟩, w, h => by
    rw [receiver, Access.outline]
    exact (expr_emits hS target w h).bind_straight fun x w' _ hx => toStorage_emits hS hx location
  | ⟨none, _, _, _⟩, w, _ => by
    rw [receiver, Access.outline]
    refine .get_bind ?_
    split
    · next hthis => exact .pure (hS.this hthis)
    · exact .throw

theorem exprs_emits (hS : S.Sound) :
    ∀ (es : List Expr) (w : W), (∀ n ∈ exprsNodes es, S.Granted .read n) →
      S.Emits w (exprs es) (exprsOutline S.scope es)
        fun vs w' => vs.length = es.length ∧ S.HasValues vs w'
  | [], w, _ => by
    rw [exprs, exprsOutline]
    exact .pure ⟨rfl, List.forall_mem_nil _⟩
  | e :: es, w, h => by
    rw [exprsNodes, List.forall_mem_append] at h
    rw [exprs, exprsOutline]
    refine (expr_emits hS e w h.1).seq fun x w₁ _ hx => ?_
    refine (load_emits hS hx e.location).bind fun value w₂ _ hvalue => ?_
    refine (exprs_emits hS es w₂ h.2).bind_straight
      fun values w₃ hw₃ ⟨hlength, hvalues⟩ => .pure ⟨?_, ?_⟩
    · rw [List.length_cons, List.length_cons, hlength]
    · exact List.forall_mem_cons.mpr ⟨hvalue.mono hw₃, hvalues⟩

end

end Expressions

section Bodies

variable {W : Type} {S : Stages W} (hS : S.Sound) {w : W}
include hS

theorem value_emits {e : Expr} (h : ∀ n ∈ e.nodes, S.Granted .read n) :
    S.Emits w (value e) (e.outline S.scope) S.HasValue :=
  (expr_emits hS e w h).bind_straight fun _ _ _ hx => load_emits hS hx e.location

/-! ### Assignments

An assignment takes its target apart by itself. If the target is read by a getter it is refused, so
that a target is granted only what its position needs. -/

omit hS in
/-- What an expression is granted where it is read is granted to all that stands in it. -/
theorem forall_positions_read {e : Expr} :
    (∀ p ∈ e.positions .read, S.Granted p.1 p.2) ↔ ∀ n ∈ e.nodes, S.Granted .read n := by
  obtain ⟨kind, ty, location⟩ := e
  rw [Expr.positions, Expr.nodes, List.forall_mem_cons, List.forall_mem_cons, List.forall_mem_map]

omit hS in
/-- A call gives a value or nothing. -/
theorem call_ne_storage {f : FunctionRef} {arguments : List Operand} {location : Location}
    {e e' : Emitter} (h : call f returnType arguments location e = (.ok x, e')) (pointer : ValueId)
    (ty : TypeRef) :
    x ≠ .storage pointer ty := by
  obtain ⟨result, e₁, -, h⟩ := bind_ok.mp h
  split at h
  · obtain ⟨rfl, -⟩ := ok_eq_ok.mp h
    exact nofun
  · obtain ⟨rfl, -⟩ := ok_eq_ok.mp h
    exact nofun

variable {target value : Expr}

omit hS in
theorem assignedMember?_eq_some {s : Scope} {a : Access} {setter : FunctionId}
    (h : assignedMember? target s = some (a, setter)) :
    ∃ ty location, target = ⟨.member a, ty, location⟩ ∧ s.setter? a.accessed = some setter := by
  obtain ⟨kind, ty, location⟩ := target
  cases kind with
  | member access =>
    obtain ⟨f, hf, heq⟩ := Option.map_eq_some_iff.mp h
    cases heq
    exact ⟨ty, location, rfl, hf⟩
  | _ => nomatch h

/-- The target of an assignment, as long as it turns out to be storage. -/
theorem target_emits {needed : IoMode} {pointer : ValueId} {held : TypeRef} {e : Emitter}
    (h : ∀ p ∈ target.positions needed, S.Granted p.1 p.2)
    (he : expr target (S.emitter w) = (.ok (.storage pointer held), e)) :
    ∃ w', S.emitter w' = e ∧ S.Follows w w' ∧ (S.emitter w').builder.sketch =
      (target.outline S.scope).draw (S.emitter w).builder.sketch ∧ S.HasStorage (pointer, held) w' := by
  rw [Expr.positions, List.forall_mem_cons, List.forall_mem_map] at h
  obtain ⟨kind, ty, location⟩ := target
  by_cases hmember : ∀ a, kind ≠ .member a
  · -- what is granted to any other expression does not depend on its position
    refine expr_emits hS _ w ?_ _ e he
    rw [Expr.nodes]
    exact List.forall_mem_cons.mpr ⟨hS.position hmember h.1, h.2⟩
  · obtain ⟨a, rfl⟩ := not_forall_not.mp hmember
    rw [expr, exprKind] at he
    cases hget : S.scope.getter? a.accessed with
    | none =>
      have hreceiver := fun w' => receiver_emits hS location a w' h.2
      exact readMember_stored_emits hS hget hreceiver ty location _ e he
    | some getter =>
      -- a getter gives no storage
      replace he := after_ok he rfl
      dsimp only at he
      rw [(hS.reads w).getter?_eq, hget] at he
      obtain ⟨returnType, e₁, -, he⟩ := bind_ok.mp he
      obtain ⟨f, e₂, -, he⟩ := bind_ok.mp he
      obtain ⟨object, e₃, -, he⟩ := bind_ok.mp he
      exact absurd rfl (call_ne_storage he pointer held)

/-- What is done with the storage of a target. -/
theorem storageTarget_emits {needed : IoMode} {cause : Refusal} {location : Location}
    {k : ValueId → TypeRef → EmitM Unit} (h : ∀ p ∈ target.positions needed, S.Granted p.1 p.2)
    (hk : ∀ pointer ty w', S.Follows w w' → S.HasStorage (pointer, ty) w' →
      S.Emits w' (k pointer ty) o fun _ _ => True) :
    S.Emits w (do
      match ← expr target with
      | .storage pointer ty => k pointer ty
      | _ => refuse cause location) (.seq (target.outline S.scope) o) fun _ _ => True := by
  intro u e he
  obtain ⟨x, e₁, h₁, h₂⟩ := bind_ok.mp he
  cases x with
  | storage pointer ty =>
    obtain ⟨w₁, rfl, hw₁, hdraw₁, hx⟩ := target_emits hS h h₁
    obtain ⟨w₂, rfl, hw₂, hdraw₂, -⟩ := hk pointer ty w₁ hw₁ hx u e h₂
    exact ⟨w₂, rfl, S.trans hw₁ hw₂, by rw [hdraw₂, hdraw₁]; rfl, True.intro⟩
  | value | void => exact absurd h₂ error_ne_ok

theorem assign_emits (location : Location)
    (htarget : ∀ p ∈ target.positions .write, S.Granted p.1 p.2)
    (hvalue : ∀ n ∈ value.nodes, S.Granted .read n) :
    S.Emits w (assign target value location) (assignOutline S.scope target value)
      fun _ _ => True := by
  unfold assign assignOutline
  refine .get_bind ?_
  rw [(hS.reads w).assignedMember?_eq]
  cases hassigned : assignedMember? target S.scope with
  | some p =>
    obtain ⟨a, setter⟩ := p
    obtain ⟨ty, loc, rfl, hset⟩ := assignedMember?_eq_some hassigned
    rw [Expr.positions, List.forall_mem_cons, List.forall_mem_map] at htarget
    refine (value_emits hS hvalue).seq fun v w₁ _ hv => ?_
    refine (callAccessor_emits hS (fun f hf => ?_)
      (fun w' => receiver_emits hS location a w' htarget.2) (List.forall_mem_singleton.mpr hv.1)
      (by simp) location).done
    exact hS.setter htarget.1 (by simp [IoMode.Writes]) hset hf
  | none =>
    refine (value_emits hS hvalue).seq fun v w₁ _ hv => ?_
    exact storageTarget_emits hS (o := .straight) htarget fun pointer ty w₂ hw₂ hpointer =>
      store_emits hS hpointer.1 (S.usable hw₂ hv.1) location

theorem compoundValue_emits (op : BinaryOperator) {current : Typed}
    (hcurrent : S.HasValue current w) (target : Expr)
    (hvalue : ∀ n ∈ value.nodes, S.Granted .read n) (location : Location) :
    S.Emits w (compoundValue op current target value location)
      (S.scope.combine ⟨target.ty, value.ty, op⟩ (value.outline S.scope)) S.HasValue := by
  unfold compoundValue
  refine (binaryRule_emits hS _ location).bind fun rule w₁ hw₁ hrule => ?_
  exact (applyBinary_emits hS hrule (hcurrent.mono hw₁) (fun w' => value_emits hS hvalue) target.ty
    location).bind_straight fun x w₂ _ hx => load_emits hS hx location

theorem compoundAssign_emits (op : BinaryOperator) (location : Location)
    (htarget : ∀ p ∈ target.positions .readWrite, S.Granted p.1 p.2)
    (hvalue : ∀ n ∈ value.nodes, S.Granted .read n) :
    S.Emits w (compoundAssign target op value location) (compoundOutline S.scope target op value)
      fun _ _ => True := by
  unfold compoundAssign compoundOutline
  refine .get_bind ?_
  dsimp only
  rw [(hS.reads w).assignedMember?_eq]
  cases hassigned : assignedMember? target S.scope with
  | some p =>
    obtain ⟨a, setter⟩ := p
    obtain ⟨ty, loc, rfl, hset⟩ := assignedMember?_eq_some hassigned
    rw [Expr.positions, List.forall_mem_cons, List.forall_mem_map] at htarget
    dsimp only
    rw [(hS.reads w).getter?_eq]
    split
    · exact .throw
    · next getter hget =>
      refine (receiver_emits hS location a w htarget.2).seq fun object w₁ _ hobject => ?_
      refine (hS.lowerType _ location).straight.bind fun ty w₂ hw₂ hty => ?_
      refine (function_emits hS getter location).bind fun g w₃ hw₃ hg => ?_
      have hobject := hobject.mono (S.trans hw₂ hw₃)
      have hCg : S.Callable g [Operand.value object.1].length :=
        hS.getter htarget.1 (by simp [IoMode.Reads]) hget hg.2
      refine (call_emits hS hCg (fun t ht => ?_) (List.forall_mem_singleton.mpr hobject.1)
        location).bind fun x w₄ hw₄ hx => ?_
      · exact Option.some.inj ht ▸ S.hasType hw₃ hty
      refine (load_emits hS hx location).bind fun current w₅ hw₅ hcurrent => ?_
      refine (compoundValue_emits hS op hcurrent _ hvalue location).bind_straight
        fun result w₆ hw₆ hresult => ?_
      refine (function_emits hS setter location).bind fun f w₇ hw₇ hf => ?_
      have hw := S.trans (S.trans hw₄ hw₅) (S.trans hw₆ hw₇)
      have hCf : S.Callable f [Operand.value object.1, result.1].length :=
        hS.setter htarget.1 (by simp [IoMode.Writes]) hset hf.2
      exact (call_emits hS hCf (by simp) (List.forall_mem_cons.mpr ⟨S.usable hw hobject.1,
        List.forall_mem_singleton.mpr (S.usable hw₇ hresult.1)⟩) location).done
  | none =>
    refine storageTarget_emits hS htarget fun pointer ty w₁ _ hpointer => ?_
    have hx : S.Has (.storage pointer ty) w₁ := hpointer
    refine (load_emits hS hx location).bind fun current w₂ hw₂ hcurrent => ?_
    refine (compoundValue_emits hS op hcurrent _ hvalue location).bind_straight
      fun result w₃ hw₃ hresult => ?_
    exact store_emits hS (S.usable (S.trans hw₂ hw₃) hpointer.1) hresult.1 location

/-! ### Statements -/

theorem ret_emits {e : Option Expr} (location : Location)
    (h : ∀ x ∈ e, ∀ n ∈ x.nodes, S.Granted .read n) :
    S.Emits w (ret e location)
      (.seq (exprOutline? S.scope e) (.leave (if e.isSome then .retValue else .ret)))
      fun _ _ => True := by
  unfold ret
  have hresult : S.Emits w (e.mapM fun e => do
      let value ← Emit.value e
      pure value.1) (exprOutline? S.scope e)
      fun operand w' => operand.isSome = e.isSome ∧ ∀ o ∈ operand, S.Usable w' o := by
    cases e with
    | none => exact .pure (by simp)
    | some x =>
      rw [Option.mapM_some, map_eq_pure_bind, bind_assoc]
      refine (value_emits hS (h x rfl)).bind_straight fun v w₁ _ hv => ?_
      rw [pure_bind]
      exact .pure ⟨rfl, fun o ho => Option.some.inj ho ▸ hv.1⟩
  refine hresult.seq fun operand w₁ _ ⟨hsome, hoperand⟩ => ?_
  rw [← hsome]
  refine .get_bind (.ite (fun _ => .throw_bind) fun _ => ?_)
  cases operand with
  | some v =>
    exact (hS.plain location (hS.allowed _ (by decide)) (List.forall_mem_singleton.mpr
      (hoperand v rfl))).emits (plain_draws .retValue _ location)
  | none =>
    exact (hS.plain location (hS.allowed _ (by decide)) (List.forall_mem_nil _)).emits
      (plain_draws .ret _ location)

end Bodies

section Statements

variable {W : Type} {S : Stages W}

theorem forall_positions?_read {e : Option Expr}
    (h : ∀ p ∈ exprPositions? e, S.Granted p.1 p.2) :
    ∀ x ∈ e, ∀ n ∈ x.nodes, S.Granted .read n := by
  rintro x rfl
  exact forall_positions_read.mp h

mutual

/-- **Statements.** The code of a statement is along the stages and draws its outline. -/
theorem stmt_emits (hS : S.Sound) :
    ∀ (x : Stmt) (targets : Option LoopTargets) (w : W), (∀ t ∈ targets, S.Offers w t) →
      (∀ p ∈ x.positions, S.Granted p.1 p.2) →
      S.Emits w (stmt targets x) (x.outline S.scope) fun _ _ => True
  | ⟨kind, location⟩, targets, w, hw, h => by
    rw [stmt, Stmt.outline]
    exact stmtKind_emits hS location kind targets w hw h

theorem stmtKind_emits (hS : S.Sound) (location : Location) :
    ∀ (k : StmtKind) (targets : Option LoopTargets) (w : W), (∀ t ∈ targets, S.Offers w t) →
      (∀ p ∈ k.positions, S.Granted p.1 p.2) →
      S.Emits w (stmtKind targets location k) (k.outline S.scope) fun _ _ => True
  | .expression e, _, w, _, h => by
    rw [stmtKind, StmtKind.outline]
    exact (expr_emits hS e w (forall_positions_read.mp h)).done
  | .localVar id name ty initial, _, w, _, h => by
    rw [StmtKind.positions] at h
    rw [stmtKind, StmtKind.outline]
    refine (hS.lowerType ty location).straight.bind fun t w₁ _ ht => ?_
    refine ((hS.declareLocal id name location ht).emits (o := .straight)
      (declareLocal_draws id name t location)).bind fun pointer w₂ _ hpointer => ?_
    cases initial with
    | none => exact .pure True.intro
    | some e =>
      refine (value_emits hS (forall_positions?_read h e rfl)).bind_straight fun v w₃ hw₃ hv => ?_
      exact store_emits hS (S.usable hw₃ hpointer) hv.1 location
  | .assign target none value, _, w, _, h => by
    rw [StmtKind.positions, List.forall_mem_append] at h
    rw [stmtKind, StmtKind.outline]
    exact assign_emits hS location h.1 (forall_positions_read.mp h.2)
  | .assign target (some op) value, _, w, _, h => by
    rw [StmtKind.positions, List.forall_mem_append] at h
    rw [stmtKind, StmtKind.outline]
    exact compoundAssign_emits hS op location h.1 (forall_positions_read.mp h.2)
  | .ret value, _, w, _, h => by
    rw [stmtKind, StmtKind.outline]
    exact ret_emits hS location (forall_positions?_read h)
  | .ifChain parts, targets, w, hw, h => by
    rw [stmtKind, StmtKind.outline]
    exact ifChain_emits hS location parts targets w hw h
  | .whileLoop condition body, _, w, _, h => by
    rw [StmtKind.positions, List.forall_mem_append] at h
    rw [stmtKind, StmtKind.outline]
    refine loop_emits hS location (fun x hx w' => ?_) (fun inner w' hw' => ?_)
      fun _ _ => .pure True.intro
    · cases hx
      exact value_emits hS (forall_positions_read.mp h.1)
    · exact stmts_emits hS body (some inner) w' (fun t ht => Option.some.inj ht ▸ hw') h.2
  | .forLoop start condition step body, targets, w, hw, h => by
    simp only [StmtKind.positions, List.forall_mem_append] at h
    obtain ⟨⟨⟨hstart, hcondition⟩, hstep⟩, hbody⟩ := h
    rw [stmtKind, StmtKind.outline]
    refine (stmt?_emits hS start targets w hw hstart).seq fun _ w₁ hw₁ _ => ?_
    refine loop_emits hS location (fun x hx w' => ?_) (fun inner w' hw' => ?_) fun w' hw' => ?_
    · exact value_emits hS (forall_positions?_read hcondition x hx)
    · exact stmts_emits hS body (some inner) w' (fun t ht => Option.some.inj ht ▸ hw') hbody
    · exact stmt?_emits hS step targets w'
        (fun t ht => S.offers hw' (S.offers (S.within hw₁) (hw t ht))) hstep
  | .breakLoop, targets, w, hw, _ => by
    cases targets with
    | none =>
      rw [stmtKind]
      exact .throw
    | some t =>
      rw [stmtKind, StmtKind.outline]
      exact (hS.branch location (hw t rfl)).1.emits (plain_draws .branch _ location)
  | .continueLoop, targets, w, hw, _ => by
    cases targets with
    | none =>
      rw [stmtKind]
      exact .throw
    | some t =>
      rw [stmtKind, StmtKind.outline]
      exact (hS.branch location (hw t rfl)).2.emits (plain_draws .branch _ location)

theorem ifChain_emits (hS : S.Sound) (location : Location) :
    ∀ (parts : List IfPart) (targets : Option LoopTargets) (w : W), (∀ t ∈ targets, S.Offers w t) →
      (∀ p ∈ partsPositions parts, S.Granted p.1 p.2) →
      S.Emits w (ifChain targets location parts) (partsOutline S.scope parts) fun _ _ => True
  | [], _, w, _, _ => by
    rw [ifChain, partsOutline]
    exact .pure True.intro
  | ⟨none, body⟩ :: rest, targets, w, hw, h => by
    rw [partsPositions, List.forall_mem_append] at h
    rw [ifChain, partsOutline]
    exact stmts_emits hS body targets w hw h.1
  | [⟨some condition, body⟩], targets, w, hw, h => by
    simp only [partsPositions, IfPart.positions, List.forall_mem_append] at h
    rw [ifChain, partsOutline]
    refine selection_emits_ifThen hS location (value_emits hS (forall_positions_read.mp h.1.1))
      fun w' hw' => ?_
    exact stmts_emits hS body targets w' (fun t ht => S.offers hw' (hw t ht)) h.1.2
  | ⟨some condition, body⟩ :: part :: rest, targets, w, hw, h => by
    rw [partsPositions] at h
    simp only [IfPart.positions, List.forall_mem_append] at h
    rw [ifChain, partsOutline]
    · refine selection_emits_ifElse hS location (value_emits hS (forall_positions_read.mp h.1.1))
        (fun w' hw' => ?_) fun w' hw' => ?_
      · exact stmts_emits hS body targets w' (fun t ht => S.offers hw' (hw t ht)) h.1.2
      · exact ifChain_emits hS location (part :: rest) targets w'
          (fun t ht => S.offers hw' (hw t ht)) h.2
    · exact nofun
    · exact nofun

theorem stmt?_emits (hS : S.Sound) :
    ∀ (x : Option Stmt) (targets : Option LoopTargets) (w : W), (∀ t ∈ targets, S.Offers w t) →
      (∀ p ∈ stmtPositions? x, S.Granted p.1 p.2) →
      S.Emits w (stmt? targets x) (stmtOutline? S.scope x) fun _ _ => True
  | none, _, w, _, _ => by
    rw [stmt?, stmtOutline?]
    exact .pure True.intro
  | some x, targets, w, hw, h => by
    rw [stmt?, stmtOutline?]
    exact stmt_emits hS x targets w hw h

/-- **Lists of statements.** -/
theorem stmts_emits (hS : S.Sound) :
    ∀ (xs : List Stmt) (targets : Option LoopTargets) (w : W), (∀ t ∈ targets, S.Offers w t) →
      (∀ p ∈ stmtsPositions xs, S.Granted p.1 p.2) →
      S.Emits w (stmts targets xs) (stmtsOutline S.scope xs) fun _ _ => True
  | [], _, w, _, _ => by
    rw [stmts, stmtsOutline]
    exact .pure True.intro
  | x :: xs, targets, w, hw, h => by
    rw [stmtsPositions, List.forall_mem_append] at h
    rw [stmts, stmtsOutline]
    refine (stmt_emits hS x targets w hw h.1).seq fun _ w₁ hw₁ _ => ?_
    exact stmts_emits hS xs targets w₁ (fun t ht => S.offers (S.within hw₁) (hw t ht)) h.2

end

/-! ### Bodies -/

/-- What is granted to the initial value of a member, or to an object that has none. -/
def Initialized (S : Stages W) (v : VariableDecl) : Prop :=
  (∀ p ∈ exprPositions? v.initial, S.Granted p.1 p.2) ∧ (v.initial = none → ∀ i,
    S.scope.fieldIndex? v.id = some i → ∀ cid shape f, v.ty = .ofClass cid →
      S.Shaped cid shape → shape.preConstructor = some f → S.Callable f 1)

variable (hS : S.Sound) {w : W}
include hS

/-- The body of a constructor calls what initializes the object and what its statements call. The
former stays in the first block. -/
theorem constructorBody_emits {preConstructor : Option FunctionRef} {k : ConstructorDecl}
    (hbody : ∀ p ∈ stmtsPositions k.body, S.Granted p.1 p.2)
    (hpre : ∀ f ∈ preConstructor, S.Callable f 1) :
    S.Emits w (constructorBody preConstructor k) (stmtsOutline S.scope k.body) fun _ _ => True := by
  unfold constructorBody
  split
  · exact stmts_emits hS k.body none w (by simp) hbody
  · next f =>
    refine .get_bind ?_
    split
    · exact .throw_bind
    · next this _ hthis =>
      have hCf : S.Callable f [Operand.value this].length := hpre f rfl
      refine (call_emits hS hCf (by simp) (List.forall_mem_singleton.mpr (hS.this hthis).1)
        k.location).bind fun _ w₁ _ _ => ?_
      exact stmts_emits hS k.body none w₁ (by simp) hbody

theorem initializer_emits {this : Storage} (hthis : S.HasStorage this w) {v : VariableDecl}
    (hv : S.Initialized v) :
    S.Emits w (initializer this v) (initializerOutline S.scope v) fun _ _ => True := by
  unfold initializer initializerOutline
  refine .get_bind ?_
  rw [(hS.reads w).fieldIndex?_eq]
  cases hindex : S.scope.fieldIndex? v.id with
  | none => exact .pure True.intro
  | some index =>
    dsimp only
    split
    · next x hx =>
      rw [hx]
      refine (value_emits hS (forall_positions?_read hv.1 x hx)).bind_straight fun y w₁ hw₁ hy => ?_
      refine (memberOf_emits hS (hthis.mono hw₁) index v.location).bind
        fun (pointer, _) w₂ hw₂ hpointer => ?_
      exact store_emits hS hpointer.1 (S.usable hw₂ hy.1) v.location
    · next id hnone hty =>
      rw [hnone]
      refine (hS.classShape id v.location).straight.bind fun shape w₁ hw₁ ⟨_, hshape⟩ => ?_
      split
      · exact .pure True.intro
      · next f hf =>
        refine (memberOf_emits hS (hthis.mono hw₁) index v.location).bind
          fun (pointer, _) w₂ hw₂ hpointer => ?_
        have hCf : S.Callable f [Operand.value pointer].length :=
          hv.2 hnone index hindex id shape f hty hshape hf
        exact (call_emits hS hCf (by simp) (List.forall_mem_singleton.mpr hpointer.1) v.location).done
    · next hnone _ =>
      rw [hnone]
      exact .pure True.intro

theorem forM_initializer_emits {this : Storage} (hthis : S.HasStorage this w)
    {vs : List VariableDecl} (h : ∀ v ∈ vs, S.Initialized v) :
    S.Emits w (vs.forM (initializer this)) (initializersOutline S.scope vs) fun _ _ => True := by
  induction vs generalizing w with
  | nil => exact .pure True.intro
  | cons v vs ih =>
    obtain ⟨hv, hvs⟩ := List.forall_mem_cons.mp h
    rw [forM_cons]
    exact (initializer_emits hS hthis hv).seq fun _ w₁ hw₁ _ => ih (hthis.mono hw₁) hvs

theorem initializers_emits {c : ClassDecl} (h : ∀ v ∈ c.members, S.Initialized v) :
    S.Emits w (initializers c) (initializersOutline S.scope c.members) fun _ _ => True := by
  unfold initializers
  refine .get_bind ?_
  split
  · exact .throw
  · next this hthis => exact forM_initializer_emits hS (hS.this hthis) h

end Statements

end Stages

end Emit

end Shader
