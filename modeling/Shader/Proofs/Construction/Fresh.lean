import Shader.Object
import Shader.Proofs.Calls.Acyclic
import Shader.Proofs.Construction.Catalogue
import Shader.Proofs.Machine.Limit
import Shader.Proofs.Machine.Untouched

/-!
# New objects

An expression that constructs an object becomes a variable of the function and a call of what
initializes the object. A default object is made by the same call, in a machine that holds nothing but
the zero value of the class.

The variable gets its zero value when the function is entered, and not when the expression is
evaluated. So the first evaluation in a call finds the zero value there
(`Machine.Avoiding.holds_zero`) and makes the default object, wherever it is in memory, but one that
follows an earlier evaluation in the same call, as in a loop, starts from what is left of the earlier
object.
-/

namespace Shader

open Outcome

/-! ### Initializing in place -/

/-- The call of a function on an object in a variable. -/
def Op.callOn (object : ValueId) (f : FunctionRef) : Op where
  opcode := .functionCall
  operands := [.function f, .value object]

/-- The operations that initialize an object in a variable. -/
def initialization (object : ValueId) (initializer : Option FunctionRef) : List Op :=
  (initializer.map (Op.callOn object)).toList

variable {object : ValueId} {ty : TypeRef} {f : FunctionRef}

namespace Machine

/-- Where the slots of a fresh machine come to lie: the first one at a given place, and the others
behind `n` slots that are in use. -/
def placeAt (p n : Nat) : Nat → Nat
  | 0 => p
  | i + 1 => n + i

theorem placeAt_injective {p n : Nat} (hp : p < n) : Function.Injective (placeAt p n) := by
  intro i j h
  cases i with
  | zero =>
    cases j with
    | zero => rfl
    | succ j =>
      have h : p = n + j := h
      omega
  | succ i =>
    cases j with
    | zero =>
      have h : n + i = p := h
      omega
    | succ j =>
      have h : n + i = n + j := h
      omega

variable {v : Value}

/-- **A fresh object within a machine.** A machine that holds a value without pointers at some place
has a part that is as good as a fresh machine with this value. -/
theorem placed_object {M : Machine} {p : Nat} (hslot : M.memory[p]? = some v)
    (hv : v.move (placeAt p M.memory.size) = v) :
    Placed (placeAt p M.memory.size) M { memory := #[v] } M where
  memory := by
    have hp : p < M.memory.size := (Array.getElem?_eq_some_iff.mp hslot).1
    refine ⟨placeAt_injective hp, fun i => ?_, fun i => ?_, fun _ _ _ => rfl⟩
    · cases i with
      | zero => exact hslot.trans (congrArg some hv.symm)
      | succ i =>
        have hnone : M.memory[M.memory.size + i]? = none := Array.getElem?_eq_none (by omega)
        exact hnone.trans (by simp)
    · have hsize : (#[v] : Memory).size + i = i + 1 := Nat.add_comm 1 i
      rw [hsize]
      rfl
  executed := (Array.append_empty).symm
  calls := (Array.append_empty).symm

theorem move_zeroValue {ρ : Nat → Nat} {r : Registry} (h : r.zeroValue ty = .ok v) :
    v.move ρ = v := by
  have hmove : (r.zeroValue ty).map (Value.move ρ) = r.zeroValue ty := move_zeroWithin r _ ty
  rw [h] at hmove
  exact Except.ok.inj hmove

/-- **Calling in place.** A function that initializes an object in a fresh machine does the same
wherever it finds the value that it was given there, unless the limit is hit. -/
theorem callWithin_object (root : Library) (limit n : Nat) {limit' : Nat} {m' M : Machine} {p : Nat}
    {w : Value} {r : Option Value} (hslot : M.memory[p]? = some v)
    (hv : v.move (placeAt p M.memory.size) = v)
    (hcall : Machine.call root limit' f [.pointer ⟨0, []⟩] { memory := #[v] } = (.ok r, m'))
    (hread : m'.memory[0]? = some w) :
    (∃ M', callWithin root limit n f [.pointer ⟨p, []⟩] M = (.error (.stepLimit limit), M')) ∨
    ∃ r' M', callWithin root limit n f [.pointer ⟨p, []⟩] M = (.ok r', M') ∧
      M'.memory[p]? = some (w.move (placeAt p M.memory.size)) ∧
      ∀ i < M.memory.size, i ≠ p → M'.memory[i]? = M.memory[i]? := by
  -- the fresh machine may be given a limit that is large enough for both
  have hlarge := call_limit root (Nat.le_add_left limit' (limit + n)) hcall
  rw [call_eq_callWithin root _ f _ (n := limit + n + limit') (Nat.sub_le ..)] at hlarge
  have hn : n ≤ limit + n + limit' := by omega
  have hlimit : limit ≤ M.executed.size + (limit + n + limit') := by omega
  have hplaced := callWithin_placed root hn f [.pointer ⟨0, []⟩] (placed_object hslot hv) hlimit
  rw [hlarge] at hplaced
  rcases hplaced with hstop | ⟨hresult, hplaced⟩
  · exact .inl hstop
  · refine .inr ⟨r.map (Value.move _), _, Prod.ext hresult rfl, ?_, fun i hi hne => ?_⟩
    · exact (hplaced.memory.slot 0).trans (by rw [hread]; rfl)
    · -- no other slot that was in use is one of the fresh machine
      refine hplaced.memory.rest i hi fun j hj => ?_
      cases j with
      | zero => exact hne hj.symm
      | succ j =>
        have hj : M.memory.size + j = i := hj
        omega

/-- What a fresh machine does to initialize an object. -/
theorem objectRun_ok {l owner : Library} {limit : Nat} {initializer : Option FunctionRef}
    {m : Machine} (h : Object.run l limit owner ty initializer {} = (.ok v, m)) {zero : Value}
    (hzero : owner.types.zeroValue ty = .ok zero) :
    (initializer = none ∧ v = zero) ∨ ∃ f r, initializer = some f ∧
      Machine.call l limit f [.pointer ⟨0, []⟩] { memory := #[zero] } = (.ok r, m) ∧
      m.memory[0]? = some v := by
  unfold Object.run at h
  rw [hzero] at h
  replace h := after_ok h rfl
  replace h := after_ok h rfl
  have hread : ∀ {m₁ : Machine} {w : Value},
      m₁.read (.pointer ⟨0, []⟩) = .ok w → m₁.memory[0]? = some w := by
    intro m₁ w hw
    unfold Machine.read Memory.read? at hw
    dsimp only at hw
    cases hm : m₁.memory[0]? with
    | none =>
      rw [hm] at hw
      nomatch hw
    | some w' =>
      rw [hm] at hw
      exact congrArg some (Except.ok.inj hw)
  have hlift : ∀ {x : Except RunError Value} {m₁ : Machine},
      (liftM x : RunM Value) m₁ = (.ok v, m) → x = .ok v ∧ m₁ = m := by
    intro x m₁ hx
    cases x with
    | error e => exact absurd hx error_ne_ok
    | ok w =>
      obtain ⟨rfl, rfl⟩ := ok_eq_ok.mp hx
      exact ⟨rfl, rfl⟩
  cases initializer with
  | none =>
    replace h := after_ok h rfl
    obtain ⟨hvalue, rfl⟩ := hlift h
    exact .inl ⟨rfl, (Option.some.inj (hread hvalue)).symm⟩
  | some f =>
    obtain ⟨r, m₃, hcall, h⟩ := bind_ok.mp h
    replace h := after_ok h rfl
    obtain ⟨hvalue, rfl⟩ := hlift h
    exact .inr ⟨f, r, rfl, hcall, hread hvalue⟩

section Operand

variable {l : Library} {frame : Frame} {op : Op} {k : Nat}

theorem operand_value {id : ValueId} (hop : op.operands[k]? = some (.value id))
    (hv : frame.lookup id = some v) : operand l frame op k = .ok v := by
  rw [operand, hop]
  dsimp only
  rw [hv]

theorem operand_constant {id : ConstantId} {c : Constant}
    (hop : op.operands[k]? = some (.constant id)) (hc : l.constant? id = some c) :
    operand l frame op k = .ok (.ofLiteral c.value) := by
  rw [operand, hop]
  dsimp only
  rw [hc]

end Operand

/-- A call without a result, on an object in a variable. -/
theorem runOps_call (call : FunctionRef → List Value → RunM (Option Value)) (l : Library)
    (block : BlockId) {frame : Frame} (hframe : frame.lookup object = some v) (f : FunctionRef)
    (rest : List Op) :
    runOps call l block frame (.callOn object f :: rest) = (do
      let _ ← call f [v]
      runOps call l block frame rest) := by
  have hoperand : operand l frame (.callOn object f) 1 = .ok v := operand_value rfl hframe
  have hoperands : operandsFrom l frame (.callOn object f) 1 = .ok [v] := by
    change [1].mapM (operand l frame (.callOn object f)) = .ok [v]
    rw [List.mapM_cons, hoperand]
    rfl
  have hperform : perform call l frame (.callOn object f) = (do
      return (← call f [v]).getD .undefined) := by
    change (do
      let arguments ← liftM (operandsFrom l frame (.callOn object f) 1)
      return (← call f arguments).getD .undefined) = _
    rw [hoperands]
    rfl
  change (do
    let _ ← perform call l frame (.callOn object f)
    runOps call l block frame rest) = _
  rw [hperform, bind_assoc]
  rfl

/-- **Running an initialization.** If initializing an object in a fresh machine gives a value, then
operations that initialize a variable with the zero value either hit the limit, or they leave the same
value there, and the rest of the memory as it was. -/
theorem runOps_initialization (l owner : Library) {limit limit' n : Nat}
    {initializer : Option FunctionRef} {zero : Value} {m M : Machine}
    (hrun : Object.run l limit' owner ty initializer {} = (.ok v, m))
    (hzero : owner.types.zeroValue ty = .ok zero) {frame : Frame} {p : Nat}
    (hframe : frame.lookup object = some (.pointer ⟨p, []⟩)) (hslot : M.memory[p]? = some zero)
    (block : BlockId) (rest : List Op) :
    (∃ M', runOps (callWithin l limit n) l block frame (initialization object initializer ++ rest) M =
      (.error (.stepLimit limit), M')) ∨
    ∃ M', runOps (callWithin l limit n) l block frame (initialization object initializer ++ rest) M =
        runOps (callWithin l limit n) l block frame rest M' ∧
      M'.memory[p]? = some (v.move (placeAt p M.memory.size)) ∧
      ∀ i < M.memory.size, i ≠ p → M'.memory[i]? = M.memory[i]? := by
  rcases objectRun_ok hrun hzero with ⟨rfl, rfl⟩ | ⟨f, r, rfl, hcall, hread⟩
  · refine .inr ⟨M, rfl, ?_, fun _ _ _ => rfl⟩
    rw [move_zeroValue hzero]
    exact hslot
  · have hops : initialization object (some f) ++ rest = .callOn object f :: rest := rfl
    rw [hops, runOps_call _ l block hframe f rest, bind_apply]
    rcases callWithin_object l limit n hslot (move_zeroValue hzero) hcall hread with
      ⟨M', hstop⟩ | ⟨r', M', hdone, hvalue, hrest⟩
    · rw [hstop]
      exact .inl ⟨M', rfl⟩
    · rw [hdone]
      exact .inr ⟨M', rfl, hvalue, hrest⟩

end Machine

/-! ### Emitting a new object -/

namespace Emit

variable {e e' : Emitter} {location : Location}

theorem call_ok {x : Emitted} (h : call f none [.value object] location e = (.ok x, e')) :
    e'.scope = e.scope ∧ ∃ c b, Builder.Appends 0 (.callOn object f) e.builder e'.builder c b := by
  unfold call at h
  obtain ⟨result, e₁, h₁, h⟩ := bind_ok.mp h
  obtain ⟨b, hbuild, rfl⟩ := build_ok.mp h₁
  obtain ⟨rfl, n, c, x', happends, rfl⟩ := Builder.build_ok hbuild
  obtain ⟨-, rfl⟩ := ok_eq_ok.mp h
  exact ⟨rfl, c, x', happends⟩

/-- A variable is declared and then initialized by a call. -/
theorem initialization_of_appends {op : Op} {b b₁ b' : Builder} {c : BlockId} {x : Block}
    (hd : Builder.Declares op object b b₁) (ha : Builder.Appends 0 (.callOn object f) b₁ b' c x) :
    b'.routine.locals = b.routine.locals ++ [op] ∧ b'.current = b.current ∧
      ∀ d, b.current = some d →
        b'.routine.opsOf d = b.routine.opsOf d ++ initialization object (some f) := by
  have hcurrent : b.current = some c := hd.changes.current.symm.trans ha.current
  refine ⟨ha.locals.trans hd.locals, ha.current'.trans hcurrent.symm, fun d hdc => ?_⟩
  cases hcurrent.symm.trans hdc
  rw [ha.opsOf, hd.opsOf]
  rfl

/-- **What is emitted for a new object.** A variable is declared, and the operations that initialize it
are appended. -/
theorem newObject_ok {id : ClassId} {constructor : Option FunctionId} {x : Emitted}
    (h : newObject id constructor (exprs []) location e = (.ok x, e')) :
    ∃ shape s₁ pointer s₂ object initializer,
      Scope.classShape id location e.scope = (.ok shape, s₁) ∧
      Scope.onTypes location (Registry.pointerType shape.ty) s₁ = (.ok pointer, s₂) ∧
      x = .storage object shape.ty ∧
      initializer.map some = (match constructor with
        | some k => some (s₂.library.findFunction? k)
        | none => shape.preConstructor.map some) ∧
      (∃ op : Op, op.result = some object ∧ op.resultType = some pointer ∧
        e'.builder.routine.locals = e.builder.routine.locals ++ [op]) ∧
      e'.builder.current = e.builder.current ∧
      ∀ c, e.builder.current = some c →
        e'.builder.routine.opsOf c = e.builder.routine.opsOf c ++ initialization object initializer := by
  unfold newObject at h
  obtain ⟨shape, e₁, h₁, h⟩ := bind_ok.mp h
  obtain ⟨s₁, hshape, rfl⟩ := onScope_ok.mp h₁
  obtain ⟨pointer, e₂, h₂, h⟩ := bind_ok.mp h
  obtain ⟨s₂, hpointer, rfl⟩ := onScope_ok.mp h₂
  obtain ⟨name, e₃, h₃, h⟩ := bind_ok.mp h
  obtain ⟨s₃, hname, rfl⟩ := onScope_ok.mp h₃
  obtain rfl := Scope.lookAtTypes_ok hname
  obtain ⟨object, e₄, h₄, h⟩ := bind_ok.mp h
  obtain ⟨b, hlocal, rfl⟩ := build_ok.mp h₄
  have hdeclares := Builder.localVariable_ok hlocal
  cases constructor with
  | some k =>
    replace h := after_ok h rfl
    obtain ⟨f, e₆, h₆, h⟩ := bind_ok.mp h
    obtain ⟨s₆, hfunction, rfl⟩ := onScope_ok.mp h₆
    obtain ⟨rfl, hf⟩ := Scope.function_ok hfunction
    obtain ⟨_, e₇, h₇, h⟩ := bind_ok.mp h
    obtain ⟨-, c, y, happends⟩ := call_ok h₇
    obtain ⟨rfl, rfl⟩ := ok_eq_ok.mp h
    obtain ⟨hlocals, hcurrent, hops⟩ := initialization_of_appends hdeclares happends
    exact ⟨shape, s₁, pointer, _, object, some f, hshape, hpointer, rfl, congrArg some hf.symm,
      ⟨_, rfl, rfl, hlocals⟩, hcurrent, hops⟩
  | none =>
    cases hpre : shape.preConstructor with
    | some f =>
      rw [hpre] at h
      obtain ⟨_, e₇, h₇, h⟩ := bind_ok.mp h
      obtain ⟨-, c, y, happends⟩ := call_ok h₇
      obtain ⟨rfl, rfl⟩ := ok_eq_ok.mp h
      obtain ⟨hlocals, hcurrent, hops⟩ := initialization_of_appends hdeclares happends
      exact ⟨shape, s₁, pointer, _, object, some f, hshape, hpointer, rfl, by rw [hpre],
        ⟨_, rfl, rfl, hlocals⟩, hcurrent, hops⟩
    | none =>
      rw [hpre] at h
      obtain ⟨rfl, rfl⟩ := ok_eq_ok.mp h
      refine ⟨shape, s₁, pointer, _, object, none, hshape, hpointer, rfl, by rw [hpre],
        ⟨_, rfl, rfl, hdeclares.locals⟩, hdeclares.changes.current, fun c _ => ?_⟩
      rw [hdeclares.opsOf]
      exact (List.append_nil _).symm

end Emit

/-! ### Default objects -/

/-- Functions are found through the identities and the dependencies. -/
theorem Library.findFunction?_congr {l l' : Library} (hfunctions : l'.functions = l.functions)
    (hdependencies : l'.dependencies = l.dependencies) (id : FunctionId) :
    l'.findFunction? id = l.findFunction? id := by
  rw [findFunction?, findFunction?, search?_eq, search?_eq, hfunctions, hdependencies]

/-- How a default object of a class of the library is made. -/
theorem Object.default_ok {l : Library} {limit : Nat} {id : ClassId} {o : Object}
    {record : ClassRecord} (hrecord : l.record? id = some record)
    (htype : l.classType? id = some ty) (h : Object.default l limit id = .ok o) :
    ∃ m, Object.run l limit l ty (record.defaultConstructor.or record.preConstructor) {} =
      (.ok o.value, m) := by
  have hfind : l.findRecord? id = some record := Library.search?_of_own hrecord
  have hfindType : l.findClassType? id = some (l, ty) :=
    Library.search?_of_own (by rw [htype]; rfl)
  unfold Object.default at h
  rw [hfind, hfindType] at h
  dsimp only at h
  rcases hrun : Object.run l limit l ty (record.defaultConstructor.or record.preConstructor) {} with
    ⟨e | v, m⟩
  · rw [hrun] at h
    nomatch h
  · rw [hrun] at h
    cases h
    exact ⟨m, rfl⟩

/-- **A compiled library says what the declared tree says** about functions and classes. -/
theorem lowerTree_says {t : Tree} {id : LibraryId} {name : String} {dependencies : List Library}
    {report report' : Report} {l : Library} {u : Unit} {s₀ : Scope}
    (hforeign : Library.Foreign id dependencies)
    (hdeclare : Scope.declareTree t { library := { id, name, dependencies } } = (.ok u, s₀))
    (h : lowerTree t { id, name, dependencies } report = (l, report'))
    (hreport : report'.failed = false) :
    l.functions = s₀.library.functions ∧ l.dependencies = s₀.library.dependencies ∧
      l.records = s₀.library.records ∧ l.classTypes = s₀.library.classTypes := by
  have h₀ := (Scope.declareTree_declaring _ _ _ hdeclare (Scope.declaring_empty hforeign)).1
  have hshapes := (Scope.declareTree_recorded hdeclare).hasShapes
  have hfailed : (lowerTree t { id, name, dependencies } report).2.failed = false := by
    rw [h]
    exact hreport
  obtain ⟨u', s₀', hdeclare', -, hclasses, hresult⟩ := lowerTree_accepted hfailed
  obtain ⟨-, rfl⟩ := ok_eq_ok.mp (hdeclare.symm.trans hdeclare')
  have hreaches := (lowerClasses_written h₀ hclasses).reaches
  have hemitting := hreaches.emitting h₀
  have hsteady := hreaches.steady hshapes
  rw [h] at hresult
  obtain rfl : l = _ := hresult
  exact ⟨hemitting.functions, hemitting.dependencies, hsteady.records, hsteady.classTypes⟩

/-- **New objects are default objects where nothing was before.** Let a tree be accepted, and let an
expression construct an object of one of its classes, with the constructor without parameters if there
is one. Then what is emitted is a variable and operations that initialize it. Whenever these are run
while the variable holds the zero value of the class, either the limit is hit, or the variable holds
afterwards what a default object of the class holds, and the rest of the memory is as it was. Pointers
in the object, if there are any, have moved along with it.

The variable holds the zero value when a call comes to these operations for the first time, after others
that all avoid the variable. -/
theorem Tree.construct_default {t : Tree} {id : LibraryId} {name : String}
    {dependencies : List Library} {report report' : Report} {l : Library}
    (hcompiled : ∀ d ∈ dependencies, d.Compiled)
    (hfresh : ∀ d ∈ dependencies, d.findLibrary? id = none)
    (haccepted : lowerTree t { id, name, dependencies } report = (l, report'))
    (hreport : report'.failed = false) {u : Unit} {s₀ : Scope}
    (hdeclare : Scope.declareTree t { library := { id, name, dependencies } } = (.ok u, s₀))
    {c : ClassDecl} (hc : c ∈ t.classes) {record : ClassRecord}
    (hrecord : l.record? c.id = some record) {constructor : Option FunctionId}
    (hconstructor : constructor.map l.findFunction? = record.defaultConstructor.map some)
    {e e' : Emitter} (hscope : s₀.Reaches e.scope) {location : Location} {x : Emitted}
    (hexpr : Emit.expr ⟨.construct constructor [], .ofClass c.id, location⟩ e = (.ok x, e')) :
    ∃ object ty ops, x = .storage object ty ∧ l.classType? c.id = some ty ∧
      (∃ op : Op, op.result = some object ∧
        e'.builder.routine.locals = e.builder.routine.locals ++ [op]) ∧
      e'.builder.current = e.builder.current ∧
      (∀ b, e.builder.current = some b →
        e'.builder.routine.opsOf b = e.builder.routine.opsOf b ++ ops) ∧
      (∀ {limit limit' n : Nat} {o : Object} {zero : Value} {frame : Frame} {p : Nat} {M : Machine}
        {block : BlockId} {rest : List Op},
        Object.default l limit' c.id = .ok o → l.types.zeroValue ty = .ok zero →
        frame.lookup object = some (.pointer ⟨p, []⟩) → M.memory[p]? = some zero →
        (∃ M', Machine.runOps (Machine.callWithin l limit n) l block frame (ops ++ rest) M =
          (.error (.stepLimit limit), M')) ∨
        ∃ M', Machine.runOps (Machine.callWithin l limit n) l block frame (ops ++ rest) M =
            Machine.runOps (Machine.callWithin l limit n) l block frame rest M' ∧
          M'.memory[p]? = some (o.value.move (Machine.placeAt p M.memory.size)) ∧
          ∀ i < M.memory.size, i ≠ p → M'.memory[i]? = M.memory[i]?) ∧
      ∀ {limit : Nat} {f : FunctionRef} {vs : List Value} {m m' M : Machine} {a : Activation}
        {frame frame' : Frame} {b block : BlockId} {rest : List Op}, f.library = l.id →
        Machine.enter l f vs m = (.ok (a, frame, b), m') → m.Rooted vs → a.Declares object ty →
        Machine.Avoiding l limit object a frame b m' block frame' (ops ++ rest) M →
        Machine.call l limit f vs m = Machine.rest l limit a block frame' (ops ++ rest) M ∧
        ∃ p zero, l.types.zeroValue ty = .ok zero ∧
          frame'.lookup object = some (.pointer ⟨p, []⟩) ∧ M.memory[p]? = some zero := by
  have hforeign := Library.foreign_of_owned (fun d hd => (hcompiled d hd).owned) hfresh
  have h₀ := (Scope.declareTree_declaring _ _ _ hdeclare (Scope.declaring_empty hforeign)).1
  have hrecorded := Scope.declareTree_recorded hdeclare
  obtain ⟨hfunctions, hdependencies, hrecords, htypes⟩ :=
    lowerTree_says hforeign hdeclare haccepted hreport
  -- the class has a shape, which is the one that emission finds
  obtain ⟨shape, hshape⟩ := hrecorded.hasShapes c hc
  have htype : l.classType? c.id = some shape.ty := by
    rw [Library.classType?, htypes]
    exact hrecorded.classTypes c hc shape hshape
  have hpre : record.preConstructor = shape.preConstructor := by
    rw [Library.record?, hrecords] at hrecord
    exact hrecorded.preConstructor c hc shape hshape record hrecord
  have hlookup : e.scope.classes.lookup c.id = some shape :=
    ((hscope.steady hrecorded.hasShapes).classes c hc).trans hshape
  obtain ⟨shape', s₁, pointer, s₂, object, initializer, hclass, hpointer, hx, hinitializer,
    ⟨op, hresult, -, hlocals⟩, hcurrent, hops⟩ := Emit.newObject_ok hexpr
  obtain ⟨rfl, rfl⟩ := Scope.classShape_of_lookup hlookup hclass
  -- so the object is initialized by what makes default objects
  have hsame : initializer = record.defaultConstructor.or record.preConstructor := by
    cases constructor with
    | none =>
      have hnone : record.defaultConstructor = none := Option.map_eq_none_iff.mp hconstructor.symm
      rw [hnone, Option.none_or, hpre]
      exact Option.map_injective (Option.some_injective _) hinitializer
    | some k =>
      have hemitting := (hscope.pointerType hpointer).emitting h₀
      have hfind : s₂.library.findFunction? k = l.findFunction? k :=
        Library.findFunction?_congr (hemitting.functions.trans hfunctions.symm)
          (hemitting.dependencies.trans hdependencies.symm) k
      have hmap : initializer.map some = record.defaultConstructor.map some :=
        (hinitializer.trans (congrArg some hfind)).trans hconstructor
      have hdefault := Option.map_injective (Option.some_injective _) hmap
      cases hd : record.defaultConstructor with
      | none =>
        rw [hd] at hconstructor
        cases hconstructor
      | some f => rw [hdefault, hd, Option.some_or]
  subst hsame
  refine ⟨object, _, _, hx, htype, ⟨op, hresult, hlocals⟩, hcurrent, hops, ?_, ?_⟩
  · intro limit limit' n o zero frame p M block rest hdefault hzero hframe hslot
    obtain ⟨m, hrun⟩ := Object.default_ok hrecord htype hdefault
    exact Machine.runOps_initialization l l hrun hzero hframe hslot block rest
  · intro limit f vs m m' M a frame frame' b block rest hf henter hm hdeclares havoiding
    obtain rfl : l = a.library := by
      have hfind : l.findLibrary? f.library = some l := Library.search?_of_own (if_pos hf.symm)
      exact Option.some.inj (hfind.symm.trans (Machine.enter_ok henter).1)
    refine ⟨?_, havoiding.holds_zero henter hm hdeclares⟩
    rw [Machine.call_eq, bind_apply, henter]
    exact havoiding.run_eq

/-! ### An object that counts -/

namespace Tree

/-- The constructor of the class adds to what it finds, and a function constructs an object twice in a
loop. -/
def tally : Tree where
  classes :=
    [{ id := ⟨1⟩, name := "Tally",
       members := [{ id := ⟨1⟩, name := "Count", ty := .integer }],
       constructors :=
        [{ id := ⟨1⟩,
           body :=
            [⟨.assign
                ⟨.member ⟨some ⟨.thisObject, .ofClass ⟨1⟩, .unknown⟩, "Count", .property ⟨1⟩, .write⟩,
                  .integer, .unknown⟩
                (some .add) ⟨.literal (.int 1), .integer, .unknown⟩, .unknown⟩] }],
       functions :=
        [{ id := ⟨2⟩, name := "Twice", isStatic := true, result := .integer,
           body :=
            [⟨.localVar ⟨1⟩ "i" .integer (some ⟨.literal (.int 0), .integer, .unknown⟩), .unknown⟩,
             ⟨.localVar ⟨2⟩ "last" .integer (some ⟨.literal (.int 0), .integer, .unknown⟩), .unknown⟩,
             ⟨.whileLoop
                ⟨.binary .less ⟨.localVar ⟨1⟩, .integer, .unknown⟩
                  ⟨.literal (.int 2), .integer, .unknown⟩, .boolean, .unknown⟩
                [⟨.assign ⟨.localVar ⟨2⟩, .integer, .unknown⟩ none
                    ⟨.member ⟨some ⟨.construct (some ⟨1⟩) [], .ofClass ⟨1⟩, .unknown⟩, "Count",
                      .property ⟨1⟩, .read⟩, .integer, .unknown⟩, .unknown⟩,
                 ⟨.assign ⟨.localVar ⟨1⟩, .integer, .unknown⟩ (some .add)
                    ⟨.literal (.int 1), .integer, .unknown⟩, .unknown⟩], .unknown⟩,
             ⟨.ret (some ⟨.localVar ⟨2⟩, .integer, .unknown⟩), .unknown⟩] }] }]

/-- The library that the tree becomes. -/
def tallyLibrary : Library := (lowerTree tally .blank {}).1

/-- The scope of the declared tree. -/
def tallyScope : Scope := (Scope.declareTree tally { library := .blank }).2

/-- A function under construction, with one empty block. -/
def tallyEmitter : Emitter where
  scope := tallyScope
  builder :=
    ⟨{ name := "f", owner := ⟨0⟩, functionType := ⟨0⟩, blocks := [{ id := ⟨0⟩, name := "entry" }],
       order := [⟨0⟩] }, some ⟨0⟩⟩

/-- The count of an object. -/
def counted? : Value → Option Int32
  | .composite [.int n] => some n
  | _ => none

theorem eq_of_counted? {v : Value} {n : Int32} (h : counted? v = some n) :
    v = .composite [.int n] := by
  unfold counted? at h
  split at h
  · rw [Option.some.inj h]
  · nomatch h

theorem tally_declared : Scope.declareTree tally { library := .blank } = (.ok (), tallyScope) := by
  refine eq_ok_of_fst ?_
  decide +kernel

theorem tally_accepted : ∃ report, lowerTree tally .blank {} = (tallyLibrary, report) ∧
    report.failed = false := by
  refine ⟨_, (Prod.mk.eta).symm, ?_⟩
  decide +kernel

theorem tallyEmitter_scope : tallyEmitter.scope = tallyScope := by rw [tallyEmitter]

/-- The expression in the empty block. -/
def tallyExpr : Except LowerError Emitted × Emitter :=
  Emit.expr ⟨.construct (some ⟨1⟩) [], .ofClass ⟨1⟩, .unknown⟩ tallyEmitter

theorem tallyExpr_ok : tallyExpr.1 = .ok (.storage ⟨0⟩ ⟨0⟩) := by decide +kernel

/-- The class has a constructor without parameters. -/
theorem tally_recorded : ∃ record, tallyLibrary.record? ⟨1⟩ = some record ∧
    (some ⟨1⟩ : Option FunctionId).map tallyLibrary.findFunction? =
      record.defaultConstructor.map some := by
  have hrecord : (tallyLibrary.record? ⟨1⟩).map ClassRecord.defaultConstructor =
      some (some ⟨⟨1⟩, 0⟩) := by decide +kernel
  have hfind : tallyLibrary.findFunction? ⟨1⟩ = some ⟨⟨1⟩, 0⟩ := by decide +kernel
  obtain ⟨record, hrecord, hconstructor⟩ := Option.map_eq_some_iff.mp hrecord
  refine ⟨record, hrecord, ?_⟩
  rw [hconstructor]
  exact congrArg some hfind

/-- A default object has counted to one. -/
theorem tally_default : ∃ o, Object.default tallyLibrary 10 ⟨1⟩ = .ok o ∧
    o.value = .composite [.int 1] := by
  have h : (Object.default tallyLibrary 10 ⟨1⟩).toOption.bind (fun o => counted? o.value) =
      some 1 := by decide +kernel
  obtain ⟨o, ho, hcount⟩ := Option.bind_eq_some_iff.mp h
  exact ⟨o, ok_of_toOption ho, eq_of_counted? hcount⟩

theorem tally_zero : tallyLibrary.types.zeroValue ⟨0⟩ = .ok (.composite [.int 0]) := by
  have h : (tallyLibrary.types.zeroValue ⟨0⟩).toOption.bind counted? = some 0 := by decide +kernel
  obtain ⟨v, hv, hcount⟩ := Option.bind_eq_some_iff.mp h
  obtain rfl := eq_of_counted? hcount
  exact ok_of_toOption hv

theorem tallyExpr_ends :
    (Machine.runOps (Machine.callWithin tallyLibrary 10 10) tallyLibrary ⟨0⟩
      [(⟨0⟩, .pointer ⟨0, []⟩)] (tallyExpr.2.builder.routine.opsOf ⟨0⟩ ++ [{ opcode := .ret }])
      { memory := #[.composite [.int 0]] }).1.toOption.isSome = true := by decide +kernel

/-- An object is constructed where its zero value is, and its count is one. -/
theorem construct_default_tally :
    ∃ M', Machine.runOps (Machine.callWithin tallyLibrary 10 10) tallyLibrary ⟨0⟩
          [(⟨0⟩, .pointer ⟨0, []⟩)] (tallyExpr.2.builder.routine.opsOf ⟨0⟩ ++ [{ opcode := .ret }])
          { memory := #[.composite [.int 0]] } =
        Machine.runOps (Machine.callWithin tallyLibrary 10 10) tallyLibrary ⟨0⟩
          [(⟨0⟩, .pointer ⟨0, []⟩)] [{ opcode := .ret }] M' ∧
      M'.memory[0]? = some (.composite [.int 1]) := by
  obtain ⟨record, hrecord, hconstructor⟩ := tally_recorded
  obtain ⟨o, hdefault, hcount⟩ := tally_default
  obtain ⟨report, haccepted, hreport⟩ := tally_accepted
  have hscope : tallyScope.Reaches tallyEmitter.scope := by
    rw [tallyEmitter_scope]
    exact Scope.Reaches.start
  have hexpr : Emit.expr ⟨.construct (some ⟨1⟩) [], .ofClass ⟨1⟩, .unknown⟩ tallyEmitter =
      (.ok (.storage ⟨0⟩ ⟨0⟩), tallyExpr.2) := eq_ok_of_fst tallyExpr_ok
  obtain ⟨object, ty, ops, hx, -, -, -, hops, hrun, -⟩ :=
    construct_default (l := tallyLibrary) (c := tally.classes[0]) (by simpa using .core ⟨0⟩)
      (by simp; decide) haccepted hreport tally_declared List.mem_cons_self hrecord hconstructor
      hscope hexpr
  cases hx
  have hemitted : tallyExpr.2.builder.routine.opsOf ⟨0⟩ = ops := hops ⟨0⟩ rfl
  have hends := tallyExpr_ends
  rw [hemitted] at hends ⊢
  have hframe : ([(⟨0⟩, .pointer ⟨0, []⟩)] : Frame).lookup ⟨0⟩ = some (.pointer ⟨0, []⟩) := rfl
  rcases hrun (M := { memory := #[.composite [.int 0]] }) hdefault tally_zero hframe rfl with
    ⟨M', hstop⟩ | ⟨M', hrun, hvalue, -⟩
  · rw [hstop] at hends
    nomatch hends
  · rw [hcount] at hvalue
    exact ⟨M', hrun, hvalue⟩

/-- **Objects that are constructed again.** A default object has counted to one, but the second object
that the loop constructs has counted to two. -/
theorem tally_constructed_twice :
    (Object.default tallyLibrary 100 ⟨1⟩).toOption.bind (fun o => counted? o.value) = some 1 ∧
    tallyLibrary.findFunction? ⟨2⟩ = some ⟨⟨1⟩, 1⟩ ∧
    ((Machine.call tallyLibrary 100 ⟨⟨1⟩, 1⟩ [] {}).1.toOption.map fun r => match r with
      | some (.int n) => some n
      | _ => none) = some (some 2) := by
  refine ⟨?_, ?_, ?_⟩
  all_goals decide +kernel

end Tree

end Shader
