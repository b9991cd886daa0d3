import Shader.Proofs.References.Dependence
import Shader.Proofs.Structure.Outlines

/-!
# Walking along emission

Emission goes through the syntax in one way, and much is said about what it leaves behind: which
functions are called, where blocks are placed, what the operations refer to. Such a statement is about
*stages*, states of the emitter that carry what the statement needs to know. It is enough to say what
the elementary steps and the three constructs with blocks of their own do to a stage. The walk through
the syntax is the same for all of them. What it draws does not depend on the kind of stages.
-/

namespace Shader

open Outcome

namespace Emit

/-- **A kind of stages.** A stage may follow another one directly, or lie inside of a construct that
begins there. -/
structure Stages (W : Type) where
  emitter : W → Emitter
  /-- The scope of the declared tree. -/
  scope : Scope
  Follows : W → W → Prop
  Within : W → W → Prop
  /-- The operand may be used at a stage. -/
  Usable : W → Operand → Prop
  /-- The type is there at a stage. -/
  HasType : W → TypeRef → Prop
  /-- The blocks that `break` and `continue` lead to can be gone to. -/
  Offers : W → LoopTargets → Prop
  /-- What an identity may stand for. -/
  Named : FunctionId → FunctionRef → Prop
  /-- What a class may have become. -/
  Shaped : ClassId → ClassShape → Prop
  /-- The function may be called with so many operands. -/
  Callable : FunctionRef → Nat → Prop
  /-- Operations that have a place in the code. -/
  Allowed : Opcode → Prop
  /-- What an expression calls in a position may be called. -/
  Granted : IoMode → Expr → Prop
  refl : ∀ w, Follows w w
  trans : ∀ {w w' w''}, Follows w w' → Follows w' w'' → Follows w w''
  within : ∀ {w w'}, Follows w w' → Within w w'
  usable : ∀ {w w' o}, Follows w w' → Usable w o → Usable w' o
  hasType : ∀ {w w' ty}, Follows w w' → HasType w ty → HasType w' ty
  offers : ∀ {w w' targets}, Within w w' → Offers w targets → Offers w' targets

namespace Stages

variable {W α β : Type} (S : Stages W)

/-- A value that may be used, of a type that is there. -/
def HasValue (v : Typed) (w : W) : Prop := S.Usable w v.1 ∧ S.HasType w v.2

/-- Storage that may be used, of a type that is there. -/
def HasStorage (p : Storage) (w : W) : Prop := S.Usable w (.value p.1) ∧ S.HasType w p.2

/-- What an expression has become may be used. -/
def Has : Emitted → W → Prop
  | .value operand ty => S.HasValue (operand, ty)
  | .storage pointer ty => S.HasStorage (pointer, ty)
  | .void => fun _ => True

/-- All of these may be used. -/
def HasValues (vs : List Typed) (w : W) : Prop := ∀ v ∈ vs, S.HasValue v w

/-- **Leading on.** If a step gives a value, there is a stage that follows the one it starts from, where
the value has the property. -/
def Leads (w : W) (x : EmitM α) (Q : α → W → Prop) : Prop :=
  ∀ a e, x (S.emitter w) = (.ok a, e) → ∃ w', S.emitter w' = e ∧ S.Follows w w' ∧ Q a w'

/-- **Emission.** The step leads on, and on the way it draws an outline. -/
def Emits (w : W) (x : EmitM α) (o : Outline) (Q : α → W → Prop) : Prop :=
  S.Leads w x fun a w' =>
    (S.emitter w').builder.sketch = o.draw (S.emitter w).builder.sketch ∧ Q a w'

variable {S} {w w' : W} {J : α → Emitter → Prop} {x : EmitM α} {e : LowerError} {o : Outline}

theorem HasValue.mono {v : Typed} (h : S.HasValue v w) (hw : S.Follows w w') : S.HasValue v w' :=
  ⟨S.usable hw h.1, S.hasType hw h.2⟩

theorem HasStorage.mono {p : Storage} (h : S.HasStorage p w) (hw : S.Follows w w') :
    S.HasStorage p w' := ⟨S.usable hw h.1, S.hasType hw h.2⟩

theorem HasValues.mono {vs : List Typed} (h : S.HasValues vs w) (hw : S.Follows w w') :
    S.HasValues vs w' := fun v hv => (h v hv).mono hw

theorem HasValues.usable {vs : List Typed} (h : S.HasValues vs w) :
    ∀ o ∈ vs.map Prod.fst, S.Usable w o :=
  List.forall_mem_map.mpr fun v hv => (h v hv).1

section Leads

variable {x : EmitM α} {f : α → EmitM β} {Q : α → W → Prop} {R : β → W → Prop}

protected theorem Leads.pure {a : α} (h : Q a w) : S.Leads w (pure a) Q := by
  intro b e he
  obtain ⟨rfl, rfl⟩ := ok_eq_ok.mp he
  exact ⟨w, rfl, S.refl w, h⟩

protected theorem Leads.bind (hx : S.Leads w x Q)
    (hf : ∀ a w', S.Follows w w' → Q a w' → S.Leads w' (f a) R) : S.Leads w (x >>= f) R := by
  intro b e he
  obtain ⟨a, e₁, h₁, h₂⟩ := bind_ok.mp he
  obtain ⟨w₁, rfl, hw₁, hq⟩ := hx a e₁ h₁
  obtain ⟨w₂, rfl, hw₂, hr⟩ := hf a w₁ hw₁ hq b e h₂
  exact ⟨w₂, rfl, S.trans hw₁ hw₂, hr⟩

theorem Leads.imp {Q' : α → W → Prop} (hx : S.Leads w x Q) (h : ∀ a w', Q a w' → Q' a w') :
    S.Leads w x Q' := by
  intro a e he
  obtain ⟨w', hw', hfollows, hq⟩ := hx a e he
  exact ⟨w', hw', hfollows, h a w' hq⟩

protected theorem Leads.forM {as : List α} {f : α → EmitM PUnit}
    (hf : ∀ a ∈ as, ∀ w', S.Follows w w' → S.Leads w' (f a) fun _ _ => True) :
    S.Leads w (as.forM f) fun _ _ => True := by
  induction as generalizing w with
  | nil => exact .pure True.intro
  | cons a as ih =>
    rw [forM_cons]
    refine (hf a List.mem_cons_self w (S.refl w)).bind fun _ w₁ hw₁ _ => ih fun b hb w₂ hw₂ => ?_
    exact hf b (List.mem_cons_of_mem a hb) w₂ (S.trans hw₁ hw₂)

/-- A step of which it is known how it draws. -/
theorem Leads.emits (hx : S.Leads w x Q) (hd : Draws x o.draw) : S.Emits w x o Q := by
  intro a e he
  obtain ⟨w', rfl, hw', hq⟩ := hx a e he
  exact ⟨w', rfl, hw', hd _ a _ he, hq⟩

/-- A step on the scope draws nothing. -/
theorem Leads.straight {x : ScopeM α} (hx : S.Leads w (onScope x) Q) :
    S.Emits w (onScope x) .straight Q := hx.emits (onScope_draws x)

end Leads

section Emits

variable {x : EmitM α} {f : α → EmitM β} {o o' : Outline} {Q : α → W → Prop} {R : β → W → Prop}

theorem Emits.leads (hx : S.Emits w x o Q) : S.Leads w x Q := Leads.imp hx fun _ _ h => h.2

theorem Emits.draws (hx : S.Emits w x o Q) {a : α} {e : Emitter}
    (he : x (S.emitter w) = (.ok a, e)) :
    e.builder.sketch = o.draw (S.emitter w).builder.sketch := by
  obtain ⟨w', rfl, -, hdraw, -⟩ := hx a e he
  exact hdraw

theorem Emits.imp {Q' : α → W → Prop} (hx : S.Emits w x o Q) (h : ∀ a w', Q a w' → Q' a w') :
    S.Emits w x o Q' := Leads.imp hx fun a w' ha => ⟨ha.1, h a w' ha.2⟩

protected theorem Emits.pure {a : α} (h : Q a w) : S.Emits w (pure a) .straight Q :=
  Leads.pure ⟨rfl, h⟩

protected theorem Emits.throw : S.Emits w (throw e : EmitM α) o Q :=
  fun _ _ he => absurd he error_ne_ok

protected theorem Emits.seq (hx : S.Emits w x o Q)
    (hf : ∀ a w', S.Follows w w' → Q a w' → S.Emits w' (f a) o' R) :
    S.Emits w (x >>= f) (.seq o o') R := by
  refine Leads.bind hx fun a w' hw' ⟨hdraw, hq⟩ => Leads.imp (hf a w' hw' hq) ?_
  rintro b w'' ⟨hdraw', hr⟩
  exact ⟨by rw [hdraw', hdraw]; rfl, hr⟩

/-- A step that stays in the current block may come first. -/
protected theorem Emits.bind (hx : S.Emits w x .straight Q)
    (hf : ∀ a w', S.Follows w w' → Q a w' → S.Emits w' (f a) o R) : S.Emits w (x >>= f) o R :=
  hx.seq hf

/-- A step that stays in the current block may come last. -/
theorem Emits.bind_straight (hx : S.Emits w x o Q)
    (hf : ∀ a w', S.Follows w w' → Q a w' → S.Emits w' (f a) .straight R) :
    S.Emits w (x >>= f) o R := hx.seq hf

/-- Nothing is asked of the result. -/
theorem Emits.done (hx : S.Emits w x o Q) : S.Emits w (do let _ ← x) o fun _ _ => True :=
  hx.bind_straight fun _ _ _ _ => .pure True.intro

theorem Emits.get_bind {f : Emitter → EmitM β} (hf : S.Emits w (f (S.emitter w)) o R) :
    S.Emits w (get >>= f) o R := by
  intro b e he
  have h₂ := after_ok he rfl
  exact hf b e h₂

theorem Emits.throw_bind : S.Emits w ((throw e : EmitM α) >>= f) o R :=
  (Emits.throw (o := .straight) (Q := fun _ _ => False)).bind fun _ _ _ h => h.elim

protected theorem Emits.ite {p : Prop} [Decidable p] {y : EmitM α} (hx : p → S.Emits w x o Q)
    (hy : ¬ p → S.Emits w y o Q) : S.Emits w (if p then x else y) o Q := by
  split
  · next h => exact hx h
  · next h => exact hy h

end Emits

/-! ### Inside of constructs -/

/-- A step leads from states of the emitter with a property to states with another one. -/
def Passes (I : Emitter → Prop) (x : EmitM α) (J : α → Emitter → Prop) : Prop :=
  ∀ e a e', x e = (.ok a, e') → I e → J a e'

theorem Passes.bind {I : Emitter → Prop} {f : α → EmitM β} {K : β → Emitter → Prop}
    (hx : Passes I x J) (hf : ∀ a, Passes (J a) (f a) K) :
    Passes I (x >>= f) K := by
  intro e b e'' h he
  obtain ⟨a, e', h₁, h₂⟩ := bind_ok.mp h
  exact hf a e' b e'' h₂ (hx e a e' h₁ he)

/-- **The blocks of constructs.** A construct begins at a stage. First its blocks are allocated. Then
some of them are waiting, in the order in which they will be started, and the heads of loops have been
started already. While a block is being filled there are stages again. -/
structure Blocks (S : Stages W) where
  /-- The blocks have been allocated since the stage, and nothing else has happened. -/
  Drafts : W → List BlockId → Emitter → Prop
  /-- No block is being filled. -/
  Amid : W → List BlockId → List BlockId → Emitter → Prop
  /-- A stage in a block of the construct. -/
  Inside : W → List BlockId → List BlockId → W → Prop
  within : ∀ {w w' bs heads}, Inside w bs heads w' → S.Within w w'
  follows : ∀ {w w' w'' bs heads}, Inside w bs heads w' → S.Follows w' w'' → Inside w bs heads w''
  offers : ∀ {w w' bs heads targets}, Inside w bs heads w' → targets.merge ∈ bs →
    targets.continuation ∈ bs → S.Offers w' targets
  trans : ∀ {w w' w''}, S.Within w w' → S.Within w' w'' → S.Within w w''
  usable : ∀ {w w' o}, S.Within w w' → S.Usable w o → S.Usable w' o
  begins : ∀ w, Drafts w [] (S.emitter w)
  block : ∀ {w bs} name location,
    Passes (Drafts w bs) (build location (Builder.block name)) fun c => Drafts w (bs ++ [c])
  rotate : ∀ {w c bs e}, Drafts w (c :: bs) e → Drafts w (bs ++ [c]) e
  fork : ∀ {w bs merge condition ifTrue ifFalse} location, merge ∈ bs → ifTrue ∈ bs →
    ifFalse ∈ bs → S.Usable w condition →
    Passes (Drafts w bs) (Emit.fork merge condition ifTrue ifFalse location) fun _ => Amid w bs []
  enter : ∀ {w bs c} location, c ∈ bs →
    Passes (Drafts w bs) (Emit.branch c location) fun _ => Amid w bs []
  head : ∀ {w bs header test merge next} location, test ∈ bs → merge ∈ bs → next ∈ bs →
    Passes (Amid w (header :: bs) []) (Emit.arm header
      (build location (Builder.changeCurrent (·.markLoop merge next))) test location)
      fun _ => Amid w bs [header]
  start : ∀ {w c bs heads} location, Passes (Amid w (c :: bs) heads) (startBlock c location)
    fun _ e => ∃ w', S.emitter w' = e ∧ Inside w bs heads w'
  leave : ∀ {w w' bs heads c} location, Inside w bs heads w' → c ∈ bs ∨ c ∈ heads →
    Passes (S.emitter w' = ·) (Emit.branch c location) fun _ => Amid w bs heads
  decide : ∀ {w w' bs heads condition ifTrue ifFalse} location, Inside w bs heads w' →
    ifTrue ∈ bs → ifFalse ∈ bs → S.Usable w' condition → Passes (S.emitter w' = ·)
      (build location (Builder.branchIf condition ifTrue ifFalse)) fun _ => Amid w bs heads
  join : ∀ {w c heads} location, Passes (Amid w [c] heads) (startBlock c location)
    fun _ e => ∃ w', S.emitter w' = e ∧ S.Follows w w'

/-- A property of states, together with the sketch. -/
def At (I : Emitter → Prop) (k : Sketch) (e : Emitter) : Prop := I e ∧ e.builder.sketch = k

theorem Passes.at {I : Emitter → Prop} {d : Sketch → Sketch} (hx : Passes I x J) (hd : Draws x d)
    {k : Sketch} : Passes (At I k) x fun a => At (J a) (d k) := by
  rintro e a e' h ⟨he, rfl⟩
  exact ⟨hx e a e' h he, hd e a e' h⟩

section Blocks

variable (B : S.Blocks) {c : BlockId} {bs heads : List BlockId} {k : Sketch}

/-- A construct begins before its first block is allocated. -/
theorem Emits.of_passes {Q : α → W → Prop}
    (h : ∀ k, Passes (At (B.Drafts w []) (k.allocate 0)) x fun a e =>
      ∃ w', S.emitter w' = e ∧ S.Follows w w' ∧ e.builder.sketch = o.draw k ∧ Q a w') :
    S.Emits w x o Q := by
  intro a e he
  obtain ⟨w', rfl, h⟩ := h (S.emitter w).builder.sketch _ a e he ⟨B.begins w, by simp [Sketch.allocate]⟩
  exact ⟨w', rfl, h⟩

/-- Blocks get consecutive numbers. -/
theorem Blocks.block_bind {f : BlockId → EmitM β} {J : β → Emitter → Prop} {name : String}
    {location : Location} (n : Nat)
    (hf : Passes (At (B.Drafts w (bs ++ [k.fresh n])) (k.allocate (n + 1))) (f (k.fresh n)) J) :
    Passes (At (B.Drafts w bs) (k.allocate n)) (build location (Builder.block name) >>= f) J := by
  rintro e b e'' h ⟨he, hk⟩
  obtain ⟨c, e', h₁, h₂⟩ := bind_ok.mp h
  obtain ⟨hc, hk'⟩ := block_draws name location h₁
  rw [hk, Sketch.fresh_allocate] at hc
  rw [hk, Sketch.allocate_allocate] at hk'
  obtain rfl : c = k.fresh n := hc
  exact hf e' b e'' h₂ ⟨B.block name location e _ e' h₁ he, hk'⟩

/-- The block that was allocated first may wait to the end. -/
theorem Blocks.rotated (hx : Passes (At (B.Drafts w (bs ++ [c])) k) x J) :
    Passes (At (B.Drafts w (c :: bs)) k) x J :=
  fun e a e' h he => hx e a e' h ⟨B.rotate he.1, he.2⟩

theorem Blocks.arm {exit : BlockId} {fill : EmitM Unit} (location : Location)
    (hexit : exit ∈ bs ∨ exit ∈ heads)
    (hfill : ∀ w', B.Inside w bs heads w' → S.Emits w' fill o fun _ _ => True) :
    Passes (At (B.Amid w (c :: bs) heads) k) (Emit.arm c fill exit location)
      fun _ => At (B.Amid w bs heads) (k.arm c o.draw .branch) := by
  refine ((B.start location).at (startBlock_draws c location)).bind fun _ => ?_
  rintro _ u e' h ⟨⟨w', rfl, hw'⟩, hk⟩
  obtain ⟨_, e₁, h₁, h₂⟩ := bind_ok.mp h
  obtain ⟨w'', rfl, hfollows, hdraw, -⟩ := hfill w' hw' _ _ h₁
  refine ((B.leave location (B.follows hw' hfollows) hexit).at (plain_draws .branch _ location))
    _ _ _ h₂ ⟨rfl, ?_⟩
  rw [hdraw, hk]

theorem Blocks.test {test inner merge : BlockId} {condition : Option Expr} {s : Scope}
    (location : Location) (hinner : inner ∈ bs) (hmerge : merge ∈ bs)
    (hcondition : ∀ x ∈ condition, ∀ w',
      S.Emits w' (Emit.value x) (x.outline s) S.HasValue) :
    Passes (At (B.Amid w (test :: bs) heads) k) (do
      startBlock test location
      loopTest condition inner merge location) fun _ => At (B.Amid w bs heads)
        (((exprOutline? s condition).draw (k.start test)).close
          (if condition.isSome then .branchConditional else .branch)) := by
  refine ((B.start location).at (startBlock_draws test location)).bind fun _ => ?_
  rintro _ u e' h ⟨⟨w', rfl, hw'⟩, hk⟩
  cases condition with
  | none =>
    exact ((B.leave location hw' (.inl hinner)).at (plain_draws .branch _ location)) _ _ _ h ⟨rfl, hk⟩
  | some x =>
    obtain ⟨v, e₁, h₁, h₂⟩ := bind_ok.mp h
    obtain ⟨w'', rfl, hfollows, hdraw, hv⟩ := hcondition x rfl w' _ _ h₁
    refine ((B.decide location (B.follows hw' hfollows) hinner hmerge hv.1).at
      (plain_draws .branchConditional _ location)) _ _ _ h₂ ⟨rfl, ?_⟩
    rw [hdraw, hk]
    rfl

theorem Blocks.last (location : Location) :
    Passes (At (B.Amid w [c] heads) k) (startBlock c location) fun _ e =>
      ∃ w', S.emitter w' = e ∧ S.Follows w w' ∧ e.builder.sketch = k.start c ∧ True := by
  intro e u e' h he
  obtain ⟨⟨w', hw', hfollows⟩, hk⟩ :=
    (B.join location).at (startBlock_draws c location) e u e' h he
  exact ⟨w', hw', hfollows, hk, True.intro⟩

end Blocks

/-- **Sound stages.** The elementary steps lead on, and so do constructs with blocks of their own. -/
structure Sound (S : Stages W) : Prop where
  reads : ∀ w, S.scope.Reads (S.emitter w).scope
  takes : ∀ {w id f}, S.scope.library.findFunction? id = some f →
    (S.emitter w).scope.takesObject id f = S.scope.takesObject id f
  lowerType : ∀ {w} spec location, S.Leads w (Emit.lowerType spec location) fun t w' => S.HasType w' t
  pointerType : ∀ {w} ty location,
    S.Leads w (Emit.pointerType ty location) fun t w' => S.HasType w' t
  classShape : ∀ {w} id location, S.Leads w (onScope (Scope.classShape id location))
    fun shape w' => S.HasType w' shape.ty ∧ S.Shaped id shape
  function : ∀ {w} id location, S.Leads w (Emit.function id location) fun f _ => S.Named id f
  constant : ∀ {w} ty value, S.Leads w (Emit.constant ty value) fun o w' => S.Usable w' o
  partAt : ∀ {w} ty index location,
    S.Leads w (onScope (Scope.onTypes location do (← get).partAt ty index))
      fun t w' => S.HasType w' t
  nameOf : ∀ {w} ty location,
    S.Leads w (onScope (Scope.onTypes location do (← get).nameOf ty)) fun _ _ => True
  locals : ∀ {w id p}, (S.emitter w).locals.lookup id = some p → S.HasStorage p w
  this : ∀ {w p}, (S.emitter w).this = some p → S.HasStorage p w
  /-- An operation with a result. -/
  value : ∀ {w opcode ty operands} location, S.Allowed opcode → (∀ o ∈ operands, S.Usable w o) →
    S.HasType w ty → S.Leads w (build location (Builder.value opcode ty operands))
      fun v w' => S.Usable w' (.value v)
  /-- An operation without a result. -/
  plain : ∀ {w opcode operands} location, S.Allowed opcode → (∀ o ∈ operands, S.Usable w o) →
    S.Leads w (build location (do let _ ← Builder.build opcode none operands)) fun _ _ => True
  called : ∀ {w f ty operands} location, S.Callable f operands.length →
    (∀ o ∈ operands, S.Usable w o) → (∀ t ∈ ty, S.HasType w t) →
    S.Leads w (build location (Builder.build .functionCall ty (.function f :: operands)))
      fun v w' => ∀ id ∈ v, S.Usable w' (.value id)
  localVariable : ∀ {w ty} name location, S.HasType w ty →
    S.Leads w (build location (Builder.localVariable ty name)) fun v w' => S.Usable w' (.value v)
  declareLocal : ∀ {w ty} id name location, S.HasType w ty →
    S.Leads w (Emit.declareLocal id name ty location) fun v w' => S.Usable w' (.value v)
  branch : ∀ {w targets} location, S.Offers w targets →
    S.Leads w (Emit.branch targets.merge location) (fun _ _ => True) ∧
      S.Leads w (Emit.branch targets.continuation location) fun _ _ => True
  blocks : Nonempty S.Blocks
  /-- All operations are allowed that are no calls, and so are those that rules give. -/
  allowed : ∀ opcode, opcode ≠ .functionCall → S.Allowed opcode
  binary : ∀ {key opcode}, S.scope.library.binaryRule? key = some (.instruction opcode) →
    S.Allowed opcode
  unary : ∀ {key opcode}, S.scope.library.unaryRule? key = some (.instruction opcode) →
    S.Allowed opcode
  conversion : ∀ {key rule}, S.scope.library.conversionRule? key = some rule →
    (∀ opcode, rule = .instruction opcode → S.Allowed opcode) ∧
      ∀ opcode zero, rule = .toBool opcode zero → S.Allowed opcode
  intrinsic : ∀ {key opcode}, S.scope.library.intrinsicRule? key = some (.instruction opcode) →
    S.Allowed opcode
  /-- What is granted to an expression is what it calls. -/
  getter : ∀ {needed a ty location id f}, S.Granted needed ⟨.member a, ty, location⟩ →
    needed.Reads → S.scope.getter? a.accessed = some id → S.Named id f → S.Callable f 1
  setter : ∀ {needed a ty location id f}, S.Granted needed ⟨.member a, ty, location⟩ →
    needed.Writes → S.scope.setter? a.accessed = some id → S.Named id f → S.Callable f 2
  call : ∀ {a es ty location id f}, S.Granted .read ⟨.call a es, ty, location⟩ →
    a.accessed = .function id → S.Named id f →
    S.Callable f ((S.scope.takesObject id f).toNat + es.length)
  constructor : ∀ {id f es ty location}, S.Granted .read ⟨.construct (some id) es, ty, location⟩ →
    S.Named id f → S.Callable f (1 + es.length)
  object : ∀ {cid shape f es location},
    S.Granted .read ⟨.construct none es, .ofClass cid, location⟩ → S.Shaped cid shape →
    shape.preConstructor = some f → S.Callable f 1
  position : ∀ {needed e}, (∀ a, e.kind ≠ .member a) → S.Granted needed e → S.Granted .read e

end Stages

end Emit

end Shader
