import Shader.IR.Builder
import Shader.Proofs.Outcome
import Mathlib.Data.List.Nodup

/-!
# Sketches of control flow

Of the blocks of a function, control flow sees three things: what each block is marked to head, which
terminator comes first in it, and which blocks are placed. A `Sketch` is a function under construction
reduced to these. What is emitted for a piece of syntax changes the sketch in a way that can be read
off the syntax: an `Outline` says which constructs with blocks of their own there are and where the
current block is left, and `Outline.draw` is the change it makes.

So the facts about marks are facts about outlines, proved by induction on them:

* `Sketch.fine_draw` — the heads of selections end in a conditional branch if and only if the outline
  is *live* (`Outline.live`): no selection is made in a block that has been left before.

While a construct is being drawn its blocks are filled one after the other, and the others wait for
their turn; `Sketch.Amid` describes the sketch in such a moment.
-/

namespace Shader

/-- A block as control flow sees it. -/
structure Node where
  role : BlockRole := .direct
  merge : Option BlockId := none
  continuation : Option BlockId := none
  /-- The first terminator. -/
  ending : Option Opcode := none
  deriving DecidableEq, Repr

variable {k : Node}

namespace Node

/-- Nothing is marked. -/
def Plain (k : Node) : Prop := k.role = .direct ∧ k.merge = none ∧ k.continuation = none

/-- What follows the first terminator does not count. -/
def close (opcode : Opcode) (k : Node) : Node := { k with ending := k.ending.or (some opcode) }

/-- Marks the head of a selection. -/
def markSelection (merge : BlockId) (k : Node) : Node :=
  { k with role := .selection, merge := some merge }

/-- Marks the head of a loop. -/
def markLoop (merge continuation : BlockId) (k : Node) : Node :=
  { k with role := .loop, merge := some merge, continuation := some continuation }

/-- The marks of a block are complete, and lead to blocks with a property. -/
def Headed (ok : BlockId → Prop) (k : Node) : Prop :=
  match k.role with
  | .direct => k.merge = none ∧ k.continuation = none
  | .selection => (∃ m, k.merge = some m ∧ ok m) ∧ k.continuation = none
  | .loop => (∃ m, k.merge = some m ∧ ok m) ∧ (∃ c, k.continuation = some c ∧ ok c) ∧
      k.ending = some .branch

/-- The head of a selection branches. -/
def Forks (k : Node) : Prop := k.role = .selection → k.ending = some .branchConditional

theorem Plain.headed (h : k.Plain) (ok : BlockId → Prop) : k.Headed ok := by
  obtain ⟨hrole, hpoints⟩ := h
  unfold Headed
  rw [hrole]
  exact hpoints

theorem Plain.forks (h : k.Plain) : k.Forks := by
  intro hrole
  rw [h.1] at hrole
  nomatch hrole

theorem plain_blank : Plain {} := ⟨rfl, rfl, rfl⟩

theorem Plain.close (h : k.Plain) (opcode : Opcode) : (k.close opcode).Plain := h

theorem Headed.mono {ok ok' : BlockId → Prop} (h : k.Headed ok) (hok : ∀ c, ok c → ok' c) :
    k.Headed ok' := by
  obtain ⟨role, merge, continuation, ending⟩ := k
  cases role with
  | direct => exact h
  | selection =>
    obtain ⟨⟨m, hm, hmerge⟩, hnone⟩ := h
    exact ⟨⟨m, hm, hok m hmerge⟩, hnone⟩
  | loop =>
    obtain ⟨⟨m, hm, hmerge⟩, ⟨c, hc, hnext⟩, hending⟩ := h
    exact ⟨⟨m, hm, hok m hmerge⟩, ⟨c, hc, hok c hnext⟩, hending⟩

end Node

/-- The blocks of a function under construction, as control flow sees them. -/
structure Sketch where
  nodes : List Node := []
  order : List BlockId := []
  current : BlockId := ⟨0⟩
  deriving DecidableEq, Repr

namespace Sketch

/-- The block with a given number. -/
def node? (s : Sketch) (c : BlockId) : Option Node := s.nodes[c.index]?

/-- The number that a block will have which is allocated after some others. -/
def fresh (s : Sketch) (i : Nat) : BlockId := ⟨s.nodes.length + i⟩

/-- New blocks, not placed yet. -/
def allocate (s : Sketch) (n : Nat) : Sketch := { s with nodes := s.nodes ++ List.replicate n {} }

/-- Changes the current block. -/
def change (s : Sketch) (f : Node → Node) : Sketch :=
  { s with nodes := s.nodes.modify s.current.index f }

/-- A terminator in the current block. -/
def close (s : Sketch) (opcode : Opcode) : Sketch := s.change (Node.close opcode)

/-- Places a block and goes on in it. -/
def start (s : Sketch) (c : BlockId) : Sketch :=
  { s with order := if c ∈ s.order then s.order else s.order ++ [c], current := c }

/-- The current block branches, and its branches meet in another one. -/
def fork (s : Sketch) (merge : BlockId) : Sketch :=
  (s.change (Node.markSelection merge)).close .branchConditional

/-- A block is started, filled and left. -/
def arm (s : Sketch) (c : BlockId) (fill : Sketch → Sketch) (opcode : Opcode) : Sketch :=
  (fill (s.start c)).close opcode

/-- The head of a loop. -/
def header (s : Sketch) (c merge next : BlockId) : Sketch :=
  ((s.start c).change (Node.markLoop merge next)).close .branch

end Sketch

/-- **Outlines.** The constructs with blocks of their own that are emitted for a piece of syntax, and
where it leaves the current block. -/
inductive Outline where
  /-- Operations that stay in the current block. -/
  | straight
  /-- A terminator in the current block. -/
  | leave (opcode : Opcode)
  | seq (first second : Outline)
  /-- `||` or `&&`, after the left operand. -/
  | shortCircuit (right : Outline)
  /-- A condition without a second branch, after the condition. -/
  | ifThen (body : Outline)
  | ifElse (body rest : Outline)
  | loop (conditional : Bool) (test body step : Outline)
  deriving DecidableEq, Repr

namespace Outline

open Sketch in
/-- **Drawing an outline.** What it does to a sketch. -/
def draw : Outline → Sketch → Sketch
  | .straight, s => s
  | .leave opcode, s => s.close opcode
  | .seq a b, s => b.draw (a.draw s)
  | .shortCircuit right, s =>
    ((((s.allocate 3).fork (s.fresh 2)).arm (s.fresh 0) id .branch).arm (s.fresh 1) right.draw
      .branch).start (s.fresh 2)
  | .ifThen body, s =>
    (((s.allocate 2).fork (s.fresh 0)).arm (s.fresh 1) body.draw .branch).start (s.fresh 0)
  | .ifElse body rest, s =>
    ((((s.allocate 3).fork (s.fresh 0)).arm (s.fresh 1) body.draw .branch).arm (s.fresh 2) rest.draw
      .branch).start (s.fresh 0)
  | .loop conditional test body step, s =>
    ((((((s.allocate 5).close .branch).header (s.fresh 0) (s.fresh 4) (s.fresh 3)).arm (s.fresh 1)
      test.draw (if conditional then .branchConditional else .branch)).arm (s.fresh 2) body.draw
      .branch).arm (s.fresh 3) step.draw .branch).start (s.fresh 4)

/-- How the current block ends after the outline, if it ended in a given way before. -/
def ends : Outline → Option Opcode → Option Opcode
  | .straight, ending => ending
  | .leave opcode, ending => ending.or (some opcode)
  | .seq a b, ending => b.ends (a.ends ending)
  | .shortCircuit _, _ | .ifThen _, _ | .ifElse _ _, _ | .loop _ _ _ _, _ => none

/-- A selection may be made in a block that has not been left. -/
def free (ending : Option Opcode) : Bool := ending = none || ending = some .branchConditional

/-- **Live outlines.** No selection is made in a block that has been left before. -/
def live : Outline → Option Opcode → Bool
  | .straight, _ | .leave _, _ => true
  | .seq a b, ending => a.live ending && b.live (a.ends ending)
  | .shortCircuit right, ending => free ending && right.live none
  | .ifThen body, ending => free ending && body.live none
  | .ifElse body rest, ending => free ending && body.live none && rest.live none
  | .loop _ test body step, _ => test.live none && body.live none && step.live none

end Outline

/-! ### Placed blocks -/

namespace Sketch

/-- A block that is placed. -/
def Placed (s : Sketch) (c : BlockId) (k : Node) : Prop := c ∈ s.order ∧ s.node? c = some k

/-- The marks of all placed blocks are complete; they lead to blocks that are placed or have yet to
be. -/
def Heads (P : BlockId → Prop) (s : Sketch) : Prop :=
  ∀ c k, s.Placed c k → k.Headed fun m => m ∈ s.order ∨ P m

/-- The heads of all selections branch. -/
def Fine (s : Sketch) : Prop := ∀ c k, s.Placed c k → k.Forks

/-- The current block is not marked, and ends in a given way. -/
def Stands (s : Sketch) (ending : Option Opcode) : Prop :=
  ∃ k, s.Placed s.current k ∧ k.Plain ∧ k.ending = ending

variable {P : BlockId → Prop}

section Placed

variable {s : Sketch} {c : BlockId} {k : Node} {f : Node → Node} {Q : Node → Prop}

theorem node?_change (s : Sketch) (f : Node → Node) (c : BlockId) :
    (s.change f).node? c = if c = s.current then (s.node? c).map f else s.node? c :=
  Outcome.getElem?_modify_of_injective (fun ⟨_⟩ ⟨_⟩ => congrArg BlockId.mk) s.nodes f s.current c

theorem mem_order_start (s : Sketch) (c d : BlockId) :
    d ∈ (s.start c).order ↔ d = c ∨ d ∈ s.order := by
  unfold start
  dsimp only
  split
  · next h =>
    refine ⟨.inr, ?_⟩
    rintro (rfl | hd)
    · exact h
    · exact hd
  · rw [List.mem_append, List.mem_singleton]
    exact or_comm

theorem node?_allocate_of_lt (n : Nat) (h : c.index < s.nodes.length) :
    (s.allocate n).node? c = s.node? c := List.getElem?_append_left h

/-- New blocks are blank. -/
theorem node?_allocate_fresh {n i : Nat} (h : i < n) :
    (s.allocate n).node? (s.fresh i) = some {} := by
  unfold node? allocate fresh
  dsimp only
  rw [List.getElem?_append_right (Nat.le_add_right _ _), Nat.add_sub_cancel_left]
  exact List.getElem?_replicate_of_lt h

@[simp] theorem allocate_allocate (s : Sketch) (m n : Nat) :
    (s.allocate m).allocate n = s.allocate (m + n) := by
  unfold allocate
  rw [List.append_assoc, List.replicate_append_replicate]

@[simp] theorem fresh_allocate (s : Sketch) (n i : Nat) :
    (s.allocate n).fresh i = s.fresh (n + i) := by
  unfold allocate fresh
  rw [List.length_append, List.length_replicate, Nat.add_assoc]

/-- What holds of blank blocks and of all placed ones holds after some have been allocated. -/
theorem forall_placed_allocate (n : Nat) (hQ : Q {}) :
    (∀ c k, (s.allocate n).Placed c k → Q k) ↔ ∀ c k, s.Placed c k → Q k := by
  constructor
  · rintro h c k ⟨hc, hk⟩
    have hlt : c.index < s.nodes.length := (List.getElem?_eq_some_iff.mp hk).1
    exact h c k ⟨hc, (node?_allocate_of_lt n hlt).trans hk⟩
  · rintro h c k ⟨hc, hk⟩
    by_cases hlt : c.index < s.nodes.length
    · exact h c k ⟨hc, (node?_allocate_of_lt n hlt).symm.trans hk⟩
    · -- beyond the old blocks there are only blank ones
      unfold node? allocate at hk
      dsimp only at hk
      rw [List.getElem?_append_right (Nat.le_of_not_lt hlt), List.getElem?_replicate] at hk
      split at hk
      · cases hk
        exact hQ
      · nomatch hk

/-- What holds of the current block before and after its change, and of all others. -/
theorem forall_placed_change (hk : s.Placed s.current k) (hQ : Q k) :
    (∀ c k, (s.change f).Placed c k → Q k) ↔ (∀ c k, s.Placed c k → Q k) ∧ Q (f k) := by
  constructor
  · intro h
    refine ⟨fun c k' hk' => ?_, h s.current (f k) ⟨hk.1, ?_⟩⟩
    · by_cases hc : c = s.current
      · subst hc
        cases hk.2.symm.trans hk'.2
        exact hQ
      · exact h c k' ⟨hk'.1, by rw [node?_change, if_neg hc]; exact hk'.2⟩
    · rw [node?_change, if_pos rfl, hk.2]
      rfl
  · rintro ⟨hall, hnew⟩ c k' ⟨hc, hk'⟩
    rw [node?_change] at hk'
    split at hk'
    · next heq =>
      rw [heq, hk.2] at hk'
      cases hk'
      exact hnew
    · exact hall c k' ⟨hc, hk'⟩

/-- Placing a blank block makes no difference to what holds of blank blocks. -/
theorem forall_placed_start (hblank : s.node? c = some {}) (hQ : Q {}) :
    (∀ d k, (s.start c).Placed d k → Q k) ↔ ∀ d k, s.Placed d k → Q k := by
  constructor
  · rintro h d k ⟨hd, hk⟩
    exact h d k ⟨(mem_order_start s c d).mpr (.inr hd), hk⟩
  · rintro h d k ⟨hd, hk⟩
    rcases (mem_order_start s c d).mp hd with rfl | hd
    · cases hblank.symm.trans hk
      exact hQ
    · exact h d k ⟨hd, hk⟩

variable {ending : Option Opcode}

/-- A terminator in a block that is not marked. -/
theorem Stands.close (h : s.Stands ending) (opcode : Opcode) :
    (s.close opcode).Stands (ending.or (some opcode)) := by
  obtain ⟨k, ⟨horder, hk⟩, hplain, rfl⟩ := h
  refine ⟨k.close opcode, ⟨horder, ?_⟩, hplain.close opcode, rfl⟩
  change (s.change _).node? s.current = _
  rw [node?_change, if_pos rfl, hk]
  rfl

theorem Stands.heads_close (h : s.Stands ending) (hheads : s.Heads P) (opcode : Opcode) :
    (s.close opcode).Heads P := by
  obtain ⟨k, hk, hplain, -⟩ := h
  exact (forall_placed_change hk (hplain.headed _)).mpr ⟨hheads, (hplain.close opcode).headed _⟩

theorem Stands.fine_close (h : s.Stands ending) (opcode : Opcode) :
    (s.close opcode).Fine ↔ s.Fine := by
  obtain ⟨k, hk, hplain, -⟩ := h
  have hclosed : (k.close opcode).Forks := (hplain.close opcode).forks
  exact (forall_placed_change hk hplain.forks).trans (and_iff_left hclosed)

end Placed

/-! ### What drawing leaves alone -/

/-- Each placed block is there, and is placed once. -/
structure Sound (s : Sketch) : Prop where
  nodup : s.order.Nodup
  within : ∀ c ∈ s.order, c.index < s.nodes.length

/-- **Stages of a sketch.** Blocks that are not the current one stay as they are. -/
structure Frames (s s' : Sketch) : Prop where
  sound : s.Sound → s'.Sound
  length : s.nodes.length ≤ s'.nodes.length
  order : ∀ c ∈ s.order, c ∈ s'.order
  quiet : ∀ c, c.index < s.nodes.length → c ≠ s.current → s'.node? c = s.node? c
  current : s'.current = s.current ∨ s.nodes.length ≤ s'.current.index

theorem Frames.refl (s : Sketch) : s.Frames s :=
  ⟨fun h => h, Nat.le_refl _, fun _ hc => hc, fun _ _ _ => rfl, .inl rfl⟩

theorem Frames.trans {s s' s'' : Sketch} (h : s.Frames s') (h' : s'.Frames s'') : s.Frames s'' where
  sound hs := h'.sound (h.sound hs)
  length := Nat.le_trans h.length h'.length
  order c hc := h'.order c (h.order c hc)
  quiet c hc hne := by
    -- drawing may have moved on, but only to a new block
    have hne' : c ≠ s'.current := by
      rcases h.current with heq | hlt
      · rw [heq]
        exact hne
      · rintro rfl
        omega
    rw [h'.quiet c (Nat.lt_of_lt_of_le hc h.length) hne', h.quiet c hc hne]
  current := by
    rcases h'.current with heq | hlt
    · rw [heq]
      exact h.current
    · exact .inr (Nat.le_trans h.length hlt)

theorem frames_change (s : Sketch) (f : Node → Node) : s.Frames (s.change f) where
  sound hs := ⟨hs.nodup, fun c hc =>
    Nat.lt_of_lt_of_eq (hs.within c hc) (List.length_modify ..).symm⟩
  length := Nat.le_of_eq (List.length_modify ..).symm
  order _ hc := hc
  quiet c _ hne := by rw [node?_change, if_neg hne]
  current := .inl rfl

theorem length_allocate (s : Sketch) (n : Nat) :
    (s.allocate n).nodes.length = s.nodes.length + n := by
  unfold allocate
  rw [List.length_append, List.length_replicate]

theorem frames_allocate (s : Sketch) (n : Nat) : s.Frames (s.allocate n) where
  sound hs := ⟨hs.nodup, fun c hc => by
    rw [length_allocate]
    exact Nat.lt_add_right n (hs.within c hc)⟩
  length := by
    rw [length_allocate]
    exact Nat.le_add_right _ _
  order _ hc := hc
  quiet c hc _ := node?_allocate_of_lt n hc
  current := .inl rfl

/-- Drawing may move on to a block that was not there at the stage it is compared with. -/
theorem Frames.start {s₀ s : Sketch} {c : BlockId} (h : s₀.Frames s)
    (hc : s₀.nodes.length ≤ c.index) (hlt : c.index < s.nodes.length) : s₀.Frames (s.start c) where
  sound hs := by
    obtain ⟨hnodup, hwithin⟩ := h.sound hs
    refine ⟨?_, fun d hd => ?_⟩
    · unfold Sketch.start
      dsimp only
      split
      · exact hnodup
      · next hnotin => exact List.nodup_append.mpr ⟨hnodup, List.nodup_singleton c, by
          rintro d hd _ hd' rfl
          exact hnotin (List.mem_singleton.mp hd' ▸ hd)⟩
    · rcases (mem_order_start s c d).mp hd with rfl | hd
      · exact hlt
      · exact hwithin d hd
  length := h.length
  order d hd := (mem_order_start s c d).mpr (.inr (h.order d hd))
  quiet := h.quiet
  current := .inr hc

/-! ### In the middle of a construct -/

/-- **In the middle of a construct.** Some of its blocks have been drawn, and the ones in the list
wait for their turn. -/
structure Amid (s₀ : Sketch) (P : BlockId → Prop) (live : Prop) (waiting : List BlockId)
    (s : Sketch) : Prop where
  frames : s₀.Frames s
  heads : s.Heads P
  fine : s.Fine ↔ s₀.Fine ∧ live
  distinct : waiting.Nodup
  blank : ∀ c ∈ waiting, s.node? c = some {} ∧ c ≠ s.current ∧ s₀.nodes.length ≤ c.index

/-- What is known of a way to fill a block: how it ends, and when its selections are made in blocks
that have not been left. -/
def Fills (fill : Sketch → Sketch) (ends : Option Opcode → Option Opcode)
    (live : Option Opcode → Bool) : Prop :=
  ∀ P s ending, s.Stands ending → s.Heads P → s.Frames (fill s) ∧ (fill s).Stands (ends ending) ∧
    (fill s).Heads P ∧ ((fill s).Fine ↔ s.Fine ∧ live ending = true)

theorem fills_id : Fills id id fun _ => true := by
  intro P s ending hs hheads
  exact ⟨.refl s, hs, hheads, (and_iff_left rfl).symm⟩

variable {ending : Option Opcode}

section Amid

variable {s₀ s : Sketch} {P P' : BlockId → Prop} {live : Prop} {c : BlockId} {waiting : List BlockId}

/-- A waiting block is started. -/
theorem Amid.start (h : s₀.Amid P live (c :: waiting) s) :
    s₀.Amid P live waiting (s.start c) ∧ (s.start c).Stands none := by
  obtain ⟨hnode, -, hnew⟩ := h.blank c List.mem_cons_self
  obtain ⟨hc, hdistinct⟩ := List.nodup_cons.mp h.distinct
  have hmem : c ∈ (s.start c).order := (mem_order_start s c c).mpr (.inl rfl)
  have hlt : c.index < s.nodes.length := (List.getElem?_eq_some_iff.mp hnode).1
  refine ⟨⟨h.frames.start hnew hlt, ?_, ?_, hdistinct, fun d hd => ?_⟩,
    {}, ⟨hmem, hnode⟩, Node.plain_blank, rfl⟩
  · refine (forall_placed_start hnode (Node.plain_blank.headed _)).mpr fun d k hk => ?_
    refine (h.heads d k hk).mono fun m hm => ?_
    exact hm.imp_left fun hm => (mem_order_start s c m).mpr (.inr hm)
  · exact (forall_placed_start hnode Node.plain_blank.forks).trans h.fine
  · obtain ⟨hblank, -, hnew'⟩ := h.blank d (List.mem_cons_of_mem c hd)
    refine ⟨hblank, ?_, hnew'⟩
    rintro rfl
    exact hc hd

/-- A change of the current block after which its marks are complete. -/
theorem Amid.change {f : Node → Node} (h : s₀.Amid P live waiting s) (hk : s.Placed s.current k)
    (hplain : k.Plain) (hheaded : (f k).Headed fun m => m ∈ s.order ∨ P m) :
    s₀.Amid P (live ∧ (f k).Forks) waiting (s.change f) := by
  refine ⟨h.frames.trans (frames_change s f), ?_, ?_, h.distinct, fun d hd => ?_⟩
  · exact (forall_placed_change hk (hplain.headed _)).mpr ⟨h.heads, hheaded⟩
  · have hfine := forall_placed_change (f := f) hk hplain.forks
    exact hfine.trans ((and_congr_left fun _ => h.fine).trans and_assoc)
  · obtain ⟨hblank, hne, hnew⟩ := h.blank d hd
    refine ⟨?_, hne, hnew⟩
    rw [node?_change, if_neg hne]
    exact hblank

/-- A waiting block is started, filled and left. -/
theorem Amid.arm {fill : Sketch → Sketch} {ends : Option Opcode → Option Opcode}
    {free : Option Opcode → Bool} (h : s₀.Amid P live (c :: waiting) s) (hfill : Fills fill ends free)
    (opcode : Opcode) : s₀.Amid P (live ∧ free none = true) waiting (s.arm c fill opcode) := by
  obtain ⟨hstart, hstands⟩ := h.start
  obtain ⟨hframes, hstands', hheads, hfine⟩ := hfill P (s.start c) none hstands hstart.heads
  have hclose := frames_change (fill (s.start c)) (Node.close opcode)
  refine ⟨(hstart.frames.trans hframes).trans hclose, hstands'.heads_close hheads opcode, ?_,
    hstart.distinct, fun d hd => ?_⟩
  · refine (hstands'.fine_close opcode).trans (hfine.trans ?_)
    exact (and_congr_left fun _ => hstart.fine).trans and_assoc
  · -- neither what is filled in nor the terminator reaches a block that waits
    obtain ⟨hblank, hne, hnew⟩ := hstart.blank d hd
    have hlt : d.index < (s.start c).nodes.length := (List.getElem?_eq_some_iff.mp hblank).1
    have hblank' : (fill (s.start c)).node? d = some {} := (hframes.quiet d hlt hne).trans hblank
    have hne' : d ≠ (fill (s.start c)).current := by
      rcases hframes.current with heq | hle
      · rw [heq]
        exact hne
      · rintro rfl
        omega
    refine ⟨?_, hne', hnew⟩
    change (Sketch.change _ _).node? d = _
    rw [node?_change, if_neg hne']
    exact hblank'

/-- The last waiting block ends the construct, if it is all that the marks wait for. -/
theorem Amid.join {live' : Prop} (h : s₀.Amid P' live [c] s)
    (hP : ∀ m, P' m → m ∈ (s.start c).order ∨ P m) (hlive : live ↔ live') :
    s₀.Frames (s.start c) ∧ (s.start c).Stands none ∧ (s.start c).Heads P ∧
      ((s.start c).Fine ↔ s₀.Fine ∧ live') := by
  obtain ⟨hstart, hstands⟩ := h.start
  refine ⟨hstart.frames, hstands, fun d k hk => ?_, hstart.fine.trans (and_congr_right fun _ => hlive)⟩
  exact (hstart.heads d k hk).mono fun m hm => hm.elim .inl (hP m)

/-- Before a construct: its blocks have been allocated, and nothing else has happened. -/
theorem Stands.amid (hs : s.Stands ending) (hheads : s.Heads P) {Q : BlockId → Prop}
    (hP : ∀ m, P m → Q m) {n : Nat} (indices : List Nat) (hindices : ∀ i ∈ indices, i < n)
    (hdistinct : indices.Nodup) :
    s.Amid Q True (indices.map s.fresh) (s.allocate n) := by
  obtain ⟨k, ⟨-, hk⟩, -, -⟩ := hs
  have hcurrent : s.current.index < s.nodes.length := (List.getElem?_eq_some_iff.mp hk).1
  refine ⟨frames_allocate s n, ?_, ?_, ?_, fun c hc => ?_⟩
  · refine (forall_placed_allocate n (Node.plain_blank.headed _)).mpr fun c k hk => ?_
    exact (hheads c k hk).mono fun m hm => hm.imp_right (hP m)
  · exact (forall_placed_allocate n Node.plain_blank.forks).trans (and_iff_left True.intro).symm
  · refine List.Nodup.map (fun i j hij => ?_) hdistinct
    have hindex := congrArg BlockId.index hij
    exact Nat.add_left_cancel hindex
  · obtain ⟨i, hi, rfl⟩ := List.mem_map.mp hc
    refine ⟨node?_allocate_fresh (hindices i hi), ?_, Nat.le_add_right _ _⟩
    intro heq
    have hindex := congrArg BlockId.index heq
    change s.nodes.length + i = s.current.index at hindex
    omega

theorem Stands.allocate (hs : s.Stands ending) (n : Nat) :
    (s.allocate n).Stands ending := by
  obtain ⟨k, ⟨horder, hk⟩, hplain, hending⟩ := hs
  have hlt : s.current.index < s.nodes.length := (List.getElem?_eq_some_iff.mp hk).1
  exact ⟨k, ⟨horder, (node?_allocate_of_lt n hlt).trans hk⟩, hplain, hending⟩

end Amid

theorem change_change (s : Sketch) (f g : Node → Node) :
    (s.change f).change g = s.change (g ∘ f) := by
  unfold Sketch.change
  dsimp only
  rw [List.modify_modify_eq]

/-- A selection is made in the current block. -/
theorem Stands.fork {s : Sketch} (hs : s.Stands ending) (hheads : s.Heads P) {n : Nat}
    (indices : List Nat) (hindices : ∀ i ∈ indices, i < n) (hdistinct : indices.Nodup)
    (merge : BlockId) :
    s.Amid (fun m => m = merge ∨ P m) (Outline.free ending = true) (indices.map s.fresh)
      ((s.allocate n).fork merge) := by
  have hamid := hs.amid (Q := fun m => m = merge ∨ P m) hheads (fun _ => .inr) indices hindices hdistinct
  obtain ⟨k, hk, hplain, rfl⟩ := hs.allocate n
  have hchange := hamid.change (f := Node.close .branchConditional ∘ Node.markSelection merge) hk
    hplain ⟨⟨merge, rfl, .inr (.inl rfl)⟩, hplain.2.2⟩
  unfold Sketch.fork Sketch.close
  rw [change_change]
  refine ⟨hchange.frames, hchange.heads, hchange.fine.trans (and_congr_right fun _ => ?_),
    hchange.distinct, hchange.blank⟩
  -- the branch comes too late exactly if another terminator is there
  rw [true_and, Outline.free, Bool.or_eq_true, decide_eq_true_iff, decide_eq_true_iff]
  change (_ → k.ending.or (some Opcode.branchConditional) = _) ↔ _
  cases k.ending with
  | none => simp [Node.close, Node.markSelection]
  | some opcode => simp [Node.close, Node.markSelection]

/-- The head of a loop. -/
theorem Amid.header {s₀ s : Sketch} {live : Prop} {c merge next : BlockId} {waiting : List BlockId}
    (h : s₀.Amid P live (c :: waiting) s) (hmerge : P merge) (hnext : P next) :
    s₀.Amid P live waiting (s.header c merge next) := by
  obtain ⟨hstart, k, hk, hplain, hending⟩ := h.start
  have hchange := hstart.change (f := Node.close .branch ∘ Node.markLoop merge next) hk hplain
    ⟨⟨merge, rfl, .inr hmerge⟩, ⟨next, rfl, .inr hnext⟩, by
      change k.ending.or _ = _
      rw [hending]
      rfl⟩
  unfold Sketch.header Sketch.close
  rw [change_change]
  refine ⟨hchange.frames, hchange.heads, ?_, hchange.distinct, hchange.blank⟩
  have hforks : ((Node.close .branch ∘ Node.markLoop merge next) k).Forks := nofun
  exact hchange.fine.trans (and_congr_right fun _ => and_iff_left hforks)

end Sketch

/-! ### Drawing an outline -/

namespace Outline

open Sketch

theorem fills_shortCircuit {right : Outline} (h : Fills right.draw right.ends right.live) :
    Fills (shortCircuit right).draw (shortCircuit right).ends (shortCircuit right).live := by
  intro P s ending hs hheads
  have hfork : s.Amid _ _ [s.fresh 0, s.fresh 1, s.fresh 2] _ :=
    hs.fork hheads (n := 3) [0, 1, 2] (by decide) (by decide) (s.fresh 2)
  have harms := (hfork.arm fills_id .branch).arm h .branch
  refine harms.join (P := P) (fun m hm => hm.imp_left fun h => (mem_order_start ..).mpr (.inl h)) ?_
  rw [and_iff_left rfl, live, Bool.and_eq_true]

theorem fills_ifThen {body : Outline} (h : Fills body.draw body.ends body.live) :
    Fills (ifThen body).draw (ifThen body).ends (ifThen body).live := by
  intro P s ending hs hheads
  have hfork : s.Amid _ _ [s.fresh 1, s.fresh 0] _ :=
    hs.fork hheads (n := 2) [1, 0] (by decide) (by decide) (s.fresh 0)
  have harm := hfork.arm h .branch
  refine harm.join (P := P) (fun m hm => hm.imp_left fun h => (mem_order_start ..).mpr (.inl h)) ?_
  rw [live, Bool.and_eq_true]

theorem fills_ifElse {body rest : Outline} (h : Fills body.draw body.ends body.live)
    (h' : Fills rest.draw rest.ends rest.live) :
    Fills (ifElse body rest).draw (ifElse body rest).ends (ifElse body rest).live := by
  intro P s ending hs hheads
  have hfork : s.Amid _ _ [s.fresh 1, s.fresh 2, s.fresh 0] _ :=
    hs.fork hheads (n := 3) [1, 2, 0] (by decide) (by decide) (s.fresh 0)
  have harms := (hfork.arm h .branch).arm h' .branch
  refine harms.join (P := P) (fun m hm => hm.imp_left fun h => (mem_order_start ..).mpr (.inl h)) ?_
  rw [live, Bool.and_eq_true, Bool.and_eq_true]

theorem fills_loop {conditional : Bool} {test body step : Outline}
    (htest : Fills test.draw test.ends test.live) (hbody : Fills body.draw body.ends body.live)
    (hstep : Fills step.draw step.ends step.live) :
    Fills (loop conditional test body step).draw (loop conditional test body step).ends
      (loop conditional test body step).live := by
  intro P s ending hs hheads
  have hallocate : s.Amid _ _ [s.fresh 0, s.fresh 1, s.fresh 2, s.fresh 3, s.fresh 4] _ :=
    hs.amid (Q := fun m => m = s.fresh 4 ∨ m = s.fresh 3 ∨ P m) hheads
      (fun _ hm => .inr (.inr hm)) (n := 5) [0, 1, 2, 3, 4] (by decide) (by decide)
  -- the block before the loop is left
  obtain ⟨k, hk, hplain, -⟩ := hs.allocate 5
  have hleft := hallocate.change (f := Node.close .branch) hk hplain
    ((hplain.close .branch).headed _)
  have hheader := hleft.header (.inl rfl : s.fresh 4 = s.fresh 4 ∨ _)
    (.inr (.inl rfl) : s.fresh 3 = s.fresh 4 ∨ s.fresh 3 = s.fresh 3 ∨ P (s.fresh 3))
  have harms := ((hheader.arm htest (if conditional then .branchConditional else .branch)).arm hbody
    .branch)
  have hlast := harms.arm hstep .branch
  refine hlast.join (P := P) (fun m hm => ?_) ?_
  · rw [mem_order_start]
    rcases hm with rfl | rfl | hm
    · exact .inl (.inl rfl)
    · -- the block of the next round has been placed with its arm
      refine .inl (.inr ?_)
      obtain ⟨hstart, hstands⟩ := harms.start
      obtain ⟨hframes, -⟩ := hstep _ _ none hstands hstart.heads
      exact hframes.order _ ((mem_order_start _ _ _).mpr (.inl rfl))
    · exact .inr hm
  · have hforks : (k.close .branch).Forks := (hplain.close .branch).forks
    rw [and_iff_left hforks, true_and, live, Bool.and_eq_true, Bool.and_eq_true]

/-- **Drawing an outline.** -/
theorem fills_draw (o : Outline) : Fills o.draw o.ends o.live := by
  induction o with
  | straight => exact fills_id
  | leave opcode =>
    intro P s ending hs hheads
    refine ⟨frames_change s _, hs.close opcode, hs.heads_close hheads opcode, ?_⟩
    exact (hs.fine_close opcode).trans (and_iff_left rfl).symm
  | seq a b iha ihb =>
    intro P s ending hs hheads
    obtain ⟨hframes, hstands, hheads', hfine⟩ := iha P s ending hs hheads
    obtain ⟨hframes', hstands', hheads'', hfine'⟩ := ihb P _ _ hstands hheads'
    refine ⟨hframes.trans hframes', hstands', hheads'', ?_⟩
    rw [live, Bool.and_eq_true, ← and_assoc]
    exact hfine'.trans (and_congr_left fun _ => hfine)
  | shortCircuit right ih => exact fills_shortCircuit ih
  | ifThen body ih => exact fills_ifThen ih
  | ifElse body rest ih ih' => exact fills_ifElse ih ih'
  | loop conditional test body step ihtest ihbody ihstep => exact fills_loop ihtest ihbody ihstep

end Outline

/-! ### Whole functions -/

namespace Sketch

/-- A function whose first block has been opened. -/
def entry : Sketch where
  nodes := [{}]
  order := [⟨0⟩]

theorem placed_entry {c : BlockId} (h : entry.Placed c k) : k = {} := by
  obtain ⟨hc, hk⟩ := h
  obtain rfl := List.mem_singleton.mp hc
  exact (Option.some.inj hk).symm

theorem stands_entry : entry.Stands none :=
  ⟨{}, ⟨List.mem_singleton.mpr rfl, rfl⟩, Node.plain_blank, rfl⟩

/-- What is drawn is there, and placed once. -/
theorem sound_draw (o : Outline) : (o.draw entry).Sound := by
  refine (o.fills_draw (fun _ => True) entry none stands_entry fun c k hk => ?_).1.sound ?_
  · rw [placed_entry hk]
    exact Node.plain_blank.headed _
  · exact ⟨List.nodup_singleton _, fun c hc => List.mem_singleton.mp hc ▸ Nat.zero_lt_one⟩

/-- **Marks are complete.** The points that they name are placed, and the head of a loop ends in a
branch. -/
theorem heads_draw (o : Outline) : (o.draw entry).Heads fun _ => False := by
  refine (o.fills_draw _ entry none stands_entry fun c k hk => ?_).2.2.1
  rw [placed_entry hk]
  exact Node.plain_blank.headed _

/-- **The heads of selections branch exactly if the outline is live.** -/
theorem fine_draw (o : Outline) : (o.draw entry).Fine ↔ o.live none = true := by
  have hentry : ∀ c k, entry.Placed c k → k.Plain := fun c k hk => placed_entry hk ▸ Node.plain_blank
  have hfine := (o.fills_draw (fun _ => False) entry none stands_entry
    fun c k hk => (hentry c k hk).headed _).2.2.2
  exact hfine.trans (and_iff_right fun c k hk => (hentry c k hk).forks)

end Sketch

end Shader
