import Mathlib.Data.List.Forall2

/-!
# Steps that can stop

Walking, declaring, emitting, building and running are all steps on a state that either give a value
or stop with an error: functions `σ → Except ε α × σ` behind the monad `ExceptT ε (StateM σ)`. The
state survives an error.

* `bind_apply` and its companions say what the operations of the monad do to a state.
* `bind_ok` and `bind_error` take a sequence of steps apart by its outcome; every proof about such
  steps peels them off one by one with these.
* `Upholds` says that a step keeps an invariant of the state and that its value has a property. It
  goes through sequences, choices and lists of steps, so that a fact about a whole compile follows
  from one about each of its steps.
* `Turns` says that a step takes one property of the state to another; in a list of steps it is
  enough that one of them does.
-/

namespace Shader

namespace Outcome

variable {ε σ α β : Type} {f : α → ExceptT ε (StateM σ) β} {x : ExceptT ε (StateM σ) α}
  {as : List α} {a : α} {s t : σ} {e : ε}

/-! ### Comparing outcomes

The type of an outcome hides its pair behind the identity monad, where the library lemmas on pairs
do not see it. -/

@[simp] theorem ok_eq_ok {a b : α} :
    @Eq (Id (Except ε α × σ)) (.ok a, s) (.ok b, t) ↔ a = b ∧ s = t := by
  constructor
  · intro h
    cases h
    exact ⟨rfl, rfl⟩
  · rintro ⟨rfl, rfl⟩
    rfl

@[simp] theorem error_eq_error {d e : ε} :
    @Eq (Id (Except ε α × σ)) (.error d, s) (.error e, t) ↔ d = e ∧ s = t := by
  constructor
  · intro h
    cases h
    exact ⟨rfl, rfl⟩
  · rintro ⟨rfl, rfl⟩
    rfl

@[simp] theorem ok_ne_error :
    ¬ @Eq (Id (Except ε α × σ)) (.ok a, s) (.error e, t) := nofun

@[simp] theorem error_ne_ok :
    ¬ @Eq (Id (Except ε α × σ)) (.error e, s) (.ok a, t) := nofun

theorem eq_ok_of_fst {x : Except ε α × σ} (h : x.1 = .ok a) : x = (.ok a, x.2) := Prod.ext h rfl

/-! ### Single steps -/

@[simp] theorem pure_apply (a : α) (s : σ) : (pure a : ExceptT ε (StateM σ) α) s = (.ok a, s) := rfl

@[simp] theorem throw_apply (e : ε) (s : σ) :
    (throw e : ExceptT ε (StateM σ) α) s = (.error e, s) := rfl

@[simp] theorem get_apply (s : σ) : (get : ExceptT ε (StateM σ) σ) s = (.ok s, s) := rfl

@[simp] theorem modify_apply (f : σ → σ) (s : σ) :
    (modify f : ExceptT ε (StateM σ) PUnit) s = (.ok ⟨⟩, f s) := rfl

@[simp] theorem modifyGet_apply (f : σ → α × σ) (s : σ) :
    (modifyGet f : ExceptT ε (StateM σ) α) s = (.ok (f s).1, (f s).2) := rfl

/-! ### Sequences -/

theorem bind_apply (x : ExceptT ε (StateM σ) α) (f : α → ExceptT ε (StateM σ) β) (s : σ) :
    (x >>= f) s = match x s with
      | (.ok a, s') => f a s'
      | (.error e, s') => (.error e, s') := by
  change (match x s with | (a, s') => ExceptT.bindCont f a s') = _
  rcases x s with ⟨_ | _, _⟩ <;> rfl

theorem bind_of_ok {s s' : σ} (h : x s = (.ok a, s')) :
    (x >>= f) s = f a s' := by
  rw [bind_apply, h]

/-- **Taking a sequence apart.** A sequence gives a value only if its first step does. -/
theorem bind_ok {s s'' : σ} {b : β} :
    (x >>= f) s = (.ok b, s'') ↔ ∃ a s', x s = (.ok a, s') ∧ f a s' = (.ok b, s'') := by
  rw [bind_apply]
  rcases x s with ⟨_ | a, s'⟩
  · simp
  · constructor
    · intro h
      exact ⟨a, s', rfl, h⟩
    · rintro ⟨a', t, h₁, h₂⟩
      obtain ⟨rfl, rfl⟩ := ok_eq_ok.mp h₁
      exact h₂

/-- The rest of a sequence runs on what the first step gives. -/
theorem after_ok {s s' : σ} {r : Except ε β × σ} (h : (x >>= f) s = r) (hx : x s = (.ok a, s')) :
    f a s' = r :=
  (bind_of_ok hx).symm.trans h

/-- A sequence that ends by returning gives what it makes of the value of its first step. -/
theorem return_ok {g : α → β} {s s'' : σ} {b : β} :
    (x >>= fun a => pure (g a)) s = (.ok b, s'') ↔
      ∃ a s', x s = (.ok a, s') ∧ g a = b ∧ s' = s'' := by
  simp only [bind_ok, pure_apply, ok_eq_ok]

/-- A sequence stops in its first step or in what follows it. -/
theorem bind_error {s s'' : σ} :
    (x >>= f) s = (.error e, s'') ↔
      x s = (.error e, s'') ∨ ∃ a s', x s = (.ok a, s') ∧ f a s' = (.error e, s'') := by
  rw [bind_apply]
  rcases x s with ⟨d | a, s'⟩
  · simp
  · constructor
    · intro h
      exact Or.inr ⟨a, s', rfl, h⟩
    · rintro (h | ⟨a', t, h₁, h₂⟩)
      · exact absurd h ok_ne_error
      · obtain ⟨rfl, rfl⟩ := ok_eq_ok.mp h₁
        exact h₂

theorem forM_cons (f : α → ExceptT ε (StateM σ) PUnit) (a : α) (as : List α) :
    (a :: as).forM f = (do f a; as.forM f) := rfl

theorem forM_done {f : α → ExceptT ε (StateM σ) PUnit} {s : σ} (h : ∀ a ∈ as, f a s = (.ok ⟨⟩, s)) :
    as.forM f s = (.ok ⟨⟩, s) := by
  induction as with
  | nil => rfl
  | cons a as ih =>
    rw [forM_cons, bind_of_ok (h a List.mem_cons_self)]
    exact ih fun b hb => h b (List.mem_cons_of_mem a hb)

/-- What is asked of each of some values, without regard to the state. -/
theorem mapM_lift_apply (f : α → Except ε β) (as : List α) (s : σ) :
    (as.mapM fun a => (liftM (f a) : ExceptT ε (StateM σ) β)) s = (as.mapM f, s) := by
  induction as with
  | nil => rfl
  | cons a as ih =>
    rw [List.mapM_cons, List.mapM_cons]
    cases f a with
    | error e => rfl
    | ok b =>
      change ((as.mapM fun a => (liftM (f a) : ExceptT ε (StateM σ) β)) >>= fun bs => pure (b :: bs)) s = _
      rw [bind_apply, ih]
      cases as.mapM f <;> rfl

/-! ### Invariants -/

/-- **Upholding an invariant.** Whenever the step gives a value, from a state that has the invariant,
the state that it leaves has the invariant, and the value has the property. -/
def Upholds (I : σ → Prop) (x : ExceptT ε (StateM σ) α) (Q : α → Prop) : Prop :=
  ∀ s a s', x s = (.ok a, s') → I s → I s' ∧ Q a

namespace Upholds

variable {I : σ → Prop} {x : ExceptT ε (StateM σ) α} {f : α → ExceptT ε (StateM σ) β}
  {Q : α → Prop} {R : β → Prop}

protected theorem pure (h : Q a) : Upholds I (pure a : ExceptT ε (StateM σ) α) Q := by
  intro s b s' hs hi
  obtain ⟨rfl, rfl⟩ := ok_eq_ok.mp hs
  exact ⟨hi, h⟩

protected theorem modify {g : σ → σ} (h : ∀ s, I s → I (g s)) :
    Upholds I (modify g : ExceptT ε (StateM σ) PUnit) fun _ => True := by
  intro s b s' hs hi
  obtain ⟨-, rfl⟩ := ok_eq_ok.mp hs
  exact ⟨h s hi, True.intro⟩

protected theorem bind (hx : Upholds I x Q) (hf : ∀ a, Q a → Upholds I (f a) R) :
    Upholds I (x >>= f) R := by
  intro s b s'' hs hi
  obtain ⟨a, s', h₁, h₂⟩ := bind_ok.mp hs
  obtain ⟨hi', hq⟩ := hx s a s' h₁ hi
  exact hf a hq s' b s'' h₂ hi'

protected theorem forM {f : α → ExceptT ε (StateM σ) PUnit}
    (hf : ∀ a ∈ as, Upholds I (f a) fun _ => True) : Upholds I (as.forM f) fun _ => True := by
  induction as with
  | nil => exact .pure True.intro
  | cons a as ih =>
    rw [forM_cons]
    exact (hf a List.mem_cons_self).bind fun _ _ =>
      ih fun b hb => hf b (List.mem_cons_of_mem a hb)

protected theorem mapM (hf : ∀ a ∈ as, Upholds I (f a) R) :
    Upholds I (as.mapM f) fun bs => ∀ b ∈ bs, R b := by
  induction as with
  | nil =>
    rw [List.mapM_nil]
    exact .pure nofun
  | cons a as ih =>
    rw [List.mapM_cons]
    refine (hf a List.mem_cons_self).bind fun b hb => ?_
    refine (ih fun c hc => hf c (List.mem_cons_of_mem a hc)).bind fun bs hbs => ?_
    exact .pure fun c hc => (List.mem_cons.mp hc).elim (fun h => h ▸ hb) (hbs c)

protected theorem optionMapM {o : Option α} (hf : ∀ a, o = some a → Upholds I (f a) R) :
    Upholds I (o.mapM f) fun b => ∀ c, b = some c → R c := by
  cases o with
  | none => exact .pure nofun
  | some a =>
    exact (hf a rfl).bind fun b hb => .pure fun c hc => Option.some.inj hc ▸ hb

protected theorem ite {p : Prop} [Decidable p] {y : ExceptT ε (StateM σ) α}
    (hx : p → Upholds I x Q) (hy : ¬ p → Upholds I y Q) : Upholds I (if p then x else y) Q := by
  split
  · next h => exact hx h
  · next h => exact hy h

end Upholds

/-! ### Turning points -/

/-- A step that takes states with one property to states with another. -/
def Turns (I J : σ → Prop) (x : ExceptT ε (StateM σ) α) : Prop :=
  ∀ s a s', x s = (.ok a, s') → I s → J s'

section Turns

variable {I J : σ → Prop} {x : ExceptT ε (StateM σ) α} {f : α → ExceptT ε (StateM σ) β}

theorem Upholds.bind_turns {Q : α → Prop} (hx : Upholds I x Q) (hf : ∀ a, Q a → Turns I J (f a)) :
    Turns I J (x >>= f) := by
  intro s b s'' hs hi
  obtain ⟨a, s', h₁, h₂⟩ := bind_ok.mp hs
  obtain ⟨hi', hq⟩ := hx s a s' h₁ hi
  exact hf a hq s' b s'' h₂ hi'

theorem Turns.bind {Q : β → Prop} (hx : Turns I J x) (hf : ∀ a, Upholds J (f a) Q) :
    Turns I J (x >>= f) := by
  intro s b s'' hs hi
  obtain ⟨a, s', h₁, h₂⟩ := bind_ok.mp hs
  exact (hf a s' b s'' h₂ (hx s a s' h₁ hi)).1

theorem Turns.seq {K : σ → Prop} (hx : Turns I J x) (hf : ∀ a, Turns J K (f a)) :
    Turns I K (x >>= f) := by
  intro s b s'' hs hi
  obtain ⟨a, s', h₁, h₂⟩ := bind_ok.mp hs
  exact hf a s' b s'' h₂ (hx s a s' h₁ hi)

protected theorem Turns.ite {p : Prop} [Decidable p] {y : ExceptT ε (StateM σ) α}
    (hx : Turns I J x) (hy : Turns I J y) : Turns I J (if p then x else y) := by
  split
  · exact hx
  · exact hy

/-- One step of a list is enough, if the others keep both properties. -/
theorem Turns.forM {f : α → ExceptT ε (StateM σ) PUnit} (ha : a ∈ as)
    (hI : ∀ b ∈ as, Upholds I (f b) fun _ => True) (hJ : ∀ b ∈ as, Upholds J (f b) fun _ => True)
    (hturn : Turns I J (f a)) : Turns I J (as.forM f) := by
  induction as with
  | nil => nomatch ha
  | cons b as ih =>
    rw [forM_cons]
    have hrest : ∀ {K : σ → Prop}, (∀ c ∈ b :: as, Upholds K (f c) fun _ => True) →
        ∀ c ∈ as, Upholds K (f c) fun _ => True :=
      fun h c hc => h c (List.mem_cons_of_mem b hc)
    rcases List.mem_cons.mp ha with rfl | ha
    · exact hturn.bind fun _ => Upholds.forM (hrest hJ)
    · exact (hI b List.mem_cons_self).bind_turns fun _ _ => ih ha (hrest hI) (hrest hJ)

end Turns

/-! ### Steps that do not stop -/

/-- A step gives a value, which it leaves with a state of this kind. -/
def Succeeds (x : ExceptT ε (StateM σ) α) (s : σ) (Q : α → σ → Prop) : Prop :=
  ∃ a s', x s = (.ok a, s') ∧ Q a s'

namespace Succeeds

variable {x : ExceptT ε (StateM σ) α} {f : α → ExceptT ε (StateM σ) β} {s : σ} {Q : α → σ → Prop}
  {R : β → σ → Prop}

theorem bind (hx : Succeeds x s Q) (hf : ∀ a s', Q a s' → Succeeds (f a) s' R) :
    Succeeds (x >>= f) s R := by
  obtain ⟨a, s₁, h₁, hq⟩ := hx
  obtain ⟨b, s₂, h₂, hr⟩ := hf a s₁ hq
  exact ⟨b, s₂, bind_ok.mpr ⟨a, s₁, h₁, h₂⟩, hr⟩

theorem mono {Q' : α → σ → Prop} (hx : Succeeds x s Q) (h : ∀ a s', Q a s' → Q' a s') :
    Succeeds x s Q' := by
  obtain ⟨a, s', hrun, hq⟩ := hx
  exact ⟨a, s', hrun, h a s' hq⟩

theorem pure (h : Q a s) : Succeeds (Pure.pure a : ExceptT ε (StateM σ) α) s Q :=
  ⟨a, s, rfl, h⟩

/-- Running one step for every element of a list: the invariant knows which of them are done. -/
theorem forM {g : α → ExceptT ε (StateM σ) PUnit} {I : List α → σ → Prop}
    (hg : ∀ done a rest s, as = done ++ a :: rest → I done s →
      Succeeds (g a) s fun _ s' => I (done ++ [a]) s') (h : I [] s) :
    Succeeds (as.forM g) s fun _ s' => I as s' := by
  suffices hsuffix : ∀ rest done s, as = done ++ rest → I done s →
      Succeeds (rest.forM g) s fun _ s' => I as s' from hsuffix as [] s rfl h
  intro rest
  induction rest with
  | nil =>
    intro done s has hI
    rw [List.append_nil] at has
    exact .pure (has ▸ hI)
  | cons a rest ih =>
    intro done s has hI
    rw [forM_cons]
    exact (hg done a rest s has hI).bind fun _ s' hI' => ih (done ++ [a]) s' (by simp [has]) hI'

theorem mapM {I : σ → Prop} (hf : ∀ a ∈ as, ∀ s, I s → Succeeds (f a) s fun _ s' => I s')
    (h : I s) :
    Succeeds (as.mapM f) s fun _ s' => I s' := by
  induction as generalizing s with
  | nil => exact .pure h
  | cons a as ih =>
    obtain ⟨hf₁, hf⟩ := List.forall_mem_cons.mp hf
    rw [List.mapM_cons]
    exact (hf₁ s h).bind fun _ s' h' => (ih hf h').bind fun _ _ h'' => .pure h''

end Succeeds

/-- A step on a part of a state gives what the part gives, and puts the part back. -/
theorem part_ok {τ : Type} {b : α} {u : τ} (g : τ → σ) :
    a = b ∧ g u = s ↔ ∃ u', (a = b ∧ u = u') ∧ s = g u' := by
  constructor
  · rintro ⟨rfl, rfl⟩
    exact ⟨u, ⟨rfl, rfl⟩, rfl⟩
  · rintro ⟨u', ⟨rfl, rfl⟩, rfl⟩
    exact ⟨rfl, rfl⟩

/-! ### Steps without a state -/

section List

variable {γ : Type} {f : α → Except ε β} {as : List α} {bs : List β} {x : Except ε α}

theorem ok_of_toOption (h : x.toOption = some a) : x = .ok a := by
  cases x with
  | error e => nomatch h
  | ok b => exact congrArg Except.ok (Option.some.inj h)

theorem bind_eq_ok {b : β} : x >>= f = .ok b ↔ ∃ a, x = .ok a ∧ f a = .ok b := by
  cases x with
  | error e => simp [bind, Except.bind]
  | ok a => simp [bind, Except.bind]

theorem map_eq_error {g : α → β} :
    x.map g = .error e ↔ x = .error e := by
  cases x <;> simp [Except.map]

theorem map_eq_ok {g : α → β} {b : β} :
    x.map g = .ok b ↔ ∃ a, x = .ok a ∧ g a = b := by
  cases x <;> simp [Except.map]

/-- Steps through a list that succeed have succeeded one by one. -/
theorem mapM_ok (h : as.mapM f = .ok bs) : List.Forall₂ (fun a b => f a = .ok b) as bs := by
  induction as generalizing bs with
  | nil =>
    cases h
    exact .nil
  | cons a as ih =>
    rw [List.mapM_cons] at h
    obtain ⟨b, ha, h⟩ := bind_eq_ok.mp h
    obtain ⟨bs', has, h⟩ := bind_eq_ok.mp h
    cases h
    exact .cons ha (ih has)

theorem mapM_of_forall₂ (h : List.Forall₂ (fun a b => f a = .ok b) as bs) :
    as.mapM f = .ok bs := by
  induction h with
  | nil => rfl
  | cons hab _ ih => rw [List.mapM_cons, hab, ih]; rfl

/-- Steps through a list succeed, or the first one that does not gives the error. -/
theorem mapM_cases (f : α → Except ε β) (as : List α) :
    (∃ bs, as.mapM f = .ok bs) ∨ ∃ a ∈ as, ∃ e, f a = .error e ∧ as.mapM f = .error e := by
  induction as with
  | nil => exact .inl ⟨[], rfl⟩
  | cons a as ih =>
    rw [List.mapM_cons]
    cases ha : f a with
    | error e => exact .inr ⟨a, List.mem_cons_self, e, ha, rfl⟩
    | ok b =>
      rcases ih with ⟨bs, hbs⟩ | ⟨a', ha', e, he, has⟩
      · exact .inl ⟨b :: bs, by rw [hbs]; rfl⟩
      · exact .inr ⟨a', List.mem_cons_of_mem _ ha', e, he, by rw [has]; rfl⟩

theorem mapM_error (h : as.mapM f = .error e) : ∃ a ∈ as, f a = .error e := by
  rcases mapM_cases f as with ⟨bs, hbs⟩ | ⟨a, ha, e', he', has⟩
  · nomatch h.symm.trans hbs
  · cases h.symm.trans has
    exact ⟨a, ha, he'⟩

theorem mapM_ok_mono {g : α → Except ε β} (hfg : ∀ a ∈ as, ∀ b, f a = .ok b → g a = .ok b)
    (h : as.mapM f = .ok bs) : as.mapM g = .ok bs :=
  mapM_of_forall₂ (((List.forall₂_and_left ..).mpr ⟨hfg, mapM_ok h⟩).imp fun _ b h => h.1 b h.2)

theorem forall₂_comp {R : α → β → Prop} {S : β → γ → Prop} {cs : List γ} (h : List.Forall₂ R as bs)
    (h' : List.Forall₂ S bs cs) : List.Forall₂ (fun a c => ∃ b, R a b ∧ S b c) as cs := by
  induction h generalizing cs with
  | nil => exact List.forall₂_nil_left_iff.mp h' ▸ .nil
  | cons hab _ ih =>
    obtain ⟨c, cs, hbc, hcs, rfl⟩ := List.forall₂_cons_left_iff.mp h'
    exact .cons ⟨_, hab, hbc⟩ (ih hcs)

theorem forall₂_exists_of_mem {R : α → β → Prop} (h : List.Forall₂ R as bs) (ha : a ∈ as) :
    ∃ b ∈ bs, R a b := by
  induction h with
  | nil => nomatch ha
  | cons hab _ ih =>
    rcases List.mem_cons.mp ha with rfl | ha
    · exact ⟨_, List.mem_cons_self, hab⟩
    · obtain ⟨b, hb, hab⟩ := ih ha
      exact ⟨b, List.mem_cons_of_mem _ hb, hab⟩

/-- What has been made comes from an element of the list. -/
theorem find?_rel {R : α → β → Prop} {p : α → Bool} {q : β → Bool} (h : List.Forall₂ R as bs)
    (hpq : ∀ a b, R a b → p a = q b) : Option.Rel R (as.find? p) (bs.find? q) := by
  induction h with
  | nil => exact .none
  | @cons a b as bs hab _ ih =>
    rw [List.find?_cons, List.find?_cons, hpq a b hab]
    cases q b with
    | true => exact .some hab
    | false => exact ih

theorem exists_of_mem_mapM (h : as.mapM f = .ok bs) : ∀ b ∈ bs, ∃ a ∈ as, f a = .ok b :=
  fun _ => forall₂_exists_of_mem (mapM_ok h).flip

/-- What is made of an element of a list by a step keeps what the step keeps. -/
theorem map_of_mapM {g : β → γ} {g' : α → γ} (hf : ∀ a ∈ as, ∀ b, f a = .ok b → g b = g' a)
    (h : as.mapM f = .ok bs) : bs.map g = as.map g' := by
  have hall := mapM_ok h
  clear h
  induction hall with
  | nil => rfl
  | cons hab _ ih =>
    obtain ⟨ha, has⟩ := List.forall_mem_cons.mp hf
    rw [List.map_cons, List.map_cons, ha _ hab, ih has]

theorem mem_of_mem_modify {α : Type} {xs : List α} {f : α → α} {n : Nat} {x : α}
    (h : x ∈ xs.modify n f) : x ∈ xs ∨ ∃ y ∈ xs, x = f y := by
  obtain ⟨k, hk⟩ := List.mem_iff_getElem?.mp h
  rw [List.getElem?_modify] at hk
  obtain ⟨y, hy, rfl⟩ := Option.map_eq_some_iff.mp hk
  have hmem := List.mem_of_getElem? hy
  split
  · exact .inr ⟨y, hmem, rfl⟩
  · exact .inl hmem

theorem forall_mem_modify {α : Type} {P : α → Prop} {xs : List α} {f : α → α}
    (hf : ∀ x, P x → P (f x)) (h : ∀ x ∈ xs, P x) (n : Nat) : ∀ x ∈ xs.modify n f, P x := by
  intro x hx
  rcases mem_of_mem_modify hx with hx | ⟨y, hy, rfl⟩
  · exact h x hx
  · exact hf y (h y hy)

/-- Where places are told apart by their numbers, a change at one of them leaves the others alone. -/
theorem getElem?_modify_of_injective {ι : Type} [DecidableEq ι] {index : ι → Nat}
    (hindex : Function.Injective index) (as : List α) (f : α → α) (i j : ι) :
    (as.modify (index i) f)[index j]? = if j = i then as[index j]?.map f else as[index j]? := by
  rw [List.getElem?_modify]
  by_cases h : j = i
  · simp [h]
  · simp [h, hindex.ne (Ne.symm h)]

end List

end Outcome

end Shader
