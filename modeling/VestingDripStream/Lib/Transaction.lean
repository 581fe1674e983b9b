import Mathlib.Tactic

/-! # Transactions: state passing that fails as a whole

A transaction reads and writes a state and may fail; `commit` runs it on a state and keeps the
state as it was if it fails. The lemmas ending in `_ok` invert a successful run: `bind_ok` peels
off the first action and names the state after it, the others say what a primitive action tests and
does; those ending in `_bind_ok` peel off a primitive action and go on from the state it leaves.
Equations between states are written from the earlier to the later one. -/

namespace VestingDripStream.Lib.Transaction

/-- A transaction on states `σ` with failures `ε`. -/
abbrev Tx (σ ε α : Type) : Type := StateT σ (Except ε) α

variable {σ ε α β : Type}

/-! ### Computations without state -/

/-- The value of `o`, or the failure `e`. -/
def orFail (o : Option α) (e : ε) : Except ε α :=
  match o with
  | some a => .ok a
  | none => .error e

theorem except_bind_ok {x : Except ε α} {f : α → Except ε β} {b : β} :
    x >>= f = .ok b ↔ ∃ a, x = .ok a ∧ f a = .ok b := by
  cases x <;> simp [bind, Except.bind]

/-- A computation that does not fail with `e`, followed by one that does not. -/
theorem bind_ne_error {x : Except ε α} {f : α → Except ε β} {e : ε} (hx : x ≠ .error e)
    (hf : ∀ a, x = .ok a → f a ≠ .error e) : x >>= f ≠ .error e := by
  cases x with
  | error e' => exact fun h => hx (by simpa [bind, Except.bind] using h)
  | ok a => exact hf a rfl

theorem orFail_ok {o : Option α} {e : ε} {a : α} : orFail o e = .ok a ↔ o = some a := by
  unfold orFail
  cases o <;> simp

/-! ### Transactions -/

/-- Fail with `e` unless `c`. -/
def ensure (c : Prop) [Decidable c] (e : ε) : Tx σ ε Unit :=
  fun s => if c then .ok ((), s) else .error e

/-- The value of `o`; fail with `e` if there is none. -/
def need (o : Option α) (e : ε) : Tx σ ε α :=
  fun s => match o with
    | some a => .ok (a, s)
    | none => .error e

/-- A computation that does not touch the state. -/
def compute (x : Except ε α) : Tx σ ε α :=
  fun s => match x with
    | .ok a => .ok (a, s)
    | .error e => .error e

/-- A value read off the state. -/
def asks (f : σ → α) : Tx σ ε α := fun s => .ok (f s, s)

/-- A change of the state. -/
def update (f : σ → σ) : Tx σ ε Unit := fun s => .ok ((), f s)

/-- The action, if `c`. -/
def onlyIf (c : Prop) [Decidable c] (x : Tx σ ε Unit) : Tx σ ε Unit :=
  if c then x else pure ()

/-- The state after the transaction: unchanged if it fails. -/
def commit (x : Tx σ ε α) (s : σ) : σ :=
  match x s with
  | .ok (_, s') => s'
  | .error _ => s

theorem bind_ok {x : Tx σ ε α} {f : α → Tx σ ε β} {s : σ} {r : β × σ} :
    (x >>= f) s = .ok r ↔ ∃ a s', x s = .ok (a, s') ∧ f a s' = .ok r := by
  show (StateT.bind x f s : Except ε (β × σ)) = _ ↔ _
  unfold StateT.bind
  cases h : x s with
  | error e => simp [bind, Except.bind]
  | ok p =>
    obtain ⟨a, s'⟩ := p
    simp only [bind, Except.bind, Except.ok.injEq, Prod.mk.injEq]
    exact ⟨fun hf => ⟨a, s', ⟨rfl, rfl⟩, hf⟩, fun ⟨_, _, ⟨rfl, rfl⟩, hf⟩ => hf⟩

/-- A failure of the first action is one of the whole. -/
theorem bind_error {x : Tx σ ε α} {f : α → Tx σ ε β} {s : σ} {e : ε} (h : x s = .error e) :
    (x >>= f) s = .error e := by
  show (StateT.bind x f s : Except ε (β × σ)) = _
  unfold StateT.bind
  rw [h]
  rfl

theorem bind_of_ok {x : Tx σ ε α} {f : α → Tx σ ε β} {s s' : σ} {a : α} (h : x s = .ok (a, s')) :
    (x >>= f) s = f a s' := by
  show (StateT.bind x f s : Except ε (β × σ)) = _
  unfold StateT.bind
  rw [h]
  rfl

/-- Two ways to go on that agree wherever the first action can lead to. -/
theorem bind_congr_of_ok {x : Tx σ ε α} {f g : α → Tx σ ε β} {s : σ}
    (h : ∀ a s', x s = .ok (a, s') → f a s' = g a s') : (x >>= f) s = (x >>= g) s := by
  cases hx : x s with
  | error e => rw [bind_error hx, bind_error hx]
  | ok p => rw [bind_of_ok hx, bind_of_ok hx, h p.1 p.2 hx]

theorem compute_bind_of {x : Except ε α} {f : α → Tx σ ε β} {s : σ} {a : α} (h : x = .ok a) :
    (compute x >>= f) s = f a s := by
  rw [h]
  rfl

theorem asks_bind {g : σ → α} {f : α → Tx σ ε β} {s : σ} : (asks g >>= f) s = f (g s) s := rfl

theorem pure_ok {a b : α} {s s' : σ} :
    (pure a : Tx σ ε α) s = .ok (b, s') ↔ a = b ∧ s = s' := by
  show (Except.ok (a, s) : Except ε (α × σ)) = _ ↔ _
  simp only [Except.ok.injEq, Prod.mk.injEq]

theorem ensure_ok {c : Prop} [Decidable c] {e : ε} {s s' : σ} {u : Unit} :
    (ensure c e : Tx σ ε Unit) s = .ok (u, s') ↔ c ∧ s = s' := by
  unfold ensure
  split_ifs with h <;> simp [h]

theorem need_ok {o : Option α} {e : ε} {s s' : σ} {a : α} :
    (need o e : Tx σ ε α) s = .ok (a, s') ↔ o = some a ∧ s = s' := by
  unfold need
  cases o <;> simp

theorem compute_ok {x : Except ε α} {s s' : σ} {a : α} :
    (compute x : Tx σ ε α) s = .ok (a, s') ↔ x = .ok a ∧ s = s' := by
  unfold compute
  cases x <;> simp

theorem asks_ok {f : σ → α} {s s' : σ} {a : α} :
    (asks f : Tx σ ε α) s = .ok (a, s') ↔ f s = a ∧ s = s' := by
  unfold asks; simp

theorem update_ok {f : σ → σ} {s s' : σ} {u : Unit} :
    (update f : Tx σ ε Unit) s = .ok (u, s') ↔ f s = s' := by
  unfold update; simp

theorem onlyIf_ok {c : Prop} [Decidable c] {x : Tx σ ε Unit} {s s' : σ} {u : Unit} :
    onlyIf c x s = .ok (u, s') ↔ (c ∧ x s = .ok ((), s')) ∨ (¬ c ∧ s = s') := by
  unfold onlyIf
  split_ifs with h
  · simp [h]
  · rw [pure_ok]; simp [h]

/-! The same for a primitive action that is followed by `f`: the state between the two is not
named. -/

section Bind

variable {f : α → Tx σ ε β} {s : σ} {r : β × σ}

theorem ensure_bind_ok {c : Prop} [Decidable c] {e : ε} {f : Unit → Tx σ ε β} :
    (ensure c e >>= f) s = .ok r ↔ c ∧ f () s = .ok r := by
  rw [bind_ok]
  simp only [ensure_ok]
  exact ⟨fun ⟨_, _, ⟨hc, rfl⟩, h⟩ => ⟨hc, h⟩, fun ⟨hc, h⟩ => ⟨(), s, ⟨hc, rfl⟩, h⟩⟩

theorem need_bind_ok {o : Option α} {e : ε} :
    (need o e >>= f) s = .ok r ↔ ∃ a, o = some a ∧ f a s = .ok r := by
  rw [bind_ok]
  simp only [need_ok]
  exact ⟨fun ⟨a, _, ⟨ha, rfl⟩, h⟩ => ⟨a, ha, h⟩, fun ⟨a, ha, h⟩ => ⟨a, s, ⟨ha, rfl⟩, h⟩⟩

theorem compute_bind_ok {x : Except ε α} :
    (compute x >>= f) s = .ok r ↔ ∃ a, x = .ok a ∧ f a s = .ok r := by
  rw [bind_ok]
  simp only [compute_ok]
  exact ⟨fun ⟨a, _, ⟨ha, rfl⟩, h⟩ => ⟨a, ha, h⟩, fun ⟨a, ha, h⟩ => ⟨a, s, ⟨ha, rfl⟩, h⟩⟩

theorem asks_bind_ok {g : σ → α} : (asks g >>= f) s = .ok r ↔ f (g s) s = .ok r := Iff.rfl

theorem update_bind_ok {g : σ → σ} {f : Unit → Tx σ ε β} :
    (update g >>= f) s = .ok r ↔ f () (g s) = .ok r := Iff.rfl

end Bind

/-! ### Where a transaction fails -/

section Errors

variable {x : Tx σ ε α} {f : α → Tx σ ε β} {s : σ} {e e' : ε}

theorem bind_eq_error : (x >>= f) s = .error e ↔
    x s = .error e ∨ ∃ a s', x s = .ok (a, s') ∧ f a s' = .error e := by
  cases h : x s with
  | error e' => simp [bind_error h]
  | ok p =>
    obtain ⟨a, s'⟩ := p
    rw [bind_of_ok h]
    simp

theorem compute_bind_error {y : Except ε α} :
    (compute y >>= f) s = .error e ↔ y = .error e ∨ ∃ a, y = .ok a ∧ f a s = .error e := by
  rw [bind_eq_error]
  unfold compute
  cases y <;> simp

theorem need_bind_error {o : Option α} :
    (need o e' >>= f) s = .error e ↔ (o = none ∧ e' = e) ∨ ∃ a, o = some a ∧ f a s = .error e := by
  rw [bind_eq_error]
  unfold need
  cases o <;> simp

theorem onlyIf_error {c : Prop} [Decidable c] {y : Tx σ ε Unit} :
    onlyIf c y s = .error e ↔ c ∧ y s = .error e := by
  unfold onlyIf
  split_ifs with hc
  · simp [hc]
  · exact iff_of_false nofun fun h => hc h.1

theorem asks_bind_error {g : σ → α} : (asks g >>= f) s = .error e ↔ f (g s) s = .error e := Iff.rfl

/-- A transaction whose first action does not fail with `e`, nor what follows it from there. -/
theorem bind_ne_error_at (hx : x s ≠ .error e)
    (hf : ∀ a s', x s = .ok (a, s') → f a s' ≠ .error e) : (x >>= f) s ≠ .error e := by
  rw [ne_eq, bind_eq_error]
  rintro (h | ⟨a, s', h, h'⟩)
  · exact hx h
  · exact hf a s' h h'

end Errors

/-! ### Failures that do not occur -/

/-- The transaction never fails with `e`. -/
def Avoids (e : ε) (x : Tx σ ε α) : Prop := ∀ s, x s ≠ .error e

section Avoids

variable {e e' : ε}

theorem Avoids.bind {x : Tx σ ε α} {f : α → Tx σ ε β} (hx : Avoids e x) (hf : ∀ a, Avoids e (f a)) :
    Avoids e (x >>= f) :=
  fun s => bind_ne_error (hx s) fun p _ => hf p.1 p.2

theorem avoids_ensure {c : Prop} [Decidable c] (h : c ∨ e' ≠ e) :
    Avoids e (ensure c e' : Tx σ ε Unit) := by
  intro s
  unfold ensure
  split_ifs with hc
  · exact nofun
  · rcases h with h | h
    · exact absurd h hc
    · simpa using h

theorem avoids_need {o : Option α} (h : e' ≠ e) : Avoids e (need o e' : Tx σ ε α) := by
  intro s
  unfold need
  cases o with
  | none => simpa using h
  | some a => exact nofun

theorem avoids_compute {x : Except ε α} (h : x ≠ .error e) : Avoids e (compute x : Tx σ ε α) := by
  intro s
  unfold compute
  cases x with
  | error e' => simpa using h
  | ok a => exact nofun

theorem avoids_asks (f : σ → α) : Avoids e (asks f : Tx σ ε α) := fun _ => nofun

theorem avoids_update (f : σ → σ) : Avoids e (update f : Tx σ ε Unit) := fun _ => nofun

theorem avoids_onlyIf {c : Prop} [Decidable c] {x : Tx σ ε Unit} (h : Avoids e x) :
    Avoids e (onlyIf c x) := by
  unfold onlyIf
  split_ifs
  · exact h
  · exact fun _ => nofun

end Avoids

/-! ### What a transaction leaves alone -/

/-- A successful run of the transaction does not change `f`. -/
def Keeps {γ : Type} (f : σ → γ) (x : Tx σ ε α) : Prop :=
  ∀ s a s', x s = .ok (a, s') → f s' = f s

section Keeps

variable {γ : Type} {f : σ → γ}

theorem Keeps.bind {x : Tx σ ε α} {g : α → Tx σ ε β} (hx : Keeps f x) (hg : ∀ a, Keeps f (g a)) :
    Keeps f (x >>= g) := by
  intro s b s' h
  obtain ⟨a, s1, ha, hb⟩ := bind_ok.mp h
  exact (hg a s1 b s' hb).trans (hx s a s1 ha)

theorem keeps_pure (a : α) : Keeps f (pure a : Tx σ ε α) := by
  intro s b s' h
  rw [(pure_ok.mp h).2]

theorem keeps_ensure (c : Prop) [Decidable c] (e : ε) : Keeps f (ensure c e : Tx σ ε Unit) := by
  intro s b s' h
  rw [(ensure_ok.mp h).2]

theorem keeps_asks (g : σ → α) : Keeps f (asks g : Tx σ ε α) := by
  intro s b s' h
  rw [(asks_ok.mp h).2]

theorem keeps_update {g : σ → σ} (h : ∀ s, f (g s) = f s) : Keeps f (update g : Tx σ ε Unit) := by
  intro s b s' hs
  rw [← update_ok.mp hs]
  exact h s

end Keeps

/-! ### What a transaction takes

`Draws f c x` bounds by `c` what a successful run of `x` takes out of the quantity `f`. -/

/-- A successful run of the transaction takes at most `c` out of `f`. -/
def Draws {γ : Type} [Add γ] [LE γ] (f : σ → γ) (c : γ) (x : Tx σ ε α) : Prop :=
  ∀ s a s', x s = .ok (a, s') → f s ≤ f s' + c

section Draws

variable {γ : Type} [AddCommMonoid γ] [PartialOrder γ] {f : σ → γ} {c d : γ}

/-- What a transaction leaves alone it takes nothing out of. -/
theorem Keeps.draws {x : Tx σ ε α} (h : Keeps f x) : Draws f 0 x := by
  intro s a s' hs
  rw [h s a s' hs, add_zero]

theorem draws_pure (a : α) : Draws f 0 (pure a : Tx σ ε α) := (keeps_pure a).draws

/-- What follows a test may use what was tested. -/
theorem draws_ensure_bind {p : Prop} [Decidable p] {e : ε} {g : Unit → Tx σ ε β}
    (h : p → Draws f c (g ())) : Draws f c (ensure p e >>= g) := by
  intro s b s' hs
  obtain ⟨hp, hs⟩ := ensure_bind_ok.mp hs
  exact h hp s b s' hs

theorem draws_need_bind {o : Option α} {e : ε} {g : α → Tx σ ε β}
    (h : ∀ a, o = some a → Draws f c (g a)) : Draws f c (need o e >>= g) := by
  intro s b s' hs
  obtain ⟨a, ha, hs⟩ := need_bind_ok.mp hs
  exact h a ha s b s' hs

theorem draws_compute_bind {x : Except ε α} {g : α → Tx σ ε β}
    (h : ∀ a, x = .ok a → Draws f c (g a)) : Draws f c (compute x >>= g) := by
  intro s b s' hs
  obtain ⟨a, ha, hs⟩ := compute_bind_ok.mp hs
  exact h a ha s b s' hs

theorem draws_asks_bind {r : σ → α} {g : α → Tx σ ε β} (h : ∀ a, Draws f c (g a)) :
    Draws f c (asks r >>= g) :=
  fun s b s' hs => h (r s) s b s' hs

theorem draws_onlyIf {p : Prop} [Decidable p] {x : Tx σ ε Unit} (h : Draws f 0 x) :
    Draws f 0 (onlyIf p x) := by
  unfold onlyIf
  split_ifs
  · exact h
  · exact draws_pure ()

/-- An action that takes nothing, followed by one that takes `c` whenever the first succeeds. -/
theorem Draws.free_bind_ok {x : Tx σ ε α} {g : α → Tx σ ε β} (hx : Draws f 0 x)
    (hg : ∀ s a s', x s = .ok (a, s') → Draws f c (g a)) : Draws f c (x >>= g) := by
  intro s b s' h
  obtain ⟨a, s1, ha, hb⟩ := bind_ok.mp h
  have hfirst := hx s a s1 ha
  rw [add_zero] at hfirst
  exact hfirst.trans (hg s a s1 ha s1 b s' hb)

/-- An action that takes nothing, followed by one that takes `c`. -/
theorem Draws.free_bind {x : Tx σ ε α} {g : α → Tx σ ε β} (hx : Draws f 0 x)
    (hg : ∀ a, Draws f c (g a)) : Draws f c (x >>= g) :=
  hx.free_bind_ok fun _ a _ _ => hg a

variable [IsOrderedAddMonoid γ]

theorem Draws.bind {x : Tx σ ε α} {g : α → Tx σ ε β} (hx : Draws f c x)
    (hg : ∀ a, Draws f d (g a)) : Draws f (d + c) (x >>= g) := by
  intro s b s' h
  obtain ⟨a, s1, ha, hb⟩ := bind_ok.mp h
  calc f s ≤ f s1 + c := hx s a s1 ha
    _ ≤ f s' + d + c := add_le_add_left (hg a s1 b s' hb) c
    _ = f s' + (d + c) := add_assoc _ _ _

/-- An action that takes `c`, followed by one that takes nothing. -/
theorem Draws.bind_free {x : Tx σ ε α} {g : α → Tx σ ε β} (hx : Draws f c x)
    (hg : ∀ a, Draws f 0 (g a)) : Draws f c (x >>= g) :=
  zero_add c ▸ hx.bind hg

theorem Draws.mono {x : Tx σ ε α} (h : Draws f c x) (hcd : c ≤ d) : Draws f d x :=
  fun s a s' hs => (h s a s' hs).trans (add_le_add_right hcd (f s'))

/-- The result of the transaction does not matter. -/
theorem Draws.discard {x : Tx σ ε α} (h : Draws f c x) (b : β) :
    Draws f c (x >>= fun _ => pure b) :=
  h.bind_free fun _ => draws_pure b

end Draws

/-! ### What a transaction appends

`Appends f p x` says of a log `f` that a successful run of `x` only adds to it, and adds entries with
the property `p` only. -/

/-- A successful run of the transaction appends entries with the property `p` to the log `f`. -/
def Appends {γ : Type} (f : σ → List γ) (p : γ → Prop) (x : Tx σ ε α) : Prop :=
  ∀ s a s', x s = .ok (a, s') → ∃ l, f s' = f s ++ l ∧ ∀ e ∈ l, p e

section Appends

variable {γ : Type} {f : σ → List γ} {p q : γ → Prop}

theorem Keeps.appends {x : Tx σ ε α} (h : Keeps f x) : Appends f p x :=
  fun s a s' hs => ⟨[], by rw [h s a s' hs, List.append_nil], by simp⟩

theorem appends_pure (a : α) : Appends f p (pure a : Tx σ ε α) := (keeps_pure a).appends

theorem Appends.mono {x : Tx σ ε α} (h : Appends f p x) (hpq : ∀ e, p e → q e) :
    Appends f q x := by
  intro s a s' hs
  obtain ⟨l, hl, hp⟩ := h s a s' hs
  exact ⟨l, hl, fun e he => hpq e (hp e he)⟩

/-- What follows an action may use that it succeeded. -/
theorem appends_bind_of_ok {x : Tx σ ε α} {g : α → Tx σ ε β} (hx : Appends f p x)
    (hg : ∀ s a s', x s = .ok (a, s') → Appends f p (g a)) : Appends f p (x >>= g) := by
  intro s b s' h
  obtain ⟨a, s1, ha, hb⟩ := bind_ok.mp h
  obtain ⟨l, hl, hp⟩ := hx s a s1 ha
  obtain ⟨l', hl', hp'⟩ := hg s a s1 ha s1 b s' hb
  refine ⟨l ++ l', by rw [hl', hl, List.append_assoc], fun e he => ?_⟩
  exact (List.mem_append.mp he).elim (hp e) (hp' e)

theorem Appends.bind {x : Tx σ ε α} {g : α → Tx σ ε β} (hx : Appends f p x)
    (hg : ∀ a, Appends f p (g a)) : Appends f p (x >>= g) :=
  appends_bind_of_ok hx fun _ a _ _ => hg a

/-- The result of the transaction does not matter. -/
theorem Appends.discard {x : Tx σ ε α} (h : Appends f p x) (b : β) :
    Appends f p (x >>= fun _ => pure b) :=
  h.bind fun _ => appends_pure b

theorem appends_ensure_bind {c : Prop} [Decidable c] {e : ε} {g : Unit → Tx σ ε β}
    (h : c → Appends f p (g ())) : Appends f p (ensure c e >>= g) := by
  intro s b s' hs
  obtain ⟨hc, hs⟩ := ensure_bind_ok.mp hs
  exact h hc s b s' hs

theorem appends_need_bind {o : Option α} {e : ε} {g : α → Tx σ ε β}
    (h : ∀ a, o = some a → Appends f p (g a)) : Appends f p (need o e >>= g) := by
  intro s b s' hs
  obtain ⟨a, ha, hs⟩ := need_bind_ok.mp hs
  exact h a ha s b s' hs

theorem appends_compute_bind {x : Except ε α} {g : α → Tx σ ε β}
    (h : ∀ a, x = .ok a → Appends f p (g a)) : Appends f p (compute x >>= g) := by
  intro s b s' hs
  obtain ⟨a, ha, hs⟩ := compute_bind_ok.mp hs
  exact h a ha s b s' hs

theorem appends_asks_bind {r : σ → α} {g : α → Tx σ ε β} (h : ∀ a, Appends f p (g a)) :
    Appends f p (asks r >>= g) :=
  fun s b s' hs => h (r s) s b s' hs

theorem appends_onlyIf {c : Prop} [Decidable c] {x : Tx σ ε Unit} (h : Appends f p x) :
    Appends f p (onlyIf c x) := by
  unfold onlyIf
  split_ifs
  · exact h
  · exact appends_pure ()

end Appends

theorem exists_ok_of_isOk {x : Except ε α} (h : x.isOk = true) : ∃ a, x = .ok a := by
  cases x with
  | error e => cases h
  | ok a => exact ⟨a, rfl⟩

theorem commit_of_ok {x : Tx σ ε α} {s s' : σ} {a : α} (h : x s = .ok (a, s')) :
    commit x s = s' := by
  unfold commit; rw [h]

theorem commit_of_not_isOk {x : Tx σ ε α} {s : σ} (h : ¬ (x s).isOk = true) : commit x s = s := by
  unfold commit
  cases hx : x s with
  | error e => rfl
  | ok p => rw [hx] at h; exact absurd rfl h

/-- A transaction that changes the state succeeds. -/
theorem ok_of_commit_ne {x : Tx σ ε α} {s : σ} (h : commit x s ≠ s) :
    ∃ a s', x s = .ok (a, s') ∧ commit x s = s' := by
  cases hx : x s with
  | error e => exact absurd (commit_of_not_isOk (by rw [hx]; exact nofun)) h
  | ok p => exact ⟨p.1, p.2, rfl, commit_of_ok hx⟩

/-- The result of the transaction does not matter. -/
theorem commit_bind_pure (x : Tx σ ε α) (b : β) (s : σ) :
    commit (x >>= fun _ => pure b) s = commit x s := by
  unfold commit
  show (match (StateT.bind x (fun _ => pure b) s : Except ε (β × σ)) with
    | .ok (_, s') => s'
    | .error _ => s) = _
  unfold StateT.bind
  cases x s <;> rfl

/-- What every successful run establishes, and what held before, holds after the transaction. -/
theorem commit_induct {x : Tx σ ε α} {s : σ} {P : σ → Prop} (h0 : P s)
    (h : ∀ a s', x s = .ok (a, s') → P s') : P (commit x s) := by
  unfold commit
  cases hx : x s with
  | error e => exact h0
  | ok p => exact h p.1 p.2 hx

/-! ### A transaction on a part of the state

`zoom` runs a transaction on a part of a larger state. `Projects p x y` says that `x`, seen through
the projection `p` of its state, is `y`: they fail alike and return alike. -/

section Zoom

variable {τ : Type}

/-- The transaction `x` on the part of the state that `get` reads and `put` writes. -/
def zoom (get : σ → τ) (put : σ → τ → σ) (x : Tx τ ε α) : Tx σ ε α := fun s =>
  match x (get s) with
  | .ok (a, t) => .ok (a, put s t)
  | .error e => .error e

theorem zoom_ok {get : σ → τ} {put : σ → τ → σ} {x : Tx τ ε α} {s s' : σ} {a : α} :
    zoom get put x s = .ok (a, s') ↔ ∃ t, x (get s) = .ok (a, t) ∧ put s t = s' := by
  unfold zoom
  cases x (get s) with
  | error e => simp
  | ok q =>
    simp only [Except.ok.injEq, Prod.mk.injEq]
    constructor
    · rintro ⟨rfl, rfl⟩
      exact ⟨q.2, rfl, rfl⟩
    · rintro ⟨t, rfl, rfl⟩
      exact ⟨rfl, rfl⟩

/-- Seen through `p`, the transaction `x` is `y`. -/
def Projects (p : σ → τ) (x : Tx σ ε α) (y : Tx τ ε α) : Prop :=
  ∀ s, (x s).map (fun q => (q.1, p q.2)) = y (p s)

variable {p : σ → τ}

theorem Projects.bind {x : Tx σ ε α} {y : Tx τ ε α} {f : α → Tx σ ε β} {g : α → Tx τ ε β}
    (hx : Projects p x y) (hf : ∀ a, Projects p (f a) (g a)) : Projects p (x >>= f) (y >>= g) := by
  intro s
  show Except.map _ (StateT.bind x f s) = StateT.bind y g (p s)
  unfold StateT.bind
  rw [← hx s]
  cases x s with
  | error e => rfl
  | ok q => exact hf q.1 q.2

theorem projects_pure (a : α) : Projects p (pure a : Tx σ ε α) (pure a) := fun _ => rfl

theorem projects_ensure (c : Prop) [Decidable c] (e : ε) :
    Projects p (ensure c e : Tx σ ε Unit) (ensure c e) := by
  intro s
  unfold ensure
  split_ifs <;> rfl

theorem projects_need (o : Option α) (e : ε) : Projects p (need o e : Tx σ ε α) (need o e) := by
  intro s
  cases o <;> rfl

theorem projects_compute (x : Except ε α) : Projects p (compute x : Tx σ ε α) (compute x) := by
  intro s
  cases x <;> rfl

theorem projects_asks (g : τ → α) : Projects p (asks fun s => g (p s) : Tx σ ε α) (asks g) :=
  fun _ => rfl

theorem projects_onlyIf {c : Prop} [Decidable c] {x : Tx σ ε Unit} {y : Tx τ ε Unit}
    (h : Projects p x y) : Projects p (onlyIf c x) (onlyIf c y) := by
  unfold onlyIf
  split_ifs
  · exact h
  · exact projects_pure ()

theorem projects_zoom {put : σ → τ → σ} (h : ∀ s t, p (put s t) = t) (x : Tx τ ε α) :
    Projects p (zoom p put x) x := by
  intro s
  unfold zoom
  cases x (p s) with
  | error e => rfl
  | ok q =>
    show Except.ok (q.1, p (put s q.2)) = Except.ok q
    rw [h]

/-- What is read off the rest of the state leaves no trace in the projection. -/
theorem Projects.asks_bind {g : σ → β} {f : β → Tx σ ε α} {y : Tx τ ε α}
    (h : ∀ b, Projects p (f b) y) : Projects p (asks g >>= f) y := fun s => h (g s) s

/-- Nor does a change of the rest of the state. -/
theorem Projects.update_bind {g : σ → σ} {f : Unit → Tx σ ε α} {y : Tx τ ε α}
    (hg : ∀ s, p (g s) = p s) (h : Projects p (f ()) y) : Projects p (update g >>= f) y := by
  intro s
  show Except.map _ (f () (g s)) = y (p s)
  rw [h (g s), hg]

theorem Projects.then_update {x : Tx σ ε Unit} {y : Tx τ ε Unit} {g : σ → σ} (h : Projects p x y)
    (hg : ∀ s, p (g s) = p s) : Projects p (x >>= fun _ => update g) y := by
  intro s
  show Except.map _ (StateT.bind x (fun _ => update g) s) = y (p s)
  unfold StateT.bind
  rw [← h s]
  cases x s with
  | error e => rfl
  | ok q =>
    show Except.ok ((), p (g q.2)) = Except.ok ((), p q.2)
    rw [hg]

theorem Projects.commit {x : Tx σ ε α} {y : Tx τ ε α} (h : Projects p x y) (s : σ) :
    p (commit x s) = Transaction.commit y (p s) := by
  unfold Transaction.commit
  rw [← h s]
  cases x s <;> rfl

end Zoom

end VestingDripStream.Lib.Transaction
