import Mathlib.Data.List.Basic

/-! # A lock with a lease

Whoever finds the key of the lock missing sets it, with a life of `ttl`, and works; when it is done
it deletes the key, whoever set it. The key disappears by itself when its life is over, whether or
not the work is done.

`guarded_acquire` and `exclusive_acquire`: one holder at a time is kept exactly as long as nobody
asks for the lock after the lease of a holder that still works. -/

namespace VestingDripStream.Lib.Lease

/-- The clock, the time at which the key expires, and the holders that work, each with the time at
which it acquired the lock. -/
structure Lock where
  now : ℕ
  expiry : Option ℕ
  working : List (ℕ × ℕ)
  next : ℕ
  deriving DecidableEq, Repr

/-- Nobody has taken the key. -/
def Lock.init : Lock := ⟨0, none, [], 0⟩

/-- The key is missing. -/
def Lock.Free (k : Lock) : Prop := ∀ e ∈ k.expiry, e ≤ k.now

instance (k : Lock) : Decidable k.Free := by unfold Lock.Free; infer_instance

/-- `SET NX EX`; the holders are numbered. -/
def Lock.acquire (k : Lock) (ttl : ℕ) : Lock :=
  if k.Free then ⟨k.now, some (k.now + ttl), k.working ++ [(k.next, k.now)], k.next + 1⟩ else k

/-- The holder `i` is done, and deletes the key. -/
def Lock.release (k : Lock) (i : ℕ) : Lock :=
  if i ∈ k.working.map Prod.fst then
    { k with expiry := none, working := k.working.filter (·.1 ≠ i) }
  else k

/-- The holder `i` stops without deleting the key. -/
def Lock.crash (k : Lock) (i : ℕ) : Lock :=
  { k with working := k.working.filter (·.1 ≠ i) }

/-- Time goes on. -/
def Lock.wait (k : Lock) (d : ℕ) : Lock := { k with now := k.now + d }

/-- Not two holders work. -/
def Lock.Exclusive (k : Lock) : Prop := k.working.length ≤ 1

/-- The leases of all holders that work are still running. -/
def Lock.InTime (k : Lock) (ttl : ℕ) : Prop := ∀ p ∈ k.working, k.now < p.2 + ttl

/-- Nobody works, or one holder whose lease is the life of the key. -/
def Lock.Guarded (k : Lock) (ttl : ℕ) : Prop :=
  k.working = [] ∨ ∃ p, k.working = [p] ∧ k.expiry = some (p.2 + ttl)

variable {k : Lock} {ttl i d : ℕ}

theorem guarded_init (ttl : ℕ) : Lock.init.Guarded ttl := Or.inl rfl

theorem Lock.Guarded.exclusive (h : k.Guarded ttl) : k.Exclusive := by
  unfold Lock.Exclusive
  rcases h with h | ⟨p, h, -⟩ <;> simp [h]

/-- While a holder works in time, the key is there. -/
theorem Lock.Guarded.free_iff (h : k.Guarded ttl) (hne : k.working ≠ []) :
    k.Free ↔ ¬ k.InTime ttl := by
  obtain ⟨p, hp, he⟩ : ∃ p, k.working = [p] ∧ k.expiry = some (p.2 + ttl) := by
    rcases h with h | h
    · exact absurd h hne
    · exact h
  unfold Lock.Free Lock.InTime
  simp [hp, he]

theorem guarded_acquire (h : k.Guarded ttl) (htime : k.InTime ttl) : (k.acquire ttl).Guarded ttl := by
  unfold Lock.acquire
  by_cases hne : k.working = []
  · split_ifs with hfree
    · exact Or.inr ⟨(k.next, k.now), by simp [hne], rfl⟩
    · exact h
  · have hkept : ¬ k.Free := fun hfree => (h.free_iff hne).mp hfree htime
    rw [if_neg hkept]
    exact h

theorem exclusive_acquire (h : k.Guarded ttl) (hone : (k.acquire ttl).Exclusive) :
    k.InTime ttl := by
  by_contra hlate
  have hne : k.working ≠ [] := by
    intro hnil
    refine hlate fun p hp => ?_
    rw [hnil] at hp
    cases hp
  have hfree := (h.free_iff hne).mpr hlate
  have hpos := List.length_pos_of_ne_nil hne
  unfold Lock.acquire Lock.Exclusive at hone
  rw [if_pos hfree] at hone
  simp only [List.length_append, List.length_singleton] at hone
  omega

theorem Lock.Guarded.filter_eq (h : k.Guarded ttl) (i : ℕ) :
    k.working.filter (·.1 ≠ i) = [] ∨ k.working.filter (·.1 ≠ i) = k.working := by
  rcases h with h | ⟨p, h, -⟩
  · exact Or.inl (by rw [h]; rfl)
  · rw [h]
    by_cases hp : p.1 = i
    · exact Or.inl (by simp [hp])
    · exact Or.inr (by simp [hp])

theorem guarded_release (h : k.Guarded ttl) : (k.release i).Guarded ttl := by
  unfold Lock.release
  split_ifs with hi
  · refine Or.inl ?_
    rcases h with h | ⟨p, h, -⟩
    · simp [h]
    · have hp : p.1 = i := by simpa [h, eq_comm] using hi
      simp [h, hp]
  · exact h

theorem guarded_crash (h : k.Guarded ttl) : (k.crash i).Guarded ttl := by
  rcases h.filter_eq i with hnil | hsame
  · exact Or.inl hnil
  · have heq : k.crash i = k := by
      unfold Lock.crash
      rw [hsame]
    rw [heq]
    exact h

theorem guarded_wait (h : k.Guarded ttl) : (k.wait d).Guarded ttl := h

/-- The holders are numbered in the order in which they acquired the lock. -/
def Lock.Numbered (k : Lock) : Prop := ∀ p ∈ k.working, p.1 < k.next

theorem numbered_acquire (h : k.Numbered) : (k.acquire ttl).Numbered := by
  unfold Lock.acquire
  split_ifs
  · intro p hp
    rcases List.mem_append.mp hp with hp | hp
    · have hlt := h p hp
      show p.1 < k.next + 1
      omega
    · rw [List.mem_singleton.mp hp]
      exact Nat.lt_succ_self k.next
  · exact h

theorem numbered_release (h : k.Numbered) : (k.release i).Numbered := by
  unfold Lock.release
  split_ifs
  · exact fun p hp => h p (List.mem_filter.mp hp).1
  · exact h

theorem numbered_crash (h : k.Numbered) : (k.crash i).Numbered :=
  fun p hp => h p (List.mem_filter.mp hp).1

end VestingDripStream.Lib.Lease
