import Mathlib.Logic.Function.Basic
import Mathlib.Data.Nat.Notation
import Mathlib.Tactic.SplitIfs

/-! # Copies of a source that changes

The versions of a source are numbered. A store keeps copies under keys until they expire, each with
the version it was made of; the copies of a group can be dropped, because of a change up to some
version. `Fresh` says that no copy that can be read is older than what its group was dropped for:
storing a copy keeps that exactly if the copy is not (`fresh_put_iff`), and dropping all keys of the
group keeps it (`Fresh.drop`). -/

namespace VestingDripStream.Lib.Copies

/-- A copy, the version it was made of, and how long it can be read. -/
structure Copy (V : Type*) where
  value : V
  version : ℕ
  expiresAt : ℕ
  deriving DecidableEq, Repr

/-- Copies under keys, and for each group the newest version it was dropped for. -/
structure Store (K G V : Type*) where
  entry : K → Option (Copy V)
  dropped : G → ℕ

variable {K G V : Type*}

/-- Nothing is stored, and nothing was dropped. -/
def Store.empty : Store K G V := ⟨fun _ => none, fun _ => 0⟩

/-- The copy under a key, unless it has expired. -/
def Store.get (s : Store K G V) (now : ℕ) (k : K) : Option (Copy V) :=
  (s.entry k).filter fun e => now ≤ e.expiresAt

/-- Store a copy. -/
def Store.put [DecidableEq K] (s : Store K G V) (k : K) (e : Copy V) : Store K G V :=
  { s with entry := Function.update s.entry k (some e) }

/-- Drop the copies under some keys for a change of a group. -/
def Store.drop [DecidableEq G] (s : Store K G V) (sel : K → Bool) (g : G) (version : ℕ) :
    Store K G V where
  entry := fun k => if sel k then none else s.entry k
  dropped := Function.update s.dropped g (max (s.dropped g) version)

/-- No copy that can be read at any time is older than what its group was dropped for. The keys are
those of an index that knows their groups. -/
def Fresh {ι : Type*} (key : ι → K) (group : ι → G) (s : Store K G V) : Prop :=
  ∀ i now e, s.get now (key i) = some e → s.dropped (group i) ≤ e.version

variable {ι : Type*} {key : ι → K} {group : ι → G} {s : Store K G V} {i : ι} {e : Copy V} {now : ℕ}

theorem entry_of_get {k : K} (h : s.get now k = some e) : s.entry k = some e :=
  (Option.filter_eq_some_iff.mp h).1

theorem fresh_iff : Fresh key group s ↔
    ∀ i e, s.entry (key i) = some e → s.dropped (group i) ≤ e.version := by
  constructor
  · intro h i e he
    exact h i 0 e (Option.filter_eq_some_iff.mpr ⟨he, by simp⟩)
  · exact fun h i now e he => h i e (entry_of_get he)

theorem fresh_empty : Fresh key group (Store.empty : Store K G V) :=
  fresh_iff.mpr fun _ _ h => nomatch h

theorem entry_put [DecidableEq K] (hkey : Function.Injective key) {j : ι} {e' : Copy V}
    (h : (s.put (key i) e).entry (key j) = some e') :
    (j = i ∧ e' = e) ∨ s.entry (key j) = some e' := by
  change Function.update s.entry (key i) (some e) (key j) = some e' at h
  by_cases hj : j = i
  · subst hj
    rw [Function.update_self, Option.some.injEq] at h
    exact Or.inl ⟨rfl, h.symm⟩
  · rw [Function.update_of_ne fun heq => hj (hkey heq)] at h
    exact Or.inr h

/-- **Storing** keeps the store fresh exactly if the copy is not older than what was dropped. -/
theorem fresh_put_iff [DecidableEq K] (hkey : Function.Injective key) (h : Fresh key group s) :
    Fresh key group (s.put (key i) e) ↔ s.dropped (group i) ≤ e.version := by
  rw [fresh_iff] at h ⊢
  constructor
  · intro hput
    exact hput i e (Function.update_self ..)
  · intro hle j e' he'
    rcases entry_put hkey he' with ⟨rfl, rfl⟩ | hold
    · exact hle
    · exact h j e' hold

theorem entry_drop [DecidableEq G] {sel : K → Bool} {g : G} {n : ℕ} {k : K}
    (h : (s.drop sel g n).entry k = some e) : s.entry k = some e ∧ sel k = false := by
  unfold Store.drop at h
  simp only at h
  split_ifs at h with hsel
  exact ⟨h, by simpa using hsel⟩

theorem dropped_drop [DecidableEq G] {sel : K → Bool} {g g' : G} {n : ℕ} :
    (s.drop sel g n).dropped g' = if g' = g then max (s.dropped g) n else s.dropped g' :=
  Function.update_apply ..

theorem dropped_le_drop [DecidableEq G] {sel : K → Bool} {g g' : G} {n : ℕ} :
    s.dropped g' ≤ (s.drop sel g n).dropped g' := by
  rw [dropped_drop]
  split_ifs with hg
  · subst hg
    exact Nat.le_max_left ..
  · exact Nat.le_refl _

theorem dropped_drop_le [DecidableEq G] {sel : K → Bool} {g : G} {n m : ℕ}
    (h : ∀ g', s.dropped g' ≤ m) (hn : n ≤ m) (g' : G) : (s.drop sel g n).dropped g' ≤ m := by
  rw [dropped_drop]
  split_ifs
  · exact Nat.max_le.mpr ⟨h g, hn⟩
  · exact h g'

/-- **Dropping** all keys of the group keeps the store fresh. -/
theorem Fresh.drop [DecidableEq G] {sel : K → Bool} {g : G} {n : ℕ} (h : Fresh key group s)
    (hsel : ∀ i, group i = g → sel (key i) = true) : Fresh key group (s.drop sel g n) := by
  rw [fresh_iff] at h ⊢
  intro i e he
  obtain ⟨he, hkept⟩ := entry_drop he
  have hne : group i ≠ g := fun hg => by rw [hsel i hg] at hkept; cases hkept
  show Function.update s.dropped g _ (group i) ≤ e.version
  rw [Function.update_of_ne hne]
  exact h i e he

end VestingDripStream.Lib.Copies
