import Mathlib.Data.Finmap
import Mathlib.Tactic

/-! # Finite maps whose entries expire

An entry is read up to its expiry and is gone after it. Writing a key that is there keeps its
expiry, writing another one gives it a fixed life from now on; `extendTtl` renews an entry whose
remaining life is below a threshold.

What can be read at a given time is a finite map: `Shows now m st` says that it is `st`. Writing and
removing change it as they change a finite map, extending does not change it. -/

namespace VestingDripStream.Lib.Expiring

/-- A finite map with an expiry for every key; the expiry of a key without an entry means
nothing. -/
structure TimedMap (K : Type*) (V : K → Type*) where
  values : Finmap V
  expiry : K → ℕ

variable {K : Type*} {V : K → Type*} [DecidableEq K]

/-- The entry under a key, unless it has expired. -/
def TimedMap.read (m : TimedMap K V) (now : ℕ) (key : K) : Option (V key) :=
  if now ≤ m.expiry key then m.values.lookup key else none

/-- The expiry of a key that is written `now`: a key that is not there gets the life `life`. -/
def TimedMap.expiryOnSet (m : TimedMap K V) (life now : ℕ) (key : K) : ℕ :=
  if (m.read now key).isSome = true then m.expiry key else now + life

/-- Writes an entry. -/
def TimedMap.set (m : TimedMap K V) (life now : ℕ) (key : K) (v : V key) : TimedMap K V where
  values := m.values.insert key v
  expiry := Function.update m.expiry key (m.expiryOnSet life now key)

/-- Removes an entry. -/
def TimedMap.remove (m : TimedMap K V) (key : K) : TimedMap K V :=
  { m with values := m.values.erase key }

/-- Renews the entry under `key`, if it is there and its remaining life is below `threshold`. -/
def TimedMap.extendTtl (m : TimedMap K V) (now : ℕ) (key : K) (threshold extendTo : ℕ) :
    TimedMap K V :=
  if (m.read now key).isSome = true ∧ m.expiry key - now < threshold then
    { m with expiry := Function.update m.expiry key (now + extendTo) }
  else m

/-- The value under a key, expired or not, and its expiry. -/
def TimedMap.entry (m : TimedMap K V) (key : K) : Option (V key) × ℕ :=
  (m.values.lookup key, m.expiry key)

/-- What can be read of `m` at the time `now` is `st`. -/
def Shows (now : ℕ) (m : TimedMap K V) (st : Finmap V) : Prop :=
  ∀ key, m.read now key = st.lookup key

section Read

variable {m m' : TimedMap K V} {life now threshold extendTo : ℕ} {key key' : K} {v : V key}

theorem read_eq_of_entry {o : Option (V key)} {limit : ℕ} (h : m.entry key = (o, limit)) :
    m.read now key = if now ≤ limit then o else none := by
  obtain ⟨rfl, rfl⟩ := Prod.mk.inj h
  rfl

theorem read_congr (h : m'.entry key = m.entry key) : m'.read now key = m.read now key :=
  read_eq_of_entry h

theorem le_expiry_of_read (h : (m.read now key).isSome = true) : now ≤ m.expiry key := by
  unfold TimedMap.read at h
  split_ifs at h with hle
  · exact hle
  · cases h

theorem le_expiryOnSet : now ≤ m.expiryOnSet life now key := by
  unfold TimedMap.expiryOnSet
  split_ifs with h
  · exact le_expiry_of_read h
  · omega

/-- **Writing** an entry. -/
theorem entry_set : (m.set life now key v).entry key = (some v, m.expiryOnSet life now key) :=
  Prod.ext (Finmap.lookup_insert _) (Function.update_self ..)

theorem entry_set_of_ne (h : key' ≠ key) : (m.set life now key v).entry key' = m.entry key' :=
  Prod.ext (Finmap.lookup_insert_of_ne _ h) (Function.update_of_ne h ..)

theorem read_set : (m.set life now key v).read now key = some v := by
  rw [read_eq_of_entry entry_set, if_pos le_expiryOnSet]

theorem entry_remove_of_ne (h : key' ≠ key) : (m.remove key).entry key' = m.entry key' :=
  Prod.ext (Finmap.lookup_erase_ne h) rfl

/-- **Extending** an entry that is there. -/
theorem entry_extendTtl (h : (m.read now key).isSome = true) :
    (m.extendTtl now key threshold extendTo).entry key =
      ((m.entry key).1,
        if m.expiry key - now < threshold then now + extendTo else m.expiry key) := by
  unfold TimedMap.extendTtl TimedMap.entry
  simp only [h, true_and]
  split_ifs
  · exact Prod.ext rfl (Function.update_self ..)
  · rfl

/-- Extending an entry changes no value. -/
theorem read_extendTtl : (m.extendTtl now key threshold extendTo).read now key' =
    m.read now key' := by
  unfold TimedMap.extendTtl
  split_ifs with h
  · by_cases hk : key' = key
    · subst hk
      have hle := le_expiry_of_read h.1
      unfold TimedMap.read
      rw [if_pos hle]
      show (if now ≤ Function.update m.expiry key' (now + extendTo) key' then _ else _) = _
      rw [Function.update_self, if_pos (Nat.le_add_right now extendTo)]
    · unfold TimedMap.read
      show (if now ≤ Function.update m.expiry key (now + extendTo) key' then _ else _) = _
      rw [Function.update_of_ne hk]
  · rfl

end Read

section Shows

variable {m : TimedMap K V} {st : Finmap V} {life now threshold extendTo : ℕ} {key : K}

theorem Shows.set (h : Shows now m st) (key : K) (v : V key) :
    Shows now (m.set life now key v) (st.insert key v) := by
  intro key'
  by_cases hk : key' = key
  · subst hk
    rw [read_set, Finmap.lookup_insert]
  · rw [read_congr (entry_set_of_ne hk), Finmap.lookup_insert_of_ne _ hk]
    exact h key'

theorem Shows.remove (h : Shows now m st) : Shows now (m.remove key) (st.erase key) := by
  intro key'
  by_cases hk : key' = key
  · subst hk
    rw [Finmap.lookup_erase]
    unfold TimedMap.read TimedMap.remove
    rw [Finmap.lookup_erase, ite_self]
  · rw [read_congr (entry_remove_of_ne hk), Finmap.lookup_erase_ne hk]
    exact h key'

theorem Shows.extendTtl (h : Shows now m st) :
    Shows now (m.extendTtl now key threshold extendTo) st := by
  intro key'
  rw [read_extendTtl]
  exact h key'

end Shows

end VestingDripStream.Lib.Expiring
