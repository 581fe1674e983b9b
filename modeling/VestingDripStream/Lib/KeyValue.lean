import Mathlib.Data.Finmap
import Mathlib.Tactic

/-! # Totals over a finite map

`sumBy f m` adds up `f k v` over the entries of a finite map. Writing a key replaces its share of
the total, removing a key takes it out (`sumBy_insert`, `sumBy_erase`); both are stated against the
map without the key, so that a change of one entry never meets the others. A total over some keys
only depends on what is stored under them (`sumBy_congr`). -/

namespace VestingDripStream.Lib.KeyValue

variable {K : Type*} {V : K → Type*} {M : Type*} [AddCommMonoid M]

/-- The sum of `f` over the entries of `m`. -/
def sumBy (f : (k : K) → V k → M) (m : Finmap V) : M :=
  (m.entries.map fun e => f e.1 e.2).sum

theorem sumBy_empty (f : (k : K) → V k → M) : sumBy f (∅ : Finmap V) = 0 := rfl

variable [DecidableEq K]

/-- Writing a key is writing it in the map without it. -/
theorem insert_erase_self (m : Finmap V) (k : K) (v : V k) :
    (m.erase k).insert k v = m.insert k v := by
  refine Finmap.ext_lookup fun k' => ?_
  by_cases h : k' = k
  · subst h; rw [Finmap.lookup_insert, Finmap.lookup_insert]
  · rw [Finmap.lookup_insert_of_ne _ h, Finmap.lookup_insert_of_ne _ h, Finmap.lookup_erase_ne h]

/-- A map is its entry at `k` written over the rest. -/
theorem insert_erase_of_lookup {m : Finmap V} {k : K} {v : V k} (h : m.lookup k = some v) :
    (m.erase k).insert k v = m := by
  refine Finmap.ext_lookup fun k' => ?_
  by_cases hk : k' = k
  · subst hk; rw [Finmap.lookup_insert, h]
  · rw [Finmap.lookup_insert_of_ne _ hk, Finmap.lookup_erase_ne hk]

theorem erase_of_lookup_none {m : Finmap V} {k : K} (h : m.lookup k = none) : m.erase k = m := by
  refine Finmap.ext_lookup fun k' => ?_
  by_cases hk : k' = k
  · subst hk; rw [Finmap.lookup_erase, h]
  · rw [Finmap.lookup_erase_ne hk]

/-- **Writing a key** replaces its share of the total. -/
theorem sumBy_insert (f : (k : K) → V k → M) (m : Finmap V) (k : K) (v : V k) :
    sumBy f (m.insert k v) = f k v + sumBy f (m.erase k) := by
  rw [← insert_erase_self m k v]
  unfold sumBy
  rw [Finmap.entries_insert_of_notMem Finmap.notMem_erase_self, Multiset.map_cons,
    Multiset.sum_cons]

/-- **Removing a key** takes its share out of the total. -/
theorem sumBy_erase (f : (k : K) → V k → M) {m : Finmap V} {k : K} {v : V k}
    (h : m.lookup k = some v) : sumBy f m = f k v + sumBy f (m.erase k) := by
  conv_lhs => rw [← insert_erase_of_lookup h]
  rw [sumBy_insert, erase_of_lookup_none (Finmap.lookup_erase k m)]

/-- A key that `f` does not count does not matter to the total. -/
theorem sumBy_erase_of_zero (f : (k : K) → V k → M) (m : Finmap V) (k : K)
    (hf : ∀ v, f k v = 0) : sumBy f (m.erase k) = sumBy f m := by
  cases h : m.lookup k with
  | none => rw [erase_of_lookup_none h]
  | some v => rw [sumBy_erase f h, hf, zero_add]

theorem sumBy_insert_of_zero (f : (k : K) → V k → M) (m : Finmap V) (k : K) (v : V k)
    (hf : ∀ v, f k v = 0) : sumBy f (m.insert k v) = sumBy f m := by
  rw [sumBy_insert, hf, zero_add, sumBy_erase_of_zero f m k hf]

section Congr

variable {f : (k : K) → V k → M} {S : Set K}

open Classical in
omit [DecidableEq K] in
/-- Only the entries that `f` counts make up the total. -/
theorem sumBy_eq_filter (hf : ∀ k ∉ S, ∀ v, f k v = 0) (m : Finmap V) :
    sumBy f m = ((m.entries.filter fun e => e.1 ∈ S).map fun e => f e.1 e.2).sum := by
  have hrest : ((m.entries.filter fun e => e.1 ∉ S).map fun e => f e.1 e.2).sum = 0 := by
    refine Multiset.sum_eq_zero fun x hx => ?_
    obtain ⟨e, he, rfl⟩ := Multiset.mem_map.mp hx
    exact hf e.1 (Multiset.mem_filter.mp he).2 e.2
  unfold sumBy
  conv_lhs => rw [← Multiset.filter_add_not (fun e => e.1 ∈ S) m.entries]
  rw [Multiset.map_add, Multiset.sum_add, hrest, add_zero]

open Classical in
/-- **A total over the keys of `S`** only depends on what is stored under them. -/
theorem sumBy_congr (hf : ∀ k ∉ S, ∀ v, f k v = 0) {m m' : Finmap V}
    (h : ∀ k ∈ S, m.lookup k = m'.lookup k) : sumBy f m = sumBy f m' := by
  have hentries : (m.entries.filter fun e => e.1 ∈ S) = m'.entries.filter fun e => e.1 ∈ S := by
    refine (Multiset.Nodup.ext (m.nodup_entries.filter _) (m'.nodup_entries.filter _)).mpr ?_
    rintro ⟨k, v⟩
    simp only [Multiset.mem_filter, ← Finmap.lookup_eq_some_iff]
    refine and_congr_left fun hk => ?_
    rw [h k hk]
  rw [sumBy_eq_filter hf, sumBy_eq_filter hf, hentries]

end Congr

/-- A total of shares that are nonnegative. -/
theorem sumBy_nonneg [PartialOrder M] [IsOrderedAddMonoid M] {f : (k : K) → V k → M}
    {m : Finmap V} (h : ∀ k v, m.lookup k = some v → 0 ≤ f k v) : 0 ≤ sumBy f m := by
  refine Multiset.sum_nonneg fun x hx => ?_
  obtain ⟨⟨k, v⟩, he, rfl⟩ := Multiset.mem_map.mp hx
  exact h k v (Finmap.lookup_eq_some_iff.mpr he)

end VestingDripStream.Lib.KeyValue
