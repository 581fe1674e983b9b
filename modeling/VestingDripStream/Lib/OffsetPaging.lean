import VestingDripStream.Lib.Chunks

/-! # Reading a sorted list by offsets

Rows are read in batches of `n`, each of which is cut out of the list anew, by its offset. The list
is sorted by a key, and whoever sorts it may order the rows of one key as it likes, each time in
another way. The batches have every row once, whatever the orders are, exactly if no rows of one key
are on both sides of an offset (`batches_perm`, `exists_orders`). -/

namespace VestingDripStream.Lib.OffsetPaging

open VestingDripStream.Lib.Chunks

variable {ρ K : Type*} [LinearOrder K] (key : ρ → K)

/-- An order of the rows, the largest key first. -/
structure Ordered (rows order : List ρ) : Prop where
  perm : order.Perm rows
  sorted : order.Pairwise fun r r' => key r' ≤ key r

/-- Rows with the key `a` stand on both sides of the place `b`. -/
def Straddles (rows : List ρ) (b : ℕ) (a : K) : Prop :=
  rows.countP (fun r => a < key r) < b ∧ b < rows.countP (fun r => a ≤ key r)

/-- The first `m + 1` batches, each of an order of its own. -/
def batches (n : ℕ) (orders : ℕ → List ρ) (m : ℕ) : List ρ :=
  (List.range (m + 1)).flatMap fun k => chunk n k (orders k)

variable {key} {rows order order' : List ρ} {n b k : ℕ} {a : K}

/-- What holds of the rows with large keys holds of the first ones. -/
theorem filter_append_of_sorted (hsorted : order.Pairwise fun r r' => key r' ≤ key r)
    {p : ρ → Bool} (hp : ∀ r r', key r' ≤ key r → p r' = true → p r = true) :
    order.filter p ++ order.filter (fun r => ! p r) = order := by
  induction order with
  | nil => rfl
  | cons r order ih =>
    obtain ⟨hfirst, hrest⟩ := List.pairwise_cons.mp hsorted
    by_cases hr : p r = true
    · rw [List.filter_cons_of_pos hr, List.filter_cons_of_neg (by simp [hr]), List.cons_append,
        ih hrest]
    · have hnone : order.filter p = [] :=
        List.filter_eq_nil_iff.mpr fun r' hr' hpr' => hr (hp r r' (hfirst r' hr') hpr')
      have hall := ih hrest
      rw [hnone, List.nil_append] at hall
      rw [List.filter_cons_of_neg hr, List.filter_cons_of_pos (by simp [hr]), hnone,
        List.nil_append, hall]

theorem take_countP (hsorted : order.Pairwise fun r r' => key r' ≤ key r) {p : ρ → Bool}
    (hp : ∀ r r', key r' ≤ key r → p r' = true → p r = true) :
    order.take (order.countP p) = order.filter p := by
  conv_lhs => rw [← filter_append_of_sorted hsorted hp, List.countP_append]
  have hcount : (order.filter p).countP p + (order.filter fun r => ! p r).countP p =
      (order.filter p).length := by
    have hnone : (order.filter fun r => ! p r).countP p = 0 := by
      rw [List.countP_eq_zero]
      intro r hr
      simpa using (List.mem_filter.mp hr).2
    rw [hnone, Nat.add_zero, List.countP_filter, List.countP_eq_length_filter]
    congr 1
    exact List.filter_congr fun r _ => Bool.and_self _
  rw [hcount]
  exact List.take_left' rfl

theorem large_of_le {r r' : ρ} (h : key r' ≤ key r) (hr' : decide (a ≤ key r') = true) :
    decide (a ≤ key r) = true := decide_eq_true ((of_decide_eq_true hr').trans h)

theorem larger_of_le {r r' : ρ} (h : key r' ≤ key r) (hr' : decide (a < key r') = true) :
    decide (a < key r) = true := decide_eq_true ((of_decide_eq_true hr').trans_le h)

/-- The keys of the first rows. -/
theorem le_key_of_lt (hsorted : order.Pairwise fun r r' => key r' ≤ key r) {i : ℕ}
    (hi : i < order.length) (hlt : i < order.countP fun r => a ≤ key r) : a ≤ key order[i] := by
  have hmem : order[i] ∈ order.take (order.countP fun r => a ≤ key r) :=
    List.mem_take_iff_getElem.mpr ⟨i, by omega, rfl⟩
  rw [take_countP hsorted fun _ _ => large_of_le] at hmem
  exact of_decide_eq_true (List.mem_filter.mp hmem).2

theorem key_le_of_le (hsorted : order.Pairwise fun r r' => key r' ≤ key r) {i : ℕ}
    (hi : i < order.length) (hle : order.countP (fun r => a < key r) ≤ i) : key order[i] ≤ a := by
  by_contra hlt
  -- the rows up to this one all have larger keys
  have hall : ∀ r ∈ order.take (i + 1), decide (a < key r) = true := by
    intro r hr
    obtain ⟨j, hj, rfl⟩ := List.mem_take_iff_getElem.mp hr
    refine decide_eq_true ((not_le.mp hlt).trans_le ?_)
    rcases Nat.lt_or_ge j i with hji | hij
    · exact List.pairwise_iff_getElem.mp hsorted j i _ hi hji
    · have hsame : j = i := by omega
      subst hsame
      exact le_rfl
  have hcount := List.countP_eq_length.mpr hall
  have hsub := (List.take_sublist (i + 1) order).countP_le (p := fun r => decide (a < key r))
  rw [hcount, List.length_take] at hsub
  omega

/-- **The same rows come first** in all orders, if no key is on both sides. -/
theorem take_perm (h : ∀ a, ¬ Straddles key rows b a) (ho : Ordered key rows order)
    (ho' : Ordered key rows order') : (order.take b).Perm (order'.take b) := by
  have hlen := ho.perm.length_eq
  have hlen' := ho'.perm.length_eq
  by_cases hb : b = 0
  · rw [hb]
    exact List.Perm.refl _
  by_cases hall : rows.length ≤ b
  · rw [List.take_of_length_le (by omega), List.take_of_length_le (by omega)]
    exact ho.perm.trans ho'.perm.symm
  · -- the key of the last row in front of the place
    have hlast : b - 1 < order.length := by omega
    have hmore : b ≤ order.countP fun r => key order[b - 1] ≤ key r := by
      have hfirst : ∀ r ∈ order.take b, decide (key order[b - 1] ≤ key r) = true := by
        intro r hr
        obtain ⟨j, hj, rfl⟩ := List.mem_take_iff_getElem.mp hr
        refine decide_eq_true ?_
        rcases Nat.lt_or_ge j (b - 1) with hjb | hbj
        · exact List.pairwise_iff_getElem.mp ho.sorted j (b - 1) _ hlast hjb
        · have hsame : j = b - 1 := by omega
          subst hsame
          exact le_rfl
      have hcount := List.countP_eq_length.mpr hfirst
      have hsub := (List.take_sublist b order).countP_le
        (p := fun r => decide (key order[b - 1] ≤ key r))
      rw [hcount, List.length_take] at hsub
      omega
    have hless : order.countP (fun r => key order[b - 1] < key r) < b := by
      by_contra hge
      have hlt : b - 1 < order.countP fun r => key order[b - 1] < key r := by omega
      have hmem : order[b - 1] ∈ order.take (order.countP fun r => key order[b - 1] < key r) :=
        List.mem_take_iff_getElem.mpr ⟨b - 1, by omega, rfl⟩
      rw [take_countP ho.sorted fun _ _ => larger_of_le] at hmem
      exact lt_irrefl _ (of_decide_eq_true (List.mem_filter.mp hmem).2)
    have hcount : rows.countP (fun r => key order[b - 1] ≤ key r) = b := by
      have hnot := h (key order[b - 1])
      unfold Straddles at hnot
      rw [← ho.perm.countP_eq, ← ho.perm.countP_eq] at hnot
      rw [← ho.perm.countP_eq]
      omega
    have htake : ∀ {o}, Ordered key rows o →
        o.take b = o.filter fun r => key order[b - 1] ≤ key r := by
      intro o hordered
      rw [← take_countP hordered.sorted fun _ _ => large_of_le, hordered.perm.countP_eq, hcount]
    rw [htake ho, htake ho']
    exact (ho.perm.trans ho'.perm.symm).filter _

/-- **The batches** have every row once, if no key is on both sides of an offset. -/
theorem batches_perm (h : ∀ k a, ¬ Straddles key rows (k * n) a) {orders : ℕ → List ρ}
    (ho : ∀ k, Ordered key rows (orders k)) (m : ℕ) :
    (batches n orders m).Perm ((orders m).take ((m + 1) * n)) := by
  induction m with
  | zero =>
    unfold batches
    rw [Nat.zero_add, Nat.one_mul, ← chunk_zero]
    simp
  | succ m ih =>
    have hsplit : batches n orders (m + 1) =
        batches n orders m ++ chunk n (m + 1) (orders (m + 1)) := by
      unfold batches
      rw [List.range_succ, List.flatMap_append]
      simp
    have hnext := ih.trans (take_perm (h (m + 1)) (ho m) (ho (m + 1)))
    rw [hsplit, Nat.succ_mul (m + 1), List.take_add]
    exact hnext.append_right _

theorem exists_ordered (key : ρ → K) (rows : List ρ) : ∃ order, Ordered key rows order := by
  have hsorted : (rows.mergeSort fun r r' => decide (key r' ≤ key r)).Pairwise
      fun r r' => decide (key r' ≤ key r) = true := by
    refine List.pairwise_mergeSort (fun r r' r'' h h' => ?_) (fun r r' => ?_) rows
    · exact decide_eq_true ((of_decide_eq_true h').trans (of_decide_eq_true h))
    · rw [Bool.or_eq_true, decide_eq_true_iff, decide_eq_true_iff]
      exact le_total (key r') (key r)
  exact ⟨_, List.mergeSort_perm _ _, hsorted.imp fun h => of_decide_eq_true h⟩

/-- Neighbours of one key change places. -/
theorem Ordered.swap {l l' : List ρ} {r r' : ρ} (h : Ordered key rows (l ++ r :: r' :: l'))
    (hkey : key r = key r') : Ordered key rows (l ++ r' :: r :: l') where
  perm := ((List.Perm.swap r r' l').append_left l).trans h.perm
  sorted := by
    have hkeys : (l ++ r' :: r :: l').map key = (l ++ r :: r' :: l').map key := by
      simp only [List.map_append, List.map_cons, hkey]
    have hsorted : ((l ++ r :: r' :: l').map key).Pairwise fun a b => b ≤ a :=
      List.pairwise_map.mpr h.sorted
    rw [← hkeys] at hsorted
    exact List.pairwise_map.mp hsorted

/-- Batches that have a row in common. -/
theorem not_nodup_batches {orders : ℕ → List ρ} {m k k' : ℕ} (hk : k < k') (hk' : k' ≤ m) {r : ρ}
    (hr : r ∈ chunk n k (orders k)) (hr' : r ∈ chunk n k' (orders k')) :
    ¬ (batches n orders m).Nodup := by
  intro hnodup
  have hdisjoint := (List.nodup_flatMap.mp hnodup).2
  have hpair := List.pairwise_iff_getElem.mp hdisjoint k k' (by simp; omega) (by simp; omega) hk
  simp only [List.getElem_range, Function.onFun] at hpair
  exact hpair hr hr'

/-- Rows of one key on both sides of a place: one of them is in front of it in one order, and behind
it in another. -/
theorem exists_swap (h : Straddles key rows b a) : 0 < b ∧ b < rows.length ∧ ∃ o o' : List ρ,
    Ordered key rows o ∧ Ordered key rows o' ∧ ∃ r, o[b - 1]? = some r ∧ o'[b]? = some r := by
  obtain ⟨hbefore, hbehind⟩ := h
  have hle : rows.countP (fun r => a ≤ key r) ≤ rows.length := List.countP_le_length
  obtain ⟨o, ho⟩ := exists_ordered key rows
  have hlen := ho.perm.length_eq
  rw [← ho.perm.countP_eq] at hbefore hbehind hle
  have hx : b - 1 < o.length := by omega
  have hy : b < o.length := by omega
  have hkeyx : key o[b - 1] = a :=
    le_antisymm (key_le_of_le ho.sorted hx (by omega)) (le_key_of_lt ho.sorted hx (by omega))
  have hkeyy : key o[b] = a :=
    le_antisymm (key_le_of_le ho.sorted hy (by omega)) (le_key_of_lt ho.sorted hy (by omega))
  have hsplit : o = o.take (b - 1) ++ o[b - 1] :: o[b] :: o.drop (b + 1) := by
    have hnext : o.drop (b - 1 + 1) = o[b] :: o.drop (b + 1) := by
      rw [Nat.sub_add_cancel (by omega)]
      exact List.drop_eq_getElem_cons hy
    rw [← hnext, ← List.drop_eq_getElem_cons hx, List.take_append_drop]
  have ho' : Ordered key rows (o.take (b - 1) ++ o[b] :: o[b - 1] :: o.drop (b + 1)) := by
    refine Ordered.swap ?_ (hkeyx.trans hkeyy.symm)
    rwa [← hsplit]
  refine ⟨by omega, by omega, o, _, ho, ho', o[b - 1], List.getElem?_eq_getElem hx, ?_⟩
  have htake : (o.take (b - 1)).length = b - 1 := by
    rw [List.length_take]
    omega
  rw [List.getElem?_append_right (by omega), htake, Nat.sub_sub_self (by omega)]
  rfl

/-- Rows of one key on both sides of an offset may be ordered so that one of them is read twice. -/
theorem exists_orders (hn : 0 < n) (h : Straddles key rows (k * n) a) :
    ∃ orders : ℕ → List ρ, (∀ i, Ordered key rows (orders i)) ∧
      ∀ m, rows.length < (m + 1) * n → ¬ (batches n orders m).Nodup := by
  obtain ⟨hpos, hlen, o, o', ho, ho', r, hr, hr'⟩ := exists_swap h
  have hkpos : 0 < k := Nat.pos_of_mul_pos_right hpos
  have hpred : (k * n - 1) / n = k - 1 := by
    have hmul : (k - 1) * n + n = k * n := by
      rw [← Nat.succ_mul, Nat.succ_eq_add_one, Nat.sub_add_cancel hkpos]
    rw [← hmul, Nat.add_sub_assoc hn, Nat.mul_comm, Nat.mul_add_div hn,
      Nat.div_eq_of_lt (by omega), Nat.add_zero]
  -- from the batch `k` on the rows around its offset have changed places
  refine ⟨fun i => if i < k then o else o', fun i => ?_, fun m hm => ?_⟩
  · dsimp only
    split_ifs
    · exact ho
    · exact ho'
  · have hkm : k < m + 1 := Nat.lt_of_mul_lt_mul_right (hlen.trans hm)
    have hread : r ∈ chunk n (k - 1) o := (mem_chunk_iff hn).mpr ⟨k * n - 1, hr, hpred⟩
    have hagain : r ∈ chunk n k o' :=
      (mem_chunk_iff hn).mpr ⟨k * n, hr', Nat.mul_div_cancel k hn⟩
    refine not_nodup_batches (r := r) (show k - 1 < k by omega) (show k ≤ m by omega) ?_ ?_
    · rw [if_pos (show k - 1 < k by omega)]
      exact hread
    · rw [if_neg (Nat.lt_irrefl k)]
      exact hagain

end VestingDripStream.Lib.OffsetPaging
