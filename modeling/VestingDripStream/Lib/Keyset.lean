import Mathlib.Tactic

/-! # Reading a sorted list by the keys of its rows

A list is sorted by the keys of its rows, the largest first. A reader gets `n` rows, and goes on
below the cursor of the last of them: a key that the cursor is made of, and that may be smaller than
that of the row, or none if the cursor is not taken back. `walk` is what the reader collects. It has
no row twice (`walk_sublist`), and it has all of them exactly if at the end of each page the next
row is below the cursor (`walk_eq_self_iff`). `collect` is a reader that is served items and opaque
cursors, and `collect_eq_walk` says when it is that reader. -/

namespace VestingDripStream.Lib.Keyset

variable {ρ K : Type*} [LinearOrder K] (key : ρ → K) (cut : ρ → Option K) (n : ℕ)

/-- The rows are sorted, and no two have one key. -/
def Descending (l : List ρ) : Prop := l.Pairwise fun r r' => key r' < key r

/-- The rows below a key. -/
def below (a : K) (l : List ρ) : List ρ := l.filter fun r => key r < a

/-- What a reader collects, unless it runs out of fuel or a cursor is not taken. -/
def walk : ℕ → List ρ → Option (List ρ)
  | 0, _ => none
  | fuel + 1, rest =>
    if rest.length ≤ n then some rest
    else match (rest.take n).getLast?.bind cut with
      | none => none
      | some a => (walk fuel (below key a rest)).map fun more => rest.take n ++ more

/-- At the end of each page the cursor is taken, and the next row is below it. -/
def Boundaries (l : List ρ) : Prop :=
  ∀ k r r', 0 < k → l[k * n - 1]? = some r → l[k * n]? = some r' → ∃ a ∈ cut r, key r' < a

variable {key cut n} {l : List ρ} {a : K}

theorem Descending.sublist {l' : List ρ} (h : Descending key l) (hsub : l'.Sublist l) :
    Descending key l' := List.Pairwise.sublist hsub h

theorem below_sublist : (below key a l).Sublist l := List.filter_sublist

theorem below_below {b : K} (h : a ≤ b) : below key a (below key b l) = below key a l := by
  unfold below
  rw [List.filter_filter]
  refine List.filter_congr fun r _ => ?_
  by_cases hr : key r < a
  · simp [hr, hr.trans_le h]
  · simp [hr]

/-- The rows below the cursor of a page are not in it. -/
theorem below_append {page rest : List ρ} {last : ρ} (h : Descending key (page ++ rest))
    (hlast : page.getLast? = some last) (ha : a ≤ key last) :
    below key a (page ++ rest) = below key a rest := by
  obtain ⟨init, rfl⟩ := List.getLast?_eq_some_iff.mp hlast
  have hpage : ∀ r ∈ init ++ [last], ¬ key r < a := by
    intro r hr hlt
    rcases List.mem_append.mp hr with hr | hr
    · have hsorted := (List.pairwise_append.mp (List.pairwise_append.mp h).1).2.2
      exact lt_asymm (hlt.trans_le ha) (hsorted r hr last (by simp))
    · rw [List.mem_singleton.mp hr] at hlt
      exact absurd ha (not_le.mpr hlt)
  unfold below
  rw [List.filter_append, List.filter_eq_nil_iff.mpr (by simpa using hpage), List.nil_append]

/-- All rows are below a key exactly if the first one is. -/
theorem below_eq_self_iff {r : ρ} (h : Descending key (r :: l)) :
    below key a (r :: l) = r :: l ↔ key r < a := by
  unfold below
  rw [List.filter_eq_self]
  constructor
  · intro hall
    simpa using hall r (by simp)
  · intro hr r' hr'
    rcases List.mem_cons.mp hr' with rfl | hr'
    · simpa using hr
    · simpa using ((List.pairwise_cons.mp h).1 r' hr').trans hr

/-- One page with a rest after it. -/
theorem exists_page {rest : List ρ} (hn : 0 < n) (hlen : ¬ rest.length ≤ n) :
    ∃ last next tail, (rest.take n).getLast? = some last ∧ rest[n - 1]? = some last ∧
      rest.drop n = next :: tail ∧ rest[n]? = some next := by
  have hlast : n - 1 < rest.length := by omega
  have hnext : n < rest.length := by omega
  refine ⟨rest[n - 1], rest[n], rest.drop (n + 1), ?_, List.getElem?_eq_getElem hlast,
    List.drop_eq_getElem_cons hnext, List.getElem?_eq_getElem hnext⟩
  rw [List.getLast?_eq_getElem?, List.length_take, Nat.min_eq_left (by omega),
    List.getElem?_take_of_lt (by omega), List.getElem?_eq_getElem hlast]

/-- **No row twice.** -/
theorem walk_sublist (hcut : ∀ r, ∀ a ∈ cut r, a ≤ key r) (hn : 0 < n) :
    ∀ {fuel : ℕ} {rest l : List ρ}, Descending key rest → walk key cut n fuel rest = some l →
      l.Sublist rest
  | 0, _, _, _, h => nomatch h
  | fuel + 1, rest, l, hdesc, h => by
    unfold walk at h
    split_ifs at h with hlen
    · cases h
      exact List.Sublist.refl _
    · obtain ⟨last, next, tail, hlast, -, -, -⟩ := exists_page hn hlen
      rw [hlast, Option.bind_some] at h
      cases ha : cut last with
      | none => rw [ha] at h; cases h
      | some a =>
        rw [ha] at h
        obtain ⟨more, hmore, rfl⟩ := Option.map_eq_some_iff.mp h
        have hsub := walk_sublist hcut hn (hdesc.sublist below_sublist) hmore
        rw [← List.take_append_drop n rest] at hdesc hsub
        rw [below_append hdesc hlast (hcut last a ha)] at hsub
        have happend := (List.Sublist.refl (rest.take n)).append (hsub.trans below_sublist)
        rwa [List.take_append_drop] at happend

theorem boundaries_of_le {rest : List ρ} (hlen : rest.length ≤ n) :
    Boundaries key cut n rest := by
  intro k r r' hk _ hr'
  have hlt := (List.getElem?_eq_some_iff.mp hr').1
  have hle := Nat.le_mul_of_pos_left n hk
  omega

/-- The boundaries of a list: the first one, and those of the rest. -/
theorem boundaries_iff {rest : List ρ} {last next : ρ} (hn : 0 < n)
    (hlast : rest[n - 1]? = some last) (hnext : rest[n]? = some next) :
    Boundaries key cut n rest ↔
      (∃ a ∈ cut last, key next < a) ∧ Boundaries key cut n (rest.drop n) := by
  have hshift : ∀ k, 0 < k → n + (k * n - 1) = (k + 1) * n - 1 ∧ n + k * n = (k + 1) * n := by
    intro k hk
    have hle := Nat.le_mul_of_pos_left n hk
    rw [Nat.succ_mul]
    omega
  constructor
  · intro h
    refine ⟨h 1 last next Nat.one_pos (by simpa using hlast) (by simpa using hnext), ?_⟩
    intro k r r' hk hr hr'
    rw [List.getElem?_drop, (hshift k hk).1] at hr
    rw [List.getElem?_drop, (hshift k hk).2] at hr'
    exact h (k + 1) r r' (Nat.succ_pos k) hr hr'
  · rintro ⟨hfirst, htail⟩ k r r' hk hr hr'
    obtain rfl | ⟨j, hj, rfl⟩ : k = 1 ∨ ∃ j, 0 < j ∧ k = j + 1 := by
      rcases k with _ | _ | j
      · exact absurd hk (by omega)
      · exact Or.inl rfl
      · exact Or.inr ⟨j + 1, by omega, rfl⟩
    · rw [Nat.one_mul] at hr hr'
      rw [hlast] at hr
      rw [hnext] at hr'
      cases hr
      cases hr'
      exact hfirst
    · refine htail j r r' hj ?_ ?_
      · rw [List.getElem?_drop, (hshift j hj).1]
        exact hr
      · rw [List.getElem?_drop, (hshift j hj).2]
        exact hr'

/-- **All rows.** The reader collects the whole list exactly if at the end of each page the cursor
is taken and the next row is below it. -/
theorem walk_eq_self_iff (hcut : ∀ r, ∀ a ∈ cut r, a ≤ key r) (hn : 0 < n) :
    ∀ {fuel : ℕ} {rest : List ρ}, rest.length < fuel → Descending key rest →
      (walk key cut n fuel rest = some rest ↔ Boundaries key cut n rest)
  | 0, _, h, _ => absurd h (Nat.not_lt_zero _)
  | fuel + 1, rest, hfuel, hdesc => by
    unfold walk
    split_ifs with hlen
    · exact iff_of_true rfl (boundaries_of_le hlen)
    obtain ⟨last, next, tail, htake, hlast, hdrop, hnext⟩ := exists_page hn hlen
    have hdropDesc : Descending key (rest.drop n) := hdesc.sublist (List.drop_sublist n rest)
    rw [htake, Option.bind_some, boundaries_iff hn hlast hnext]
    cases ha : cut last with
    | none => simp
    | some a =>
      have hbelow : below key a rest = below key a (rest.drop n) := by
        rw [← List.take_append_drop n rest] at hdesc
        have happend := below_append hdesc htake (hcut last a ha)
        rwa [List.take_append_drop] at happend
      have hwalk : (walk key cut n fuel (below key a rest)).map (rest.take n ++ ·) = some rest ↔
          walk key cut n fuel (below key a (rest.drop n)) = some (rest.drop n) := by
        rw [hbelow, Option.map_eq_some_iff]
        constructor
        · rintro ⟨more, hmore, heq⟩
          rw [hmore, List.append_cancel_left (heq.trans (List.take_append_drop n rest).symm)]
        · exact fun h => ⟨rest.drop n, h, List.take_append_drop n rest⟩
      have hfirst : (∃ b ∈ some a, key next < b) ↔ below key a (rest.drop n) = rest.drop n := by
        rw [hdrop] at hdropDesc ⊢
        rw [below_eq_self_iff hdropDesc]
        simp
      rw [hwalk, hfirst]
      constructor
      · intro h
        -- what is collected of the rest is all of it, so that all of it is below the cursor
        have hsub := walk_sublist hcut hn (hdropDesc.sublist below_sublist) h
        have heq := below_sublist.antisymm hsub
        rw [heq] at h
        exact ⟨heq, (walk_eq_self_iff hcut hn (by simp; omega) hdropDesc).mp h⟩
      · rintro ⟨heq, hrest⟩
        rw [heq]
        exact (walk_eq_self_iff hcut hn (by simp; omega) hdropDesc).mpr hrest

/-- If every cursor is taken the reader gets to the end. -/
theorem walk_isSome (htaken : ∀ r, (cut r).isSome) (hcut : ∀ r, ∀ a ∈ cut r, a ≤ key r)
    (hn : 0 < n) : ∀ {fuel : ℕ} {rest : List ρ}, rest.length < fuel → Descending key rest →
      (walk key cut n fuel rest).isSome
  | 0, _, h, _ => absurd h (Nat.not_lt_zero _)
  | fuel + 1, rest, hfuel, hdesc => by
    unfold walk
    split_ifs with hlen
    · rfl
    obtain ⟨last, next, tail, htake, -, -, -⟩ := exists_page hn hlen
    obtain ⟨a, ha⟩ := Option.isSome_iff_exists.mp (htaken last)
    rw [htake, Option.bind_some, ha]
    have hdesc' := hdesc
    rw [← List.take_append_drop n rest] at hdesc'
    have hbelow := below_append hdesc' htake (hcut last a ha)
    rw [List.take_append_drop] at hbelow
    have hlength : (below key a (rest.drop n)).length ≤ (rest.drop n).length :=
      below_sublist.length_le
    rw [List.length_drop] at hlength
    have hmore : (walk key cut n fuel (below key a rest)).isSome :=
      walk_isSome htaken hcut hn (by rw [hbelow]; omega) (hdesc.sublist below_sublist)
    simpa using hmore

/-! ### Readers of a server -/

section Server

variable {C β : Type*}

/-- What a reader collects that starts without a cursor or with one: it is served items and the next
cursor, or refused. -/
def collect (serve : Option C → Option (List β × Option C)) : ℕ → Option C → Option (List β)
  | 0, _ => none
  | fuel + 1, c =>
    match serve c with
    | none => none
    | some (items, none) => some items
    | some (items, some next) => (collect serve fuel (some next)).map fun more => items ++ more

variable {serve : Option C → Option (List β × Option C)} {shown : List ρ → List β}
  {Left : Option C → List ρ → Prop}

/-- **A reader of a server** collects what is shown of the rows that `walk` collects, if the server
shows the first of the rows that are left, and leaves those below the cursor of the last one. -/
theorem collect_eq_walk (hn : 0 < n) (hshown : ∀ l l', shown (l ++ l') = shown l ++ shown l')
    (hlast : ∀ c rest, Left c rest → rest.length ≤ n → serve c = some (shown rest, none))
    (hpage : ∀ c rest last, Left c rest → n < rest.length → (rest.take n).getLast? = some last →
      ∃ next, serve c = some (shown (rest.take n), some next) ∧
        (cut last = none → serve (some next) = none) ∧
        ∀ a ∈ cut last, Left (some next) (below key a rest)) :
    ∀ {fuel : ℕ} {c : Option C} {rest : List ρ}, Left c rest →
      collect serve fuel c = (walk key cut n fuel rest).map shown
  | 0, _, _, _ => rfl
  | fuel + 1, c, rest, hleft => by
    unfold collect walk
    split_ifs with hlen
    · rw [hlast c rest hleft hlen]
      rfl
    obtain ⟨last, -, -, htake, -, -, -⟩ := exists_page hn hlen
    obtain ⟨next, hserve, hrefused, hnext⟩ := hpage c rest last hleft (by omega) htake
    rw [hserve, htake, Option.bind_some]
    cases ha : cut last with
    | none =>
      have hnone : collect serve fuel (some next) = none := by
        cases fuel with
        | zero => rfl
        | succ fuel =>
          unfold collect
          rw [hrefused ha]
      simp [hnone]
    | some a =>
      have ih : collect serve fuel (some next) =
          (walk key cut n fuel (below key a rest)).map shown :=
        collect_eq_walk hn hshown hlast hpage (hnext a ha)
      simp only [ih, Option.map_map]
      congr 1
      funext more
      exact (hshown _ _).symm

end Server

end VestingDripStream.Lib.Keyset
