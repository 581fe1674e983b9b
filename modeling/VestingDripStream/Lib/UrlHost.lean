import VestingDripStream.Lib.Numerals

/-! # Hosts of URLs

The host of a URL as a URL parser writes it: an IPv4 address in four decimal numbers, an IPv6
address in brackets with its longest run of zeros left out, or a domain in lower case that is not
taken for a number. Addresses are in blocks by their leading bits (`InBlock`). -/

namespace VestingDripStream.Lib.UrlHost

open VestingDripStream.Lib.Numerals

/-- A block of addresses: the first of them, and the number of bits they have in common. -/
structure Block where
  base : ℕ
  bits : ℕ

/-- An address of `width` bits is in the block. -/
def InBlock (width address : ℕ) (block : Block) : Prop :=
  address / 2 ^ (width - block.bits) = block.base / 2 ^ (width - block.bits)

instance (width address : ℕ) (block : Block) : Decidable (InBlock width address block) :=
  inferInstanceAs (Decidable (_ = _))

/-! ### Addresses -/

/-- Four bytes, the first one the most significant. -/
structure Ipv4 where
  a : UInt8
  b : UInt8
  c : UInt8
  d : UInt8

/-- The address as a number of 32 bits. -/
def Ipv4.toNat (ip : Ipv4) : ℕ :=
  ((ip.a.toNat * 2 ^ 8 + ip.b.toNat) * 2 ^ 8 + ip.c.toNat) * 2 ^ 8 + ip.d.toNat

/-- Eight groups of sixteen bits. -/
structure Ipv6 where
  groups : List UInt16
  length_eq : groups.length = 8

/-- The address as a number of 128 bits. -/
def Ipv6.toNat (ip : Ipv6) : ℕ := ip.groups.foldl (fun n g => n * 2 ^ 16 + g.toNat) 0

/-- The IPv4 address that an IPv6 address stands for, `::ffff:a.b.c.d`. -/
def Ipv6.mapped (ip : Ipv6) : Option Ipv4 :=
  match ip.groups with
  | [0, 0, 0, 0, 0, 0xffff, high, low] =>
    some ⟨(high / 256).toUInt8, (high % 256).toUInt8, (low / 256).toUInt8, (low % 256).toUInt8⟩
  | _ => none

/-! ### Texts -/

/-- The digits of a number, without leading zeros. -/
def decimal (n : ℕ) : List Char := Nat.toDigits 10 n

/-- The digits of a group, in lower case and without leading zeros. -/
def hex (g : UInt16) : List Char := Nat.toDigits 16 g.toNat

/-- The dotted form. -/
def Ipv4.text (ip : Ipv4) : List Char :=
  decimal ip.a.toNat ++ '.' :: (decimal ip.b.toNat ++ '.' :: (decimal ip.c.toNat ++ '.' ::
    decimal ip.d.toNat))

/-- The number of zeros at the start. -/
def zeros (groups : List UInt16) : ℕ := (groups.takeWhile fun g => g = 0).length

/-- The run at the place `i`, if it is longer. -/
def longer (groups : List UInt16) (best : ℕ × ℕ) (i : ℕ) : ℕ × ℕ :=
  if best.2 < zeros (groups.drop i) then (i, zeros (groups.drop i)) else best

/-- The place and the length of the first of the longest runs of zeros. -/
def longestRun (groups : List UInt16) : ℕ × ℕ :=
  (List.range groups.length).foldl (longer groups) (0, 0)

/-- Groups with colons between them. -/
def joined (groups : List UInt16) : List Char := [':'].intercalate (groups.map hex)

/-- A run of two zeros or more is left out. -/
def Ipv6.text (ip : Ipv6) : List Char :=
  let run := longestRun ip.groups
  if run.2 < 2 then joined ip.groups
  else joined (ip.groups.take run.1) ++ [':', ':'] ++ joined (ip.groups.drop (run.1 + run.2))

/-- A character that is in no domain. -/
def isForbidden (c : Char) : Bool :=
  c.toNat ≤ 32 || 127 ≤ c.toNat || c.isUpper || c ∈ "#/:<>?@[\\]^|%".toList

/-- A text that is taken for an IPv4 address, if anything: its last label is a number. -/
def endsInNumber (name : List Char) : Bool :=
  let labels := name.splitOn '.'
  let labels := if labels.getLast? = some [] then labels.dropLast else labels
  match labels.getLast? with
  | none => false
  | some last =>
    (last ≠ [] && last.all Char.isDigit) ||
      match last with
      | '0' :: 'x' :: rest => rest.all fun c => c.isDigit || ('a' ≤ c && c ≤ 'f')
      | _ => false

/-- A domain as the parser writes it. -/
structure Domain where
  name : List Char
  ne_nil : name ≠ []
  allowed : ∀ c ∈ name, isForbidden c = false
  notNumber : endsInNumber name = false

/-- The hosts of a URL with a special scheme. -/
inductive Host
  | ipv4 (ip : Ipv4)
  | ipv6 (ip : Ipv6)
  | domain (d : Domain)

/-- The serialized host: an IPv6 address stands in brackets. -/
def Host.text : Host → List Char
  | .ipv4 ip => ip.text
  | .ipv6 ip => '[' :: (ip.text ++ [']'])
  | .domain d => d.name

example : Ipv6.text ⟨[0x2001, 0xdb8, 0, 0, 1, 0, 0, 1], rfl⟩ = "2001:db8::1:0:0:1".toList := by
  decide

/-! ### Separators -/

section Separators

variable {α : Type*} {s : α} {w x y t : List α}

/-- A word without the separator is found in front of it. -/
theorem prefix_append_cons_iff (h : s ∉ w) : w <+: x ++ s :: t ↔ w <+: x := by
  induction w generalizing x with
  | nil => exact iff_of_true List.nil_prefix List.nil_prefix
  | cons c w ih =>
    obtain ⟨hc, hw⟩ := List.ne_and_not_mem_of_not_mem_cons h
    cases x with
    | nil =>
      refine iff_of_false (fun hstart => ?_) (fun hstart => ?_)
      · exact hc (List.cons_prefix_cons.mp hstart).1.symm
      · exact List.cons_ne_nil c w (List.prefix_nil.mp hstart)
    | cons d x =>
      rw [List.cons_append, List.cons_prefix_cons, List.cons_prefix_cons, ih hw]

/-- Up to the first separator the texts are the same. -/
theorem append_cons_prefix_iff (hx : s ∉ x) (hy : s ∉ y) :
    x ++ s :: w <+: y ++ s :: t ↔ x = y ∧ w <+: t := by
  induction x generalizing y with
  | nil =>
    cases y with
    | nil =>
      rw [List.nil_append, List.nil_append, List.cons_prefix_cons]
      exact ⟨fun h => ⟨rfl, h.2⟩, fun h => ⟨rfl, h.2⟩⟩
    | cons d y =>
      refine iff_of_false (fun h => ?_) (fun h => List.cons_ne_nil d y h.1.symm)
      exact hy ((List.cons_prefix_cons.mp h).1 ▸ List.mem_cons_self)
  | cons c x ih =>
    obtain ⟨hc, hx⟩ := List.ne_and_not_mem_of_not_mem_cons hx
    cases y with
    | nil =>
      refine iff_of_false (fun h => ?_) (fun h => List.cons_ne_nil c x h.1)
      exact hc (List.cons_prefix_cons.mp h).1.symm
    | cons d y =>
      rw [List.cons_append, List.cons_append, List.cons_prefix_cons,
        ih hx (List.not_mem_of_not_mem_cons hy), List.cons.injEq, and_assoc]

end Separators

/-! ### The characters of an address -/

theorem isDigit_decimal {n : ℕ} {c : Char} (h : c ∈ decimal n) : c.isDigit = true :=
  Nat.isDigit_of_mem_toDigits (by decide) (by decide) h

theorem dot_not_mem_decimal (n : ℕ) : '.' ∉ decimal n := by
  intro h
  exact absurd (isDigit_decimal h) (by decide)

/-- A digit of a numeral in base sixteen. -/
theorem mem_toDigits_hex {n : ℕ} {c : Char} (h : c ∈ Nat.toDigits 16 n) :
    ∃ d < 16, c = d.digitChar := by
  induction n using Nat.strong_induction_on with
  | _ n ih =>
    by_cases hn : n < 16
    · rw [Nat.toDigits_of_lt_base hn] at h
      exact ⟨n, hn, List.mem_singleton.mp h⟩
    · rw [Nat.toDigits_of_base_le (by decide) (not_lt.mp hn)] at h
      rcases List.mem_append.mp h with h | h
      · exact ih (n / 16) (Nat.div_lt_self (by omega) (by decide)) h
      · exact ⟨n % 16, Nat.mod_lt n (by decide), List.mem_singleton.mp h⟩

/-- What a digit of base sixteen is not. -/
theorem ne_of_mem_hex {g : UInt16} {c : Char} (h : c ∈ hex g) : c ≠ ':' ∧ c ≠ '.' := by
  obtain ⟨d, hd, rfl⟩ := mem_toDigits_hex h
  have hall : ∀ d : Fin 16, d.val.digitChar ≠ ':' ∧ d.val.digitChar ≠ '.' := by decide
  exact hall ⟨d, hd⟩

theorem isUpper_iff_toNat {c : Char} :
    c.isUpper = true ↔ 'A'.toNat ≤ c.toNat ∧ c.toNat ≤ 'Z'.toNat :=
  decide_eq_true_iff.trans (and_congr UInt32.le_iff_toNat_le UInt32.le_iff_toNat_le)

theorem isUpper_eq_false_of_isDigit {c : Char} (h : c.isDigit = true) : c.isUpper = false := by
  rw [Char.isDigit_iff_toNat] at h
  have hupper : ¬ c.isUpper = true := by
    rw [isUpper_iff_toNat]
    have hnine : '9'.toNat < 'A'.toNat := by decide
    omega
  exact Bool.eq_false_iff.mpr hupper

theorem Ipv4.mem_text {ip : Ipv4} {c : Char} (h : c ∈ ip.text) : c = '.' ∨ c.isDigit = true := by
  unfold Ipv4.text at h
  simp only [List.mem_append, List.mem_cons] at h
  rcases h with h | rfl | h | rfl | h | rfl | h
  · exact Or.inr (isDigit_decimal h)
  · exact Or.inl rfl
  · exact Or.inr (isDigit_decimal h)
  · exact Or.inl rfl
  · exact Or.inr (isDigit_decimal h)
  · exact Or.inl rfl
  · exact Or.inr (isDigit_decimal h)

/-- An address has no capital letters. -/
theorem Ipv4.isUpper_text {ip : Ipv4} {c : Char} (h : c ∈ ip.text) : c.isUpper = false := by
  rcases Ipv4.mem_text h with rfl | h
  · rfl
  · exact isUpper_eq_false_of_isDigit h

theorem joined_cons_cons (g g' : UInt16) (groups : List UInt16) :
    joined (g :: g' :: groups) = hex g ++ ':' :: joined (g' :: groups) := by
  unfold joined
  rw [List.map_cons, List.map_cons, List.intercalate_cons_cons, List.append_assoc]
  rfl

theorem joined_singleton (g : UInt16) : joined [g] = hex g := by
  unfold joined
  rw [List.map_singleton, List.intercalate_singleton]

theorem mem_joined {groups : List UInt16} {c : Char} (h : c ∈ joined groups) :
    c = ':' ∨ ∃ g ∈ groups, c ∈ hex g := by
  induction groups with
  | nil => exact absurd h List.not_mem_nil
  | cons g groups ih =>
    cases groups with
    | nil =>
      rw [joined_singleton] at h
      exact Or.inr ⟨g, List.mem_cons_self, h⟩
    | cons g' groups =>
      rw [joined_cons_cons] at h
      rcases List.mem_append.mp h with h | h
      · exact Or.inr ⟨g, List.mem_cons_self, h⟩
      rcases List.mem_cons.mp h with h | h
      · exact Or.inl h
      · rcases ih h with h | ⟨g₁, hg₁, h⟩
        · exact Or.inl h
        · exact Or.inr ⟨g₁, List.mem_cons_of_mem _ hg₁, h⟩

/-- The characters of an IPv6 address. -/
theorem Ipv6.mem_text {ip : Ipv6} {c : Char} (h : c ∈ ip.text) : c = ':' ∨ ∃ g, c ∈ hex g := by
  unfold Ipv6.text at h
  dsimp only at h
  have hgroups : ∀ {groups : List UInt16}, c ∈ joined groups → c = ':' ∨ ∃ g, c ∈ hex g := by
    intro groups hmem
    rcases mem_joined hmem with h | ⟨g, -, h⟩
    · exact Or.inl h
    · exact Or.inr ⟨g, h⟩
  split_ifs at h
  · exact hgroups h
  · rcases List.mem_append.mp h with h | h
    · rcases List.mem_append.mp h with h | h
      · exact hgroups h
      · simp only [List.mem_cons, List.not_mem_nil, or_false, or_self] at h
        exact Or.inl h
    · exact hgroups h

theorem Ipv6.isUpper_text {ip : Ipv6} {c : Char} (h : c ∈ ip.text) : c.isUpper = false := by
  rcases Ipv6.mem_text h with rfl | ⟨g, h⟩
  · rfl
  · obtain ⟨d, hd, rfl⟩ := mem_toDigits_hex h
    have hall : ∀ d : Fin 16, d.val.digitChar.isUpper = false := by decide
    exact hall ⟨d, hd⟩

theorem Ipv6.dot_not_mem_text (ip : Ipv6) : '.' ∉ ip.text := by
  intro h
  rcases Ipv6.mem_text h with h | ⟨g, h⟩
  · exact absurd h (by decide)
  · exact (ne_of_mem_hex h).2 rfl

/-! ### How an IPv6 address begins -/

/-- The run that is left out consists of zeros. -/
theorem longestRun_le (groups : List UInt16) :
    (longestRun groups).2 ≤ zeros (groups.drop (longestRun groups).1) := by
  have hfold : ∀ (l : List ℕ) (best : ℕ × ℕ), best.2 ≤ zeros (groups.drop best.1) →
      (l.foldl (longer groups) best).2 ≤
        zeros (groups.drop (l.foldl (longer groups) best).1) := by
    intro l
    induction l with
    | nil => intro best h; exact h
    | cons i l ih =>
      intro best h
      rw [List.foldl_cons]
      refine ih _ ?_
      unfold longer
      split_ifs
      · exact le_rfl
      · exact h
  exact hfold _ (0, 0) (Nat.zero_le _)

theorem take_of_le_zeros {groups : List UInt16} {n : ℕ} (h : n ≤ zeros groups) :
    groups.take n = List.replicate n 0 := by
  have hstart := List.takeWhile_prefix (p := fun g : UInt16 => decide (g = 0)) (l := groups)
  rw [List.eq_replicate_iff, List.length_take_of_le (h.trans hstart.length_le)]
  refine ⟨rfl, fun g hg => ?_⟩
  obtain ⟨rest, hsplit⟩ := hstart
  have htake : groups.take n = (groups.takeWhile fun g => g = 0).take n := by
    conv_lhs => rw [← hsplit]
    exact List.take_append_of_le_length h
  rw [htake] at hg
  exact of_decide_eq_true (List.all_eq_true.mp List.all_takeWhile g (List.mem_of_mem_take hg))

/-- **The start of an IPv6 address**: two colons for a run of zeros, or the first group. -/
theorem Ipv6.text_start (ip : Ipv6) {g : UInt16} {groups : List UInt16}
    (h : ip.groups = g :: groups) :
    (∃ n, 2 ≤ n ∧ ip.groups.take n = List.replicate n 0 ∧
      ip.text = ':' :: ':' :: joined (ip.groups.drop n)) ∨
    ∃ t, ip.text = hex g ++ ':' :: t := by
  have hle := longestRun_le ip.groups
  unfold Ipv6.text
  dsimp only
  by_cases hshort : (longestRun ip.groups).2 < 2
  · right
    have hlen := ip.length_eq
    rw [h, List.length_cons] at hlen
    obtain ⟨g', rest, hrest⟩ := List.exists_cons_of_length_pos (show 0 < groups.length by omega)
    rw [if_pos hshort, h, hrest, joined_cons_cons]
    exact ⟨_, rfl⟩
  · rw [if_neg hshort]
    cases hplace : (longestRun ip.groups).1 with
    | zero =>
      left
      rw [hplace, List.drop_zero] at hle
      refine ⟨(longestRun ip.groups).2, not_lt.mp hshort, take_of_le_zeros hle, ?_⟩
      rw [List.take_zero, Nat.zero_add]
      rfl
    | succ i =>
      right
      rw [h, List.take_succ_cons]
      cases groups.take i with
      | nil =>
        rw [joined_singleton, List.append_assoc]
        exact ⟨_, rfl⟩
      | cons g' rest =>
        rw [joined_cons_cons, List.append_assoc, List.append_assoc, List.cons_append]
        exact ⟨_, rfl⟩

/-- **The loopback address** is the one that is written `::1`. -/
theorem Ipv6.text_eq_loopback_iff (ip : Ipv6) :
    ip.text = "::1".toList ↔ ip.groups = [0, 0, 0, 0, 0, 0, 0, 1] := by
  obtain ⟨g, groups, hgroups⟩ := List.exists_cons_of_length_eq_add_one ip.length_eq
  constructor
  · intro h
    rcases ip.text_start hgroups with ⟨n, -, htake, htext⟩ | ⟨t, htext⟩
    · have hjoined : joined (ip.groups.drop n) = ['1'] := by
        rw [htext] at h
        exact (List.cons.inj (List.cons.inj h).2).2
      have hdrop : ip.groups.drop n = [1] := by
        match hrest : ip.groups.drop n with
        | [] =>
          rw [hrest] at hjoined
          exact absurd hjoined (by decide)
        | [x] =>
          rw [hrest, joined_singleton] at hjoined
          have hone : x.toNat = (1 : UInt16).toNat :=
            toDigits_injective (by decide) (by decide) hjoined
          rw [UInt16.toNat_inj.mp hone]
        | x :: y :: rest =>
          rw [hrest, joined_cons_cons] at hjoined
          have hcolon : ':' ∈ ['1'] := hjoined ▸ List.mem_append_right _ List.mem_cons_self
          exact absurd hcolon (by decide)
      have hall := List.take_append_drop n ip.groups
      have hlen := ip.length_eq
      rw [htake, hdrop] at hall
      rw [← hall, List.length_append, List.length_replicate, List.length_singleton] at hlen
      have hseven : n = 7 := by omega
      rw [← hall, hseven]
      rfl
    · obtain ⟨c, rest, hhex⟩ := List.exists_cons_of_length_pos
        (Nat.length_toDigits_pos (b := 16) (n := g.toNat))
      have hc : c ∈ hex g := by
        rw [hex, hhex]
        exact List.mem_cons_self
      rw [htext, hex, hhex] at h
      exact absurd (List.cons.inj h).1 (ne_of_mem_hex hc).1
  · intro h
    obtain ⟨groups', hlen⟩ := ip
    obtain rfl : groups' = [0, 0, 0, 0, 0, 0, 0, 1] := h
    have htext : Ipv6.text ⟨[0, 0, 0, 0, 0, 0, 0, 1], rfl⟩ = "::1".toList := by decide
    exact htext

end VestingDripStream.Lib.UrlHost
