import Mathlib.Tactic

/-! # Big-endian integers

Natural numbers as bytes, most significant first, two's complement, and the reads of JavaScript's
`Buffer`, which fail beyond its end. -/

namespace VestingDripStream.Lib.BigEndian

/-- The last `w` bytes of `n`. -/
def bytes : ℕ → ℕ → List UInt8
  | 0, _ => []
  | w + 1, n => UInt8.ofNat (n / 256 ^ w % 256) :: bytes w n

/-- The number with the given bytes. -/
def nat (l : List UInt8) : ℕ := l.foldl (fun n b => n * 256 + b.toNat) 0

@[simp] theorem length_bytes (w n : ℕ) : (bytes w n).length = w := by
  induction w with
  | zero => rfl
  | succ w ih => rw [bytes, List.length_cons, ih]

/-- The fold from any number on. -/
theorem foldl_bytes (w n m : ℕ) :
    (bytes w n).foldl (fun n b => n * 256 + b.toNat) m = m * 256 ^ w + n % 256 ^ w := by
  induction w generalizing m with
  | zero => simp [bytes, Nat.mod_one]
  | succ w ih =>
    have hbyte : (UInt8.ofNat (n / 256 ^ w % 256)).toNat = n / 256 ^ w % 256 := by
      rw [UInt8.toNat_ofNat']
      omega
    have hmod : n % 256 ^ (w + 1) = n % 256 ^ w + 256 ^ w * (n / 256 ^ w % 256) := by
      rw [pow_succ, Nat.mod_mul]
    rw [bytes, List.foldl_cons, ih, hbyte, hmod]
    ring

/-- **The round trip.** -/
theorem nat_bytes (w n : ℕ) : nat (bytes w n) = n % 256 ^ w := by
  unfold nat
  rw [foldl_bytes, zero_mul, zero_add]

theorem nat_append (l l' : List UInt8) : nat (l ++ l') = nat l * 256 ^ l'.length + nat l' := by
  have hfold : ∀ (l' : List UInt8) (m : ℕ), l'.foldl (fun n b => n * 256 + b.toNat) m =
      m * 256 ^ l'.length + l'.foldl (fun n b => n * 256 + b.toNat) 0 := by
    intro l'
    induction l' with
    | nil => intro m; simp
    | cons b l' ih =>
      intro m
      rw [List.foldl_cons, List.foldl_cons, ih, ih (0 * 256 + b.toNat), List.length_cons, pow_succ]
      ring
  unfold nat
  rw [List.foldl_append, hfold]

theorem nat_lt (l : List UInt8) : nat l < 256 ^ l.length := by
  induction l using List.reverseRecOn with
  | nil => exact Nat.one_pos
  | append_singleton l b ih =>
    have hb := b.toNat_lt
    have hlast : nat [b] = b.toNat := by simp [nat]
    rw [nat_append, hlast, List.length_append, List.length_singleton, pow_one, pow_succ]
    omega

/-- The last bytes depend on nothing but the remainder. -/
theorem bytes_congr {w n m : ℕ} (h : n % 256 ^ w = m % 256 ^ w) : bytes w n = bytes w m := by
  induction w with
  | zero => rfl
  | succ w ih =>
    have hlow : n % 256 ^ w = m % 256 ^ w := by
      have hdvd : 256 ^ w ∣ 256 ^ (w + 1) := pow_dvd_pow 256 (Nat.le_succ w)
      rw [← Nat.mod_mod_of_dvd n hdvd, h, Nat.mod_mod_of_dvd m hdvd]
    have hbyte : n / 256 ^ w % 256 = m / 256 ^ w % 256 := by
      rw [pow_succ] at h
      rw [← Nat.mod_mul_right_div_self, ← Nat.mod_mul_right_div_self, h]
    rw [bytes, bytes, ih hlow, hbyte]

/-- The last bytes of a number are the last of more of them. -/
theorem bytes_add (a b n : ℕ) : bytes (a + b) n = bytes a (n / 256 ^ b) ++ bytes b n := by
  induction a with
  | zero => simp [bytes]
  | succ a ih =>
    rw [show a + 1 + b = (a + b) + 1 by omega, bytes, bytes, ih, pow_add, Nat.mul_comm,
      ← Nat.div_div_eq_div_mul]
    rfl

/-! ### Two's complement -/

/-- The integer of the last `8 * w` bits of `n`. -/
def signed (w n : ℕ) : ℤ := if 2 * n < 256 ^ w then n else (n : ℤ) - 256 ^ w

/-- The last `w` bytes of an integer. -/
def ofInt (w : ℕ) (v : ℤ) : List UInt8 := bytes w (v % 256 ^ w).toNat

@[simp] theorem length_ofInt (w : ℕ) (v : ℤ) : (ofInt w v).length = w := length_bytes _ _

/-- A part of the bytes of an integer are its last ones. -/
theorem exists_ofInt_append (a b : ℕ) (v : ℤ) :
    ∃ l, l.length = a ∧ ofInt (a + b) v = l ++ ofInt b v := by
  have hpos : ∀ w : ℕ, (0 : ℤ) < 256 ^ w := fun w => by positivity
  refine ⟨_, length_bytes a _, (bytes_add a b _).trans (congrArg _ (bytes_congr ?_))⟩
  have hdvd : (256 : ℤ) ^ b ∣ 256 ^ (a + b) := pow_dvd_pow 256 (Nat.le_add_left b a)
  zify
  rw [Int.toNat_of_nonneg (Int.emod_nonneg v (hpos _).ne'),
    Int.toNat_of_nonneg (Int.emod_nonneg v (hpos _).ne'), Int.emod_emod_of_dvd v hdvd,
    Int.emod_emod]

/-- An integer of `w` bytes. -/
theorem signed_range {w : ℕ} (l : List UInt8) (hl : l.length = w) :
    -(256 ^ w) ≤ 2 * signed w (nat l) ∧ 2 * signed w (nat l) < 256 ^ w := by
  have hlt : (nat l : ℤ) < 256 ^ w := by
    have := nat_lt l
    rw [hl] at this
    exact_mod_cast this
  unfold signed
  split_ifs with h
  · have : (2 * nat l : ℤ) < 256 ^ w := by exact_mod_cast h
    omega
  · have : (256 ^ w : ℤ) ≤ 2 * nat l := by exact_mod_cast not_lt.mp h
    omega

theorem signed_ofInt {w : ℕ} {v : ℤ} (h : -(256 ^ w) ≤ 2 * v) (h' : 2 * v < 256 ^ w) :
    signed w (nat (ofInt w v)) = v := by
  have hpos : (0 : ℤ) < 256 ^ w := by positivity
  have hmod0 := Int.emod_nonneg v hpos.ne'
  have hlt : (v % 256 ^ w).toNat < 256 ^ w := by
    have hmod1 := Int.emod_lt_of_pos v hpos
    zify
    rw [Int.toNat_of_nonneg hmod0]
    exact hmod1
  have hnat : ((nat (ofInt w v) : ℕ) : ℤ) = v % 256 ^ w := by
    unfold ofInt
    rw [nat_bytes, Nat.mod_eq_of_lt hlt, Int.toNat_of_nonneg hmod0]
  have hcast : (2 * nat (ofInt w v) < 256 ^ w) ↔ 2 * (v % 256 ^ w) < 256 ^ w := by
    rw [← hnat]
    zify
  unfold signed
  simp only [hcast, hnat]
  rcases lt_or_ge v 0 with hneg | hneg
  · have hv : v % 256 ^ w = v + 256 ^ w := by
      rw [← Int.add_emod_right, Int.emod_eq_of_lt] <;> omega
    rw [hv, if_neg (by omega)]
    omega
  · have hv : v % 256 ^ w = v := Int.emod_eq_of_lt hneg (by omega)
    rw [hv, if_pos h']

/-! ### Reads -/

/-- The `w` bytes of a buffer from `offset` on; a read beyond its end throws. -/
def read (w : ℕ) (buf : List UInt8) (offset : ℕ) : Option (List UInt8) :=
  if offset + w ≤ buf.length then some ((buf.drop offset).take w) else none

/-- `buf.readUInt32BE`. -/
def readUInt32BE (buf : List UInt8) (offset : ℕ) : Option ℕ := (read 4 buf offset).map nat

/-- `buf.readBigUInt64BE`. -/
def readBigUInt64BE (buf : List UInt8) (offset : ℕ) : Option ℕ := (read 8 buf offset).map nat

/-- `buf.readBigInt64BE`. -/
def readBigInt64BE (buf : List UInt8) (offset : ℕ) : Option ℤ :=
  (read 8 buf offset).map fun l => signed 8 (nat l)

theorem readBigUInt64BE_lt {buf : List UInt8} {offset n : ℕ}
    (h : readBigUInt64BE buf offset = some n) : n < 2 ^ 64 := by
  unfold readBigUInt64BE read at h
  split_ifs at h with hle
  · obtain rfl := Option.some.inj h
    have hlen : ((buf.drop offset).take 8).length = 8 := by
      rw [List.length_take, List.length_drop]
      omega
    have hlt := nat_lt ((buf.drop offset).take 8)
    rw [hlen] at hlt
    norm_num at hlt ⊢
    exact hlt
  · cases h

/-- A signed high half and an unsigned low half are a signed whole. -/
theorem signed_append {w : ℕ} {l l' : List UInt8} (hl : l.length = w) (hl' : l'.length = w) :
    signed w (nat l) * 256 ^ w + nat l' = signed (w + w) (nat (l ++ l')) := by
  have hlow := nat_lt l'
  have happ := nat_append l l'
  rw [hl'] at hlow happ
  have hsq : (256 : ℕ) ^ (w + w) = 256 ^ w * 256 ^ w := pow_add _ _ _
  have hiff : 2 * nat (l ++ l') < 256 ^ (w + w) ↔ 2 * nat l < 256 ^ w := by
    rw [happ, hsq]
    constructor
    · intro h
      by_contra hge
      have : 256 ^ w * 256 ^ w ≤ 2 * nat l * 256 ^ w := Nat.mul_le_mul_right _ (by omega)
      nlinarith
    · intro h
      have heven : 2 * nat l + 2 ≤ 256 ^ w ∨ 2 * nat l + 1 = 256 ^ w := by omega
      rcases heven with h2 | h1
      · have : (2 * nat l + 2) * 256 ^ w ≤ 256 ^ w * 256 ^ w := Nat.mul_le_mul_right _ h2
        nlinarith
      · -- the base is even
        cases w with
        | zero => simp at h1; omega
        | succ w => rw [pow_succ] at h1; omega
  unfold signed
  simp only [hiff]
  split_ifs with h
  · rw [happ]; push_cast; ring
  · rw [happ, pow_add]; push_cast; ring

end VestingDripStream.Lib.BigEndian
