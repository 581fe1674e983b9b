import Mathlib.Data.Nat.Bitwise
import Mathlib.Tactic

/-! # Base32

The decoding of RFC 4648: each character stands for five bits, and each eight of the bits are a
byte. Numbers are written as bits from the highest to the lowest (`bits`), so what is shifted out of
a number at one end are the first bits of it, and what is put in at the other end the last ones
(`bits_append`). -/

namespace VestingDripStream.Lib.Base32

/-! ### Bits -/

/-- The `n` lowest bits, the highest of them first. -/
def bits : ℕ → ℕ → List Bool
  | 0, _ => []
  | n + 1, x => x.testBit n :: bits n x

@[simp] theorem length_bits (n x : ℕ) : (bits n x).length = n := by
  induction n with
  | zero => rfl
  | succ n ih => rw [bits, List.length_cons, ih]

/-- Only the lowest bits count. -/
theorem bits_mod {n m : ℕ} (h : n ≤ m) (x : ℕ) : bits n (x % 2 ^ m) = bits n x := by
  induction n with
  | zero => rfl
  | succ n ih =>
    have hlt : n < m := by omega
    rw [bits, bits, ih (by omega), Nat.testBit_mod_two_pow, decide_eq_true hlt, Bool.true_and]

/-- **A number in two parts.** -/
theorem bits_append (n k x : ℕ) : bits (n + k) x = bits n (x / 2 ^ k) ++ bits k x := by
  induction n with
  | zero => rw [Nat.zero_add, bits, List.nil_append]
  | succ n ih =>
    rw [Nat.add_right_comm, bits, bits, ih, Nat.testBit_div_two_pow, List.cons_append]

/-- A number put behind another one. -/
theorem bits_concat {k y : ℕ} (n x : ℕ) (hy : y < 2 ^ k) :
    bits (n + k) (x * 2 ^ k + y) = bits n x ++ bits k y := by
  have hpos := Nat.two_pow_pos k
  have hlow : bits k (x * 2 ^ k + y) = bits k y := by
    rw [← bits_mod le_rfl (x * 2 ^ k + y), Nat.mul_add_mod', Nat.mod_eq_of_lt hy]
  rw [bits_append, hlow, Nat.add_comm, Nat.add_mul_div_right _ _ hpos, Nat.div_eq_of_lt hy,
    Nat.zero_add]

/-- The number of bits. -/
def ofBits (l : List Bool) : ℕ := l.foldl (fun n b => 2 * n + b.toNat) 0

theorem ofBits_bits (n x : ℕ) : ofBits (bits n x) = x % 2 ^ n := by
  have hfold : ∀ m, (bits n x).foldl (fun n b => 2 * n + b.toNat) m = m * 2 ^ n + x % 2 ^ n := by
    induction n with
    | zero =>
      intro m
      rw [bits, List.foldl_nil]
      omega
    | succ n ih =>
      intro m
      have hbit := Nat.testBit_eq_decide_div_mod_eq (x := x) (i := n)
      have hmod : x % 2 ^ (n + 1) = x % 2 ^ n + 2 ^ n * (x / 2 ^ n % 2) := Nat.mod_pow_succ
      have htoNat : (x.testBit n).toNat = x / 2 ^ n % 2 := by
        rw [hbit]
        rcases Nat.mod_two_eq_zero_or_one (x / 2 ^ n) with h | h
        · rw [h]
          rfl
        · rw [h]
          rfl
      rw [bits, List.foldl_cons, ih, hmod, htoNat]
      ring
  unfold ofBits
  rw [hfold, Nat.zero_mul, Nat.zero_add]

/-! ### Bytes -/

/-- The bytes of the bits; what does not fill a byte is dropped. -/
def bytes : List Bool → List UInt8
  | b₁ :: b₂ :: b₃ :: b₄ :: b₅ :: b₆ :: b₇ :: b₈ :: rest =>
    UInt8.ofNat (ofBits [b₁, b₂, b₃, b₄, b₅, b₆, b₇, b₈]) :: bytes rest
  | _ => []

theorem bytes_append {byte : List Bool} (h : byte.length = 8) (rest : List Bool) :
    bytes (byte ++ rest) = UInt8.ofNat (ofBits byte) :: bytes rest := by
  match byte, h with
  | [_, _, _, _, _, _, _, _], _ => rfl

/-- Bytes come back from their bits, with what is left of an unfinished one dropped. -/
theorem bytes_flatMap_bits {l : List UInt8} {rest : List Bool} (h : rest.length < 8) :
    bytes (l.flatMap (fun b => bits 8 b.toNat) ++ rest) = l := by
  induction l with
  | nil =>
    rw [List.flatMap_nil, List.nil_append]
    unfold bytes
    split
    · simp only [List.length_cons] at h
      omega
    · rfl
  | cons b l ih =>
    rw [List.flatMap_cons, List.append_assoc, bytes_append (length_bits 8 _), ih, ofBits_bits,
      Nat.mod_eq_of_lt b.toNat_lt, UInt8.ofNat_toNat]

/-! ### Texts -/

/-- The value of a character: the letters come first, then the digits from `2` to `7`. -/
def index (c : Char) : Option ℕ :=
  if 'A' ≤ c ∧ c ≤ 'Z' then some (c.toNat - 'A'.toNat)
  else if '2' ≤ c ∧ c ≤ '7' then some (26 + (c.toNat - '2'.toNat))
  else none

/-- The bytes of a text without padding; `none` if a character is not of the alphabet. -/
def decode (text : List Char) : Option (List UInt8) :=
  (text.mapM index).map fun indexes => bytes (indexes.flatMap (bits 5))

example : decode "MZXW6YTB".toList = some [0x66, 0x6f, 0x6f, 0x62, 0x61] := by decide

end VestingDripStream.Lib.Base32
