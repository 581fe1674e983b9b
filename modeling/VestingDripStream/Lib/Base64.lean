import Mathlib.Tactic

/-! # Base64

The encoding of bytes as base64 text, and the lenient decoding of JavaScript's
`Buffer.from(text, 'base64')`: it accepts the alphabet for URLs as well, passes over every other
character, stops at the first `=`, and drops what is left of an unfinished group.
`decode_encode` is the round trip. -/

namespace VestingDripStream.Lib.Base64

/-- Six bits. -/
abbrev Sextet : Type := Fin 64

/-! ### Groups of three bytes -/

/-- Three bytes are four sextets; the last group may be one byte or two. -/
def sextets : List UInt8 → List Sextet
  | a :: b :: c :: rest =>
    Fin.ofNat 64 (a.toNat / 4) :: Fin.ofNat 64 (a.toNat % 4 * 16 + b.toNat / 16) ::
      Fin.ofNat 64 (b.toNat % 16 * 4 + c.toNat / 64) :: Fin.ofNat 64 (c.toNat % 64) :: sextets rest
  | [a, b] =>
    [Fin.ofNat 64 (a.toNat / 4), Fin.ofNat 64 (a.toNat % 4 * 16 + b.toNat / 16),
      Fin.ofNat 64 (b.toNat % 16 * 4)]
  | [a] => [Fin.ofNat 64 (a.toNat / 4), Fin.ofNat 64 (a.toNat % 4 * 16)]
  | [] => []

/-- The bytes of the sextets; what does not fill a byte is dropped. -/
def bytes : List Sextet → List UInt8
  | w :: x :: y :: z :: rest =>
    UInt8.ofNat (w.val * 4 + x.val / 16) :: UInt8.ofNat (x.val % 16 * 16 + y.val / 4) ::
      UInt8.ofNat (y.val % 4 * 64 + z.val) :: bytes rest
  | [w, x, y] => [UInt8.ofNat (w.val * 4 + x.val / 16), UInt8.ofNat (x.val % 16 * 16 + y.val / 4)]
  | [w, x] => [UInt8.ofNat (w.val * 4 + x.val / 16)]
  | _ => []

theorem ofNat_eq {a : UInt8} {n : ℕ} (h : n = a.toNat) : UInt8.ofNat n = a := by
  rw [h, UInt8.ofNat_toNat]

theorem val_ofNat {n : ℕ} (h : n < 64) : (Fin.ofNat 64 n).val = n := Nat.mod_eq_of_lt h

/-- The first byte of a group. -/
theorem first_byte (a b : UInt8) : UInt8.ofNat ((Fin.ofNat 64 (a.toNat / 4)).val * 4 +
    (Fin.ofNat 64 (a.toNat % 4 * 16 + b.toNat / 16)).val / 16) = a := by
  have ha := a.toNat_lt
  have hb := b.toNat_lt
  refine ofNat_eq ?_
  rw [val_ofNat (by omega), val_ofNat (by omega)]
  omega

/-- The second byte of a group. -/
theorem second_byte (a b c : UInt8) :
    UInt8.ofNat ((Fin.ofNat 64 (a.toNat % 4 * 16 + b.toNat / 16)).val % 16 * 16 +
      (Fin.ofNat 64 (b.toNat % 16 * 4 + c.toNat / 64)).val / 4) = b := by
  have ha := a.toNat_lt
  have hb := b.toNat_lt
  have hc := c.toNat_lt
  refine ofNat_eq ?_
  rw [val_ofNat (by omega), val_ofNat (by omega)]
  omega

/-- The third byte of a group. -/
theorem third_byte (b c : UInt8) :
    UInt8.ofNat ((Fin.ofNat 64 (b.toNat % 16 * 4 + c.toNat / 64)).val % 4 * 64 +
      (Fin.ofNat 64 (c.toNat % 64)).val) = c := by
  have hb := b.toNat_lt
  have hc := c.toNat_lt
  refine ofNat_eq ?_
  rw [val_ofNat (by omega), val_ofNat (by omega)]
  omega

theorem bytes_sextets (l : List UInt8) : bytes (sextets l) = l := by
  induction l using sextets.induct with
  | case1 a b c rest ih =>
    simp only [sextets, bytes, first_byte, second_byte, third_byte, ih]
  | case2 a b =>
    have h1 := first_byte a b
    have h2 := second_byte a b 0
    simp only [UInt8.toNat_zero, Nat.zero_div, add_zero] at h2
    simp only [sextets, bytes, h1, h2]
  | case3 a =>
    have h1 := first_byte a 0
    simp only [UInt8.toNat_zero, Nat.zero_div, add_zero] at h1
    simp only [sextets, bytes, h1]
  | case4 => rfl

/-! ### The alphabet -/

/-- The character of a sextet: `A` to `Z`, `a` to `z`, `0` to `9`, `+` and `/`. -/
def char (d : Sextet) : Char :=
  if d.val < 26 then Char.ofNat (65 + d.val)
  else if d.val < 52 then Char.ofNat (97 + (d.val - 26))
  else if d.val < 62 then Char.ofNat (48 + (d.val - 52))
  else if d.val = 62 then '+'
  else '/'

/-- The sextet of a character of either alphabet. -/
def sextet (c : Char) : Option Sextet :=
  if 'A' ≤ c ∧ c ≤ 'Z' then some (Fin.ofNat 64 (c.toNat - 65))
  else if 'a' ≤ c ∧ c ≤ 'z' then some (Fin.ofNat 64 (c.toNat - 97 + 26))
  else if '0' ≤ c ∧ c ≤ '9' then some (Fin.ofNat 64 (c.toNat - 48 + 52))
  else if c = '+' ∨ c = '-' then some 62
  else if c = '/' ∨ c = '_' then some 63
  else none

theorem sextet_char (d : Sextet) : sextet (char d) = some d := by
  revert d; decide

theorem char_ne_pad (d : Sextet) : char d ≠ '=' := by
  revert d; decide

/-! ### Text -/

/-- The padding of the last group. -/
def padding (l : List UInt8) : List Char :=
  match l.length % 3 with
  | 1 => ['=', '=']
  | 2 => ['=']
  | _ => []

/-- Base64 with padding. -/
def encode (l : List UInt8) : String := String.ofList ((sextets l).map char ++ padding l)

/-- `Buffer.from(text, 'base64')`. -/
def decode (text : String) : List UInt8 :=
  bytes ((text.toList.takeWhile (· ≠ '=')).filterMap sextet)

theorem takeWhile_padding (l : List UInt8) : (padding l).takeWhile (· ≠ '=') = [] := by
  unfold padding
  split <;> rfl

/-- **The round trip.** -/
theorem decode_encode (l : List UInt8) : decode (encode l) = l := by
  have hchars : ((sextets l).map char ++ padding l).takeWhile (· ≠ '=') = (sextets l).map char := by
    rw [List.takeWhile_append_of_pos, takeWhile_padding, List.append_nil]
    intro c hc
    obtain ⟨d, -, rfl⟩ := List.mem_map.mp hc
    simpa using char_ne_pad d
  have hsextets : ((sextets l).map char).filterMap sextet = sextets l := by
    rw [List.filterMap_map]
    have hsome : sextet ∘ char = some := funext sextet_char
    rw [hsome, List.filterMap_some]
  unfold decode encode
  rw [String.toList_ofList, hchars, hsextets, bytes_sextets]

@[simp] theorem decode_empty : decode "" = [] := by
  simp [decode, bytes]

/-- Bytes are not encoded as the empty text. -/
theorem encode_ne_empty {l : List UInt8} (h : l ≠ []) : encode l ≠ "" := by
  intro he
  have hl := decode_encode l
  rw [he, decode_empty] at hl
  exact h hl.symm

/-- Every group of three bytes, full or not, takes four characters. -/
theorem length_encode (l : List UInt8) : (encode l).length = (l.length + 2) / 3 * 4 := by
  have hlen : (sextets l).length + (padding l).length = (l.length + 2) / 3 * 4 := by
    induction l using sextets.induct with
    | case1 a b c rest ih =>
      have hpad : padding (a :: b :: c :: rest) = padding rest := by
        simp only [padding, List.length_cons, Nat.add_assoc, Nat.add_mod_right]
      simp only [sextets, hpad, List.length_cons]
      omega
    | case2 a b => simp [sextets, padding]
    | case3 a => simp [sextets, padding]
    | case4 => rfl
  unfold encode
  rw [String.length_ofList, List.length_append, List.length_map]
  exact hlen

end VestingDripStream.Lib.Base64
