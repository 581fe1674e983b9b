import Mathlib.Data.List.GetD
import Mathlib.Tactic

/-! # Hexadecimal texts

Bytes are written with two lower-case digits each, and read in either case, pair by pair up to the
first one that is not two digits; a last digit alone is dropped. `decode_eq_iff` says which texts
give the same bytes. -/

namespace VestingDripStream.Lib.Hex

/-- The digits. -/
def digits : List Char := "0123456789abcdef".toList

/-- The value of a digit in either case. -/
def unhex (c : Char) : Option ℕ := digits.idxOf? c.toLower

/-- The digit of a value below sixteen. -/
def digit (n : ℕ) : Char := digits.getD n '0'

/-- The two digits of a byte. -/
def ofByte (b : UInt8) : List Char := [digit (b.toNat / 16), digit (b.toNat % 16)]

/-- The text of bytes. -/
def encode (l : List UInt8) : List Char := l.flatMap ofByte

/-- The bytes of a text, up to the first pair that is not of digits. -/
def decode : List Char → List UInt8
  | a :: b :: rest =>
    match unhex a, unhex b with
    | some high, some low => UInt8.ofNat (high * 16 + low) :: decode rest
    | _, _ => []
  | _ => []

/-- The text does not begin with two digits. -/
def NoPair (text : List Char) : Prop :=
  ∀ a b rest, text = a :: b :: rest → unhex a = none ∨ unhex b = none

/-! ### Digits -/

theorem unhex_eq_some_iff {c : Char} {n : ℕ} :
    unhex c = some n ↔ n < 16 ∧ c.toLower = digit n := by
  have hlen : digits.length = 16 := rfl
  have hnodup : digits.Nodup := by decide
  have hget : ∀ (h : n < digits.length), digit n = digits[n] := by
    intro h
    exact List.getD_eq_getElem digits '0' h
  unfold unhex
  rw [List.idxOf?_eq_some_iff]
  constructor
  · rintro ⟨h, heq, -⟩
    rw [hlen] at h
    exact ⟨h, (hget h ▸ heq).symm⟩
  · rintro ⟨h, heq⟩
    refine ⟨h, (heq.trans (hget h)).symm, ?_⟩
    intro j hj hlow
    have hsame : digits[j] = digits[n] := hlow.trans (heq.trans (hget h))
    have hjn := (List.Nodup.getElem_inj_iff hnodup).mp hsame
    omega

theorem toLower_digit {n : ℕ} (h : n < 16) : (digit n).toLower = digit n := by
  have hall : (List.range 16).all (fun n => (digit n).toLower == digit n) = true := by decide
  exact eq_of_beq (List.all_eq_true.mp hall n (List.mem_range.mpr h))

@[simp] theorem length_encode (l : List UInt8) : (encode l).length = 2 * l.length := by
  induction l with
  | nil => rfl
  | cons b l ih =>
    have hbyte : (ofByte b).length = 2 := rfl
    rw [encode, List.flatMap_cons, List.length_append, hbyte, ← encode, ih, List.length_cons]
    omega

/-! ### Texts with the same bytes -/

/-- A byte is read from the two digits of it. -/
theorem ofNat_eq_iff {high low : ℕ} (hhigh : high < 16) (hlow : low < 16) (b : UInt8) :
    UInt8.ofNat (high * 16 + low) = b ↔ high = b.toNat / 16 ∧ low = b.toNat % 16 := by
  have hb := b.toNat_lt
  rw [← UInt8.toNat_inj, UInt8.toNat_ofNat']
  omega

theorem noPair_of_length {text : List Char} (h : text.length < 2) : NoPair text := by
  rintro a b rest rfl
  simp only [List.length_cons] at h
  omega

theorem decode_eq_nil_iff {text : List Char} : decode text = [] ↔ NoPair text := by
  unfold decode
  split
  · rename_i a b rest
    split
    · rename_i hhigh hlow
      refine iff_of_false (List.cons_ne_nil _ _) fun hno => ?_
      rcases hno a b rest rfl with h | h
      · exact Option.some_ne_none _ (hhigh.symm.trans h)
      · exact Option.some_ne_none _ (hlow.symm.trans h)
    · rename_i hpair
      refine iff_of_true rfl ?_
      rintro a' b' rest' heq
      obtain ⟨rfl, rfl, -⟩ : a = a' ∧ b = b' ∧ rest = rest' := by simpa using heq
      by_contra hdigits
      push Not at hdigits
      obtain ⟨high, hhigh⟩ := Option.ne_none_iff_exists'.mp hdigits.1
      obtain ⟨low, hlow⟩ := Option.ne_none_iff_exists'.mp hdigits.2
      exact hpair high low hhigh hlow
  · rename_i hshort
    exact iff_of_true rfl fun a b rest heq => absurd heq (hshort a b rest)

/-- **The texts of some bytes**: their digits in either case, then whatever is not a pair. -/
theorem decode_eq_iff {text : List Char} {l : List UInt8} :
    decode text = l ↔ ∃ written rest, text = written ++ rest ∧
      written.map Char.toLower = encode l ∧ NoPair rest := by
  induction l generalizing text with
  | nil =>
    rw [decode_eq_nil_iff]
    constructor
    · intro h
      exact ⟨[], text, rfl, rfl, h⟩
    · rintro ⟨written, rest, rfl, hwritten, h⟩
      rw [encode, List.flatMap_nil, List.map_eq_nil_iff] at hwritten
      rwa [hwritten]
  | cons byte l ih =>
    have hbyte := byte.toNat_lt
    constructor
    · intro h
      unfold decode at h
      split at h
      · rename_i a b rest
        split at h
        · rename_i high low hhigh hlow
          obtain ⟨hfirst, hrest⟩ := List.cons.inj h
          obtain ⟨hhigh16, ha⟩ := unhex_eq_some_iff.mp hhigh
          obtain ⟨hlow16, hb⟩ := unhex_eq_some_iff.mp hlow
          obtain ⟨rfl, rfl⟩ := (ofNat_eq_iff hhigh16 hlow16 byte).mp hfirst
          obtain ⟨written, rest', rfl, hwritten, hno⟩ := ih.mp hrest
          refine ⟨a :: b :: written, rest', rfl, ?_, hno⟩
          rw [List.map_cons, List.map_cons, hwritten, ha, hb]
          rfl
        · exact absurd h.symm (List.cons_ne_nil _ _)
      · exact absurd h.symm (List.cons_ne_nil _ _)
    · rintro ⟨written, rest, rfl, hwritten, hno⟩
      obtain ⟨a, tail, rfl, ha, htail⟩ := List.map_eq_cons_iff.mp hwritten
      obtain ⟨b, written', rfl, hb, hwritten'⟩ := List.map_eq_cons_iff.mp htail
      have hhigh : unhex a = some (byte.toNat / 16) := unhex_eq_some_iff.mpr ⟨by omega, ha⟩
      have hlow : unhex b = some (byte.toNat % 16) := unhex_eq_some_iff.mpr ⟨by omega, hb⟩
      have hrest : decode (written' ++ rest) = l := ih.mpr ⟨written', rest, rfl, hwritten', hno⟩
      rw [List.cons_append, List.cons_append, decode, hhigh, hlow, hrest]
      dsimp only
      rw [(ofNat_eq_iff (by omega) (by omega) byte).mpr ⟨rfl, rfl⟩]

/-- What was written is read back. -/
theorem decode_encode (l : List UInt8) : decode (encode l) = l := by
  have hnil : NoPair [] := noPair_of_length (by decide)
  refine decode_eq_iff.mpr ⟨encode l, [], (List.append_nil _).symm, ?_, hnil⟩
  rw [encode, List.map_flatMap]
  refine List.flatMap_congr fun b _ => ?_
  have hb := b.toNat_lt
  rw [ofByte, List.map_cons, List.map_singleton, toLower_digit (by omega),
    toLower_digit (by omega)]

end VestingDripStream.Lib.Hex
