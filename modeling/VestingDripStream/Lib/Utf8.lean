import Mathlib.Tactic

/-! # UTF-8 with replacement characters

The bytes of a string, and the decoding of JavaScript's `buffer.toString('utf8')`, which never
fails: every maximal piece of bytes that does not begin a character becomes `U+FFFD`. ASCII text is
decoded to itself (`decode_encode`). -/

namespace VestingDripStream.Lib.Utf8

/-- The bytes of a string. -/
def encode (s : String) : List UInt8 := s.toList.flatMap String.utf8EncodeChar

/-- A character that is not complete: how many bytes it still needs, the range of the next one, and
its code point so far. -/
structure Pending where
  needed : ℕ
  lower : ℕ
  upper : ℕ
  codePoint : ℕ
  deriving DecidableEq, Repr

/-- `U+FFFD`. -/
def replacement : Char := Char.ofNat 0xFFFD

/-- A byte between two characters: what is pending after it, and what it completes. -/
def first (byte : UInt8) : Option Pending × List Char :=
  let b := byte.toNat
  if b ≤ 0x7F then (none, [Char.ofNat b])
  else if 0xC2 ≤ b ∧ b ≤ 0xDF then (some ⟨1, 0x80, 0xBF, b % 32⟩, [])
  else if b = 0xE0 then (some ⟨2, 0xA0, 0xBF, b % 16⟩, [])
  else if b = 0xED then (some ⟨2, 0x80, 0x9F, b % 16⟩, [])
  else if 0xE1 ≤ b ∧ b ≤ 0xEF then (some ⟨2, 0x80, 0xBF, b % 16⟩, [])
  else if b = 0xF0 then (some ⟨3, 0x90, 0xBF, b % 8⟩, [])
  else if b = 0xF4 then (some ⟨3, 0x80, 0x8F, b % 8⟩, [])
  else if 0xF1 ≤ b ∧ b ≤ 0xF3 then (some ⟨3, 0x80, 0xBF, b % 8⟩, [])
  else (none, [replacement])

/-- The next byte. One that does not continue the pending character begins anew. -/
def next (pending : Option Pending) (byte : UInt8) : Option Pending × List Char :=
  match pending with
  | none => first byte
  | some p =>
    if p.lower ≤ byte.toNat ∧ byte.toNat ≤ p.upper then
      let codePoint := p.codePoint * 64 + byte.toNat % 64
      if p.needed = 1 then (none, [Char.ofNat codePoint])
      else (some ⟨p.needed - 1, 0x80, 0xBF, codePoint⟩, [])
    else ((first byte).1, replacement :: (first byte).2)

/-- The characters of the bytes. -/
def chars : Option Pending → List UInt8 → List Char
  | none, [] => []
  | some _, [] => [replacement]
  | pending, byte :: rest => (next pending byte).2 ++ chars (next pending byte).1 rest

/-- `buffer.toString('utf8')`. -/
def decode (l : List UInt8) : String := String.ofList (chars none l)

/-- A character of ASCII. -/
def IsAscii (c : Char) : Prop := c.toNat < 128

instance (c : Char) : Decidable (IsAscii c) := by unfold IsAscii; infer_instance

theorem utf8EncodeChar_ascii {c : Char} (h : IsAscii c) :
    String.utf8EncodeChar c = [UInt8.ofNat c.toNat] := by
  unfold IsAscii at h
  unfold String.utf8EncodeChar
  rw [if_pos (show c.val.toNat ≤ 0x7f from Nat.le_of_lt_succ h)]
  rfl

theorem first_ascii {c : Char} (h : IsAscii c) : first (UInt8.ofNat c.toNat) = (none, [c]) := by
  unfold IsAscii at h
  have hb : (UInt8.ofNat c.toNat).toNat = c.toNat := by
    rw [UInt8.toNat_ofNat']
    omega
  unfold first
  simp only [hb]
  rw [if_pos (by omega), Char.ofNat_toNat]

theorem chars_ascii {l : List Char} (h : ∀ c ∈ l, IsAscii c) :
    chars none (l.flatMap String.utf8EncodeChar) = l := by
  induction l with
  | nil => rfl
  | cons c l ih =>
    have hc := h c List.mem_cons_self
    rw [List.flatMap_cons, utf8EncodeChar_ascii hc, List.singleton_append]
    show (next none _).2 ++ chars (next none _).1 _ = _
    rw [next, first_ascii hc, ih fun c' hc' => h c' (List.mem_cons_of_mem c hc')]
    rfl

/-- **ASCII text** is decoded to itself. -/
theorem decode_encode {s : String} (h : ∀ c ∈ s.toList, IsAscii c) : decode (encode s) = s := by
  unfold decode encode
  rw [chars_ascii h, String.ofList_toList]

end VestingDripStream.Lib.Utf8
