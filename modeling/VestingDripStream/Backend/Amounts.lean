import VestingDripStream.Backend.Decoders
import VestingDripStream.Lib.Bitwise

/-! # The readers of amounts

`decoder.ts` and `horizonWorker.ts` join a signed and an unsigned half by their bits; here their
readers are as in the source, down to the decimal text (`decodeI128_exact`). The two backfills read
the last eight bytes of an amount as a signed integer, so the four agree on an amount exactly if it
fits eight bytes (`readersAgree_iff`). -/

namespace VestingDripStream.Backend.Amounts

open VestingDripStream.Lib VestingDripStream.Lib.Bitwise
open VestingDripStream.Backend.Decoder VestingDripStream.Backend.Decoders

/-! ### Halves joined by bits -/

/-- `(hi << 64n) | lo`. -/
def joined (hi : ℤ) (lo : ℕ) : ℤ := Int.lor (hi <<< (64 : ℕ)) lo

namespace Indexer

/-- `decodeI128` of `decoder.ts`, with the decimal text that it returns. -/
def decodeI128 (xdr : Option String) : Option String :=
  match xdr with
  | none => none
  | some xdr =>
    if xdr = "" then none
    else do
      let buf := Base64.decode xdr
      let hiOffset ←
        if buf.length = 20 then some 4
        else if buf.length = 12 then some 4
        else if 16 ≤ buf.length then some (buf.length - 16)
        else none
      let hi ← BigEndian.readBigInt64BE buf hiOffset
      let lo ← BigEndian.readBigUInt64BE buf (hiOffset + 8)
      return toString (joined hi lo)

end Indexer

namespace Worker

/-- `decodeInt128` of `horizonWorker.ts`. -/
def decodeInt128 (xdr : Option String) : Option ℤ :=
  match xdr with
  | none => none
  | some xdr =>
    if xdr = "" then none
    else
      let buf := Base64.decode xdr
      if 16 ≤ buf.length then do
        let hi ← BigEndian.readBigInt64BE buf (buf.length - 16)
        let lo ← BigEndian.readBigUInt64BE buf (buf.length - 8)
        return joined hi lo
      else if 8 ≤ buf.length then BigEndian.readBigInt64BE buf (buf.length - 8)
      else none

end Worker

/-- An amount in sixteen bytes, behind a tag of four bytes, of none or of any other number. -/
def amountText (tag : List UInt8) (v : ℤ) : String := Base64.encode (tag ++ BigEndian.ofInt 16 v)

/-- The four readers return the same number. -/
def ReadersAgree (xdr : Option String) : Prop :=
  ∃ amount : ℤ, Indexer.decodeI128 xdr = some (toString amount) ∧
    Worker.decodeInt128 xdr = some amount ∧
    Backfill.decodeBigInt xdr = some amount ∧ Script.decodeBigInt xdr = some amount

/-! ### The words and their sum -/

theorem joined_eq {hi : ℤ} {lo : ℕ} (h : lo < 2 ^ 64) : joined hi lo = hi * 2 ^ 64 + lo := by
  unfold joined
  rw [Int.shiftLeft_eq]
  exact_mod_cast lor_shift hi h

/-- What is made of two halves that are read. -/
theorem readHalves_map {β : Type} (f : ℤ → β) (buf : List UInt8) (offset offset' : ℕ) :
    (do let hi ← BigEndian.readBigInt64BE buf offset
        let lo ← BigEndian.readBigUInt64BE buf offset'
        return f (joined hi lo) : Option β) =
      (do let hi ← BigEndian.readBigInt64BE buf offset
          let lo ← BigEndian.readBigUInt64BE buf offset'
          return hi * 2 ^ 64 + lo : Option ℤ).map f := by
  cases BigEndian.readBigInt64BE buf offset with
  | none => rfl
  | some hi =>
    cases hlo : BigEndian.readBigUInt64BE buf offset' with
    | none => rfl
    | some lo => exact congrArg (some ∘ f) (joined_eq (BigEndian.readBigUInt64BE_lt hlo))

/-- The text of the indexer is that of the number. -/
theorem indexer_eq (x : Option String) :
    Indexer.decodeI128 x = (Decoder.decodeI128 x).map toString := by
  cases x with
  | none => rfl
  | some xdr =>
    unfold Indexer.decodeI128 Decoder.decodeI128
    by_cases hne : xdr = ""
    · simp only [if_pos hne, Option.map_none]
    · simp only [if_neg hne]
      split_ifs
      · exact readHalves_map toString _ 4 (4 + 8)
      · exact readHalves_map toString _ 4 (4 + 8)
      · exact readHalves_map toString _ _ _
      · rfl

theorem worker_eq (x : Option String) :
    Worker.decodeInt128 x = Decoders.Worker.decodeInt128 x := by
  cases x with
  | none => rfl
  | some xdr =>
    have hhalves := fun buf offset offset' => readHalves_map id buf offset offset'
    simp only [id, Option.map_id_fun] at hhalves
    unfold Worker.decodeInt128 Decoders.Worker.decodeInt128
    simp only [hhalves]

/-! ### Amounts of sixteen bytes -/

section Amount

variable {v : ℤ} {tag : List UInt8}

theorem valueBytes_amountText (tag : List UInt8) (v : ℤ) :
    valueBytes (some (amountText tag v)) = tag ++ BigEndian.ofInt 16 v := Base64.decode_encode _

theorem length_valueBytes (tag : List UInt8) (v : ℤ) :
    (valueBytes (some (amountText tag v))).length = tag.length + 16 := by
  rw [valueBytes_amountText, List.length_append, BigEndian.length_ofInt]

/-- The last sixteen bytes are the amount. -/
theorem lastInt128_amountText (h : Checked.InI128 v) :
    lastInt128 (valueBytes (some (amountText tag v))) = v := by
  unfold lastInt128
  rw [length_valueBytes, Nat.add_sub_cancel, valueBytes_amountText, List.drop_left' rfl]
  obtain ⟨hmin, hmax⟩ := h
  unfold Checked.i128Min at hmin
  unfold Checked.i128Max at hmax
  rw [BigEndian.signed_ofInt] <;> norm_num at hmin hmax ⊢ <;> omega

variable (tag) in
/-- The last eight bytes are the amount exactly if it fits in them. -/
theorem lastInt64_amountText_iff :
    lastInt64 (valueBytes (some (amountText tag v))) = v ↔ -2 ^ 63 ≤ v ∧ v < 2 ^ 63 := by
  obtain ⟨l, hl, happend⟩ := BigEndian.exists_ofInt_append 8 8 v
  have hdrop : (valueBytes (some (amountText tag v))).drop
      ((valueBytes (some (amountText tag v))).length - 8) = BigEndian.ofInt 8 v := by
    rw [length_valueBytes, valueBytes_amountText, happend, ← List.append_assoc]
    refine List.drop_left' ?_
    rw [List.length_append, hl]
    omega
  have hlast : lastInt64 (valueBytes (some (amountText tag v))) =
      BigEndian.signed 8 (BigEndian.nat (BigEndian.ofInt 8 v)) := by
    unfold lastInt64
    rw [hdrop]
  rw [hlast]
  constructor
  · intro heq
    have hrange := BigEndian.signed_range (BigEndian.ofInt 8 v) (BigEndian.length_ofInt 8 v)
    rw [heq] at hrange
    norm_num at hrange ⊢
    omega
  · rintro ⟨hmin, hmax⟩
    refine BigEndian.signed_ofInt ?_ ?_ <;> norm_num at hmin hmax ⊢ <;> omega

theorem indexer_amountText (h : Checked.InI128 v) :
    Indexer.decodeI128 (some (amountText tag v)) = some (toString v) := by
  rw [indexer_eq, decodeI128_eq, length_valueBytes, if_pos (by omega), lastInt128_amountText h]
  rfl

/-- The text that `decoder.ts` makes of an amount of sixteen bytes is exact, alone or behind the
four bytes of a tag. -/
theorem decodeI128_exact (h : Checked.InI128 v) :
    Indexer.decodeI128 (some (amountText [] v)) = some (toString v) ∧
      ∀ tag : List UInt8, tag.length = 4 →
        Indexer.decodeI128 (some (amountText tag v)) = some (toString v) :=
  ⟨indexer_amountText h, fun _ _ => indexer_amountText h⟩

theorem decodeI128_exact_sample :
    Indexer.decodeI128 (some (amountText [] (-1))) = some (toString (-1 : ℤ)) ∧
      ∀ tag : List UInt8, tag.length = 4 →
        Indexer.decodeI128 (some (amountText tag (-1))) = some (toString (-1 : ℤ)) :=
  decodeI128_exact (by decide)

/-- The four readers agree on an amount of sixteen bytes exactly if it fits in eight. -/
theorem readersAgree_iff (h : Checked.InI128 v) :
    ReadersAgree (some (amountText tag v)) ↔ -2 ^ 63 ≤ v ∧ v < 2 ^ 63 := by
  have hlen := length_valueBytes tag v
  have hindexer : Indexer.decodeI128 (some (amountText tag v)) = some (toString v) :=
    indexer_amountText h
  have hworker : Worker.decodeInt128 (some (amountText tag v)) = some v := by
    rw [worker_eq, decodeInt128_eq, hlen, if_pos (by omega), lastInt128_amountText h]
  have hbackfill : Backfill.decodeBigInt (some (amountText tag v)) =
      some (lastInt64 (valueBytes (some (amountText tag v)))) := by
    rw [decodeBigInt_eq, hlen, if_pos (by omega)]
  rw [← lastInt64_amountText_iff tag]
  constructor
  · rintro ⟨amount, _, hw, hb, _⟩
    obtain rfl := Option.some.inj (hworker.symm.trans hw)
    exact Option.some.inj (hbackfill.symm.trans hb)
  · intro heq
    rw [heq] at hbackfill
    exact ⟨v, hindexer, hworker, hbackfill, hbackfill⟩

theorem readersAgree_iff_sample :
    ReadersAgree (some (amountText [] 5)) ↔ -2 ^ 63 ≤ (5 : ℤ) ∧ (5 : ℤ) < 2 ^ 63 :=
  readersAgree_iff (by decide)

/-- An amount of `2 ^ 63`. -/
theorem large_amount_read_apart :
    Checked.InI128 (2 ^ 63) ∧ ¬ ReadersAgree (some (amountText [] (2 ^ 63))) := by
  refine ⟨by decide, fun ⟨amount, _, hw, hb, _⟩ => ?_⟩
  rw [show Worker.decodeInt128 (some (amountText [] (2 ^ 63))) = some (2 ^ 63) by
    decide +kernel] at hw
  rw [show Backfill.decodeBigInt (some (amountText [] (2 ^ 63))) = some (-2 ^ 63) by
    decide +kernel] at hb
  obtain rfl := Option.some.inj hw
  exact absurd hb (by decide)

end Amount

end VestingDripStream.Backend.Amounts
