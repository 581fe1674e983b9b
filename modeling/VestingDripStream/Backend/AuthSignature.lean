import VestingDripStream.Lib.Base32

/-! # The signature of a sign-in

`verifyEd25519Signature` of `authV1.ts` decodes a Stellar address itself. Its `value` is a wrapping
32-bit integer from which nothing is ever taken away: the bits that were already pushed as bytes
stay in it until they are shifted out. The invariant of the loop (`LoopInv`) says that the bits of
the characters so far are those of the bytes, and behind them the `bits` lowest bits of `value`. -/

namespace VestingDripStream.Backend.AuthSignature

open VestingDripStream.Lib

/-- `alphabet`. -/
def alphabet : List Char := "ABCDEFGHIJKLMNOPQRSTUVWXYZ234567".toList

/-- The variables of the loop. -/
structure Loop where
  bits : ℕ
  value : Int32
  bytes : List ℕ

/-- The loop before its first character. -/
def start : Loop := ⟨0, 0, []⟩

/-- The body of the loop; `none` when it throws. -/
def step (s : Loop) (char : Char) : Option Loop :=
  match alphabet.idxOf? char with
  | none => none
  | some idx =>
    let value := s.value <<< 5 ||| Int32.ofNat idx
    let bits := s.bits + 5
    if 8 ≤ bits then
      -- `>>>` takes `value` without its sign
      let byte := (value.toUInt32 >>> UInt32.ofNat (bits - 8)) &&& 0xff
      some ⟨bits - 8, value, s.bytes ++ [byte.toNat]⟩
    else some ⟨bits, value, s.bytes⟩

/-- The loop over the characters of an address. -/
def decodeLoop (chars : List Char) : Option Loop := chars.foldlM step start

/-- `rawPubKey`. -/
def rawPubKey (address : List Char) : Option (List ℕ) := do
  let s ← decodeLoop address
  if s.bytes.length < 35 then none else some (s.bytes.extract 1 33)

/-- The function, with `verify` for what the crypto library makes of the key, the message and the
signature (`none` if it throws). -/
def verifyEd25519Signature {M S : Type} (verify : List ℕ → M → S → Option Bool)
    (address : List Char) (message : M) (signature : S) : Bool :=
  ((rawPubKey address).bind fun key => verify key message signature).getD false

/-! ### One character -/

/-- The indexes of the alphabet are the values of RFC 4648. -/
theorem idxOf?_alphabet {char : Char} (h : char ∈ alphabet) :
    ∃ idx, alphabet.idxOf? char = some idx ∧ Base32.index char = some idx ∧ idx < 32 := by
  have hall : alphabet.all (fun c => alphabet.idxOf? c == Base32.index c &&
      (Base32.index c).any (fun idx => idx < 32)) = true := by decide
  have hchar := List.all_eq_true.mp hall char h
  rw [Bool.and_eq_true, beq_iff_eq] at hchar
  obtain ⟨heq, hany⟩ := hchar
  rw [Option.any_eq_true] at hany
  obtain ⟨idx, hidx, hlt⟩ := hany
  exact ⟨idx, heq.trans hidx, hidx, of_decide_eq_true hlt⟩

/-- The value after a character, without its sign: it wraps at 32 bits. -/
theorem toNat_value (value : Int32) {idx : ℕ} (h : idx < 32) :
    (value <<< 5 ||| Int32.ofNat idx).toUInt32.toNat =
      (value.toUInt32.toNat * 2 ^ 5 + idx) % 2 ^ 32 := by
  have hshift : (value <<< 5).toUInt32 = value.toUInt32 <<< 5 := rfl
  have hidx : (Int32.ofNat idx).toUInt32.toNat = idx := by
    have hof : (Int32.ofNat idx).toUInt32 = UInt32.ofNat idx := rfl
    rw [hof, UInt32.toNat_ofNat']
    omega
  have hmul : value.toUInt32.toNat * 2 ^ 5 % 2 ^ 32 = value.toUInt32.toNat % 2 ^ 27 * 2 ^ 5 := by
    omega
  have hfive : (5 : UInt32).toNat % 32 = 5 := rfl
  rw [Int32.toUInt32_or, hshift, UInt32.toNat_or, UInt32.toNat_shiftLeft, hidx, hfive,
    Nat.shiftLeft_eq, hmul, ← Nat.shiftLeft_eq, ← Nat.shiftLeft_add_eq_or_of_lt h,
    Nat.shiftLeft_eq]
  omega

/-- The byte that is pushed. -/
theorem toNat_byte (u : UInt32) {n : ℕ} (h : n < 32) :
    ((u >>> UInt32.ofNat n) &&& 0xff).toNat = u.toNat / 2 ^ n % 2 ^ 8 := by
  have hn : (UInt32.ofNat n).toNat % 32 = n := by
    rw [UInt32.toNat_ofNat']
    omega
  have hmask : (0xff : UInt32).toNat = 2 ^ 8 - 1 := rfl
  rw [UInt32.toNat_and, UInt32.toNat_shiftRight, hn, hmask, Nat.and_two_pow_sub_one_eq_mod,
    Nat.shiftRight_eq_div_pow]

/-! ### The loop -/

/-- The bits of the indexes so far are those of the bytes and the ones that wait in `value`. -/
structure LoopInv (indexes : List ℕ) (s : Loop) : Prop where
  bits_lt : s.bits < 8
  bytes_lt : ∀ byte ∈ s.bytes, byte < 2 ^ 8
  bits_eq : indexes.flatMap (Base32.bits 5) =
    s.bytes.flatMap (Base32.bits 8) ++ Base32.bits s.bits s.value.toUInt32.toNat

theorem loopInv_start : LoopInv [] start where
  bits_lt := by decide
  bytes_lt := by
    intro byte h
    exact absurd h List.not_mem_nil
  bits_eq := rfl

/-- The bits that wait, with those of the next character behind them. -/
theorem bits_value (value : Int32) {n idx : ℕ} (hn : n < 8) (h : idx < 32) :
    Base32.bits (n + 5) (value <<< 5 ||| Int32.ofNat idx).toUInt32.toNat =
      Base32.bits n value.toUInt32.toNat ++ Base32.bits 5 idx := by
  have hidx : idx < 2 ^ 5 := h
  rw [toNat_value value h, Base32.bits_mod (by omega), Base32.bits_concat n _ hidx]

/-- **One character.** -/
theorem loopInv_step {indexes : List ℕ} {s : Loop} (hs : LoopInv indexes s) {char : Char}
    (h : char ∈ alphabet) : ∃ idx s', Base32.index char = some idx ∧ step s char = some s' ∧
      LoopInv (indexes ++ [idx]) s' := by
  obtain ⟨idx, hfind, hindex, hlt⟩ := idxOf?_alphabet h
  have hbits := bits_value s.value hs.bits_lt hlt
  have hlt8 := hs.bits_lt
  unfold step
  rw [hfind]
  dsimp only
  split_ifs with hfull
  · refine ⟨idx, _, hindex, rfl, ?_, ?_, ?_⟩
    · show s.bits + 5 - 8 < 8
      omega
    · intro byte hbyte
      rcases List.mem_append.mp hbyte with hold | hnew
      · exact hs.bytes_lt byte hold
      · rw [List.mem_singleton.mp hnew, toNat_byte _ (by omega)]
        exact Nat.mod_lt _ (Nat.two_pow_pos 8)
    · -- the first eight of the waiting bits are the byte
      have hsplit : s.bits + 5 = 8 + (s.bits + 5 - 8) := by omega
      rw [hsplit, Base32.bits_append] at hbits
      simp only [List.flatMap_append, List.flatMap_singleton, hs.bits_eq, List.append_assoc]
      rw [toNat_byte _ (by omega), Base32.bits_mod le_rfl, ← hbits]
  · refine ⟨idx, _, hindex, rfl, ?_, hs.bytes_lt, ?_⟩
    · show s.bits + 5 < 8
      omega
    · rw [List.flatMap_append, List.flatMap_singleton, hs.bits_eq, List.append_assoc, hbits]

/-- **A run of the loop** over characters of the alphabet. -/
theorem loopInv_foldlM {chars : List Char} (h : ∀ c ∈ chars, c ∈ alphabet) {indexes : List ℕ}
    {s : Loop} (hs : LoopInv indexes s) : ∃ more s', chars.mapM Base32.index = some more ∧
      more.length = chars.length ∧ chars.foldlM step s = some s' ∧
      LoopInv (indexes ++ more) s' := by
  induction chars generalizing indexes s with
  | nil => exact ⟨[], s, rfl, rfl, rfl, by rwa [List.append_nil]⟩
  | cons c chars ih =>
    obtain ⟨idx, s₁, hindex, hstep, hs₁⟩ := loopInv_step hs (h c List.mem_cons_self)
    obtain ⟨more, s₂, hmore, hlen, hrun, hs₂⟩ :=
      ih (fun c hc => h c (List.mem_cons_of_mem _ hc)) hs₁
    refine ⟨idx :: more, s₂, ?_, ?_, ?_, ?_⟩
    · rw [List.mapM_cons, hindex, hmore]
      rfl
    · rw [List.length_cons, List.length_cons, hlen]
    · rw [List.foldlM_cons, hstep]
      exact hrun
    · rwa [List.append_assoc] at hs₂

/-- What the loop pushed is what the text stands for, except for bits that do not fill a byte. -/
theorem decodeLoop_eq {address : List Char} (h : ∀ c ∈ address, c ∈ alphabet) :
    ∃ s bytes, decodeLoop address = some s ∧ Base32.decode address = some bytes ∧
      s.bytes = bytes.map UInt8.toNat ∧ 5 * address.length = 8 * bytes.length + s.bits ∧
      s.bits < 8 := by
  obtain ⟨indexes, s, hindexes, hlen, hrun, hinv⟩ := loopInv_foldlM h loopInv_start
  rw [List.nil_append] at hinv
  have hbytes : s.bytes = (s.bytes.map UInt8.ofNat).map UInt8.toNat := by
    rw [List.map_map]
    refine (List.map_congr_left ?_).trans (List.map_id _) |>.symm
    intro byte hbyte
    have hlt := hinv.bytes_lt byte hbyte
    rw [Function.comp_apply, UInt8.toNat_ofNat', id]
    omega
  have hbits := hinv.bits_eq
  rw [hbytes, List.flatMap_map] at hbits
  have hlength := congrArg List.length hbits
  simp only [List.length_append, List.length_flatMap, Base32.length_bits, List.map_const',
    List.sum_replicate, List.length_map, smul_eq_mul] at hlength
  refine ⟨s, s.bytes.map UInt8.ofNat, hrun, ?_, hbytes, ?_, hinv.bits_lt⟩
  · unfold Base32.decode
    rw [hindexes, Option.map_some, hbits, Base32.bytes_flatMap_bits]
    rw [Base32.length_bits]
    exact hinv.bits_lt
  · rw [List.length_map]
    omega

/-- **The address of 56 characters.** -/
theorem address_decoded (address : List Char) (hlen : address.length = 56)
    (h : ∀ c ∈ address, c ∈ alphabet) :
    ∃ s bytes, decodeLoop address = some s ∧ Base32.decode address = some bytes ∧
      bytes.length = 35 ∧ s.bytes = bytes.map UInt8.toNat := by
  obtain ⟨s, bytes, hrun, hdecode, hbytes, hlength, hlt⟩ := decodeLoop_eq h
  rw [hlen] at hlength
  exact ⟨s, bytes, hrun, hdecode, by omega, hbytes⟩

theorem address_decoded_sample :
    ∃ s bytes, decodeLoop (List.replicate 56 '7') = some s ∧
      Base32.decode (List.replicate 56 '7') = some bytes ∧
      bytes.length = 35 ∧ s.bytes = bytes.map UInt8.toNat :=
  address_decoded _ (by decide) (by
    intro c hc
    rw [List.eq_of_mem_replicate hc]
    decide)

/-! ### The key -/

/-- The key that is checked are the 32 bytes between the version and the checksum. -/
theorem rawPubKey_eq {address : List Char} (hlen : address.length = 56)
    (h : ∀ c ∈ address, c ∈ alphabet) : ∃ bytes, Base32.decode address = some bytes ∧
      rawPubKey address = some ((bytes.extract 1 33).map UInt8.toNat) ∧
      (bytes.extract 1 33).length = 32 := by
  obtain ⟨s, bytes, hrun, hdecode, hbytes, hlength, hlt⟩ := decodeLoop_eq h
  have hfull : bytes.length = 35 := by omega
  refine ⟨bytes, hdecode, ?_, ?_⟩
  · have hlong : ¬ s.bytes.length < 35 := by
      rw [hbytes, List.length_map]
      omega
    unfold rawPubKey
    rw [hrun, Option.bind_eq_bind, Option.bind_some, if_neg hlong, hbytes,
      List.extract_eq_take_drop, List.extract_eq_take_drop, List.map_take, List.map_drop]
  · rw [List.extract_eq_take_drop, List.length_take, List.length_drop]
    omega

/-- A character that is not of the alphabet is refused. -/
theorem verify_of_not_mem {M S : Type} (verify : List ℕ → M → S → Option Bool)
    {address : List Char} {c : Char} (hc : c ∈ address) (h : c ∉ alphabet) (message : M)
    (signature : S) : verifyEd25519Signature verify address message signature = false := by
  have hthrow : ∀ s, step s c = none := by
    intro s
    unfold step
    rw [List.idxOf?_eq_none_iff.mpr h]
  obtain ⟨before, rest, rfl⟩ := List.append_of_mem hc
  have hloop : decodeLoop (before ++ c :: rest) = none := by
    unfold decodeLoop
    rw [List.foldlM_append]
    cases before.foldlM step start with
    | none => rfl
    | some s =>
      rw [Option.bind_eq_bind, Option.bind_some, List.foldlM_cons, hthrow s]
      rfl
  unfold verifyEd25519Signature rawPubKey
  rw [hloop]
  rfl

end VestingDripStream.Backend.AuthSignature
