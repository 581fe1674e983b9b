import VestingDripStream.Backend.Decoders

/-! # The readers of symbols

`decoder.ts` takes as many bytes of a symbol as its length field says; the worker and the two
backfills take everything behind that field and strip the padding and the spaces. Both give the
symbol back, as it has neither of them (`decodeSymbol_symbolText`). -/

namespace VestingDripStream.Backend.Symbols

open VestingDripStream.Lib VestingDripStream.Lib.Xdr
open VestingDripStream.Backend.Decoder VestingDripStream.Backend.Decoders

/-- A character of a symbol. -/
def IsSymbolChar (c : Char) : Prop :=
  (48 ≤ c.toNat ∧ c.toNat ≤ 57) ∨ (65 ≤ c.toNat ∧ c.toNat ≤ 90) ∨ (97 ≤ c.toNat ∧ c.toNat ≤ 122) ∨
    c = '_'

instance (c : Char) : Decidable (IsSymbolChar c) := by unfold IsSymbolChar; infer_instance

/-- A symbol, whose length has a length field of four bytes. -/
structure Symbol where
  text : String
  nonempty : text ≠ ""
  chars : ∀ c ∈ text.toList, IsSymbolChar c
  fits : text.toList.length < 2 ^ 32

/-- The symbol behind a tag and its length, and padded with zeros. -/
def symbolText (tag : List UInt8) (s : Symbol) : String :=
  Base64.encode (tag ++ opaqueVar (Utf8.encode s.text))

/-! ### The characters -/

theorem IsSymbolChar.toNat_bounds {c : Char} (h : IsSymbolChar c) :
    48 ≤ c.toNat ∧ c.toNat ≤ 122 := by
  unfold IsSymbolChar at h
  rcases h with h | h | h | rfl
  · omega
  · omega
  · omega
  · decide

theorem IsSymbolChar.isAscii {c : Char} (h : IsSymbolChar c) : Utf8.IsAscii c := by
  have hbounds := h.toNat_bounds
  unfold Utf8.IsAscii
  omega

theorem IsSymbolChar.not_isSpace {c : Char} (h : IsSymbolChar c) : isSpace c = false := by
  have hbounds := h.toNat_bounds
  unfold isSpace
  simp only [List.mem_cons, List.not_mem_nil, or_false, decide_eq_false_iff_not]
  omega

/-! ### The text -/

/-- A text without white space is not trimmed. -/
theorem trim_eq_self {s : String} (h : ∀ c ∈ s.toList, isSpace c = false) : trim s = s := by
  have hleft : s.toList.dropWhile isSpace = s.toList := by
    rw [List.dropWhile_eq_self_iff]
    intro hlen
    rw [h _ (List.getElem_mem hlen)]
    exact Bool.false_ne_true
  have hright : s.toList.rdropWhile isSpace = s.toList := by
    rw [List.rdropWhile_eq_self_iff]
    intro hne
    rw [h _ (List.getLast_mem hne)]
    exact Bool.false_ne_true
  unfold trim
  rw [hleft, hright, String.ofList_toList]

/-- Zero bytes behind an ASCII text are characters of their own. -/
theorem decode_padded {s : String} (h : ∀ c ∈ s.toList, Utf8.IsAscii c) (n : ℕ) :
    Utf8.decode (Utf8.encode s ++ List.replicate n 0) =
      String.ofList (s.toList ++ List.replicate n '\x00') := by
  have hnul : ∀ n : ℕ, (List.replicate n '\x00').flatMap String.utf8EncodeChar =
      List.replicate n 0 := by
    intro n
    induction n with
    | zero => rfl
    | succ n ih =>
      rw [List.replicate_succ, List.flatMap_cons, ih, List.replicate_succ]
      rfl
  have hencode : Utf8.encode s ++ List.replicate n 0 =
      Utf8.encode (String.ofList (s.toList ++ List.replicate n '\x00')) := by
    unfold Utf8.encode
    rw [String.toList_ofList, List.flatMap_append, hnul]
  rw [hencode]
  refine Utf8.decode_encode fun c hc => ?_
  rw [String.toList_ofList, List.mem_append] at hc
  rcases hc with hc | hc
  · exact h c hc
  · rw [List.eq_of_mem_replicate hc]
    decide

theorem withoutNul_padded {s : String} (h : ∀ c ∈ s.toList, c.toNat ≠ 0) (n : ℕ) :
    withoutNul (String.ofList (s.toList ++ List.replicate n '\x00')) = s := by
  have htext : s.toList.filter (fun c => c.toNat ≠ 0) = s.toList :=
    List.filter_eq_self.mpr fun c hc => decide_eq_true (h c hc)
  have hpad : (List.replicate n '\x00').filter (fun c => c.toNat ≠ 0) = [] :=
    List.filter_eq_nil_iff.mpr fun c hc => by rw [List.eq_of_mem_replicate hc]; decide
  unfold withoutNul
  rw [String.toList_ofList, List.filter_append, htext, hpad, List.append_nil, String.ofList_toList]

/-! ### The symbols -/

section Symbol

variable (s : Symbol) {tag : List UInt8}

theorem Symbol.ascii : ∀ c ∈ s.text.toList, Utf8.IsAscii c := fun c hc => (s.chars c hc).isAscii

theorem Symbol.length_encode : (Utf8.encode s.text).length = s.text.toList.length := by
  have hone : ∀ c ∈ s.text.toList, (String.utf8EncodeChar c).length = 1 := by
    intro c hc
    rw [Utf8.utf8EncodeChar_ascii (s.ascii c hc)]
    rfl
  unfold Utf8.encode
  rw [List.length_flatMap, List.map_congr_left hone, List.map_const', List.sum_replicate,
    smul_eq_mul, mul_one]

theorem Symbol.length_pos : 0 < s.text.toList.length := by
  rw [List.length_pos_iff]
  intro hnil
  exact s.nonempty (String.toList_eq_nil_iff.mp hnil)

theorem Symbol.readable : Readable s.text where
  ascii := s.ascii
  pos := by
    have hpos := s.length_pos
    rw [s.length_encode]
    omega
  fits := by
    have hfits := s.fits
    rw [s.length_encode]
    norm_num at hfits ⊢
    exact hfits

/-- Behind the first eight bytes stand the symbol and its padding. -/
theorem drop_symbolText (ht : tag.length = 4) :
    ∃ n, (Base64.decode (symbolText tag s)).drop 8 =
      Utf8.encode s.text ++ List.replicate n 0 := by
  unfold symbolText opaqueVar
  rw [Base64.decode_encode, List.append_assoc, ← List.append_assoc tag]
  exact ⟨_, List.drop_left' (by rw [List.length_append, ht, length_word])⟩

theorem decodeSymbolTail_symbolText (ht : tag.length = 4) :
    decodeSymbolTail (symbolText tag s) = s.text := by
  obtain ⟨n, hdrop⟩ := drop_symbolText s ht
  have hlong : 8 < (Base64.decode (symbolText tag s)).length := by
    have hlen := congrArg List.length hdrop
    have hpos := s.length_pos
    rw [List.length_drop, List.length_append, s.length_encode] at hlen
    omega
  have hnul : ∀ c ∈ s.text.toList, c.toNat ≠ 0 := fun c hc => by
    have := (s.chars c hc).toNat_bounds
    omega
  unfold decodeSymbolTail
  simp only [if_pos hlong]
  rw [hdrop, decode_padded s.ascii, withoutNul_padded hnul]
  exact trim_eq_self fun c hc => (s.chars c hc).not_isSpace

/-- A symbol is decoded to itself by the four readers. -/
theorem decodeSymbol_symbolText (ht : tag.length = 4) :
    Decoder.decodeSymbol (symbolText tag s) = s.text ∧
      Worker.decodeSymbol (symbolText tag s) = s.text ∧
      Backfill.decodeSymbol (symbolText tag s) = s.text ∧
      Script.decodeSymbol (symbolText tag s) = s.text := by
  have htail := decodeSymbolTail_symbolText s ht
  refine ⟨decodeSymbol_encoded ht s.readable, ?_, htail, htail⟩
  unfold Worker.decodeSymbol
  split_ifs with hempty
  · -- the empty text is no symbol's
    rw [hempty] at htail
    rw [← htail]
    rfl
  · exact htail

/-- A symbol of the contract. -/
def vcClaim : Symbol where
  text := "vc_claim"
  nonempty := by decide
  chars := by
    have hall : ("vc_claim".toList.all fun c => decide (IsSymbolChar c)) = true := by decide
    exact fun c hc => of_decide_eq_true (List.all_eq_true.mp hall c hc)
  fits := by decide

theorem decodeSymbol_symbolText_sample :
    Decoder.decodeSymbol (symbolText [0, 0, 0, 15] vcClaim) = "vc_claim" ∧
      Worker.decodeSymbol (symbolText [0, 0, 0, 15] vcClaim) = "vc_claim" ∧
      Backfill.decodeSymbol (symbolText [0, 0, 0, 15] vcClaim) = "vc_claim" ∧
      Script.decodeSymbol (symbolText [0, 0, 0, 15] vcClaim) = "vc_claim" :=
  decodeSymbol_symbolText vcClaim rfl

end Symbol

end VestingDripStream.Backend.Symbols
