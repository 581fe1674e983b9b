import VestingDripStream.Lib.Hex

/-! # The signature of a webhook

`webhookValidator.js` compares the bytes of two hexadecimal texts. Reading a text stops at the first
pair of characters that is not of digits, so what stands behind the 64 digits of the digest is
passed over if it begins with no such pair (`verifySignature_eq_iff`). -/

namespace VestingDripStream.Backend.WebhookSignature

open VestingDripStream.Lib

/-- 32 bytes. -/
abbrev Digest : Type := {bytes : List UInt8 // bytes.length = 32}

variable {P : Type} (hmac : String → P → Digest)

/-- The hexadecimal digest; `none` when it throws. A value that is no string is `none`. -/
def computeSignature (payload : P) (secret : Option String) : Option (List Char) :=
  match secret with
  | none => none
  | some secret => if secret.length = 0 then none else some (Hex.encode (hmac secret payload))

/-- `verifySignature`: the digests are compared as the bytes that their texts are decoded to. -/
def verifySignature (payload : P) (signature secret : Option String) : Bool :=
  match signature with
  | none => false
  | some signature =>
    if signature.length = 0 then false
    else
      match computeSignature hmac payload secret with
      | none => false
      | some expected =>
        let a := Hex.decode expected
        let b := Hex.decode signature.toList
        if a.length ≠ b.length then false else a = b

/-! ### What is accepted -/

/-- The signature is the text of the digest, in either case, and the secret is a nonempty string. -/
def Authentic (payload : P) (signature secret : Option String) : Prop :=
  ∃ s text, secret = some s ∧ s ≠ "" ∧ signature = some text ∧
    text.toList.map Char.toLower = Hex.encode (hmac s payload)

/-- The signature is that text with more behind it, which does not begin with two digits. -/
def Overlong (payload : P) (signature secret : Option String) : Prop :=
  ∃ s text written rest, secret = some s ∧ s ≠ "" ∧ signature = some text ∧
    text.toList = written ++ rest ∧ written.map Char.toLower = Hex.encode (hmac s payload) ∧
    rest ≠ [] ∧ Hex.NoPair rest

variable {hmac} {payload : P} {signature secret : Option String}

theorem length_encode_digest (d : Digest) : (Hex.encode d.val).length = 64 := by
  rw [Hex.length_encode, d.property]

/-- **Acceptance** is decided on the bytes of the signature. -/
theorem verifySignature_eq_true_iff : verifySignature hmac payload signature secret = true ↔
    ∃ s text, secret = some s ∧ s ≠ "" ∧ signature = some text ∧
      Hex.decode text.toList = (hmac s payload).val := by
  unfold verifySignature computeSignature
  constructor
  · intro h
    split at h
    · exact absurd h Bool.false_ne_true
    rename_i text
    split_ifs at h with hempty
    split at h
    · exact absurd h Bool.false_ne_true
    rename_i expected hexpected
    split at hexpected
    · exact absurd hexpected.symm (Option.some_ne_none _)
    rename_i s
    split_ifs at hexpected with hs
    obtain rfl := Option.some.inj hexpected
    dsimp only at h
    split_ifs at h
    rw [Hex.decode_encode] at h
    refine ⟨s, text, rfl, ?_, rfl, (of_decide_eq_true h).symm⟩
    rintro rfl
    exact hs rfl
  · rintro ⟨s, text, rfl, hs, rfl, hdecode⟩
    have hlen : s.length ≠ 0 := fun h => hs (String.length_eq_zero_iff.mp h)
    have htext : text.length ≠ 0 := by
      intro h
      rw [String.length_eq_zero_iff.mp h] at hdecode
      have hd := (hmac s payload).property
      rw [← hdecode] at hd
      exact absurd hd (by decide)
    simp [hlen, htext, Hex.decode_encode, hdecode]

/-- The two ways in which a signature is accepted. -/
theorem verifySignature_split : verifySignature hmac payload signature secret = true ↔
    Authentic hmac payload signature secret ∨ Overlong hmac payload signature secret := by
  rw [verifySignature_eq_true_iff]
  constructor
  · rintro ⟨s, text, hsecret, hs, hsignature, hdecode⟩
    obtain ⟨written, rest, htext, hwritten, hno⟩ := Hex.decode_eq_iff.mp hdecode
    by_cases hrest : rest = []
    · left
      rw [hrest, List.append_nil] at htext
      exact ⟨s, text, hsecret, hs, hsignature, htext ▸ hwritten⟩
    · exact Or.inr ⟨s, text, written, rest, hsecret, hs, hsignature, htext, hwritten, hrest, hno⟩
  · rintro (⟨s, text, hsecret, hs, hsignature, htext⟩ | ⟨s, text, written, rest, hsecret, hs,
      hsignature, htext, hwritten, -, hno⟩)
    · refine ⟨s, text, hsecret, hs, hsignature, Hex.decode_eq_iff.mpr ?_⟩
      exact ⟨text.toList, [], (List.append_nil _).symm, htext, Hex.noPair_of_length (by decide)⟩
    · exact ⟨s, text, hsecret, hs, hsignature,
        Hex.decode_eq_iff.mpr ⟨written, rest, htext, hwritten, hno⟩⟩

/-- A signature is not both: the second is longer than 64 characters. -/
theorem not_authentic_of_overlong (h : Overlong hmac payload signature secret) :
    ¬ Authentic hmac payload signature secret := by
  rintro ⟨s', text', hsecret', -, hsignature', htext'⟩
  obtain ⟨s, text, written, rest, hsecret, -, hsignature, htext, hwritten, hrest, -⟩ := h
  obtain rfl := Option.some.inj (hsecret.symm.trans hsecret')
  obtain rfl := Option.some.inj (hsignature.symm.trans hsignature')
  have hwhole := congrArg List.length htext'
  have hfirst := congrArg List.length hwritten
  have hpos := List.length_pos_iff.mpr hrest
  rw [htext, List.length_map, List.length_append] at hwhole
  rw [List.length_map] at hfirst
  omega

/-- **The signatures that are accepted** are those of the payload, except for the overlong ones. -/
theorem verifySignature_eq_iff {P : Type} (hmac : String → P → Digest) (payload : P)
    (signature secret : Option String) :
    (verifySignature hmac payload signature secret = true ↔
        Authentic hmac payload signature secret) ↔
      ¬ Overlong hmac payload signature secret := by
  rw [verifySignature_split]
  constructor
  · intro h hover
    exact not_authentic_of_overlong hover (h.mp (Or.inr hover))
  · intro hnot
    exact ⟨fun h => h.resolve_right hnot, Or.inl⟩

/-- The digest in hexadecimal with two more letters. -/
theorem overlong_accepted :
    ¬ ∀ (hmac : String → String → Digest) (payload : String) (signature secret : Option String),
      verifySignature hmac payload signature secret = true ↔
        Authentic hmac payload signature secret := by
  intro hall
  let hmac : String → String → Digest := fun _ _ => ⟨List.replicate 32 0, List.length_replicate⟩
  let text := String.ofList (List.replicate 64 '0' ++ ['z', 'z'])
  have haccepted : verifySignature hmac "body" (some text) (some "secret") = true := by
    decide +kernel
  obtain ⟨s, text', -, -, hsignature, htext⟩ := (hall hmac _ _ _).mp haccepted
  obtain rfl := Option.some.inj hsignature
  have hlength := congrArg List.length htext
  rw [length_encode_digest, List.length_map] at hlength
  exact absurd hlength (by decide +kernel)

end VestingDripStream.Backend.WebhookSignature
