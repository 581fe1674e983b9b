import VestingDripStream.Lib.BigEndian
import VestingDripStream.Lib.Utf8
import VestingDripStream.Lib.Base64

/-! # XDR of contract values

The `ScVal` union of the Stellar protocol, as far as contract events use it, and its XDR: a
discriminant of four bytes, integers big-endian, variable data with its length before it and zeros
behind it up to a multiple of four. -/

namespace VestingDripStream.Lib.Xdr

open VestingDripStream.Lib

/-- A key or a hash. -/
abbrev Bytes32 : Type := {l : List UInt8 // l.length = 32}

/-- `ScAddress`. -/
inductive ScAddress
  | account (key : Bytes32)
  | contract (hash : Bytes32)
  deriving DecidableEq

/-- `ScVal`. -/
inductive ScVal
  | void
  | u32 (n : UInt32)
  | i128 (v : ℤ)
  | bytes (l : List UInt8)
  | string (s : String)
  | symbol (s : String)
  | address (a : ScAddress)
  deriving DecidableEq

/-- The XDR of an integer discriminant or length. -/
def word (n : ℕ) : List UInt8 := BigEndian.bytes 4 n

/-- Variable data. -/
def opaqueVar (l : List UInt8) : List UInt8 :=
  word l.length ++ l ++ List.replicate ((4 - l.length % 4) % 4) 0

/-- The XDR of an address: the account is an Ed25519 public key. -/
def ScAddress.xdr : ScAddress → List UInt8
  | .account key => word 0 ++ word 0 ++ key.val
  | .contract hash => word 1 ++ hash.val

/-- The XDR of a value. -/
def ScVal.xdr : ScVal → List UInt8
  | .void => word 1
  | .u32 n => word 3 ++ word n.toNat
  | .i128 v => word 10 ++ BigEndian.ofInt 16 v
  | .bytes l => word 13 ++ opaqueVar l
  | .string s => word 14 ++ opaqueVar (Utf8.encode s)
  | .symbol s => word 15 ++ opaqueVar (Utf8.encode s)
  | .address a => word 18 ++ a.xdr

/-- The XDR as text. -/
def ScVal.text (v : ScVal) : String := Base64.encode v.xdr

@[simp] theorem length_word (n : ℕ) : (word n).length = 4 := BigEndian.length_bytes 4 n

theorem ScVal.xdr_ne_nil (v : ScVal) : v.xdr ≠ [] := by
  intro h
  have hlen := congrArg List.length h
  cases v <;> simp [ScVal.xdr] at hlen

theorem ScVal.text_ne_empty (v : ScVal) : v.text ≠ "" := Base64.encode_ne_empty v.xdr_ne_nil

/-- An address takes 40 or 44 bytes. -/
theorem length_xdr_address (a : ScAddress) :
    (ScVal.address a).xdr.length = 40 ∨ (ScVal.address a).xdr.length = 44 := by
  cases a with
  | account key =>
    right
    simp [ScVal.xdr, ScAddress.xdr, key.property]
  | contract hash =>
    left
    simp [ScVal.xdr, ScAddress.xdr, hash.property]

/-- As text, the address of a contract takes 56 characters and that of an account 60. -/
theorem length_text_address (a : ScAddress) :
    (ScVal.address a).text.length = match a with
      | .account _ => 60
      | .contract _ => 56 := by
  unfold ScVal.text
  rw [Base64.length_encode]
  cases a with
  | account key => simp [ScVal.xdr, ScAddress.xdr, key.property]
  | contract hash => simp [ScVal.xdr, ScAddress.xdr, hash.property]

end VestingDripStream.Lib.Xdr
