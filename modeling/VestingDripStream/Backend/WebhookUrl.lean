import VestingDripStream.Lib.Patterns
import VestingDripStream.Lib.UrlHost

/-! # The address filter of webhooks

`isPrivateIp` of `webhookValidator.js` tells private addresses by how the host begins as a text.
That is exact for IPv4 addresses. Domains that begin like one of them are refused as well, an IPv6
address whose first group is written with fewer than four digits is taken for another one, and the
filter knows one group of `fe80::/10` and no IPv4 address that is written as an IPv6 address
(`isPrivateIp_exact_iff`). Texts are lists of characters. -/

namespace VestingDripStream.Backend.WebhookUrl

open VestingDripStream.Lib.Patterns VestingDripStream.Lib.UrlHost VestingDripStream.Lib.Numerals

/-- `/^.../`. -/
def starts (groups : List Group) : RegExp := ⟨groups, false, false⟩

/-- `PRIVATE_IPV4_PATTERNS`. -/
def privateIpv4Patterns : List RegExp :=
  [starts [lit "127."], starts [lit "10."],
    -- `172\.(1[6-9]|2\d|3[01])\.`
    starts [lit "172.", [["1".toList, "6789".toList], ["2".toList, digit],
      ["3".toList, "01".toList]], lit "."],
    starts [lit "192.168."], starts [lit "169.254."], starts [lit "0."],
    -- `100\.(6[4-9]|[7-9]\d|1[01]\d|12[0-7])\.`
    starts [lit "100.", [["6".toList, "456789".toList], ["789".toList, digit],
      ["1".toList, "01".toList, digit], ["1".toList, "2".toList, "01234567".toList]], lit "."]]

/-- `PRIVATE_IPV6_PATTERNS`. -/
def privateIpv6Patterns : List RegExp :=
  [⟨[lit "::1"], true, false⟩, ⟨[lit "fc"], false, true⟩, ⟨[lit "fd"], false, true⟩,
    ⟨[lit "fe80"], false, true⟩]

/-- A character that `.` does not match. -/
def isLineTerminator (c : Char) : Bool := c.toNat ∈ [10, 13, 0x2028, 0x2029]

/-- `host.replace(/^\[(.+)\]$/, "$1")`. -/
def stripBrackets (host : List Char) : List Char :=
  match host with
  | '[' :: rest =>
    let inner := rest.dropLast
    if rest.getLast? = some ']' ∧ inner ≠ [] ∧ ¬ inner.any isLineTerminator then inner else host
  | _ => host

/-- `isPrivateIp`: one of the patterns matches the host without its brackets. -/
def isPrivateIp (host : List Char) : Bool :=
  let h := stripBrackets host
  privateIpv4Patterns.any (fun re => re.test h) || privateIpv6Patterns.any (fun re => re.test h)

/-- What `new URL` gives. -/
structure Url where
  protocol : String
  hostname : List Char

/-- What `validateWebhookUrl` returns. -/
structure Verdict where
  valid : Bool
  reason : Option String
  deriving DecidableEq

/-- The reason given for a private address. -/
def privateReason : String := "Webhook URL must not target a private or loopback IP address"

variable (parse : String → Option Url)

/-- `validateWebhookUrl`. -/
def validateWebhookUrl (raw : String) : Verdict :=
  match parse raw with
  | none => ⟨false, some "URL is not valid"⟩
  | some parsed =>
    if parsed.protocol ≠ "https:" then ⟨false, some "Webhook URL must use HTTPS"⟩
    else if parsed.hostname = [] then ⟨false, some "URL has no hostname"⟩
    else if isPrivateIp parsed.hostname then ⟨false, some privateReason⟩
    else if parsed.hostname.map Char.toLower = "localhost".toList then
      ⟨false, some "Webhook URL must not target localhost"⟩
    else ⟨true, none⟩

/-- `/^\d+\.\d+\.\d+\.\d+$/`, or a bracket. -/
def isIpLiteral (hostname : List Char) : Bool :=
  let labels := hostname.splitOn '.'
  (labels.length = 4 && labels.all fun l => l ≠ [] && l.all Char.isDigit) ||
    hostname.head? = some '['

/-- With the name looked up; `none` if that fails. -/
def validateWebhookUrlDeep (resolve : List Char → Option (List (List Char))) (raw : String) :
    Verdict :=
  let sync := validateWebhookUrl parse raw
  match sync.valid, parse raw with
  | true, some parsed =>
    if isIpLiteral parsed.hostname then sync
    else
      match (resolve parsed.hostname).bind fun addresses => addresses.find? isPrivateIp with
      | some addr =>
        let addr := String.ofList addr
        ⟨false, some s!"Hostname resolves to a private IP address ({addr})"⟩
      | none => ⟨true, none⟩
  | _, _ => sync

/-- The deep check accepts what the other one accepts, unless the name resolves to a private
address. -/
theorem validateWebhookUrlDeep_valid_iff (resolve : List Char → Option (List (List Char)))
    (raw : String) :
    (validateWebhookUrlDeep parse resolve raw).valid = true ↔
      (validateWebhookUrl parse raw).valid = true ∧
        ∀ parsed, parse raw = some parsed → isIpLiteral parsed.hostname = false →
          ∀ addresses, resolve parsed.hostname = some addresses →
            ∀ addr ∈ addresses, isPrivateIp addr = false := by
  unfold validateWebhookUrlDeep
  cases hparse : parse raw with
  | none => simp [validateWebhookUrl, hparse]
  | some parsed =>
    cases hsync : (validateWebhookUrl parse raw).valid with
    | false => simp [hsync]
    | true =>
      cases hliteral : isIpLiteral parsed.hostname with
      | true => simp [hsync, hliteral]
      | false =>
        cases hresolve : resolve parsed.hostname with
        | none => simp [hsync, hliteral, hresolve]
        | some addresses =>
          cases hfind : addresses.find? isPrivateIp with
          | none =>
            have hpublic := List.find?_eq_none.mp hfind
            simp only [Bool.not_eq_true] at hpublic
            simpa [hsync, hliteral, hresolve, hfind] using hpublic
          | some addr =>
            have hmem := List.mem_of_find?_eq_some hfind
            have hprivate := List.find?_some hfind
            simp only [hsync, hliteral, hresolve, Option.bind_some, hfind]
            refine ⟨fun h => absurd h Bool.false_ne_true, fun h => ?_⟩
            have hpublic := h.2 parsed rfl hliteral addresses hresolve addr hmem
            rw [hprivate] at hpublic
            exact absurd hpublic.symm Bool.false_ne_true

/-! ### Private hosts -/

/-- `127/8`, `10/8`, `172.16/12`, `192.168/16`, `169.254/16`, `0/8` and `100.64/10`. -/
def ipv4Blocks : List Block :=
  [⟨127 * 2 ^ 24, 8⟩, ⟨10 * 2 ^ 24, 8⟩, ⟨172 * 2 ^ 24 + 16 * 2 ^ 16, 12⟩,
    ⟨192 * 2 ^ 24 + 168 * 2 ^ 16, 16⟩, ⟨169 * 2 ^ 24 + 254 * 2 ^ 16, 16⟩, ⟨0, 8⟩,
    ⟨100 * 2 ^ 24 + 64 * 2 ^ 16, 10⟩]

/-- `::1`, `fc00::/7` and `fe80::/10`. -/
def ipv6Blocks : List Block := [⟨1, 128⟩, ⟨0xfc00 * 2 ^ 112, 7⟩, ⟨0xfe80 * 2 ^ 112, 10⟩]

/-- The address is in one of the IPv4 blocks. -/
def PrivateIpv4 (ip : Ipv4) : Prop := ∃ block ∈ ipv4Blocks, InBlock 32 ip.toNat block

/-- The host is an address in one of the blocks. -/
def Private : Host → Prop
  | .ipv4 ip => PrivateIpv4 ip
  | .ipv6 ip => (∃ block ∈ ipv6Blocks, InBlock 128 ip.toNat block) ∨
    ∃ ip4, ip.mapped = some ip4 ∧ PrivateIpv4 ip4
  | .domain _ => False

/-! ### The patterns as prefixes -/

/-- The first numbers that are private whatever follows, and the pairs of numbers. -/
def firstNumbers : List ℕ := [127, 10, 0]

/-- The private beginnings of two numbers. -/
def firstPairs : List (ℕ × ℕ) :=
  [(192, 168), (169, 254)] ++ (List.range' 16 16).map (fun n => (172, n)) ++
    (List.range' 64 64).map fun n => (100, n)

/-- The beginnings of private IPv4 addresses. -/
def ipv4Prefixes : List (List Char) :=
  firstNumbers.map (fun n => decimal n ++ ['.']) ++
    firstPairs.map fun p => decimal p.1 ++ '.' :: (decimal p.2 ++ ['.'])

/-- The patterns for IPv4 addresses are these prefixes. -/
theorem mem_words_iff {w : List Char} :
    (∃ re ∈ privateIpv4Patterns, w ∈ words re.groups) ↔ w ∈ ipv4Prefixes := by
  have hsame : (privateIpv4Patterns.flatMap fun re => words re.groups).all
      (fun w => w ∈ ipv4Prefixes) = true ∧ ipv4Prefixes.all
      (fun w => w ∈ privateIpv4Patterns.flatMap fun re => words re.groups) = true := by
    decide +kernel
  rw [← List.mem_flatMap]
  constructor
  · intro h
    exact of_decide_eq_true (List.all_eq_true.mp hsame.1 w h)
  · intro h
    exact of_decide_eq_true (List.all_eq_true.mp hsame.2 w h)

/-- **The filter** on a text in lower case without brackets. -/
theorem isPrivateIp_iff {host h : List Char} (hstrip : stripBrackets host = h)
    (hlower : ∀ c ∈ h, c.isUpper = false) : isPrivateIp host = true ↔
      (∃ p ∈ ipv4Prefixes, p <+: h) ∨ h = "::1".toList ∨ "fc".toList <+: h ∨
        "fd".toList <+: h ∨ "fe80".toList <+: h := by
  have hsame : h.map Char.toLower = h := by
    refine (List.map_congr_left fun c hc => ?_).trans (List.map_id h)
    exact dif_neg (of_decide_eq_false (hlower c hc))
  have h4 : privateIpv4Patterns.any (fun re => re.test h) = true ↔ ∃ p ∈ ipv4Prefixes, p <+: h := by
    have hflags : ∀ re ∈ privateIpv4Patterns, re.toEnd = false ∧ re.ignoreCase = false := by
      simp [privateIpv4Patterns, starts]
    rw [List.any_eq_true]
    constructor
    · rintro ⟨re, hre, htest⟩
      obtain ⟨hend, hcase⟩ := hflags re hre
      rw [test_start_iff hend, hcase] at htest
      obtain ⟨w, hw, hstart⟩ := htest
      exact ⟨w, mem_words_iff.mp ⟨re, hre, hw⟩, hstart⟩
    · rintro ⟨w, hw, hstart⟩
      obtain ⟨re, hre, hword⟩ := mem_words_iff.mpr hw
      obtain ⟨hend, hcase⟩ := hflags re hre
      refine ⟨re, hre, (test_start_iff hend).mpr ⟨w, hword, ?_⟩⟩
      rw [hcase]
      exact hstart
  have h6 : privateIpv6Patterns.any (fun re => re.test h) = true ↔ h = "::1".toList ∨
      "fc".toList <+: h ∨ "fd".toList <+: h ∨ "fe80".toList <+: h := by
    unfold privateIpv6Patterns
    rw [List.any_cons, List.any_cons, List.any_cons, List.any_cons, List.any_nil, Bool.or_false,
      Bool.or_eq_true, Bool.or_eq_true, Bool.or_eq_true, test_whole_iff rfl, test_start_iff rfl,
      test_start_iff rfl, test_start_iff rfl, if_pos rfl, hsame]
    simp only [words_lit, List.mem_singleton, exists_eq_left, Bool.false_eq_true, if_false]
  unfold isPrivateIp
  dsimp only
  rw [hstrip, Bool.or_eq_true, h4, h6]

/-! ### IPv4 addresses -/

theorem mem_firstPairs_iff {a b : ℕ} : (a, b) ∈ firstPairs ↔ (a = 192 ∧ b = 168) ∨
    (a = 169 ∧ b = 254) ∨ (a = 172 ∧ 16 ≤ b ∧ b < 32) ∨ (a = 100 ∧ 64 ≤ b ∧ b < 128) := by
  unfold firstPairs
  simp only [List.mem_append, List.mem_cons, Prod.mk.injEq, List.not_mem_nil, or_false,
    List.mem_map, List.mem_range'_1]
  constructor
  · rintro ((h | ⟨n, hn, rfl, rfl⟩) | ⟨n, hn, rfl, rfl⟩) <;> omega
  · rintro (h | h | h | h)
    · exact Or.inl (Or.inl (Or.inl h))
    · exact Or.inl (Or.inl (Or.inr h))
    · exact Or.inl (Or.inr ⟨b, by omega, h.1.symm, rfl⟩)
    · exact Or.inr ⟨b, by omega, h.1.symm, rfl⟩

/-- The first sixteen bits are the first two numbers. -/
theorem toNat_div (ip : Ipv4) : ip.toNat / 2 ^ 16 = ip.a.toNat * 2 ^ 8 + ip.b.toNat := by
  have hc := ip.c.toNat_lt
  have hd := ip.d.toNat_lt
  unfold Ipv4.toNat
  omega

/-- A block of at most sixteen bits is about the first two numbers. -/
theorem inBlock_iff (ip : Ipv4) {block : Block} (h : block.bits ≤ 16) :
    InBlock 32 ip.toNat block ↔
      (ip.a.toNat * 2 ^ 8 + ip.b.toNat) / 2 ^ (16 - block.bits) =
        block.base / 2 ^ 16 / 2 ^ (16 - block.bits) := by
  have hsplit : 2 ^ (32 - block.bits) = 2 ^ 16 * 2 ^ (16 - block.bits) := by
    rw [← pow_add]
    congr 1
    omega
  unfold InBlock
  rw [hsplit, ← Nat.div_div_eq_div_mul, ← Nat.div_div_eq_div_mul, toNat_div]

/-- The blocks by the first two numbers. -/
theorem privateIpv4_iff (ip : Ipv4) : PrivateIpv4 ip ↔
    ip.a.toNat ∈ firstNumbers ∨ (ip.a.toNat, ip.b.toNat) ∈ firstPairs := by
  have hb := ip.b.toNat_lt
  have hbits : ∀ block ∈ ipv4Blocks, block.bits ≤ 16 := by decide
  have hblocks : PrivateIpv4 ip ↔ ∃ block ∈ ipv4Blocks,
      (ip.a.toNat * 2 ^ 8 + ip.b.toNat) / 2 ^ (16 - block.bits) =
        block.base / 2 ^ 16 / 2 ^ (16 - block.bits) :=
    exists_congr fun block => and_congr_right fun hmem => inBlock_iff ip (hbits block hmem)
  rw [hblocks, mem_firstPairs_iff]
  generalize ip.a.toNat = a
  generalize ip.b.toNat = b at hb
  have hnumber : ∀ n, (a * 2 ^ 8 + b) / 2 ^ (16 - 8) = n * 2 ^ 24 / 2 ^ 16 / 2 ^ (16 - 8) ↔
      a = n := by
    intro n
    omega
  have hzero : (a * 2 ^ 8 + b) / 2 ^ (16 - 8) = 0 / 2 ^ 16 / 2 ^ (16 - 8) ↔ a = 0 := by omega
  have hpair : ∀ m n, n < 2 ^ 8 → ((a * 2 ^ 8 + b) / 2 ^ (16 - 16) =
      (m * 2 ^ 24 + n * 2 ^ 16) / 2 ^ 16 / 2 ^ (16 - 16) ↔ a = m ∧ b = n) := by
    intro m n hn
    omega
  have h172 : (a * 2 ^ 8 + b) / 2 ^ (16 - 12) =
      (172 * 2 ^ 24 + 16 * 2 ^ 16) / 2 ^ 16 / 2 ^ (16 - 12) ↔ a = 172 ∧ 16 ≤ b ∧ b < 32 := by
    omega
  have h100 : (a * 2 ^ 8 + b) / 2 ^ (16 - 10) =
      (100 * 2 ^ 24 + 64 * 2 ^ 16) / 2 ^ 16 / 2 ^ (16 - 10) ↔ a = 100 ∧ 64 ≤ b ∧ b < 128 := by
    omega
  unfold ipv4Blocks firstNumbers
  simp only [List.mem_cons, List.not_mem_nil, or_false, exists_eq_or_imp, exists_eq_left, hnumber,
    hzero, hpair 192 168 (by decide), hpair 169 254 (by decide), h172, h100]
  omega

theorem decimal_injective : Function.Injective decimal :=
  toDigits_injective (by decide) (by decide)

/-- A prefix says what the first two numbers are. -/
theorem prefix_text_iff (ip : Ipv4) : (∃ p ∈ ipv4Prefixes, p <+: ip.text) ↔
    ip.a.toNat ∈ firstNumbers ∨ (ip.a.toNat, ip.b.toNat) ∈ firstPairs := by
  have hone : ∀ n, decimal n ++ ['.'] <+: ip.text ↔ n = ip.a.toNat := by
    intro n
    unfold Ipv4.text
    rw [append_cons_prefix_iff (dot_not_mem_decimal n) (dot_not_mem_decimal _)]
    exact ⟨fun h => decimal_injective h.1, fun h => ⟨by rw [h], List.nil_prefix⟩⟩
  have htwo : ∀ m n, decimal m ++ '.' :: (decimal n ++ ['.']) <+: ip.text ↔
      m = ip.a.toNat ∧ n = ip.b.toNat := by
    intro m n
    unfold Ipv4.text
    rw [append_cons_prefix_iff (dot_not_mem_decimal m) (dot_not_mem_decimal _),
      append_cons_prefix_iff (dot_not_mem_decimal n) (dot_not_mem_decimal _)]
    constructor
    · rintro ⟨hm, hn, -⟩
      exact ⟨decimal_injective hm, decimal_injective hn⟩
    · rintro ⟨rfl, rfl⟩
      exact ⟨rfl, rfl, List.nil_prefix⟩
  unfold ipv4Prefixes
  constructor
  · rintro ⟨p, hp, hstart⟩
    rcases List.mem_append.mp hp with hp | hp
    · obtain ⟨n, hn, rfl⟩ := List.mem_map.mp hp
      exact Or.inl ((hone n).mp hstart ▸ hn)
    · obtain ⟨⟨m, n⟩, hmn, rfl⟩ := List.mem_map.mp hp
      obtain ⟨rfl, rfl⟩ := (htwo m n).mp hstart
      exact Or.inr hmn
  · rintro (h | h)
    · exact ⟨_, List.mem_append_left _ (List.mem_map_of_mem h), (hone _).mpr rfl⟩
    · exact ⟨_, List.mem_append_right _ (List.mem_map_of_mem h), (htwo _ _).mpr ⟨rfl, rfl⟩⟩

/-- The first character of an IPv4 address is a digit. -/
theorem exists_digit (ip : Ipv4) : ∃ c t, ip.text = c :: t ∧ c.isDigit = true := by
  obtain ⟨c, rest, hdecimal⟩ := List.exists_cons_of_length_pos
    (Nat.length_toDigits_pos (b := 10) (n := ip.a.toNat))
  refine ⟨c, _, congrArg (· ++ _) hdecimal, isDigit_decimal (n := ip.a.toNat) ?_⟩
  rw [decimal, hdecimal]
  exact List.mem_cons_self

/-- **IPv4 addresses** are told exactly. -/
theorem isPrivateIp_ipv4 (ip : Ipv4) : isPrivateIp ip.text = true ↔ PrivateIpv4 ip := by
  obtain ⟨c, t, htext, hdigit⟩ := exists_digit ip
  have hstrip : stripBrackets ip.text = ip.text := by
    rw [htext]
    unfold stripBrackets
    split
    · rename_i heq
      obtain ⟨rfl, -⟩ := List.cons.inj heq
      exact absurd hdigit (by decide)
    · rfl
  have hlower : ∀ c ∈ ip.text, c.isUpper = false := fun _ => Ipv4.isUpper_text
  have hfirst : ∀ d w, d.isDigit = false → ¬ (d :: w) <+: ip.text := by
    intro d w hd hstart
    rw [htext, List.cons_prefix_cons] at hstart
    rw [hstart.1, hdigit] at hd
    exact Bool.noConfusion hd
  rw [isPrivateIp_iff hstrip hlower, prefix_text_iff, privateIpv4_iff]
  refine or_iff_left ?_
  rintro (h | h | h | h)
  · rw [htext] at h
    obtain ⟨rfl, -⟩ := List.cons.inj h
    exact absurd hdigit (by decide)
  · exact hfirst 'f' ['c'] (by decide) h
  · exact hfirst 'f' ['d'] (by decide) h
  · exact hfirst 'f' ['e', '8', '0'] (by decide) h

/-! ### IPv6 addresses -/

/-- The first group. -/
def first (ip : Ipv6) : ℕ := (ip.groups.headD 0).toNat

/-- The loopback address. -/
def loopback : List UInt16 := [0, 0, 0, 0, 0, 0, 0, 1]

theorem dot_mem_of_mem_prefixes {p : List Char} (h : p ∈ ipv4Prefixes) : '.' ∈ p := by
  rcases List.mem_append.mp h with h | h
  · obtain ⟨n, -, rfl⟩ := List.mem_map.mp h
    exact List.mem_append_right _ List.mem_cons_self
  · obtain ⟨p, -, rfl⟩ := List.mem_map.mp h
    exact List.mem_append_right _ List.mem_cons_self

theorem groups_eq_cons (ip : Ipv6) : ∃ g groups, ip.groups = g :: groups ∧ first ip = g.toNat := by
  obtain ⟨g, groups, hgroups⟩ := List.exists_cons_of_length_eq_add_one ip.length_eq
  refine ⟨g, groups, hgroups, ?_⟩
  unfold first
  rw [hgroups, List.headD_cons]

/-- **A beginning of an IPv6 address** is one of its first group. -/
theorem prefix_ipv6_iff (ip : Ipv6) {m : ℕ} (hm : 0 < m) :
    Nat.toDigits 16 m <+: ip.text ↔ ∃ k, first ip / 16 ^ k = m := by
  obtain ⟨g, groups, hgroups, hfirst⟩ := groups_eq_cons ip
  have hcolon : ':' ∉ Nat.toDigits 16 m := by
    intro h
    obtain ⟨d, hd, heq⟩ := mem_toDigits_hex h
    have hall : ∀ d : Fin 16, ':' ≠ d.val.digitChar := by decide
    exact hall ⟨d, hd⟩ heq
  rw [hfirst]
  rcases ip.text_start hgroups with ⟨n, hn, htake, htext⟩ | ⟨t, htext⟩
  · have hzero : g = 0 := by
      rw [hgroups] at htake
      cases n with
      | zero => omega
      | succ n => exact (List.cons.inj htake).1
    refine iff_of_false (fun h => ?_) ?_
    · obtain ⟨c, rest, hdigits⟩ := List.exists_cons_of_length_pos
        (Nat.length_toDigits_pos (b := 16) (n := m))
      rw [hdigits, htext, List.cons_prefix_cons] at h
      rw [hdigits, h.1] at hcolon
      exact hcolon List.mem_cons_self
    · rintro ⟨k, hk⟩
      have hnone : (0 : UInt16).toNat / 16 ^ k = 0 := Nat.zero_div _
      rw [hzero, hnone] at hk
      omega
  · rw [htext, prefix_append_cons_iff hcolon]
    exact toDigits_prefix_iff (by decide) (by decide) hm

/-- A number that begins with two digits of base sixteen. -/
theorem exists_div_iff {n m : ℕ} (hn : n < 16 ^ 4) (hm : 16 ≤ m) :
    (∃ k, n / 16 ^ k = m) ↔ n = m ∨ n / 16 = m ∨ n / 256 = m := by
  constructor
  · rintro ⟨k, hk⟩
    match k with
    | 0 => exact Or.inl (by omega)
    | 1 => exact Or.inr (Or.inl (by omega))
    | 2 => exact Or.inr (Or.inr (by omega))
    | k + 3 =>
      have hle : 16 ^ 3 ≤ 16 ^ (k + 3) := Nat.pow_le_pow_right (by decide) (by omega)
      have hdiv : n / 16 ^ (k + 3) ≤ n / 16 ^ 3 := Nat.div_le_div_left hle (by decide)
      omega
  · rintro (h | h | h)
    · exact ⟨0, by omega⟩
    · exact ⟨1, by omega⟩
    · exact ⟨2, by omega⟩

theorem first_lt (ip : Ipv6) : first ip < 16 ^ 4 := (ip.groups.headD 0).toNat_lt

theorem stripBrackets_ipv6 (ip : Ipv6) : stripBrackets (Host.ipv6 ip).text = ip.text := by
  obtain ⟨g, groups, hgroups, -⟩ := groups_eq_cons ip
  have hne : ip.text ≠ [] := by
    rcases ip.text_start hgroups with ⟨n, -, -, htext⟩ | ⟨t, htext⟩
    · rw [htext]
      exact List.cons_ne_nil _ _
    · rw [htext]
      exact List.append_ne_nil_of_right_ne_nil _ (List.cons_ne_nil _ _)
  have hline : ¬ ip.text.any isLineTerminator = true := by
    rw [List.any_eq_true]
    rintro ⟨c, hc, hterminator⟩
    rcases Ipv6.mem_text hc with rfl | ⟨g, h⟩
    · exact absurd hterminator (by decide)
    · obtain ⟨d, hd, rfl⟩ := mem_toDigits_hex h
      have hall : ∀ d : Fin 16, isLineTerminator d.val.digitChar = false := by decide
      rw [hall ⟨d, hd⟩] at hterminator
      exact Bool.false_ne_true hterminator
  have hinner : (ip.text ++ [']']).dropLast = ip.text := List.dropLast_concat
  have hlast : (ip.text ++ [']']).getLast? = some ']' := List.getLast?_concat
  show (if (ip.text ++ [']']).getLast? = some ']' ∧ (ip.text ++ [']']).dropLast ≠ [] ∧
    ¬ (ip.text ++ [']']).dropLast.any isLineTerminator = true then (ip.text ++ [']']).dropLast
    else _) = ip.text
  rw [hinner, if_pos ⟨hlast, hne, hline⟩]

/-- What the filter takes for private. -/
theorem isPrivateIp_ipv6 (ip : Ipv6) : isPrivateIp (Host.ipv6 ip).text = true ↔
    ip.groups = loopback ∨ first ip = 0xfc ∨ first ip = 0xfd ∨
      (0xfc0 ≤ first ip ∧ first ip ≤ 0xfdf) ∨ (0xfc00 ≤ first ip ∧ first ip ≤ 0xfdff) ∨
      first ip = 0xfe80 := by
  have hlt := first_lt ip
  have hfc : "fc".toList = Nat.toDigits 16 0xfc := by decide
  have hfd : "fd".toList = Nat.toDigits 16 0xfd := by decide
  have hfe80 : "fe80".toList = Nat.toDigits 16 0xfe80 := by decide
  have hnone : ¬ ∃ p ∈ ipv4Prefixes, p <+: ip.text := by
    rintro ⟨p, hp, hstart⟩
    exact ip.dot_not_mem_text (hstart.subset (dot_mem_of_mem_prefixes hp))
  rw [isPrivateIp_iff (stripBrackets_ipv6 ip) fun _ => Ipv6.isUpper_text, or_iff_right hnone,
    ip.text_eq_loopback_iff, hfc, hfd, hfe80, prefix_ipv6_iff ip (by decide),
    prefix_ipv6_iff ip (by decide), prefix_ipv6_iff ip (by decide),
    exists_div_iff hlt (by decide), exists_div_iff hlt (by decide), exists_div_iff hlt (by decide)]
  unfold loopback
  refine or_congr_right ?_
  omega

/-- The blocks of IPv6 by the first group. -/
theorem inBlock_ipv6_iff (ip : Ipv6) : (∃ block ∈ ipv6Blocks, InBlock 128 ip.toNat block) ↔
    ip.groups = loopback ∨ (0xfc00 ≤ first ip ∧ first ip ≤ 0xfdff) ∨
      (0xfe80 ≤ first ip ∧ first ip ≤ 0xfebf) := by
  obtain ⟨groups, hlen⟩ := ip
  match groups, hlen with
  | [a, b, c, d, e, f, g, h], _ =>
    have ha := a.toNat_lt
    have hb := b.toNat_lt
    have hc := c.toNat_lt
    have hd := d.toNat_lt
    have he := e.toNat_lt
    have hf := f.toNat_lt
    have hg := g.toNat_lt
    have hh := h.toNat_lt
    have hloopback : [a, b, c, d, e, f, g, h] = loopback ↔ a.toNat = 0 ∧ b.toNat = 0 ∧
        c.toNat = 0 ∧ d.toNat = 0 ∧ e.toNat = 0 ∧ f.toNat = 0 ∧ g.toNat = 0 ∧ h.toNat = 1 := by
      simp [loopback, ← UInt16.toNat_inj]
    dsimp only
    rw [hloopback]
    unfold ipv6Blocks first
    simp only [InBlock, Ipv6.toNat, List.foldl_cons, List.foldl_nil, List.mem_cons,
      List.not_mem_nil, or_false, exists_eq_or_imp, exists_eq_left, List.headD_cons]
    omega

/-- An address that stands for an IPv4 address begins with a zero, and is not that of the
loopback. -/
theorem mapped_eq_some {ip : Ipv6} {ip4 : Ipv4} (h : ip.mapped = some ip4) :
    first ip = 0 ∧ ip.groups ≠ loopback := by
  unfold Ipv6.mapped at h
  split at h
  · rename_i high low hgroups
    unfold first
    rw [hgroups]
    refine ⟨rfl, fun heq => ?_⟩
    simp [loopback] at heq
  · exact absurd h.symm (Option.some_ne_none _)

/-! ### Domains -/

/-- A domain is taken for private if it begins like an address. -/
theorem isPrivateIp_domain (d : Domain) : isPrivateIp d.name = true ↔
    (∃ p ∈ ipv4Prefixes, p <+: d.name) ∨ "fc".toList <+: d.name ∨ "fd".toList <+: d.name ∨
      "fe80".toList <+: d.name := by
  have hstrip : stripBrackets d.name = d.name := by
    unfold stripBrackets
    split
    · rename_i rest heq
      have hbracket := d.allowed '[' (heq ▸ List.mem_cons_self)
      exact absurd hbracket (by decide)
    · rfl
  have hlower : ∀ c ∈ d.name, c.isUpper = false := by
    intro c hc
    have hallowed := d.allowed c hc
    unfold isForbidden at hallowed
    simp only [Bool.or_eq_false_iff] at hallowed
    exact hallowed.1.2
  have hcolon : d.name ≠ "::1".toList := by
    intro heq
    have hfirst := d.allowed ':' (heq ▸ List.mem_cons_self)
    exact absurd hfirst (by decide)
  rw [isPrivateIp_iff hstrip hlower, or_iff_right hcolon]

/-! ### When the filter is exact -/

/-- The host is not written like an address of another kind: a domain does not begin like a private
address, and an IPv6 address is no private IPv4 address, nor is its first group short and beginning
like `fc` or `fd`, nor one of `fe80::/10` other than `fe80`. -/
def Unmistakable : Host → Prop
  | .ipv4 _ => True
  | .ipv6 ip => (first ip ≠ 0xfc ∧ first ip ≠ 0xfd ∧ ¬ (0xfc0 ≤ first ip ∧ first ip ≤ 0xfdf) ∧
      ¬ (0xfe81 ≤ first ip ∧ first ip ≤ 0xfebf)) ∧
    ∀ ip4, ip.mapped = some ip4 → ¬ PrivateIpv4 ip4
  | .domain d => (∀ p ∈ ipv4Prefixes, ¬ p <+: d.name) ∧ ¬ "fc".toList <+: d.name ∧
      ¬ "fd".toList <+: d.name ∧ ¬ "fe80".toList <+: d.name

theorem exact_iff (host : Host) :
    (isPrivateIp host.text = true ↔ Private host) ↔ Unmistakable host := by
  cases host with
  | ipv4 ip => exact iff_of_true (isPrivateIp_ipv4 ip) trivial
  | ipv6 ip =>
    rw [isPrivateIp_ipv6]
    unfold Private Unmistakable
    dsimp only
    rw [inBlock_ipv6_iff]
    have hloopback : ip.groups = loopback → first ip = 0 := by
      intro h
      unfold first
      rw [h]
      rfl
    by_cases hmapped : ∃ ip4, ip.mapped = some ip4 ∧ PrivateIpv4 ip4
    · obtain ⟨ip4, hsome, hprivate⟩ := hmapped
      obtain ⟨hzero, hne⟩ := mapped_eq_some hsome
      refine iff_of_false (fun h => ?_) (fun h => h.2 ip4 hsome hprivate)
      rcases h.mpr (Or.inr ⟨ip4, hsome, hprivate⟩) with heq | hcode
      · exact hne heq
      · omega
    · have hno : ∀ ip4, ip.mapped = some ip4 → ¬ PrivateIpv4 ip4 :=
        fun ip4 hsome hprivate => hmapped ⟨ip4, hsome, hprivate⟩
      rw [or_iff_left hmapped, and_iff_left hno]
      by_cases heq : ip.groups = loopback
      · have hzero := hloopback heq
        refine iff_of_true (iff_of_true (Or.inl heq) (Or.inl heq)) ?_
        omega
      · rw [or_iff_right heq, or_iff_right heq]
        omega
  | domain d =>
    have hcode := isPrivateIp_domain d
    unfold Host.text Private Unmistakable
    dsimp only
    rw [hcode, iff_false]
    push Not
    rfl

/-- A URL is refused for its address exactly if the filter says so. -/
theorem refused_iff {parse : String → Option Url} {raw : String} {host : List Char}
    (h : parse raw = some ⟨"https:", host⟩) (hne : host ≠ []) :
    validateWebhookUrl parse raw = ⟨false, some privateReason⟩ ↔ isPrivateIp host = true := by
  unfold validateWebhookUrl
  rw [h]
  dsimp only
  rw [if_neg (by decide), if_neg hne]
  split_ifs with hprivate hlocal
  · exact iff_of_true rfl hprivate
  · exact iff_of_false (by decide) hprivate
  · exact iff_of_false (by decide) hprivate

theorem text_ne_nil (host : Host) : host.text ≠ [] := by
  cases host with
  | ipv4 ip =>
    obtain ⟨c, t, htext, -⟩ := exists_digit ip
    unfold Host.text
    dsimp only
    rw [htext]
    exact List.cons_ne_nil c t
  | ipv6 ip => exact List.cons_ne_nil _ _
  | domain d => exact d.ne_nil

/-- **The filter is exact** on the hosts that are not mistaken for others, and on these only: it
says that a host is private, and a URL with that host is refused for it, if and only if the host is
an address in one of the blocks. -/
theorem isPrivateIp_exact_iff (host : Host) :
    ((isPrivateIp host.text = true ↔ Private host) ∧
        ∀ (parse : String → Option Url) (raw : String), parse raw = some ⟨"https:", host.text⟩ →
          (validateWebhookUrl parse raw = ⟨false, some privateReason⟩ ↔ Private host)) ↔
      Unmistakable host := by
  rw [← exact_iff]
  constructor
  · exact And.left
  · intro h
    refine ⟨h, fun parse raw hparse => ?_⟩
    rw [refused_iff hparse (text_ne_nil host)]
    exact h

/-- `10.example.com`. -/
def tenExample : Domain where
  name := "10.example.com".toList
  ne_nil := by decide
  allowed := by
    have hall : ("10.example.com".toList.all fun c => ! isForbidden c) = true := by decide
    intro c hc
    exact Bool.not_eq_true' _ ▸ List.all_eq_true.mp hall c hc
  notNumber := by decide +kernel

/-- `fe81::1`. -/
def linkLocal : Ipv6 := ⟨[0xfe81, 0, 0, 0, 0, 0, 0, 1], rfl⟩

/-- A public domain is refused, and a private address is not: `10.example.com` and `[fe81::1]`. -/
theorem mistaken : isPrivateIp tenExample.name = true ∧
    isPrivateIp (Host.ipv6 linkLocal).text = false ∧ Private (.ipv6 linkLocal) ∧
    ¬ ∀ host : Host, isPrivateIp host.text = true ↔ Private host := by
  have hdomain : isPrivateIp tenExample.name = true := by decide +kernel
  have haddress : isPrivateIp (Host.ipv6 linkLocal).text = false := by decide +kernel
  have hblock : InBlock 128 linkLocal.toNat ⟨0xfe80 * 2 ^ 112, 10⟩ := by decide
  have hprivate : Private (.ipv6 linkLocal) :=
    Or.inl ⟨_, List.mem_cons_of_mem _ (List.mem_cons_of_mem _ List.mem_cons_self), hblock⟩
  refine ⟨hdomain, haddress, hprivate, ?_⟩
  intro hall
  exact (hall (.domain tenExample)).mp hdomain

end VestingDripStream.Backend.WebhookUrl
