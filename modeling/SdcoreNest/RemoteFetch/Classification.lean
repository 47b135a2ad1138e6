/-
# RemoteFetch.Classification -- a verdict depends on the address alone

The fetcher's 32-bit expressions are plain arithmetic on octets, and a blocked range is an equality
of leading bits.  With the spelling out of the way, a mapped address is judged as its quad and no
internal address passes.
-/
import SdcoreNest.RemoteFetch.Spelling
import SdcoreNest.Theory.Word32

namespace SdcoreNest.RemoteFetch

open SdcoreNest.Theory SdcoreNest.Theory.JsString

set_option autoImplicit false

/-! ## The operators of the source -/

/-- What `ipv4Number` returns for four octets, in the operators of the source. -/
def packedOctets (a b c d : Nat) : Int :=
  Word32.shiftRight
    (Word32.shiftRight (Word32.shiftLeft a 24) 0 + Word32.shiftLeft b 16 + Word32.shiftLeft c 8 + d) 0

theorem packedOctets_eq {a b c d : Nat} (first : a < 256) (second : b < 256) (third : c < 256)
    (fourth : d < 256) : packedOctets a b c d = (a * 2 ^ 24 + b * 2 ^ 16 + c * 2 ^ 8 + d : Nat) := by
  rw [packedOctets, Word32.shiftRight_shiftLeft (by omega) (by omega),
    Word32.shiftLeft_small (by omega) (by omega), Word32.shiftLeft_small (by omega) (by omega),
    ← Nat.cast_add, ← Nat.cast_add, ← Nat.cast_add, Word32.shiftRight_zero (by omega)]

/-- The mask of `inIpv4Range`, in the operators of the source. -/
def rangeMask (bits : Nat) : Int :=
  if bits = 0 then 0 else Word32.shiftRight (Word32.shiftLeft 0xffffffff (32 - bits)) 0

theorem rangeMask_eq : ∀ bits : Fin 33, rangeMask bits = Word32.leadingMask bits := by decide

/-- What `inIpv4Range` compares. -/
def equalMasked (value base bits : Nat) : Bool :=
  Word32.and value (rangeMask bits) = Word32.and base (rangeMask bits)

theorem inIpv4Range_mask (value base bits : Nat) :
    inIpv4Range value base bits =
      decide (value &&& Word32.leadingMask bits = base &&& Word32.leadingMask bits) := by
  have mask : (if bits = 0 then 0 else 2 ^ 32 - 2 ^ (32 - bits)) = Word32.leadingMask bits := by
    split
    next none => rw [none]; rfl
    · rfl
  rw [inIpv4Range, mask]

theorem equalMasked_eq {value base bits : Nat} (left : value < 2 ^ 32) (right : base < 2 ^ 32)
    (most : bits ≤ 32) : equalMasked value base bits = inIpv4Range value base bits := by
  have mask : rangeMask bits = Word32.leadingMask bits := rangeMask_eq ⟨bits, by omega⟩
  have fits : Word32.leadingMask bits < 2 ^ 32 :=
    Nat.sub_lt (by decide) (Nat.two_pow_pos _)
  rw [equalMasked, mask, inIpv4Range_mask]
  exact decide_eq_decide.mpr (Word32.and_eq_and_iff left right fits)

/-- A range is an equality of the first bits. -/
theorem inIpv4Range_iff {value base bits : Nat} (most : bits ≤ 32) :
    inIpv4Range value base bits = true ↔
      ∀ index < bits, value.testBit (31 - index) = base.testBit (31 - index) := by
  rw [inIpv4Range_mask, decide_eq_true_eq]
  exact Word32.and_leadingMask_eq_iff most

/-! ## Verdicts -/

theorem isIP_quadText (a b c d : Fin 256) : isIP (quadText a b c d) = 4 := by
  rw [isIP, if_pos (isIPv4_quadText a b c d)]

theorem isPublic_of_isIPv6 {address : JsString} (six : isIP address = 6) :
    isPublicNetworkAddress address = isPublicIpv6 address := by
  rw [isPublicNetworkAddress, six]
  rfl

/-- Spellings of one address have one verdict. -/
theorem isPublic_congr {address other : JsString} (six : isIP address = 6) (alsoSix : isIP other = 6)
    (same : ipv6Groups address = ipv6Groups other) :
    isPublicNetworkAddress address = isPublicNetworkAddress other := by
  obtain ⟨groups, found, -⟩ := exists_groups six
  rw [isPublic_of_isIPv6 six, isPublic_of_isIPv6 alsoSix, isPublicIpv6, isPublicIpv6, parseIpv6_eq found,
    parseIpv6_eq (same.symm.trans found)]

/-- An IPv4-mapped address is judged as the quad of its last two groups. -/
theorem isPublic_mapped {address : JsString} {a b c d : Fin 256} (six : isIP address = 6)
    (mapped : ipv6Groups address =
      some [0, 0, 0, 0, 0, 0xffff, a.val * 2 ^ 8 + b.val, c.val * 2 ^ 8 + d.val]) :
    isPublicNetworkAddress address = isPublicNetworkAddress (quadText a b c d) := by
  have bytes : bytesOf [0, 0, 0, 0, 0, 0xffff, a.val * 2 ^ 8 + b.val, c.val * 2 ^ 8 + d.val] =
      [0, 0, 0, 0, 0, 0, 0, 0, 0, 0, 0xff, 0xff, a.val, b.val, c.val, d.val] := by
    obtain ⟨high, high'⟩ := pair_bytes a b
    obtain ⟨low, low'⟩ := pair_bytes c d
    simp only [bytesOf, List.flatMap_cons, List.flatMap_nil, high, high', low, low']
    rfl
  have quad : decimalText a ++ [dot] ++ decimalText b ++ [dot] ++ decimalText c ++ [dot] ++ decimalText d =
      quadText a b c d := by
    simp [quadText]
  rw [isPublic_of_isIPv6 six, isPublicIpv6, parseIpv6_eq mapped, bytes, isPublicNetworkAddress,
    if_pos (isIP_quadText a b c d)]
  simp only [List.all_cons, List.take_succ_cons, List.take_zero, List.all_nil, byte, List.getD_cons_succ,
    List.getD_cons_zero, quad]
  rfl

/-- The groups of an address that is not on the public network, by kind. -/
inductive Internal : List Nat → Prop
  | unspecified : Internal (List.replicate 8 0)
  | loopback : Internal (List.replicate 7 0 ++ [1])
  | linkLocal {first : Nat} {rest : List Nat} (block : first / 2 ^ 6 = 0xfe80 / 2 ^ 6) :
      Internal (first :: rest)
  | uniqueLocal {first : Nat} {rest : List Nat} (block : first / 2 ^ 9 = 0xfc00 / 2 ^ 9) :
      Internal (first :: rest)
  | multicast {first : Nat} {rest : List Nat} (block : first / 2 ^ 8 = 0xff) : Internal (first :: rest)
  | sixToFour {rest : List Nat} : Internal (0x2002 :: rest)
  | teredo {rest : List Nat} : Internal (0x2001 :: 0 :: rest)
  | nat64 {rest : List Nat} : Internal (0x64 :: 0xff9b :: rest)

theorem isLinkLocal_byte {n : Nat} (block : n / 2 ^ 6 = 2) : n &&& 0xc0 = 0x80 := by
  have low : ∀ k : Fin 64, (0x80 + k.val) &&& 0xc0 = 0x80 := by decide
  have shape : n = 0x80 + n % 2 ^ 6 := by omega
  rw [shape]
  exact low ⟨n % 2 ^ 6, Nat.mod_lt _ (Nat.two_pow_pos 6)⟩

theorem isUniqueLocal_byte {n : Nat} (block : n / 2 = 0x7e) : n &&& 0xfe = 0xfc := by
  have either : n = 0xfc ∨ n = 0xfd := by omega
  rcases either with rfl | rfl <;> rfl

theorem bytesOf_cons (first : Nat) (rest : List Nat) :
    bytesOf (first :: rest) = first / 2 ^ 8 :: first % 2 ^ 8 :: bytesOf rest := rfl

/-- A unique-local, link-local or multicast first byte is refused, whatever follows. -/
theorem isPublicIpv6_blocked {address : JsString} {high low : Nat} {rest : List Nat}
    (parsed : parseIpv6 address = some (high :: low :: rest)) (nonzero : high ≠ 0)
    (blocked : high &&& 0xfe = 0xfc ∨ (high = 0xfe ∧ low &&& 0xc0 = 0x80) ∨ high = 0xff) :
    isPublicIpv6 address = false := by
  have apart : (high == 0) = false := beq_false_of_ne nonzero
  have judged : (high &&& 0xfe = 0xfc || (high = 0xfe && low &&& 0xc0 = 0x80) || high = 0xff) = true := by
    simpa [or_assoc] using blocked
  rw [isPublicIpv6, parsed]
  simp only [byte, List.getD_cons_zero, List.getD_cons_succ, List.all_cons, List.take_succ_cons,
    decide_eq_false nonzero, Bool.false_and, judged, if_true, if_neg Bool.false_ne_true]

/-- No internal address is accepted, however it is spelled. -/
theorem isPublic_internal {address : JsString} {groups : List Nat} (six : isIP address = 6)
    (found : ipv6Groups address = some groups) (internal : Internal groups) :
    isPublicNetworkAddress address = false := by
  have parsed := parseIpv6_eq found
  rw [isPublic_of_isIPv6 six]
  cases internal with
  | unspecified => rw [isPublicIpv6, parsed]; decide
  | loopback => rw [isPublicIpv6, parsed]; decide
  | @linkLocal first rest block =>
      refine isPublicIpv6_blocked (parsed.trans (congrArg some (bytesOf_cons first rest))) (by omega) ?_
      have low : first % 2 ^ 8 &&& 0xc0 = 0x80 :=
        isLinkLocal_byte (by omega)
      exact .inr (.inl ⟨by omega, low⟩)
  | @uniqueLocal first rest block =>
      refine isPublicIpv6_blocked (parsed.trans (congrArg some (bytesOf_cons first rest))) (by omega) ?_
      exact .inl (isUniqueLocal_byte (by omega))
  | @multicast first rest block =>
      refine isPublicIpv6_blocked (parsed.trans (congrArg some (bytesOf_cons first rest))) (by omega) ?_
      exact .inr (.inr block)
  | sixToFour => rw [isPublicIpv6, parsed]; simp [bytesOf_cons, byte, startsWithBytes]
  | teredo => rw [isPublicIpv6, parsed]; simp [bytesOf_cons, byte, startsWithBytes]
  | nat64 => rw [isPublicIpv6, parsed]; simp [bytesOf_cons, byte, startsWithBytes]

/-! ### IPv4 -/

/-- An address whose first bits are those of a blocked range is refused. -/
theorem isPublic_quad_blocked {a b c d : Fin 256} {base : JsString} {bits : Nat}
    (member : (base, bits) ∈ blockedIpv4) (most : bits ≤ 32)
    (same : quadValue a b c d / 2 ^ (32 - bits) = (ipv4Number base).getD 0 / 2 ^ (32 - bits)) :
    isPublicNetworkAddress (quadText a b c d) = false := by
  have inRange : inIpv4Range (quadValue a b c d) ((ipv4Number base).getD 0) bits = true :=
    (inIpv4Range_iff most).mpr fun index early => Word32.testBit_of_div_eq same index early most
  rw [isPublicNetworkAddress, if_pos (isIP_quadText a b c d), isPublicIpv4, ipv4Number_quadText]
  simp only [Bool.not_eq_false', List.any_eq_true]
  exact ⟨(base, bits), member, inRange⟩

/-- Octets of an address that is not on the public network, by kind. -/
inductive InternalQuad : Nat → Nat → Nat → Nat → Prop
  | unspecified : InternalQuad 0 0 0 0
  | loopback {b c d : Nat} : InternalQuad 127 b c d
  | linkLocal {c d : Nat} : InternalQuad 169 254 c d
  | multicast {a b c d : Nat} (block : a / 2 ^ 4 = 224 / 2 ^ 4) : InternalQuad a b c d

theorem InternalQuad.octets {a b c d : Nat} (internal : InternalQuad a b c d) :
    a = 0 ∨ a = 127 ∨ (a = 169 ∧ b = 254) ∨ a / 2 ^ 4 = 224 / 2 ^ 4 := by
  cases internal with
  | unspecified => exact .inl rfl
  | loopback => exact .inr (.inl rfl)
  | linkLocal => exact .inr (.inr (.inl ⟨rfl, rfl⟩))
  | multicast block => exact .inr (.inr (.inr block))

theorem isPublic_quad_internal {a b c d : Fin 256} (internal : InternalQuad a b c d) :
    isPublicNetworkAddress (quadText a b c d) = false := by
  have second := b.isLt
  have third := c.isLt
  have fourth := d.isLt
  rcases internal.octets with first | first | ⟨first, other⟩ | block
  · have base : ipv4Number (js "0.0.0.0") = some (quadValue 0 0 0 0) := ipv4Number_quadText 0 0 0 0
    have member : (js "0.0.0.0", 8) ∈ blockedIpv4 := List.mem_of_getElem? (i := 0) rfl
    refine isPublic_quad_blocked member (by decide) ?_
    rw [base, Option.getD_some, quadValue, quadValue]
    omega
  · have base : ipv4Number (js "127.0.0.0") = some (quadValue 127 0 0 0) := ipv4Number_quadText 127 0 0 0
    have member : (js "127.0.0.0", 8) ∈ blockedIpv4 := List.mem_of_getElem? (i := 3) rfl
    refine isPublic_quad_blocked member (by decide) ?_
    rw [base, Option.getD_some, quadValue, quadValue]
    omega
  · have base : ipv4Number (js "169.254.0.0") = some (quadValue 169 254 0 0) :=
      ipv4Number_quadText 169 254 0 0
    have member : (js "169.254.0.0", 16) ∈ blockedIpv4 := List.mem_of_getElem? (i := 4) rfl
    refine isPublic_quad_blocked member (by decide) ?_
    rw [base, Option.getD_some, quadValue, quadValue]
    omega
  · have base : ipv4Number (js "224.0.0.0") = some (quadValue 224 0 0 0) := ipv4Number_quadText 224 0 0 0
    have member : (js "224.0.0.0", 4) ∈ blockedIpv4 := List.mem_of_getElem? (i := 13) rfl
    refine isPublic_quad_blocked member (by decide) ?_
    rw [base, Option.getD_some, quadValue, quadValue]
    omega

/-! ## The classification -/

/-- The parser reads every accepted text as what it stands for, so that a verdict depends on the
address alone: a mapped address is judged as its quad, and no internal address passes. -/
theorem verdict_of_address :
    (∀ address, isIP address = 6 → ∃ groups, ipv6Groups address = some groups ∧ groups.length = 8 ∧
      (∀ group ∈ groups, group < 2 ^ 16) ∧ parseIpv6 address = some (bytesOf groups)) ∧
    (∀ address other, isIP address = 6 → isIP other = 6 → ipv6Groups address = ipv6Groups other →
      isPublicNetworkAddress address = isPublicNetworkAddress other) ∧
    (∀ address, isIP address = 4 → ∃ a b c d : Fin 256, address = quadText a b c d ∧
      ipv4Number address = some (quadValue a b c d) ∧ packedOctets a b c d = quadValue a b c d) ∧
    (∀ value base bits, value < 2 ^ 32 → base < 2 ^ 32 → bits ≤ 32 →
      equalMasked value base bits = inIpv4Range value base bits ∧
        (inIpv4Range value base bits = true ↔
          ∀ index < bits, value.testBit (31 - index) = base.testBit (31 - index))) ∧
    (∀ address (a b c d : Fin 256), isIP address = 6 →
      ipv6Groups address = some [0, 0, 0, 0, 0, 0xffff, a.val * 2 ^ 8 + b.val, c.val * 2 ^ 8 + d.val] →
        isPublicNetworkAddress address = isPublicNetworkAddress (quadText a b c d)) ∧
    (∀ address groups, isIP address = 6 → ipv6Groups address = some groups → Internal groups →
      isPublicNetworkAddress address = false) ∧
    ∀ a b c d : Fin 256, InternalQuad a b c d → isPublicNetworkAddress (quadText a b c d) = false := by
  refine ⟨fun address six => ?_, fun address other six alsoSix same => isPublic_congr six alsoSix same,
    fun address four => ?_, fun value base bits left right most => ?_,
    fun address a b c d six mapped => isPublic_mapped six mapped,
    fun address groups six found internal => isPublic_internal six found internal,
    fun a b c d internal => isPublic_quad_internal internal⟩
  · obtain ⟨groups, found, eight⟩ := exists_groups six
    exact ⟨groups, found, eight, bodyGroups_lt found, parseIpv6_eq found⟩
  · have accepted : isIPv4 address = true := by
      unfold isIP at four
      split at four
      · assumption
      · split at four <;> cases four
    obtain ⟨a, b, c, d, rfl⟩ := exists_of_isIPv4 accepted
    exact ⟨a, b, c, d, rfl, ipv4Number_quadText a b c d, packedOctets_eq a.isLt b.isLt c.isLt d.isLt⟩
  · exact ⟨equalMasked_eq left right most, inIpv4Range_iff most⟩

/-- A mapped loopback address, in a spelling of its own. -/
theorem mapped_loopback_refused :
    isIP (js "::FFFF:127.0.0.1%eth0") = 6 ∧
      ipv6Groups (js "::FFFF:127.0.0.1%eth0") = some [0, 0, 0, 0, 0, 0xffff, 127 * 2 ^ 8 + 0, 0 * 2 ^ 8 + 1] ∧
      isPublicNetworkAddress (js "::FFFF:127.0.0.1%eth0") = isPublicNetworkAddress (js "127.0.0.1") ∧
      isPublicNetworkAddress (js "127.0.0.1") = false := by
  obtain ⟨six, groups, quad⟩ : isIP (js "::FFFF:127.0.0.1%eth0") = 6 ∧
      ipv6Groups (js "::FFFF:127.0.0.1%eth0") =
        some [0, 0, 0, 0, 0, 0xffff, 127 * 2 ^ 8 + 0, 0 * 2 ^ 8 + 1] ∧
      js "127.0.0.1" = quadText (127 : Fin 256) (0 : Fin 256) (0 : Fin 256) (1 : Fin 256) := by
    decide +kernel
  obtain ⟨-, -, -, -, mapped, -, internal⟩ := verdict_of_address
  refine ⟨six, groups, ?_, ?_⟩
  · rw [quad]
    exact mapped _ 127 0 0 1 six groups
  · rw [quad]
    exact internal 127 0 0 1 .loopback

end SdcoreNest.RemoteFetch
