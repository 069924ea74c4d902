import OpsCli.CLib.Conversion

/-!
# Prefixes

The conversions of `prefix.c` between the text of a prefix and its address and
length, and the mask that is applied between the two.  The parsers and the
printer of addresses belong to the C library.
-/

namespace OpsCli.Bgp.PrefixText

open CLib CString Conversion

/-- `AFI_IP` and `AFI_IP6`. -/
inductive Afi where
  | ip
  | ip6
deriving DecidableEq, Repr

abbrev In6Addr := Vector (BitVec 8) 16

/-- The address functions of the C library.  An IPv4 address is taken in host
byte order. -/
structure AddressFunctions where
  inetAton : CStr → Option (BitVec 32)
  inetPton6 : CStr → Option In6Addr
  inetNtop4 : BitVec 32 → CStr
  inetNtop6 : In6Addr → CStr

/-- Functions that know one address of each family. -/
def AddressFunctions.sample : AddressFunctions where
  inetAton str := if str = "10.0.0.0" then some 0x0a000000 else none
  inetPton6 str :=
    if str = "2001:db8::" then
      some (.ofFn fun i => [0x20, 0x01, 0x0d, 0xb8].getD i.val 0)
    else none
  inetNtop4 _ := "10.0.0.0"
  inetNtop6 _ := "2001:db8::"

/-- `struct prefix`. -/
inductive Prefix where
  | ipv4 (address : BitVec 32) (prefixlen : Nat)
  | ipv6 (address : In6Addr) (prefixlen : Nat)

/-- `p->prefixlen`. -/
def Prefix.prefixlen : Prefix → Nat
  | .ipv4 _ prefixlen => prefixlen
  | .ipv6 _ prefixlen => prefixlen

/-- `IPV4_MAX_BITLEN`. -/
def ipv4MaxBitlen : Nat := 32

/-- `IPV6_MAX_BITLEN`. -/
def ipv6MaxBitlen : Nat := 128

/-- `(u_char) atoi (str)`. -/
def plenOf (str : CStr) : Nat :=
  (atoi str % 256).toNat

variable (functions : AddressFunctions)

/-- `str2prefix_ipv4`; `none` is the answer zero. -/
def str2prefixIpv4 (str : CStr) : Option Prefix :=
  match strchr str '/' with
  | none => (functions.inetAton str).map (.ipv4 · ipv4MaxBitlen)
  | some (cp, plen) =>
    if ipv4MaxBitlen < plenOf plen then none
    else (functions.inetAton cp).map (.ipv4 · (plenOf plen))

/-- `str2prefix_ipv6`; `none` is the answer zero. -/
def str2prefixIpv6 (str : CStr) : Option Prefix :=
  match strchr str '/' with
  | none => (functions.inetPton6 str).map (.ipv6 · ipv6MaxBitlen)
  | some (cp, plen) =>
    match functions.inetPton6 cp with
    | none => none
    | some address =>
      if ipv6MaxBitlen < plenOf plen then none
      else some (.ipv6 address (plenOf plen))

/-- `str2prefix`. -/
def str2prefix (str : CStr) : Option Prefix :=
  (str2prefixIpv4 functions str).or (str2prefixIpv6 functions str)

/-- `masklen2ip`; the high bits of the 64 bit value are cut off. -/
def masklen2ip (masklen : Nat) : BitVec 32 :=
  BitVec.allOnes 32 <<< (32 - masklen)

/-- `maskbit`. -/
def maskbit (offset : Nat) : BitVec 8 :=
  BitVec.allOnes 8 <<< (8 - offset)

/-- `apply_mask_ipv6`: the byte in which the prefix ends is masked, and the
bytes behind it are cleared. -/
def applyMaskIpv6 (address : In6Addr) (prefixlen : Nat) : In6Addr :=
  Vector.ofFn fun i =>
    if i.val < prefixlen / 8 then address.get i
    else if i.val = prefixlen / 8 then address.get i &&& maskbit (prefixlen % 8)
    else 0

/-- `apply_mask`. -/
def applyMask : Prefix → Prefix
  | .ipv4 address prefixlen =>
    .ipv4 (address &&& masklen2ip prefixlen) prefixlen
  | .ipv6 address prefixlen => .ipv6 (applyMaskIpv6 address prefixlen) prefixlen

/-- `prefix2str`; its answer is always zero. -/
def prefix2str : Prefix → CStr
  | .ipv4 address prefixlen =>
    functions.inetNtop4 address ++ '/' :: decimal prefixlen
  | .ipv6 address prefixlen =>
    functions.inetNtop6 address ++ '/' :: decimal prefixlen

/-! ## The texts of prefixes -/

section

variable {α : Type} (parse : CStr → Option α) (make : α → Nat → Prefix) (bits : Nat) (str : CStr)

/-- What a text is meant to be: an address, or an address and a decimal numeral
for the length behind a slash. -/
def denoted : Option Prefix :=
  match strchr str '/' with
  | none => (parse str).map (make · bits)
  | some (address, numeral) =>
    if isNumeral numeral ∧ digitsValue numeral ≤ bits then
      (parse address).map (make · (digitsValue numeral))
    else none

/-- What follows the slash is no such numeral, but the byte that is left of its
value is a length. -/
def Misread : Prop :=
  ∃ address rest, strchr str '/' = some (address, rest) ∧ (parse address).isSome ∧
    plenOf rest ≤ bits ∧ ¬ (isNumeral rest ∧ digitsValue rest ≤ bits)

/-- Both families of prefixes are read in one way. -/
def parsedPrefix : Option Prefix :=
  match strchr str '/' with
  | none => (parse str).map (make · bits)
  | some (cp, plen) =>
    if bits < plenOf plen then none else (parse cp).map (make · (plenOf plen))

variable {bits}

theorem plenOf_numeral {numeral : CStr} (decimal : isNumeral numeral)
    (small : digitsValue numeral < 256) : plenOf numeral = digitsValue numeral := by
  unfold plenOf
  rw [atoi_numeral decimal (by omega)]
  omega

theorem parsedPrefix_eq_denoted_iff (small : bits < 256) :
    parsedPrefix parse make bits str = denoted parse make bits str ↔ ¬ Misread parse bits str := by
  unfold parsedPrefix denoted Misread
  cases strchr str '/' with
  | none => simp
  | some parts =>
    obtain ⟨address, rest⟩ := parts
    by_cases meant : isNumeral rest ∧ digitsValue rest ≤ bits
    · have byte := plenOf_numeral meant.1 (meant.2.trans_lt small)
      refine iff_of_true ?_ ?_
      · dsimp only
        rw [if_pos meant, byte, if_neg (Nat.not_lt.mpr meant.2)]
      · rintro ⟨_, _, same, _, _, other⟩
        cases same
        exact other meant
    · cases parsed : parse address <;> simp [meant, parsed]

end

theorem str2prefixIpv6_eq (str : CStr) :
    str2prefixIpv6 functions str = parsedPrefix functions.inetPton6 .ipv6 ipv6MaxBitlen str := by
  unfold str2prefixIpv6 parsedPrefix
  cases strchr str '/' with
  | none => rfl
  | some parts =>
    dsimp only
    cases functions.inetPton6 parts.1 with
    | none => exact (ite_self _).symm
    | some address => rfl

end OpsCli.Bgp.PrefixText
