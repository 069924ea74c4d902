import OpsCli.Command.Token

/-!
# Address matchers

`cmd_ipv4_match`, `cmd_ipv4_prefix_match`, `cmd_ipv4_netmask_match`,
`cmd_ipv6_match` and `cmd_ipv6_prefix_match`.  A matcher answers
`partly_match` for text that may still become an address.
-/

namespace OpsCli.Command.Address

open CLib.CString Token

/-! ## IPv4 -/

/-- The inner loop over one number of a dotted address: its digits, the rest
from the character that ended it, and the number of dots; or the answer.  With
`slash` a slash ends the number too. -/
def scanOctet (slash : Bool) (dots : Nat) : CStr → CStr → Except MatchType (CStr × CStr × Nat)
  | octet, [] => .ok (octet, [], dots)
  | octet, c :: rest =>
    if slash && c = '/' then .ok (octet, c :: rest, dots)
    else if c = '.' then
      if 3 ≤ dots then .error .noMatch
      else if rest.head? = some '.' || slash && rest.head? = some '/' then
        .error .noMatch
      else if rest = [] then .error .partlyMatch
      else .ok (octet, c :: rest, dots + 1)
    else if isdigit c then scanOctet slash dots (octet ++ [c]) rest
    else .error .noMatch

/-- A number of a dotted address has at most three digits and is at most
255. -/
def octetValid (octet : CStr) : Bool :=
  octet.length ≤ 3 && digitsInt octet ≤ 255

def ipv4Loop : Nat → Nat → Nat → CStr → MatchType
  | 0, _, _, _ => .noMatch
  | fuel + 1, dots, nums, str =>
    match scanOctet false dots [] str with
    | .error answer => answer
    | .ok (octet, rest, dots) =>
      if !octetValid octet then .noMatch
      else
        match rest with
        | [] => if nums + 1 < 4 then .partlyMatch else .exactMatch
        | _ :: rest => ipv4Loop fuel dots (nums + 1) rest

/-- `cmd_ipv4_match` on a string that is not null. -/
def cmdIpv4Match (str : CStr) : MatchType :=
  ipv4Loop (str.length + 1) 0 0 str

/-- The outer loop over the address of a prefix: the text after the slash or
the answer. -/
def ipv4PrefixLoop : Nat → Nat → CStr → Except MatchType CStr
  | 0, _, _ => .error .noMatch
  | fuel + 1, dots, str =>
    match scanOctet true dots [] str with
    | .error answer => .error answer
    | .ok (octet, rest, dots) =>
      if !octetValid octet then .error .noMatch
      else
        match rest with
        | [] => .error .partlyMatch
        | c :: rest =>
          if dots = 3 && c = '/' then
            if rest = [] then .error .partlyMatch else .ok rest
          else ipv4PrefixLoop fuel dots rest

/-- `cmd_ipv4_prefix_match` on a string that is not null. -/
def cmdIpv4PrefixMatch (str : CStr) : MatchType :=
  match ipv4PrefixLoop (str.length + 1) 0 str with
  | .error answer => answer
  | .ok mask =>
    if !mask.all isdigit then .noMatch
    else if 32 < digitsInt mask then .noMatch
    else .exactMatch

/-- `cmd_ipv4_netmask_match` on a string that is not null. -/
def cmdIpv4NetmaskMatch (str : CStr) : MatchType :=
  match ipv4PrefixLoop (str.length + 1) 0 str with
  | .error answer => answer
  | .ok mask => ipv4Loop (mask.length + 1) 0 0 mask

/-! ## IPv6 -/

/-- `IPV6_ADDR_STR`. -/
def ipv6AddrStr : CStr :=
  "0123456789abcdefABCDEF:.%"

/-- `IPV6_PREFIX_STR`. -/
def ipv6PrefixStr : CStr :=
  "0123456789abcdefABCDEF:.%/"

/-- `cmd_ipv6_match` on a string that is not null; `inetPton` is the answer
of `inet_pton (AF_INET6, ..)`. -/
def cmdIpv6Match (inetPton : CStr → Bool) (str : CStr) : MatchType :=
  if !str.all (ipv6AddrStr.contains ·) then .noMatch
  else if inetPton str then .exactMatch
  else .noMatch

/-- The states of `cmd_ipv6_prefix_match`. -/
inductive Ipv6State where
  | start
  | colon
  | double
  | addr
  | dot
  | slash
  | mask
deriving DecidableEq, Repr

/-- The variables of `cmd_ipv6_prefix_match`; `sp` is the text from the
pointer `sp` on. -/
structure Ipv6Scan where
  state : Ipv6State
  colons : Int
  nums : Nat
  doubleColon : Nat
  sp : CStr
deriving DecidableEq, Repr

/-- One round of the loop at the character `c` before `rest`: the variables
after the `switch`, and whether the round ends with `continue`. -/
def ipv6Step (scan : Ipv6Scan) (c : Char) (rest : CStr) : Except MatchType (Ipv6Scan × Bool) :=
  match scan.state with
  | .start =>
    if c = ':' then
      if rest.head? ≠ some ':' && rest ≠ [] then .error .noMatch
      else .ok ({ scan with colons := scan.colons - 1, state := .colon }, true)
    else .ok ({ scan with sp := c :: rest, state := .addr }, true)
  | .colon =>
    if rest.head? = some '/' then .error .noMatch
    else if rest.head? = some ':' then
      .ok ({ scan with colons := scan.colons + 1, state := .double }, false)
    else
      .ok ({ scan with
        colons := scan.colons + 1, sp := rest, state := .addr }, false)
  | .double =>
    if scan.doubleColon ≠ 0 then .error .noMatch
    else if rest.head? = some ':' then .error .noMatch
    else
      .ok ({ scan with
        colons :=
          if rest ≠ [] && rest.head? ≠ some '/' then scan.colons + 1
          else scan.colons
        sp := rest
        state := if rest.head? = some '/' then .slash else .addr
        doubleColon := scan.doubleColon + 1
        nums := scan.nums + 1 }, false)
  | .addr =>
    if rest.head? = some ':' || rest.head? = some '.' || rest = [] || rest.head? = some '/' then
      if 3 < scan.sp.length - (rest.length + 1) then .error .noMatch
      else if '/' ∈ scan.sp.take (scan.sp.length - rest.length) then
        .error .noMatch
      else
        let next := { scan with sp := rest, nums := scan.nums + 1 }
        if rest.head? = some ':' then
          .ok ({ next with state := .colon }, false)
        else if rest.head? = some '.' then
          if scan.colons ≠ 0 || scan.doubleColon ≠ 0 then
            .ok ({ next with state := .dot }, false)
          else .error .noMatch
        else if rest.head? = some '/' then
          .ok ({ next with state := .slash }, false)
        else .ok (next, false)
    else .ok (scan, false)
  | .dot => .ok ({ scan with state := .addr }, false)
  | .slash =>
    if rest = [] then .error .partlyMatch
    else .ok ({ scan with state := .mask }, false)
  | .mask => .ok (scan, false)

/-- The loop of `cmd_ipv6_prefix_match`: the text of the mask or the
answer. -/
def ipv6PrefixLoop : Nat → Ipv6Scan → CStr → Except MatchType CStr
  | 0, _, _ => .error .noMatch
  | fuel + 1, scan, str =>
    if scan.state = .mask then .ok str
    else
      match str with
      | [] => .error .partlyMatch
      | c :: rest =>
        match ipv6Step scan c rest with
        | .error answer => .error answer
        | .ok (next, true) => ipv6PrefixLoop fuel next (c :: rest)
        | .ok (next, false) =>
          if 11 < next.nums then .error .noMatch
          else if 7 < next.colons then .error .noMatch
          else ipv6PrefixLoop fuel next rest

/-- `cmd_ipv6_prefix_match` on a string that is not null. -/
def cmdIpv6PrefixMatch (str : CStr) : MatchType :=
  if !str.all (ipv6PrefixStr.contains ·) then .noMatch
  else
    match ipv6PrefixLoop (str.length + 2) ⟨.start, 0, 0, 0, []⟩ str with
    | .error answer => answer
    | .ok mask =>
      if !isNumeral mask then .noMatch
      else if digitsInt mask < 0 || 128 < digitsInt mask then .noMatch
      else .exactMatch

/-! ## The answers -/

/-- The three answers of an address matcher. -/
def IsAnswer (type : MatchType) : Prop :=
  type = .noMatch ∨ type = .partlyMatch ∨ type = .exactMatch

variable {answer : MatchType} {str : CStr} {scan : Ipv6Scan} {dots fuel : Nat}

theorem scanOctet_answer {slash : Bool} {octet : CStr}
    (ends : scanOctet slash dots octet str = .error answer) : IsAnswer answer := by
  fun_induction scanOctet slash dots octet str with
  | case1 | case2 | case6 => cases ends
  | case3 | case4 | case8 =>
    cases ends
    exact .inl rfl
  | case5 =>
    cases ends
    exact .inr (.inl rfl)
  | case7 _ _ _ _ _ _ ih => exact ih ends

theorem ipv4Loop_answer (fuel dots nums : Nat) (str : CStr) :
    IsAnswer (ipv4Loop fuel dots nums str) := by
  fun_induction ipv4Loop fuel dots nums str with
  | case1 | case3 => exact .inl rfl
  | case2 _ _ _ _ _ scanned => exact scanOctet_answer scanned
  | case4 => exact .inr (.inl rfl)
  | case5 => exact .inr (.inr rfl)
  | case6 _ _ _ _ _ _ _ _ _ _ ih => exact ih

theorem ipv4PrefixLoop_answer (ends : ipv4PrefixLoop fuel dots str = .error answer) :
    IsAnswer answer := by
  fun_induction ipv4PrefixLoop fuel dots str with
  | case1 | case3 =>
    cases ends
    exact .inl rfl
  | case2 _ _ _ _ scanned =>
    cases ends
    exact scanOctet_answer scanned
  | case4 | case5 =>
    cases ends
    exact .inr (.inl rfl)
  | case6 => cases ends
  | case7 _ _ _ _ _ _ _ _ _ _ ih => exact ih ends

theorem cmdIpv4PrefixMatch_answer (str : CStr) : IsAnswer (cmdIpv4PrefixMatch str) := by
  unfold cmdIpv4PrefixMatch
  split
  · rename_i ends
    exact ipv4PrefixLoop_answer ends
  · split
    · exact .inl rfl
    · split
      · exact .inl rfl
      · exact .inr (.inr rfl)

theorem cmdIpv4NetmaskMatch_answer (str : CStr) : IsAnswer (cmdIpv4NetmaskMatch str) := by
  unfold cmdIpv4NetmaskMatch
  split
  · rename_i ends
    exact ipv4PrefixLoop_answer ends
  · exact ipv4Loop_answer _ _ _ _

theorem ipv6Step_answer {c : Char} {rest : CStr} (ends : ipv6Step scan c rest = .error answer) :
    answer = .noMatch ∨ answer = .partlyMatch := by
  revert ends
  fun_cases ipv6Step scan c rest with
  | case1 | case4 | case7 | case8 | case10 | case11 | case14 =>
    rintro ⟨⟩
    exact .inl rfl
  | case19 =>
    rintro ⟨⟩
    exact .inr rfl
  | _ => rintro ⟨⟩

theorem ipv6PrefixLoop_answer (ends : ipv6PrefixLoop fuel scan str = .error answer) :
    answer = .noMatch ∨ answer = .partlyMatch := by
  fun_induction ipv6PrefixLoop fuel scan str with
  | case1 | case6 | case7 =>
    cases ends
    exact .inl rfl
  | case2 => cases ends
  | case3 =>
    cases ends
    exact .inr rfl
  | case4 _ _ _ _ _ _ stepEnds =>
    cases ends
    exact ipv6Step_answer stepEnds
  | case5 _ _ _ _ _ _ _ ih | case8 _ _ _ _ _ _ _ _ _ ih => exact ih ends

theorem cmdIpv6PrefixMatch_answer (str : CStr) : IsAnswer (cmdIpv6PrefixMatch str) := by
  unfold cmdIpv6PrefixMatch
  split
  · exact .inl rfl
  · split
    · rename_i ends
      exact (ipv6PrefixLoop_answer ends).imp_right .inl
    · split
      · exact .inl rfl
      · split
        · exact .inl rfl
        · exact .inr (.inr rfl)

theorem cmdIpv6Match_exact {inetPton : CStr → Bool}
    (matched : cmdIpv6Match inetPton str ≠ .noMatch) : cmdIpv6Match inetPton str = .exactMatch := by
  revert matched
  fun_cases cmdIpv6Match inetPton str with
  | case1 | case3 => exact fun matched => absurd rfl matched
  | case2 => exact fun _ => rfl

end OpsCli.Command.Address
