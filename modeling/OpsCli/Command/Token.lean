import Mathlib.Order.Lattice
import OpsCli.CLib.CString

/-!
# Command tokens

The tokens of a command format (`struct cmd_token` of `command.h`), the
macros that classify the text of a terminal token, and the two enumerations
shared by all matchers.
-/

namespace OpsCli.Command.Token

open CLib.CString

/-! ## The token tree -/

/--
A terminal token: its command text, its description and the name of its
dynamic help callback.
-/
structure Terminal where
  cmd : CStr
  desc : Option CStr := none
  dynCb : Option CStr := none
deriving DecidableEq, Repr

inductive KeywordArg where
  | terminal (token : Terminal)
  | multiple (alternatives : List Terminal)
deriving DecidableEq, Repr

/-- One vector of a keyword token: the keyword itself and its arguments. -/
structure KeywordPart where
  keyword : Terminal
  args : List KeywordArg
deriving DecidableEq, Repr

/-- A token of a command, by its `cmd_token_type`. -/
inductive CmdToken where
  | terminal (token : Terminal)
  | multiple (alternatives : List Terminal)
  | keyword (parts : List KeywordPart)
deriving DecidableEq, Repr

/-! ## Match types -/

/-- `enum match_type`, from the weakest to the strongest match. -/
inductive MatchType where
  | noMatch
  | extendMatch
  | ipv4NetmaskMatch
  | ipv4PrefixMatch
  | ipv4Match
  | ipv6PrefixMatch
  | ipv6Match
  | ifnameMatch
  | portMatch
  | vlanMatch
  | macMatch
  | rangeMatch
  | varargMatch
  | partlyMatch
  | rangeMatchComma
  | rangeMatchList
  | rangeMatchCommaList
  | exactMatch
deriving DecidableEq, Repr

theorem MatchType.ctorIdx_injective : Function.Injective MatchType.ctorIdx := by
  intro first second same
  cases first <;> cases second <;> first | rfl | cases same

instance : LinearOrder MatchType :=
  LinearOrder.lift' MatchType.ctorIdx MatchType.ctorIdx_injective

theorem MatchType.noMatch_le (type : MatchType) : .noMatch ≤ type :=
  Nat.zero_le _

theorem MatchType.le_exactMatch (type : MatchType) : type ≤ .exactMatch := by
  cases type <;> decide

/-- `enum filter_type`. -/
inductive FilterType where
  | relaxed
  | strict
deriving DecidableEq, Repr

/-- `enum matcher_rv`. -/
inductive MatcherRv where
  | ok
  | complete
  | incomplete
  | noMatch
  | ambiguous
  | exceedArgcMax
deriving DecidableEq, Repr

/-- `MATCHER_ERROR`. -/
def MatcherRv.isError : MatcherRv → Bool
  | .ok | .complete => false
  | .incomplete | .noMatch | .ambiguous | .exceedArgcMax => true

/-! ## The kinds of terminals -/

variable (cmd : CStr)

/-- `CMD_OPTION`. -/
def cmdOption : Bool :=
  cmd.head? = some '['

/-- `CMD_VARIABLE`. -/
def cmdVariable : Bool :=
  match cmd.head? with
  | none => false
  | some c => ('A' ≤ c && c ≤ 'Z') || c = '<'

/-- `CMD_VARARG`. -/
def cmdVararg : Bool :=
  cmd.head? = some '.'

/-- `CMD_RANGE`. -/
def cmdRange : Bool :=
  cmd.head? = some '<'

/-- `CMD_IPV4`. -/
def cmdIpv4 : Bool :=
  cmd = "A.B.C.D"

/-- `CMD_IPV4_PREFIX`. -/
def cmdIpv4Prefix : Bool :=
  cmd = "A.B.C.D/M"

/-- `CMD_IPV4_NETMASK`. -/
def cmdIpv4Netmask : Bool :=
  cmd = "A.B.C.D/W.X.Y.Z"

/-- `CMD_IPV6`. -/
def cmdIpv6 : Bool :=
  cmd = "X:X::X:X"

/-- `CMD_IPV6_PREFIX`. -/
def cmdIpv6Prefix : Bool :=
  cmd = "X:X::X:X/M"

/-- `CMD_IFNAME`: every initial part of `IFNAME_R`. -/
def cmdIfname : Bool :=
  cmd.isPrefixOf "IFNAME_R"

/-- `CMD_PORT`. -/
def cmdPort : Bool :=
  cmd = "PORT"

/-- `CMD_VLAN`. -/
def cmdVlan : Bool :=
  cmd = "VLAN"

/-- `CMD_MAC`. -/
def cmdMac : Bool :=
  cmd = "MAC"

/-- The text of a list token: `<C:`, `<L:` or `<A:`. -/
def listLetter : Option Char :=
  match cmd with
  | _ :: letter :: ':' :: _ =>
    if letter = 'C' || letter = 'L' || letter = 'A' then some letter
    else none
  | _ => none

end OpsCli.Command.Token
