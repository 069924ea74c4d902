import OpsCli.Command.Address
import OpsCli.Command.RangeList

/-!
# Matching one word against one terminal token

`cmd_word_match` decides how well a word of the command line fits a terminal.
What it asks of the rest of the system is collected in `MatchEnv`: the address
parser of the C library, the callbacks into the database, and what happens to
lie in the arrays that the code reads before writing them.
-/

namespace OpsCli.Command.WordMatch

open CLib.CString Token Address RangeList

/-- The surroundings of the matcher.  A callback that is not installed is
`none`; `true` is its answer zero. -/
structure MatchEnv where
  inetPton6 : CStr → Bool
  verifyIfname : CStr → Bool
  interfaceMatch : Option (CStr → Bool)
  portMatch : Option (CStr → Bool)
  vlanMatch : Option (CStr → Bool)
  macMatch : Option (CStr → Bool)
  uninit : Uninitialised
  ifnameUninit : Nat × Nat

variable (env : MatchEnv)

/-- `cmd_ifname_match`; true is the answer zero. -/
def cmdIfnameMatch (str : CStr) : Bool :=
  match env.interfaceMatch with
  | none => false
  | some interfaceMatch => env.verifyIfname str || interfaceMatch str

/-- `cmd_port_match`, `cmd_vlan_match` and `cmd_mac_match`; true is the
answer zero. -/
def callbackMatch (callback : Option (CStr → Bool)) (str : CStr) : Bool :=
  match callback with
  | none => false
  | some accepts => accepts str

/-- `cmd_range_match` on a string that is not null. -/
def cmdRangeMatch (range str : CStr) : Bool :=
  if (strtoul str).2 ≠ [] then false
  else
    match strchr range.tail '-' with
    | none => false
    | some (minText, after) =>
      if decimalStrlenMax < minText.length then false
      else if (strtoul minText).2 ≠ [] then false
      else
        match strchr after '>' with
        | none => false
        | some (maxText, _) =>
          if decimalStrlenMax < maxText.length then false
          else if (strtoul maxText).2 ≠ [] then false
          else
            !outside ((strtoul minText).1, (strtoul maxText).1) (strtoul str).1

/-- The loop over the items of an `IFNAME_R` word.  A range that is no
interface name is expanded; `flag` is set once a number is no interface. -/
def ifnameListLoop (env : MatchEnv) : Bool → Nat × Nat → List CStr → Option Bool
  | flag, _, [] => some !flag
  | flag, minMax, temp :: rest =>
    if '-' ∈ temp then
      if cmdIfnameMatch env temp then ifnameListLoop env flag minMax rest
      else
        match getListValue temp minMax with
        | none => none
        | some (_, minMax) =>
          if minMax.2 ≤ minMax.1 then some false
          else if (List.range' minMax.1 (minMax.2 + 1 - minMax.1)).all fun i => cmdIfnameMatch env
                ((decimal i).take decimalStrlenMax) then
            if minMax.2 = ulongMax then none
            else ifnameListLoop env flag minMax rest
          else ifnameListLoop env true minMax rest
    else if cmdIfnameMatch env temp then ifnameListLoop env flag minMax rest
    else some false

/-- An `IFNAME` or `IFNAME_R` token. -/
def ifnameWordMatch (cmd word : CStr) : Option Bool :=
  if cmd ≠ "IFNAME" then
    if cmdInputCommaStrIsValid .bothOperator word then
      ifnameListLoop env false env.ifnameUninit (strtok word ',')
    else some false
  else some (cmdIfnameMatch env word)

/-- The operator of a list token. -/
def listOperator (cmd : CStr) : Option CliIntType :=
  match listLetter cmd with
  | some 'C' => some .commaOperator
  | some 'L' => some .rangeOperator
  | some 'A' => some .bothOperator
  | _ => none

def listMatchType : CliIntType → MatchType
  | .commaOperator => .rangeMatchComma
  | .rangeOperator => .rangeMatchList
  | .bothOperator => .rangeMatchCommaList

/-- `type` if the token accepts the word. -/
def matchIf (type : MatchType) (accepts : Bool) : MatchType :=
  if accepts then type else .noMatch

/-- An address counts when it is complete, or begun under the relaxed
filter. -/
def addressMatch (filter : FilterType) (type answer : MatchType) : MatchType :=
  matchIf type (filter = .relaxed && answer ≠ .noMatch || filter = .strict && answer = .exactMatch)

def rangeWordMatch (cmd word : CStr) : Option MatchType :=
  match listOperator cmd with
  | some operator =>
    (cmdRangeCommaCliParserValidate env.uninit (some word) cmd operator).map
      (matchIf (listMatchType operator))
  | none => some (matchIf .rangeMatch (cmdRangeMatch cmd word))

def fixedWordMatch (filter : FilterType) (cmd word : CStr) : MatchType :=
  match filter with
  | .relaxed =>
    if word.isPrefixOf cmd then
      if cmd = word then .exactMatch else .partlyMatch
    else .noMatch
  | .strict => matchIf .exactMatch (cmd = word)

/-- `cmd_word_match` on a word that is there and not empty. -/
def cmdWordMatchText (cmd : CStr) (filter : FilterType)
    (word : CStr) : Option MatchType :=
  if cmdVararg cmd then some .varargMatch
  else if cmdRange cmd then rangeWordMatch env cmd word
  else if cmdIpv6 cmd then
    some (addressMatch filter .ipv6Match (cmdIpv6Match env.inetPton6 word))
  else if cmdIpv6Prefix cmd then
    some (addressMatch filter .ipv6PrefixMatch (cmdIpv6PrefixMatch word))
  else if cmdIpv4 cmd then
    some (addressMatch filter .ipv4Match (cmdIpv4Match word))
  else if cmdIpv4Prefix cmd then
    some (addressMatch filter .ipv4PrefixMatch (cmdIpv4PrefixMatch word))
  else if cmdIpv4Netmask cmd then
    some (addressMatch filter .ipv4NetmaskMatch (cmdIpv4NetmaskMatch word))
  else if cmdIfname cmd then
    (ifnameWordMatch env cmd word).map (matchIf .ifnameMatch)
  else if cmdPort cmd then
    some (matchIf .portMatch (callbackMatch env.portMatch word))
  else if cmdVlan cmd then
    some (matchIf .vlanMatch (callbackMatch env.vlanMatch word))
  else if cmdMac cmd then
    some (matchIf .macMatch (callbackMatch env.macMatch word))
  else if cmdOption cmd || cmdVariable cmd then some .extendMatch
  else some (fixedWordMatch filter cmd word)

theorem of_branch {goal condition : Prop} [Decidable condition] {first second : Option MatchType}
    {type : MatchType} (answer : (if condition then first else second) = some type)
    (here : condition → first = some type → goal)
    (later : ¬ condition → second = some type → goal) : goal := by
  split at answer
  · exact here ‹_› answer
  · exact later ‹_› answer

/-- `cmd_word_match`. -/
def cmdWordMatch (token : Terminal) (filter : FilterType)
    (word : Option CStr) : Option MatchType :=
  match filter, word with
  | .relaxed, none => some .partlyMatch
  | .relaxed, some [] => some .partlyMatch
  | .strict, none => some .noMatch
  | filter, some word => cmdWordMatchText env token.cmd filter word

end OpsCli.Command.WordMatch
