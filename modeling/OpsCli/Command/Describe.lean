import OpsCli.CLib.Qsort
import OpsCli.Command.Selection

/-!
# Help for a line

`cmd_describe_command_real` lists the tokens that may stand at the last word
of a line.  The words before the last one filter the commands of the node as
they do for execution; at the last word the commands are filtered once more,
and what they record there is listed.  If the last word is empty, `<cr>` is
listed for a command that is complete without it.
-/

namespace OpsCli.Command.Describe

open CLib CString Qsort Token Address RangeList WordMatch Matcher
  Selection

/-! ## One token -/

/-- An address token is listed for a missing word and for a word that it
matches. -/
def listedAddress (matcher : CStr → MatchType) (src : Option CStr) : Bool :=
  src.all fun word => matcher word ≠ .noMatch

variable (env : MatchEnv)

/-- A range or list token is listed for a word that it accepts; a range
accepts a missing word. -/
def listedRange (src : Option CStr) (dst : CStr) : Option Bool :=
  match listOperator dst with
  | some operator =>
    cmdRangeCommaCliParserValidate env.uninit src dst operator
  | none => some (src.all (cmdRangeMatch dst))

/-- `cmd_entry_function_desc`: whether the token `dst` is listed for the word
`src`. -/
def cmdEntryFunctionDesc (src : Option CStr) (dst : CStr) : Option Bool :=
  if cmdVararg dst then some true
  else if cmdRange dst then listedRange env src dst
  else if cmdIpv6 dst then
    some (listedAddress (cmdIpv6Match env.inetPton6) src)
  else if cmdIpv6Prefix dst then some (listedAddress cmdIpv6PrefixMatch src)
  else if cmdIpv4 dst then some (listedAddress cmdIpv4Match src)
  else if cmdIpv4Prefix dst then some (listedAddress cmdIpv4PrefixMatch src)
  else if cmdIpv4Netmask dst then some (listedAddress cmdIpv4NetmaskMatch src)
  else if cmdIfname dst || cmdPort dst || cmdVlan dst || cmdMac dst then
    some true
  else if cmdOption dst || cmdVariable dst then some true
  else some (src.all (·.isPrefixOf dst))

/-- `command_cr`. -/
def commandCr : CStr :=
  "<cr>"

/-- `token_cr`. -/
def tokenCr : Terminal :=
  ⟨commandCr, some [], none⟩

/-- `desc_unique_string`: no token of the vector has this text. -/
def descUniqueString (matchvec : List Terminal) (str : CStr) : Bool :=
  matchvec.all (·.cmd ≠ str)

/-- `ErrDescStr`. -/
def errDescStr : CStr :=
  "Error: Help strings does not match for the identical tokens"

/-- `check_unique_helpstr`: the first token with the same text and another
help string gets the error string.  A missing help string is not to be
compared. -/
def checkUniqueHelpstr (cmdstr : CStr) (helpstr : Option CStr) :
    List Terminal → Option (List Terminal)
  | [] => some []
  | token :: rest =>
    if token.cmd ≠ cmdstr then
      (checkUniqueHelpstr cmdstr helpstr rest).map (token :: ·)
    else
      match token.desc with
      | none => none
      | some desc =>
        match helpstr with
        | none => none
        | some help =>
          if desc ≠ help then
            some ({ token with desc := some errDescStr } :: rest)
          else (checkUniqueHelpstr cmdstr helpstr rest).map (token :: ·)

/-- A help string that is computed by a callback replaces the one of the
token unless it is empty. -/
def dynamicHelp (help : Terminal → CStr) (token : Terminal) : Terminal :=
  if token.dynCb.isSome && help token ≠ [] then
    { token with desc := some (help token) }
  else token

def describeToken (help : Terminal → CStr) (command : Option CStr)
    (matchvec : List Terminal) (token : Terminal) : Option (List Terminal) :=
  match cmdEntryFunctionDesc env command token.cmd with
  | none => none
  | some listed =>
    let token := dynamicHelp help token
    if listed && descUniqueString matchvec token.cmd then
      some (matchvec ++ [token])
    else checkUniqueHelpstr token.cmd token.desc matchvec

/-! ## One command -/

/-- `vector_unset` at the last word: the missing words in front of it go
too. -/
def trimLast (vline : List (Option CStr)) : List (Option CStr) :=
  (vline.dropLast.reverse.dropWhile (· = none)).reverse

structure Listing where
  matchvec : List Terminal
  szToken : CStr
deriving DecidableEq, Repr

/-- `<cr>` for a command that is complete without an empty last word. -/
def describeCr (vline : List (Option CStr)) (matchType : MatchType)
    (command : CmdElement) (listing : Listing) : Option Listing :=
  if (vline.getLast?).any isEmptyWord then
    match cmdIsComplete env (trimLast vline) command listing.szToken with
    | none => none
    | some next =>
      some ⟨if next.rv = .complete && descUniqueString listing.matchvec commandCr &&
          matchType ≠ .varargMatch then listing.matchvec ++ [tokenCr]
        else listing.matchvec, next.state.szToken⟩
  else some listing

def describeSlot (help : Terminal → CStr) (vline : List (Option CStr))
    (matchType : MatchType) (listing : Listing)
    (slot : Slot) : Option Listing :=
  match slot.command with
  | none => some listing
  | some command =>
    match describeCr env vline matchType command listing with
    | none => none
    | some listing =>
      ((slot.matched.getD []).foldlM (describeToken env help (vline.getLast?.getD none))
        listing.matchvec).map
        fun matchvec => { listing with matchvec := matchvec }

/-! ## The filter loop -/

/-- How the rounds end: with a status, at a vararg, or with the filter at the
last word, before which `commands` were left. -/
inductive Rounds where
  | stopped (status : CmdStatus) (szToken : CStr)
  | vararg (next : FilterOutcome)
  | last (commands : List (Option CmdElement)) (next : FilterOutcome)
deriving DecidableEq, Repr

/-- The loop over the words of the line; an empty line has no match. -/
def describeRounds (env : MatchEnv) (vline : List (Option CStr)) :
    Nat → List (Option CStr) → List (Option CmdElement) → CStr → Option Rounds
  | _, [], _, szToken => some (.stopped .errNoMatch szToken)
  | index, word :: words, commands, szToken =>
    match cmdVectorFilter ⟨env, .relaxed, vline, some index⟩ commands .noMatch szToken with
    | none => none
    | some next =>
      if next.status ≠ .success then
        some (.stopped next.status next.szToken)
      else if words = [] then some (.last commands next)
      else if next.matchType = .varargMatch then some (.vararg next)
      else
        match isCmdAmbiguous env next.matchType (word.getD []) next.slots none with
        | none => none
        | some .ambiguous => some (.stopped .errAmbiguous next.szToken)
        | some .incomplete => some (.stopped .errNoMatch next.szToken)
        | some (.left commands) =>
          describeRounds env vline (index + 1) words commands next.szToken

/-- The number of active slots of the vector of matches: those up to the last
command that is not hidden. -/
def matchesActive : List (Option CmdElement) → Nat
  | [] => 0
  | command :: rest =>
    if matchesActive rest = 0 && !command.any (!·.hidden) then 0
    else matchesActive rest + 1

/-- `cmd_describe_cmp`. -/
def cmdDescribeCmp (first second : Terminal) : Int :=
  strcmp first.cmd second.cmd

inductive Described where
  | refused (status : CmdStatus)
  | tokens (matchvec : List Terminal)
deriving DecidableEq, Repr

/-- `cmd_describe_command_real`, with the static buffer before and after. -/
def cmdDescribeCommandReal (qsort : Sorter Terminal) (env : MatchEnv) (help : Terminal → CStr)
    (vline : List (Option CStr))
    (commands : List CmdElement) (szToken : CStr) : Option (Described × CStr) :=
  match describeRounds env vline 0 vline (commands.map some) szToken with
  | none => none
  | some (.stopped status szToken) => some (.refused status, szToken)
  | some (.vararg next) =>
    some (.tokens (qsort.sort cmdDescribeCmp
      (next.slots.flatMap (·.matched.getD []) ++ [tokenCr])), next.szToken)
  | some (.last commands next) =>
    ((next.slots.take (matchesActive commands)).foldlM
      (describeSlot env help vline next.matchType) ⟨[], next.szToken⟩).map
      fun listing =>
        if listing.matchvec = [] then
          (.refused .errNoMatch, listing.szToken)
        else
          (.tokens (qsort.sort cmdDescribeCmp listing.matchvec), listing.szToken)

end OpsCli.Command.Describe
