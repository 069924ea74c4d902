import OpsCli.Command.Matcher

/-!
# Selecting the command for a line

The first half of `cmd_execute_command_real`: the commands of a node are
filtered word by word, what is left is matched against the whole line, and
the only command that is complete is parsed.  Hidden commands are not filtered.
-/

namespace OpsCli.Command.Selection

open CLib.CString Token Address RangeList WordMatch Matcher

/-- The return values of commands; handlers may return others too. -/
inductive CmdStatus where
  | ovsdbFailure
  | success
  | warning
  | errNoMatch
  | errAmbiguous
  | errIncomplete
  | errExeedArgcMax
  | errNothingTodo
  | completeFullMatch
  | completeMatch
  | completeListMatch
  | successDaemon
  | other (code : Int)
deriving DecidableEq, Repr

/-- The fields of `struct cmd_element` that execution reads; the attribute
bits are separate. -/
structure CmdElement where
  string : CStr
  tokens : List CmdToken
  hidden : Bool := false
  notEnabled : Bool := false
  nonIdlCmd : Bool := false
  daemon : Nat := 0
deriving DecidableEq, Repr

/-- A position of the vector of commands and of the vector of matches. -/
structure Slot where
  command : Option CmdElement
  matched : Option (List Terminal)
deriving DecidableEq, Repr

/-! ## Filtering at one word -/

/-- What `cmd_vector_filter` returns and leaves behind. -/
structure FilterOutcome where
  status : CmdStatus
  slots : List Slot
  matchType : MatchType
  szToken : CStr
deriving DecidableEq, Repr

def FilterOutcome.cons (slot : Slot) (outcome : FilterOutcome) : FilterOutcome :=
  { outcome with slots := slot :: outcome.slots }

/-- `cmd_vector_filter`, from one command on. -/
def cmdVectorFilter (m : CmdMatcher) :
    List (Option CmdElement) → MatchType → CStr → Option FilterOutcome
  | [], best, szToken => some ⟨.success, [], best, szToken⟩
  | none :: rest, best, szToken =>
    (cmdVectorFilter m rest best szToken).map (.cons ⟨none, none⟩)
  | some command :: rest, best, szToken =>
    if command.hidden then
      (cmdVectorFilter m rest best szToken).map (.cons ⟨some command, none⟩)
    else
      match cmdElementMatch m command.tokens szToken false with
      | none => none
      | some next =>
        if next.rv = .ambiguous then
          some ⟨.errAmbiguous, [], best, next.state.szToken⟩
        else if next.rv = .exceedArgcMax then
          some ⟨.errExeedArgcMax, [], best, next.state.szToken⟩
        else if next.rv.isError then
          (cmdVectorFilter m rest best next.state.szToken).map
            (.cons ⟨none, next.state.matchVector⟩)
        else
          (cmdVectorFilter m rest (if best < next.state.matchType then next.state.matchType
              else best) next.state.szToken).map
            (.cons ⟨some command, next.state.matchVector⟩)

/-! ## Ambiguity at one word -/

/-- What one token says about the word: nothing, it counts (and its text may
be remembered in `matched`), or one of the two early returns. -/
inductive Verdict where
  | skip
  | count (matched : Option CStr)
  | ambiguous
  | incomplete
deriving DecidableEq, Repr

/-- The token counts without being remembered. -/
def countIf (counts : Bool) (matched : Option CStr) : Verdict :=
  if counts then .count matched else .skip

/-- The token counts and is remembered; a different one before is an
ambiguity. -/
def rememberIf (counts : Bool) (str : CStr) (matched : Option CStr) : Verdict :=
  if counts then
    if matched.any (· ≠ str) then .ambiguous else .count (some str)
  else .skip

/-- A prefix counts unless it is only begun. -/
def countPrefix (answer : MatchType) (matched : Option CStr) : Verdict :=
  if answer = .noMatch then .skip
  else if answer = .partlyMatch then .incomplete
  else .count matched

variable (env : MatchEnv)

/-- A list token counts and is remembered. -/
def countList (command str : CStr) (type : CliIntType) : Option Verdict :=
  (cmdRangeCommaCliParserValidate env.uninit (some command) str type).map
    fun accepts => if accepts then .count (some str) else .skip

/-- The `switch` of `is_cmd_ambiguous` for the token text `str`. -/
def judge (type : MatchType) (command str : CStr)
    (matched : Option CStr) : Option Verdict :=
  match type with
  | .exactMatch =>
    some (countIf (!(cmdOption str || cmdVariable str) && command = str) matched)
  | .partlyMatch =>
    some (rememberIf (!(cmdOption str || cmdVariable str) && command.isPrefixOf str) str matched)
  | .rangeMatch => some (rememberIf (cmdRangeMatch str command) str matched)
  | .rangeMatchComma => countList env command str .commaOperator
  | .rangeMatchList => countList env command str .rangeOperator
  | .rangeMatchCommaList => countList env command str .bothOperator
  | .ipv6Match => some (countIf (cmdIpv6 str) matched)
  | .ipv6PrefixMatch =>
    some (countPrefix (cmdIpv6PrefixMatch command) matched)
  | .ipv4Match => some (countIf (cmdIpv4 str) matched)
  | .ipv4PrefixMatch =>
    some (countPrefix (cmdIpv4PrefixMatch command) matched)
  | .ipv4NetmaskMatch =>
    some (countPrefix (cmdIpv4NetmaskMatch command) matched)
  | .ifnameMatch => some (countIf (cmdIfname str) matched)
  | .portMatch => some (countIf (cmdPort str) matched)
  | .vlanMatch => some (countIf (cmdVlan str) matched)
  | .macMatch => some (countIf (cmdMac str) matched)
  | .extendMatch => some (countIf (cmdOption str || cmdVariable str) matched)
  | .noMatch => some .skip
  | .varargMatch => some .skip

/-- The result of the loop over one match vector. -/
inductive Tally where
  | done (count : Nat) (matched : Option CStr)
  | ambiguous
  | incomplete
deriving DecidableEq, Repr

def judgeTokens (env : MatchEnv) (type : MatchType) (command : CStr) :
    List Terminal → Nat → Option CStr → Option Tally
  | [], count, matched => some (.done count matched)
  | token :: rest, count, matched =>
    match judge env type command token.cmd matched with
    | none => none
    | some .skip => judgeTokens env type command rest count matched
    | some (.count matched) =>
      judgeTokens env type command rest (count + 1) matched
    | some .ambiguous => some .ambiguous
    | some .incomplete => some .incomplete

/-- The answer of `is_cmd_ambiguous`: zero with the commands that are left,
one, or two. -/
inductive Ambiguity where
  | left (commands : List (Option CmdElement))
  | ambiguous
  | incomplete
deriving DecidableEq, Repr

def Ambiguity.cons (command : Option CmdElement) : Ambiguity → Ambiguity
  | .left commands => .left (command :: commands)
  | other => other

/-- `is_cmd_ambiguous`, from one slot on. -/
def isCmdAmbiguous (env : MatchEnv) (type : MatchType) (command : CStr) :
    List Slot → Option CStr → Option Ambiguity
  | [], _ => some (.left [])
  | slot :: rest, matched =>
    match slot.matched with
    | none =>
      (isCmdAmbiguous env type command rest matched).map (.cons slot.command)
    | some tokens =>
      match judgeTokens env type command tokens 0 matched with
      | none => none
      | some .ambiguous => some .ambiguous
      | some .incomplete => some .incomplete
      | some (.done count matched) =>
        (isCmdAmbiguous env type command rest matched).map
          (.cons (if count = 0 then none else slot.command))

/-! ## The filter loop -/

/-- The filter loop stops with a status or leaves some commands; the static
buffer is threaded through. -/
inductive Filtered where
  | stopped (status : CmdStatus) (szToken : CStr)
  | left (commands : List (Option CmdElement)) (szToken : CStr)
deriving DecidableEq, Repr

/-- The loop of `cmd_execute_command_real` over the words of the line. -/
def filterLoop (env : MatchEnv) (filter : FilterType) (vline : List (Option CStr)) :
    Nat → List (Option CStr) → List (Option CmdElement) → CStr → Option Filtered
  | _, [], commands, szToken => some (.left commands szToken)
  | index, word :: words, commands, szToken =>
    match cmdVectorFilter ⟨env, filter, vline, some index⟩ commands .noMatch szToken with
    | none => none
    | some next =>
      if next.status ≠ .success then
        some (.stopped next.status next.szToken)
      else if next.matchType = .varargMatch then
        some (.left (next.slots.map Slot.command) next.szToken)
      else
        match isCmdAmbiguous env next.matchType (word.getD []) next.slots none with
        | none => none
        | some .ambiguous => some (.stopped .errAmbiguous next.szToken)
        | some .incomplete => some (.stopped .errNoMatch next.szToken)
        | some (.left commands) =>
          filterLoop env filter vline (index + 1) words commands next.szToken

/-! ## Counting and parsing -/

/-- The counters of the second loop. -/
structure Count where
  matchedElement : Option CmdElement
  matchedCount : Nat
  incompleteCount : Nat
  szToken : CStr
deriving DecidableEq, Repr

/-- `cmd_is_complete`. -/
def cmdIsComplete (vline : List (Option CStr)) (command : CmdElement)
    (szToken : CStr) : Option Outcome :=
  cmdElementMatch ⟨env, .relaxed, vline, none⟩ command.tokens szToken false

/-- The loop that counts the commands that are complete or incomplete. -/
def countLoop (env : MatchEnv) (vline : List (Option CStr)) :
    List (Option CmdElement) → Count → Option Count
  | [], count => some count
  | none :: rest, count => countLoop env vline rest count
  | some command :: rest, count =>
    if command.notEnabled then countLoop env vline rest count
    else
      match cmdIsComplete env vline command count.szToken with
      | none => none
      | some next =>
        countLoop env vline rest
          { matchedElement :=
              if next.rv = .complete then some command
              else count.matchedElement
            matchedCount :=
              if next.rv = .complete then count.matchedCount + 1
              else count.matchedCount
            incompleteCount :=
              if next.rv = .incomplete then count.incompleteCount + 1
              else count.incompleteCount
            szToken := next.state.szToken }

/-- The status for the result of the matcher in `cmd_parse`. -/
def parseStatus : MatcherRv → CmdStatus
  | .complete => .success
  | .noMatch => .errNoMatch
  | .ambiguous => .errAmbiguous
  | .exceedArgcMax => .errExeedArgcMax
  | .ok | .incomplete => .errIncomplete

/-- `cmd_parse`: the status, the arguments and the static buffer. -/
def cmdParse (vline : List (Option CStr)) (command : CmdElement) (szToken : CStr) :
    Option (CmdStatus × List Arg × CStr) :=
  (cmdElementMatch ⟨env, .relaxed, vline, none⟩ command.tokens szToken true).map
    fun next => (parseStatus next.rv, next.args.getD [], next.state.szToken)

/-- The command and the arguments for a line, or the status that says why
there is none. -/
inductive Selected where
  | refused (status : CmdStatus)
  | command (element : CmdElement) (argv : List Arg)
deriving DecidableEq, Repr

/-- The first half of `cmd_execute_command_real`, with the contents of the
static buffer before and after. -/
def selectCommand (filter : FilterType) (vline : List (Option CStr))
    (commands : List CmdElement)
    (szToken : CStr) : Option (Selected × CStr) :=
  match filterLoop env filter vline 0 vline (commands.map some) szToken with
  | none => none
  | some (.stopped status szToken) => some (.refused status, szToken)
  | some (.left commands szToken) =>
    match countLoop env vline commands ⟨none, 0, 0, szToken⟩ with
    | none => none
    | some count =>
      if count.matchedCount = 0 then
        some (.refused (if count.incompleteCount = 0 then .errNoMatch
          else .errIncomplete), count.szToken)
      else if 1 < count.matchedCount then
        some (.refused .errAmbiguous, count.szToken)
      else
        match count.matchedElement with
        | none => none
        | some element =>
          match cmdParse env vline element count.szToken with
          | none => none
          | some (status, argv, szToken) =>
            if status = .success then
              some (.command element argv, szToken)
            else some (.refused status, szToken)

end OpsCli.Command.Selection
