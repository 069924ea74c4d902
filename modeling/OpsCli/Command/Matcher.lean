import OpsCli.Command.WordMatch

/-!
# Matching a command line against a command

`cmd_element_match` walks over the tokens of a command and the words of the
line.  It is used in two ways: up to a position `index`, to collect the tokens
that match the word there, and over the whole line, to collect the arguments.

A result `none` is undefined behaviour.  Words of the line are pointers that
may be null.
-/

namespace OpsCli.Command.Matcher

open CLib.CString Token WordMatch

/-! ## The state of a matcher -/

/-- `CMD_ARGC_MAX`. -/
def cmdArgcMax : Nat := 25

/-- `MAX_CMD_LEN`. -/
def maxCmdLen : Nat := 256

/-- The part of `struct cmd_matcher` that does not change; `index` is `none`
for the value `-1`. -/
structure CmdMatcher where
  env : MatchEnv
  filter : FilterType
  vline : List (Option CStr)
  index : Option Nat

/-- The part that changes: the position in the line, what `match_type` and
`match` point to, and the static buffer `szToken`. -/
structure MatcherState where
  wordIndex : Nat
  matchType : MatchType
  matchVector : Option (List Terminal)
  szToken : CStr
deriving DecidableEq, Repr

/-- An argument of a handler: null, a string, or the buffer `szToken`. -/
inductive Arg where
  | null
  | text (str : CStr)
  | szToken
deriving DecidableEq, Repr

/-- The arguments collected so far; `none` when `argc` and `argv` are
null. -/
abbrev Args := Option (List Arg)

/-- What a matcher function returns and leaves behind. -/
structure Outcome where
  rv : MatcherRv
  state : MatcherState
  args : Args
deriving DecidableEq, Repr

def Arg.ofWord : Option CStr → Arg
  | none => .null
  | some [] => .null
  | some word => .text word

/-- `push_argument`; `none` is the answer `-1`. -/
def pushArgument (args : Args) (arg : Arg) : Option Args :=
  match args with
  | none => some none
  | some list =>
    if cmdArgcMax ≤ list.length then none else some (some (list ++ [arg]))

variable (m : CmdMatcher)

/-- `cmd_matcher_record_match`. -/
def cmdMatcherRecordMatch (type : MatchType) (token : Terminal)
    (state : MatcherState) : MatcherState :=
  if m.index = some state.wordIndex then
    { state with
      matchVector := some (state.matchVector.getD [] ++ [token])
      matchType := if state.matchType < type then type else state.matchType }
  else state

/-- `matcher->word_index++`. -/
def MatcherState.advance (state : MatcherState) : MatcherState :=
  { state with wordIndex := state.wordIndex + 1 }

/-- `matcher->word_index > matcher->index`. -/
def beyondIndex (state : MatcherState) : Bool :=
  match m.index with
  | none => false
  | some index => index < state.wordIndex

/-! ## Terminals -/

/-- The text of an option token as left in `szToken`: the inner text over
the old contents, which are not cleared. -/
def optionText (cmd szToken : CStr) : Option CStr :=
  if cmd.length < 2 || maxCmdLen ≤ cmd.length - 2 then none
  else
    some ((cmd.drop 1).take (cmd.length - 2) ++ szToken.drop (cmd.length - 2))

/-- The words that a vararg token still takes; a full argument vector is not
an error here. -/
def pushRest (args : Args) (words : List (Option CStr)) : Args :=
  words.foldl (fun args word =>
      if Arg.ofWord word = .null then args
      else (pushArgument args (Arg.ofWord word)).getD args) args

/-- The end of `cmd_matcher_match_terminal`. -/
def finishTerminal (token : Terminal) (type : MatchType) (state : MatcherState)
    (args : Args) : Outcome :=
  let state := (cmdMatcherRecordMatch m type token state).advance
  if cmdVararg token.cmd then
    ⟨.ok, { state with wordIndex := max state.wordIndex m.vline.length },
      pushRest args (m.vline.drop state.wordIndex)⟩
  else ⟨.ok, state, args⟩

/-- The argument for an option token whose inner text matched by `type`. -/
def optionArg (type : MatchType) (inner : CStr) (word : Option CStr) : Arg :=
  if type = .partlyMatch || type = .exactMatch then
    if inner = [] then .null else .szToken
  else Arg.ofWord word

/-- `cmd_matcher_match_terminal` on an option token. -/
def matchOption (token : Terminal) (word : Option CStr) (state : MatcherState)
    (args : Args) : Option Outcome :=
  match optionText token.cmd state.szToken with
  | none => none
  | some inner =>
    let state := { state with szToken := inner }
    match cmdWordMatch m.env { token with cmd := inner } m.filter word with
    | none => none
    | some type =>
      if type = .noMatch || type = .varargMatch then
        some ⟨.noMatch, state, args⟩
      else
        match pushArgument args (optionArg type inner word) with
        | none => some ⟨.exceedArgcMax, state, args⟩
        | some args => some (finishTerminal m token .extendMatch state args)

/-- The arguments of a terminal that matches the word by `type`, and the
end of the matching. -/
def takeTerminal (token : Terminal) (word : Option CStr) (type : MatchType)
    (state : MatcherState) (args : Args) : Option Outcome :=
  if cmdVararg token.cmd || cmdVariable token.cmd then
    match pushArgument args (Arg.ofWord word) with
    | none => some ⟨.exceedArgcMax, state, args⟩
    | some args => some (finishTerminal m token type state args)
  else if cmdOption token.cmd then matchOption m token word state args
  else some (finishTerminal m token type state args)

/-- `cmd_matcher_match_terminal`. -/
def cmdMatcherMatchTerminal (token : Terminal)
    (state : MatcherState) (args : Args) : Option Outcome :=
  match m.vline[state.wordIndex]? with
  | none =>
    some ⟨if cmdOption token.cmd then .ok else .incomplete, state, args⟩
  | some word =>
    match cmdWordMatch m.env token m.filter word with
    | none => none
    | some type =>
      if type = .noMatch then some ⟨.noMatch, state, args⟩
      else takeTerminal m token word type state args

/-! ## Multiples -/

/-- The best alternative so far: its match type and its argument. -/
structure MultipleScan where
  best : MatchType
  arg : Arg
  state : MatcherState

/-- One round of the loop over the alternatives. -/
def multipleStep (word : Option CStr) (scan : MultipleScan)
    (token : Terminal) : Option MultipleScan :=
  match cmdWordMatch m.env token m.filter word with
  | none => none
  | some type =>
    if type = .noMatch then some scan
    else
      let state := cmdMatcherRecordMatch m type token scan.state
      if scan.best < type then
        some ⟨type, if type = .partlyMatch then Arg.ofWord (some token.cmd)
          else Arg.ofWord word, state⟩
      else some { scan with state := state }

/-- `cmd_matcher_match_multiple`. -/
def cmdMatcherMatchMultiple (alternatives : List Terminal) (state : MatcherState)
    (args : Args) : Option Outcome :=
  match m.vline[state.wordIndex]? with
  | none => some ⟨.incomplete, state, args⟩
  | some word =>
    match alternatives.foldlM (multipleStep m word) ⟨.noMatch, .null, state⟩ with
    | none => none
    | some scan =>
      if scan.best = .noMatch then
        some ⟨.noMatch, scan.state.advance, args⟩
      else
        match pushArgument args scan.arg with
        | none => some ⟨.exceedArgcMax, scan.state.advance, args⟩
        | some args => some ⟨.ok, scan.state.advance, args⟩

/-! ## Keyword groups -/

structure KeywordScan where
  found : Option Nat
  best : MatchType
  state : MatcherState

/-- The loop over the keywords of a group, and whether it ended with an
ambiguity.  `mask` lists the bits set in `keyword_mask`; the shift that makes
a bit is undefined from the 31st on. -/
def scanKeywords (m : CmdMatcher) (word : Option CStr) (mask : List Nat) (haveArgs : Bool) :
    Nat → List KeywordPart → KeywordScan → Option (Bool × KeywordScan)
  | _, [], scan => some (false, scan)
  | i, part :: rest, scan =>
    if 31 ≤ i then none
    else if i ∈ mask then
      scanKeywords m word mask haveArgs (i + 1) rest scan
    else
      match cmdWordMatch m.env part.keyword m.filter word with
      | none => none
      | some type =>
        if type = .noMatch then
          scanKeywords m word mask haveArgs (i + 1) rest scan
        else
          let state := cmdMatcherRecordMatch m type part.keyword scan.state
          if scan.best < type then
            scanKeywords m word mask haveArgs (i + 1) rest ⟨some i, type, state⟩
          else if type = scan.best && (m.index ≠ some state.wordIndex || haveArgs) then
            some (true, { scan with state := state })
          else
            scanKeywords m word mask haveArgs (i + 1) rest { scan with state := state }

def matchKeywordArg (arg : KeywordArg) (state : MatcherState)
    (args : Args) : Option Outcome :=
  match arg with
  | .terminal token => cmdMatcherMatchTerminal m token state args
  | .multiple alternatives =>
    cmdMatcherMatchMultiple m alternatives state args

def matchKeywordArgs (m : CmdMatcher) : List KeywordArg → MatcherState → Args → Option Outcome
  | [], state, args => some ⟨.ok, state, args⟩
  | arg :: rest, state, args =>
    match matchKeywordArg m arg state args with
    | none => none
    | some next =>
      if next.rv.isError || beyondIndex m next.state then some next
      else matchKeywordArgs m rest next.state next.args

/-- The argument vectors of the keywords that were read, by the number of
the keyword; `none` when `args_vector` is null. -/
abbrev KeywordTable := Option (List (Nat × List Arg))

/-- What reading the keywords returns and leaves behind. -/
structure KeywordOutcome where
  rv : MatcherRv
  state : MatcherState
  table : KeywordTable

/-- `cmd_matcher_read_keywords`; every round takes a word. -/
def cmdMatcherReadKeywords (m : CmdMatcher) (parts : List KeywordPart) :
    Nat → List Nat → MatcherState → KeywordTable → Option KeywordOutcome
  | 0, _, _, _ => none
  | fuel + 1, mask, state, table =>
    match m.vline[state.wordIndex]? with
    | none => some ⟨.ok, state, table⟩
    | some word =>
      match scanKeywords m word mask table.isSome 0 parts ⟨none, .noMatch, state⟩ with
      | none => none
      | some (true, scan) => some ⟨.ambiguous, scan.state, table⟩
      | some (false, scan) =>
        match scan.found.bind fun i => parts[i]?.map (i, ·) with
        | none => some ⟨.noMatch, scan.state, table⟩
        | some (i, part) =>
          let state := scan.state.advance
          if beyondIndex m state then some ⟨.ok, state, table⟩
          else
            match matchKeywordArgs m part.args state (table.map fun _ => []) with
            | none => none
            | some next =>
              let table := table.map (· ++ [(i, next.args.getD [])])
              if next.rv.isError || beyondIndex m next.state then
                some ⟨next.rv, next.state, table⟩
              else
                cmdMatcherReadKeywords m parts fuel (i :: mask) next.state table

/-- Whether an argument token of an absent keyword takes a null argument. -/
def takesNull : KeywordArg → Bool
  | .terminal token =>
    cmdVararg token.cmd || cmdVariable token.cmd || cmdOption token.cmd
  | .multiple _ => true

def keywordArgs (part : KeywordPart) (read : Option (List Arg)) : List Arg :=
  if part.args = [] then
    [if read.isSome then Arg.ofWord (some part.keyword.cmd) else .null]
  else
    match read with
    | some args => args
    | none => (part.args.filter takesNull).map fun _ => .null

def pushAll (list : List Arg) (new : List Arg) : MatcherRv × List Arg :=
  if list.length + new.length ≤ cmdArgcMax then (.ok, list ++ new)
  else (.exceedArgcMax, (list ++ new).take cmdArgcMax)

def groupArgs (parts : List KeywordPart) (table : List (Nat × List Arg)) : List Arg :=
  parts.zipIdx.flatMap fun (part, i) => keywordArgs part (table.lookup i)

/-- `cmd_matcher_build_keyword_args`. -/
def cmdMatcherBuildKeywordArgs (parts : List KeywordPart) (args : Args)
    (table : KeywordTable) : MatcherRv × Args :=
  match args, table with
  | some list, some table =>
    ((pushAll list (groupArgs parts table)).1, some (pushAll list (groupArgs parts table)).2)
  | args, _ => (.ok, args)

/-- `cmd_matcher_match_keyword`. -/
def cmdMatcherMatchKeyword (parts : List KeywordPart) (state : MatcherState)
    (args : Args) : Option Outcome :=
  match cmdMatcherReadKeywords m parts (m.vline.length + 1) [] state (args.map fun _ => []) with
  | none => none
  | some reader =>
    let builder := cmdMatcherBuildKeywordArgs parts args reader.table
    some ⟨if !reader.rv.isError && builder.1.isError then builder.1
      else reader.rv, reader.state, builder.2⟩

/-! ## Commands -/

def matchToken (token : CmdToken) (state : MatcherState)
    (args : Args) : Option Outcome :=
  match token with
  | .terminal token => cmdMatcherMatchTerminal m token state args
  | .multiple alternatives => cmdMatcherMatchMultiple m alternatives state args
  | .keyword parts => cmdMatcherMatchKeyword m parts state args

/-- A word that is missing or empty. -/
def isEmptyWord (word : Option CStr) : Bool :=
  word = none || word = some []

/-- The result when all tokens have been matched: the line has to be
finished, up to one empty word. -/
def endOfTokens (state : MatcherState) : MatcherRv :=
  if m.vline.length ≤ state.wordIndex then .complete
  else if state.wordIndex + 1 = m.vline.length &&
      (m.vline[state.wordIndex]?).any isEmptyWord then .complete
  else .noMatch

def matchTokens (m : CmdMatcher) : List CmdToken → MatcherState → Args → Option Outcome
  | [], state, args => some ⟨endOfTokens m state, state, args⟩
  | token :: rest, state, args =>
    match matchToken m token state args with
    | none => none
    | some next =>
      if next.rv.isError || beyondIndex m next.state then some next
      else matchTokens m rest next.state next.args

/-- `cmd_matcher_init`. -/
def cmdMatcherInit (szToken : CStr) : MatcherState :=
  ⟨0, .noMatch, none, szToken⟩

/-- `cmd_element_match`. -/
def cmdElementMatch (tokens : List CmdToken) (szToken : CStr)
    (wantArgs : Bool) : Option Outcome :=
  matchTokens m tokens (cmdMatcherInit szToken) (if wantArgs then some [] else none)

/-! ## The loops taken apart -/

section

variable {m : CmdMatcher} {state : MatcherState} {args : Args} {next : Outcome}
  {parts : List KeywordPart} {rv : MatcherRv}

theorem eq_of_ite {α : Type} {c : Bool} {last next : α} {rest : Option α}
    (run : (if c then some last else rest) = some next) :
    if c then next = last else rest = some next := by
  cases c with
  | false => exact run
  | true => exact (Option.some.inj run).symm

theorem matchKeywordArgs_cons {arg : KeywordArg} {rest : List KeywordArg}
    (run : matchKeywordArgs m (arg :: rest) state args = some next) :
    ∃ middle, matchKeywordArg m arg state args = some middle ∧
      if middle.rv.isError || beyondIndex m middle.state then next = middle
      else matchKeywordArgs m rest middle.state middle.args = some next := by
  rw [matchKeywordArgs] at run
  split at run
  · cases run
  rename_i middle step
  exact ⟨middle, step, eq_of_ite run⟩

theorem matchTokens_cons {token : CmdToken} {rest : List CmdToken}
    (run : matchTokens m (token :: rest) state args = some next) :
    ∃ middle, matchToken m token state args = some middle ∧
      if middle.rv.isError || beyondIndex m middle.state then next = middle
      else matchTokens m rest middle.state middle.args = some next := by
  rw [matchTokens] at run
  split at run
  · cases run
  rename_i middle step
  exact ⟨middle, step, eq_of_ite run⟩

theorem fine_of_ends {past : Bool} {stops goes : Prop}
    (later : if rv.isError || past then stops else goes) (ends : stops → rv.isError = false) :
    rv.isError = false ∧ if past then stops else goes := by
  cases error : rv.isError with
  | false =>
    rw [error, Bool.false_or] at later
    exact ⟨rfl, later⟩
  | true =>
    rw [error, Bool.true_or, if_pos rfl] at later
    cases error.symm.trans (ends later)

theorem found_of_picked {number : Option Nat} {i : Nat} {part : KeywordPart}
    (picked : (number.bind fun i => parts[i]?.map (i, ·)) = some (i, part)) :
    number = some i ∧ parts[i]? = some part := by
  obtain ⟨j, isNumber, mapped⟩ := Option.bind_eq_some_iff.mp picked
  obtain ⟨_, found, same⟩ := Option.map_eq_some_iff.mp mapped
  cases same
  exact ⟨isNumber, found⟩

/-- What a round of `cmd_matcher_read_keywords` does. -/
inductive Round (m : CmdMatcher) (parts : List KeywordPart) (fuel : Nat) (mask : List Nat)
    (state : MatcherState) (table : KeywordTable) :
    KeywordOutcome → Prop where
  | finished (nothing : m.vline[state.wordIndex]? = none) :
      Round m parts fuel mask state table ⟨.ok, state, table⟩
  | refused {word : Option CStr} {ambiguous : Bool} {scan : KeywordScan}
      (here : m.vline[state.wordIndex]? = some word)
      (scanned : scanKeywords m word mask table.isSome 0 parts
        ⟨none, .noMatch, state⟩ = some (ambiguous, scan))
      (nothing : ambiguous = false → (scan.found.bind fun i => parts[i]?) = none) :
      Round m parts fuel mask state table
        ⟨if ambiguous then .ambiguous else .noMatch, scan.state, table⟩
  | keyword {word : Option CStr} {scan : KeywordScan} {i : Nat}
      {part : KeywordPart} {next : KeywordOutcome}
      (here : m.vline[state.wordIndex]? = some word)
      (scanned : scanKeywords m word mask table.isSome 0 parts
        ⟨none, .noMatch, state⟩ = some (false, scan))
      (number : scan.found = some i) (found : parts[i]? = some part)
      (later : if beyondIndex m scan.state.advance then
          next = ⟨.ok, scan.state.advance, table⟩
        else ∃ middle, matchKeywordArgs m part.args scan.state.advance
            (table.map fun _ => []) = some middle ∧
          if middle.rv.isError || beyondIndex m middle.state then
            next = ⟨middle.rv, middle.state, table.map (· ++ [(i, middle.args.getD [])])⟩
          else cmdMatcherReadKeywords m parts fuel (i :: mask) middle.state
            (table.map (· ++ [(i, middle.args.getD [])])) = some next) :
      Round m parts fuel mask state table next

theorem round_of_readKeywords {fuel : Nat} {mask : List Nat}
    {table : KeywordTable} {next : KeywordOutcome}
    (run : cmdMatcherReadKeywords m parts (fuel + 1) mask state table =
      some next) : Round m parts fuel mask state table next := by
  rw [cmdMatcherReadKeywords] at run
  split at run
  · rename_i nothing
    cases run
    exact .finished nothing
  rename_i word here
  split at run
  · cases run
  · rename_i scanned
    cases run
    exact .refused here scanned nofun
  rename_i scan scanned
  split at run
  · rename_i nothing
    cases run
    refine .refused here scanned fun _ => ?_
    cases number : scan.found with
    | none => rfl
    | some i =>
      rw [number, Option.bind_some, Option.map_eq_none_iff] at nothing
      exact nothing
  rename_i i part chosen
  obtain ⟨number, found⟩ := found_of_picked chosen
  refine .keyword here scanned number found ?_
  by_cases past : beyondIndex m scan.state.advance
  · rw [if_pos past] at run ⊢
    exact (Option.some.inj run).symm
  rw [if_neg past] at run ⊢
  split at run
  · cases run
  rename_i middle step
  exact ⟨middle, step, eq_of_ite run⟩

theorem matchKeyword_reader (run : cmdMatcherMatchKeyword m parts state args = some next) :
    ∃ reader, cmdMatcherReadKeywords m parts (m.vline.length + 1) [] state
        (args.map fun _ => []) = some reader ∧
      next = ⟨if !reader.rv.isError &&
          (cmdMatcherBuildKeywordArgs parts args reader.table).1.isError then
            (cmdMatcherBuildKeywordArgs parts args reader.table).1
          else reader.rv, reader.state,
        (cmdMatcherBuildKeywordArgs parts args reader.table).2⟩ := by
  unfold cmdMatcherMatchKeyword at run
  split at run
  · cases run
  · rename_i reader read
    cases run
    exact ⟨reader, read, rfl⟩

/-- The errors of the reader come before those of the builder. -/
theorem fine_of_reader {builder : MatcherRv}
    (noError : (if !rv.isError && builder.isError then builder
      else rv).isError = false) : rv.isError = false := by
  by_contra error
  rw [Bool.not_eq_false] at error
  simp [error] at noError

theorem matchKeyword_none (run : cmdMatcherMatchKeyword m parts state none = some next) :
    ∃ reader, cmdMatcherReadKeywords m parts (m.vline.length + 1) [] state
        none = some reader ∧ next = ⟨reader.rv, reader.state, none⟩ := by
  obtain ⟨reader, read, rfl⟩ := matchKeyword_reader run
  exact ⟨reader, read, by simp [cmdMatcherBuildKeywordArgs, MatcherRv.isError]⟩

end

end OpsCli.Command.Matcher
