import OpsCli.Command.Buffer
import OpsCli.Command.Execute

/-!
# Completeness and parsing

`cmd_is_complete` runs the matcher over the whole line without an argument
vector, and `cmd_parse` runs it again with one.  For a command without option
tokens the two runs go the same way, except that the second may find that there
are too many arguments.
-/

namespace OpsCli.Command.Completeness

open CLib.CString Token WordMatch Matcher Reading Acceptance Origin Selection
  Buffer Execute List

/-! ## Two runs -/

/-- A run without arguments and a run with arguments: both are undefined, or
they have come to the same result at the same word, or the second has too many
arguments. -/
inductive Alike : Option Outcome → Option Outcome → Prop where
  | undefined : Alike none none
  | same {plain full : Outcome} (rv : plain.rv = full.rv)
      (wordIndex : plain.state.wordIndex = full.state.wordIndex)
      (without : plain.args.isSome = false)
      (collects : full.args.isSome) : Alike (some plain) (some full)
  | exceeds {plain : Option Outcome} {full : Outcome}
      (rv : full.rv = .exceedArgcMax) : Alike plain (some full)

/-- The same for the loop that reads keywords. -/
inductive KeywordsAlike : Option KeywordOutcome → Option KeywordOutcome → Prop where
  | undefined : KeywordsAlike none none
  | same {plain full : KeywordOutcome} (rv : plain.rv = full.rv)
      (wordIndex : plain.state.wordIndex = full.state.wordIndex)
      (without : plain.table.isSome = false)
      (collects : full.table.isSome) :
      KeywordsAlike (some plain) (some full)
  | exceeds {plain : Option KeywordOutcome} {full : KeywordOutcome}
      (rv : full.rv = .exceedArgcMax) : KeywordsAlike plain (some full)

theorem pushArgument_isSome {args next : Args} {arg : Arg}
    (pushed : pushArgument args arg = some next) : next.isSome = args.isSome := by
  rw [grow_of_pushArgument pushed]
  exact Option.isSome_map

theorem pushRest_isSome (args : Args) (words : List Word) :
    (pushRest args words).isSome = args.isSome := by
  induction words generalizing args with
  | nil => rfl
  | cons word rest ih =>
    rw [pushRest, foldl_cons]
    refine (ih _).trans ?_
    split
    · rfl
    · cases pushed : pushArgument args (Arg.ofWord word) with
      | none => rfl
      | some next => exact pushArgument_isSome pushed

/-- The matcher goes on with the next token unless it has to stop. -/
def andThen (m : CmdMatcher) (first : Option Outcome)
    (next : MatcherState → Args → Option Outcome) : Option Outcome :=
  match first with
  | none => none
  | some outcome =>
    if outcome.rv.isError || beyondIndex m outcome.state then some outcome
    else next outcome.state outcome.args

theorem buildKeywordArgs_cases (parts : List KeywordPart) (list : List Arg)
    (table : List (Nat × List Arg)) :
    ∃ args : List Arg, cmdMatcherBuildKeywordArgs parts (some list) (some table) =
          (.ok, some args) ∨
        cmdMatcherBuildKeywordArgs parts (some list) (some table) =
          (.exceedArgcMax, some args) := by
  have built : cmdMatcherBuildKeywordArgs parts (some list) (some table) =
      ((pushAll list (groupArgs parts table)).1,
        some (pushAll list (groupArgs parts table)).2) := rfl
  rw [built]
  unfold pushAll
  split
  · exact ⟨_, .inl rfl⟩
  · exact ⟨_, .inr rfl⟩

section

variable {m : CmdMatcher} (whole : m.index = none)

include whole

theorem recordMatch_whole (type : MatchType) (token : Terminal) (state : MatcherState) :
    cmdMatcherRecordMatch m type token state = state := by
  unfold cmdMatcherRecordMatch
  rw [whole]
  exact if_neg nofun

section

variable {plain full : MatcherState} (same : plain.wordIndex = full.wordIndex)
  {without collected : Args} (absent : without.isSome = false)
  (present : collected.isSome)

include same absent present

theorem finishTerminal_alike (token : Terminal) (type : MatchType) :
    Alike (some (finishTerminal m token type plain without))
      (some (finishTerminal m token type full collected)) := by
  unfold finishTerminal
  rw [recordMatch_whole whole, recordMatch_whole whole]
  have next : plain.advance.wordIndex = full.advance.wordIndex := congrArg (· + 1) same
  split
  · refine .same rfl ?_ ?_ ?_
    · dsimp only
      rw [next]
    · exact (pushRest_isSome _ _).trans absent
    · exact (pushRest_isSome _ _).trans present
  · exact .same rfl next absent present

end

/-! ## Terminals and multiples -/

variable {plain full : MatcherState} (same : plain.wordIndex = full.wordIndex)

section

variable (list : List Arg)

include same

variable {parts : List KeywordPart} {second first : Option Outcome} {token : Terminal} {word : Word}

theorem takeTerminal_alike (notOption : cmdOption token.cmd = false) (word : Word)
    (type : MatchType) :
    Alike (takeTerminal m token word type plain none)
      (takeTerminal m token word type full (some list)) := by
  unfold takeTerminal
  by_cases taken : (cmdVararg token.cmd || cmdVariable token.cmd)
  · rw [if_pos taken, if_pos taken]
    cases pushed : pushArgument (some list) (Arg.ofWord word) with
    | none => exact .exceeds rfl
    | some next =>
      exact finishTerminal_alike whole same rfl (pushArgument_isSome pushed) token type
  · rw [if_neg taken, if_neg taken, notOption, if_neg Bool.false_ne_true, if_neg Bool.false_ne_true]
    exact finishTerminal_alike whole same rfl rfl token type

theorem matchTerminal_alike (notOption : cmdOption token.cmd = false) :
    Alike (cmdMatcherMatchTerminal m token plain none)
      (cmdMatcherMatchTerminal m token full (some list)) := by
  unfold cmdMatcherMatchTerminal
  rw [same]
  cases m.vline[full.wordIndex]? with
  | none => exact .same rfl same rfl rfl
  | some word =>
    dsimp only
    cases cmdWordMatch m.env token m.filter word with
    | none => exact .undefined
    | some type =>
      dsimp only
      by_cases unmatched : type = .noMatch
      · rw [if_pos unmatched, if_pos unmatched]
        exact .same rfl same rfl rfl
      · rw [if_neg unmatched, if_neg unmatched]
        exact takeTerminal_alike whole same list notOption word type

omit same

theorem multipleStep_state (word : Word) (scan : MultipleScan) (token : Terminal)
    (state : MatcherState) :
    multipleStep m word { scan with state := state } token =
      (multipleStep m word scan token).map ({ · with state := state }) := by
  unfold multipleStep
  cases cmdWordMatch m.env token m.filter word with
  | none => rfl
  | some type =>
    dsimp only
    rw [recordMatch_whole whole, recordMatch_whole whole]
    split
    · rfl
    · split
      · rfl
      · rfl

theorem scanMultiple_state (word : Word) (alternatives : List Terminal) (scan : MultipleScan)
    (state : MatcherState) :
    alternatives.foldlM (multipleStep m word) { scan with state := state } =
      (alternatives.foldlM (multipleStep m word) scan).map ({ · with state := state }) := by
  induction alternatives generalizing scan with
  | nil => rfl
  | cons token rest ih =>
    rw [foldlM_cons, foldlM_cons, multipleStep_state whole]
    cases multipleStep m word scan token with
    | none => rfl
    | some next => exact ih next

theorem scanMultiple_kept {alternatives : List Terminal} {scan last : MultipleScan}
    (run : alternatives.foldlM (multipleStep m word) scan = some last) :
    last.state = scan.state := by
  have kept := scanMultiple_state whole word alternatives scan scan.state
  rw [show { scan with state := scan.state } = scan from rfl, run, Option.map_some] at kept
  have equal := Option.some.inj kept
  rw [equal]

include same

theorem matchMultiple_alike (alternatives : List Terminal) :
    Alike (cmdMatcherMatchMultiple m alternatives plain none)
      (cmdMatcherMatchMultiple m alternatives full (some list)) := by
  unfold cmdMatcherMatchMultiple
  rw [same]
  cases m.vline[full.wordIndex]? with
  | none => exact .same rfl same rfl rfl
  | some word =>
    have moved := scanMultiple_state whole word alternatives ⟨.noMatch, .null, full⟩ plain
    dsimp only at moved ⊢
    rw [moved]
    cases run : alternatives.foldlM (multipleStep m word) ⟨.noMatch, .null, full⟩ with
    | none => exact .undefined
    | some scan =>
      have next : plain.advance.wordIndex = scan.state.advance.wordIndex := by
        rw [scanMultiple_kept whole run]
        exact congrArg (· + 1) same
      rw [Option.map_some]
      dsimp only
      by_cases unmatched : scan.best = .noMatch
      · rw [if_pos unmatched, if_pos unmatched]
        exact .same rfl next rfl rfl
      · rw [if_neg unmatched, if_neg unmatched]
        cases pushed : pushArgument (some list) scan.arg with
        | none => exact .exceeds rfl
        | some args =>
          exact .same rfl next rfl (pushArgument_isSome pushed)

/-! ## Keyword groups -/

omit same

theorem andThen_alike (alike : Alike first second) {next : MatcherState → Args → Option Outcome}
    (step : ∀ (plain full : MatcherState) (list : List Arg), plain.wordIndex = full.wordIndex →
      Alike (next plain none) (next full (some list))) :
    Alike (andThen m first next) (andThen m second next) := by
  unfold andThen
  cases alike with
  | undefined => exact .undefined
  | @exceeds plain full rv =>
    have stops : (full.rv.isError || beyondIndex m full.state) := by
      rw [rv]
      rfl
    dsimp only
    rw [if_pos stops]
    exact .exceeds rv
  | @same plain full rv wordIndex without collects =>
    dsimp only
    rw [beyondIndex_whole whole, beyondIndex_whole whole, rv]
    split
    · exact .same rv wordIndex without collects
    · obtain ⟨list, collected⟩ := Option.isSome_iff_exists.mp collects
      rw [Option.isSome_eq_false_iff, Option.isNone_iff_eq_none] at without
      rw [without, collected]
      exact step plain.state full.state list wordIndex

include same

theorem matchKeywordArg_alike {arg : KeywordArg} (noOption : NoOption (argTerminals arg)) :
    Alike (matchKeywordArg m arg plain none) (matchKeywordArg m arg full (some list)) := by
  cases arg with
  | terminal token =>
    exact matchTerminal_alike whole same list (noOption token (mem_singleton_self token))
  | multiple alternatives =>
    exact matchMultiple_alike whole same list alternatives

theorem matchKeywordArgs_alike {args : List KeywordArg}
    (noOption : NoOption (args.flatMap argTerminals)) :
    Alike (matchKeywordArgs m args plain none) (matchKeywordArgs m args full (some list)) := by
  induction args generalizing plain full list with
  | nil => exact .same rfl same rfl rfl
  | cons arg rest ih =>
    have first := matchKeywordArg_alike whole same list
      (noOption.mono (subset_append_left (argTerminals arg) _))
    unfold matchKeywordArgs
    exact andThen_alike whole first fun plain full list same =>
      ih same list (noOption.mono (subset_append_right (argTerminals arg) _))

omit same

theorem scanKeywords_state (word : Word) (mask : List Nat) (without haveArgs : Bool) (i : Nat)
    (parts : List KeywordPart) (scan : KeywordScan) (state : MatcherState) :
    scanKeywords m word mask without i parts { scan with state := state } =
      (scanKeywords m word mask haveArgs i parts scan).map
        fun result => (result.1, { result.2 with state := state }) := by
  induction parts generalizing i scan with
  | nil => rfl
  | cons part rest ih =>
    rw [scanKeywords, scanKeywords]
    split
    · rfl
    · split
      · exact ih (i + 1) scan
      · cases cmdWordMatch m.env part.keyword m.filter word with
        | none => rfl
        | some type =>
          dsimp only
          rw [recordMatch_whole whole, recordMatch_whole whole, whole]
          split
          · exact ih (i + 1) scan
          · split
            · exact ih (i + 1) ⟨some i, type, scan.state⟩
            · rw [show (decide (none ≠ some state.wordIndex) || without) =
                  (decide (none ≠ some scan.state.wordIndex) || haveArgs)
                from rfl]
              split
              · rfl
              · exact ih (i + 1) scan

theorem scanKeywords_kept {mask : List Nat} {haveArgs ambiguous : Bool} {i : Nat}
    {scan last : KeywordScan}
    (run : scanKeywords m word mask haveArgs i parts scan = some (ambiguous, last)) :
    last.state = scan.state := by
  have kept := scanKeywords_state whole word mask haveArgs haveArgs i parts scan scan.state
  rw [show { scan with state := scan.state } = scan from rfl, run, Option.map_some] at kept
  have equal := congrArg Prod.snd (Option.some.inj kept)
  dsimp only at equal
  rw [equal]

def afterUse (m : CmdMatcher) (i : Nat) (table : KeywordTable)
    (next : MatcherState → KeywordTable → Option KeywordOutcome) :
    Option Outcome → Option KeywordOutcome
  | none => none
  | some outcome =>
    let table := table.map (· ++ [(i, outcome.args.getD [])])
    if outcome.rv.isError || beyondIndex m outcome.state then
      some ⟨outcome.rv, outcome.state, table⟩
    else next outcome.state table

theorem afterUse_alike (alike : Alike first second) (i : Nat) (table : List (Nat × List Arg))
    {next : MatcherState → KeywordTable → Option KeywordOutcome}
    (step : ∀ (plain full : MatcherState) (table : List (Nat × List Arg)),
      plain.wordIndex = full.wordIndex →
      KeywordsAlike (next plain none) (next full (some table))) :
    KeywordsAlike (afterUse m i none next first) (afterUse m i (some table) next second) := by
  cases alike with
  | undefined => exact .undefined
  | @exceeds plain full rv =>
    have stops : (full.rv.isError || beyondIndex m full.state) := by
      rw [rv]
      rfl
    dsimp only [afterUse]
    rw [if_pos stops]
    exact .exceeds rv
  | @same plain full rv wordIndex without collects =>
    dsimp only [afterUse]
    rw [beyondIndex_whole whole, beyondIndex_whole whole, rv]
    split
    · exact .same rfl wordIndex rfl rfl
    · exact step plain.state full.state _ wordIndex

include same

theorem readKeywords_alike (noOption : NoOption (parts.flatMap partTerminals)) (fuel : Nat)
    (mask : List Nat) (table : List (Nat × List Arg)) :
    KeywordsAlike (cmdMatcherReadKeywords m parts fuel mask plain none)
      (cmdMatcherReadKeywords m parts fuel mask full (some table)) := by
  induction fuel generalizing plain full mask table with
  | zero => exact .undefined
  | succ fuel ih =>
    rw [cmdMatcherReadKeywords, cmdMatcherReadKeywords, same]
    cases m.vline[full.wordIndex]? with
    | none => exact .same rfl same rfl rfl
    | some word =>
      have moved := scanKeywords_state whole word mask false true 0 parts
        ⟨none, .noMatch, full⟩ plain
      dsimp only [Option.isSome] at moved ⊢
      rw [moved]
      cases run : scanKeywords m word mask true 0 parts ⟨none, .noMatch, full⟩ with
      | none => exact .undefined
      | some result =>
        obtain ⟨ambiguous, scan⟩ := result
        have kept : plain.wordIndex = scan.state.wordIndex := by
          rw [scanKeywords_kept whole run]
          exact same
        cases ambiguous with
        | true => exact .same rfl kept rfl rfl
        | false =>
          rw [Option.map_some]
          dsimp only
          cases found : scan.found.bind fun i => parts[i]?.map (i, ·) with
          | none => exact .same rfl kept rfl rfl
          | some entry =>
            obtain ⟨i, part⟩ := entry
            dsimp only
            rw [beyondIndex_whole whole, beyondIndex_whole whole, if_neg Bool.false_ne_true,
              if_neg Bool.false_ne_true]
            have next : plain.advance.wordIndex = scan.state.advance.wordIndex :=
              congrArg (· + 1) kept
            exact afterUse_alike whole (matchKeywordArgs_alike whole next []
                (noOption.mono (args_subset_parts (found_of_picked found).2)))
              i table fun plain full table same => ih same (i :: mask) table

/-! ## Commands -/

theorem matchKeyword_alike (noOption : NoOption (parts.flatMap partTerminals)) :
    Alike (cmdMatcherMatchKeyword m parts plain none)
      (cmdMatcherMatchKeyword m parts full (some list)) := by
  have reader := readKeywords_alike whole same noOption (m.vline.length + 1) [] []
  unfold cmdMatcherMatchKeyword
  dsimp only [Option.map]
  generalize cmdMatcherReadKeywords m parts (m.vline.length + 1) [] plain none = first at reader
  generalize cmdMatcherReadKeywords m parts (m.vline.length + 1) [] full
    (some []) = second at reader
  cases reader with
  | undefined => exact .undefined
  | @exceeds first last rv =>
    apply Alike.exceeds
    rw [rv]
    rfl
  | @same first last rv wordIndex without collects =>
    obtain ⟨table, collected⟩ := Option.isSome_iff_exists.mp collects
    have fine : (!first.rv.isError && MatcherRv.ok.isError) = false := Bool.and_false _
    have plainArgs : cmdMatcherBuildKeywordArgs parts none first.table = (.ok, none) := rfl
    dsimp only
    rw [plainArgs, collected]
    rw [fine, if_neg Bool.false_ne_true]
    obtain ⟨args, built | built⟩ := buildKeywordArgs_cases parts list table
    · rw [built]
      rw [← rv, fine, if_neg Bool.false_ne_true]
      exact .same rfl wordIndex rfl rfl
    · rw [built]
      cases failed : last.rv.isError with
      | true => exact .same rv wordIndex rfl rfl
      | false => exact .exceeds rfl

theorem matchToken_alike {token : CmdToken} (noOption : NoOption (tokenTerminals token)) :
    Alike (matchToken m token plain none) (matchToken m token full (some list)) := by
  cases token with
  | terminal token =>
    exact matchTerminal_alike whole same list (noOption token (mem_singleton_self token))
  | multiple alternatives =>
    exact matchMultiple_alike whole same list alternatives
  | keyword parts => exact matchKeyword_alike whole same list noOption

theorem matchTokens_alike {tokens : List CmdToken} (noOption : NoOption (terminals tokens)) :
    Alike (matchTokens m tokens plain none) (matchTokens m tokens full (some list)) := by
  induction tokens generalizing plain full list with
  | nil =>
    refine .same ?_ same rfl rfl
    unfold endOfTokens
    rw [same]
  | cons token rest ih =>
    rw [terminals, flatMap_cons] at noOption
    have first := matchToken_alike whole same list (noOption.mono (subset_append_left _ _))
    unfold matchTokens
    exact andThen_alike whole first fun plain full list same =>
      ih same list (noOption.mono (subset_append_right _ _))

end

end

/-! ## The two functions -/

section

variable {env : MatchEnv} {vline : List Word} {command : CmdElement}

theorem cmdElementMatch_alike (noOption : NoOption (terminals command.tokens))
    (first second : CStr) :
    Alike (cmdElementMatch ⟨env, .relaxed, vline, none⟩ command.tokens first
        false)
      (cmdElementMatch ⟨env, .relaxed, vline, none⟩ command.tokens second true) :=
  @matchTokens_alike ⟨env, .relaxed, vline, none⟩ rfl (cmdMatcherInit first)
    (cmdMatcherInit second) rfl [] command.tokens noOption

/-- **A line that is complete for a command is parsed, unless it has too many
arguments, and a line that is parsed is complete**, whatever the static buffer
holds at the two calls. -/
theorem complete_agrees_with_parse
    (noOption : NoOption (terminals command.tokens)) (first second : CStr) :
    (∀ next, cmdIsComplete env vline command first = some next → next.rv = .complete →
      ∃ status argv after, cmdParse env vline command second = some (status, argv, after) ∧
          (status = .success ∨ status = .errExeedArgcMax)) ∧
    (∀ argv after, cmdParse env vline command second = some (.success, argv, after) →
      ∃ next, cmdIsComplete env vline command first = some next ∧ next.rv = .complete) := by
  have alike := @cmdElementMatch_alike env vline command noOption first second
  unfold cmdIsComplete cmdParse
  generalize cmdElementMatch ⟨env, .relaxed, vline, none⟩ command.tokens first
    false = plain at alike ⊢
  generalize cmdElementMatch ⟨env, .relaxed, vline, none⟩ command.tokens
    second true = full at alike ⊢
  cases alike with
  | undefined => exact ⟨nofun, nofun⟩
  | @exceeds plain full rv =>
    refine ⟨fun next run complete => ?_, fun argv after parsed => ?_⟩
    · exact ⟨_, _, _, rfl, .inr (congrArg parseStatus rv)⟩
    · have status := congrArg Prod.fst (Option.some.inj parsed)
      dsimp only at status
      rw [rv] at status
      cases status
  | @same plain full rv wordIndex without collects =>
    refine ⟨fun next run complete => ?_, fun argv after parsed => ?_⟩
    · cases run
      rw [rv] at complete
      exact ⟨_, _, _, rfl, .inl (congrArg parseStatus complete)⟩
    · have status := congrArg Prod.fst (Option.some.inj parsed)
      refine ⟨plain, rfl, ?_⟩
      rw [rv]
      dsimp only at status
      cases result : full.rv with
      | complete => rfl
      | _ =>
        rw [result] at status
        cases status

end

def areaType : CmdElement where
  string := "area WORD (stub|nssa)"
  tokens :=
    [.terminal ⟨"area", none, none⟩, .terminal ⟨"WORD", none, none⟩,
      .multiple [⟨"stub", none, none⟩, ⟨"nssa", none, none⟩]]

def areaTypeLine : List Word :=
  ["ar".toList, "zero".toList, "s".toList].map some

theorem area_type_agrees : (cmdIsComplete plainEnv areaTypeLine areaType []).map Outcome.rv =
        some .complete ∧
      ∃ next, cmdIsComplete plainEnv areaTypeLine areaType [] = some next ∧ next.rv = .complete :=
  ⟨by decide, (complete_agrees_with_parse (by unfold NoOption; decide) [] []).2
    [.text "zero", .text "stub"] [] (by decide)⟩

end OpsCli.Command.Completeness
