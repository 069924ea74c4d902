import OpsCli.Command.Acceptance

/-!
# Where match types come from

The match type that the matcher reports for a command is the answer of
`cmd_word_match` for one of the terminals of the command, apart from the type
of options and the type for no match.
-/

namespace OpsCli.Command.Origin

open CLib.CString Token WordMatch Matcher Reading Acceptance List

/-! ## The terminals of a command -/

def argTerminals : KeywordArg → List Terminal
  | .terminal token => [token]
  | .multiple alternatives => alternatives

def partTerminals (part : KeywordPart) : List Terminal :=
  part.keyword :: part.args.flatMap argTerminals

variable {parts : List KeywordPart} {next : Outcome} {tokens : List CmdToken} {list : List Terminal}
  {mask : List Nat} {m : CmdMatcher}

theorem args_subset_parts {i : Nat} {part : KeywordPart} (found : parts[i]? = some part) :
    part.args.flatMap argTerminals ⊆ parts.flatMap partTerminals :=
  fun _ inside => mem_flatMap.mpr ⟨part, mem_of_getElem? found, mem_cons_of_mem _ inside⟩

def tokenTerminals : CmdToken → List Terminal
  | .terminal token => [token]
  | .multiple alternatives => alternatives
  | .keyword parts => parts.flatMap partTerminals

def terminals (tokens : List CmdToken) : List Terminal :=
  tokens.flatMap tokenTerminals

/-! ## Origins -/

section

variable (env : MatchEnv) (filter : FilterType)

/-- The type is an answer for one of the terminals. -/
def Originates (list : List Terminal) (type : MatchType) : Prop :=
  type = .noMatch ∨ type = .extendMatch ∨
    ∃ token ∈ list, ∃ word, cmdWordMatch env token filter word = some type

variable {env filter} {offer : Offer} {word : Word}

theorem Originates.mono {first second : List Terminal} {type : MatchType}
    (origin : Originates env filter first type) (subset : first ⊆ second) :
    Originates env filter second type := by
  rcases origin with none | extend | ⟨token, member, answer⟩
  · exact .inl none
  · exact .inr (.inl extend)
  · exact .inr (.inr ⟨token, subset member, answer⟩)

theorem originates_offers (member : offer ∈ offers env filter list word) :
    Originates env filter list offer.2 := by
  obtain ⟨token, tokenMember, answer⟩ := mem_filterMap.mp member
  split at answer
  · cases answer
  rename_i type found
  split at answer
  · cases answer
  cases answer
  exact .inr (.inr ⟨token, tokenMember, word, found⟩)

theorem originates_wordOffers {arg : KeywordArg} {words rest : List Word} {reading : ArgReading}
    (reads : ReadsArg env filter arg words reading rest)
    (member : offer ∈ (reading.wordOffers env filter).headD []) :
    Originates env filter (argTerminals arg) offer.2 := by
  cases reads with
  | terminal | vararg | multiple => exact originates_offers member
  | option =>
    cases mem_singleton.mp member
    exact .inr (.inl rfl)
  | missing => cases member

theorem originates_keywordOffers {i : Nat} {found : Nat × Offer}
    (member : found ∈ keywordOffers env filter mask word i parts) :
    Originates env filter (parts.flatMap partTerminals) found.2.2 := by
  induction parts generalizing i with
  | nil => cases member
  | cons part rest ih =>
    rw [flatMap_cons]
    rcases mem_append.mp member with here | later
    · split at here
      · cases here
      obtain ⟨offer, offered, rfl⟩ := mem_map.mp here
      refine (originates_offers offered).mono fun token same => ?_
      rw [mem_singleton.mp same]
      exact mem_append_left _ mem_cons_self
    · exact (ih later).mono (subset_append_right _ _)

end

theorem originates_recordAll {offered : List Offer} {state : MatcherState}
    (before : Originates m.env m.filter list state.matchType)
    (each : ∀ offer ∈ offered, Originates m.env m.filter list offer.2) :
    Originates m.env m.filter list (recordAll m offered state).matchType := by
  induction offered generalizing state with
  | nil => exact before
  | cons offer rest ih =>
    refine ih ?_ fun other member => each other (mem_cons_of_mem _ member)
    unfold cmdMatcherRecordMatch
    dsimp only
    split
    · dsimp only
      split
      · exact each offer mem_cons_self
      · exact before
    · exact before

/-! ## Steps and runs of the matcher -/

/-- How a step leaves the state: with the one property if it fails, with the
other one if it does not. -/
def Leaves (Keeps Fails : MatcherState → Prop) (rv : MatcherRv) (state : MatcherState) : Prop :=
  if rv.isError then Fails state else Keeps state

/-- The steps of the matcher on the terminals of the list keep a property of
the state, as long as they do not fail. -/
structure StepsKeep (m : CmdMatcher) (list : List Terminal)
    (Keeps Fails : MatcherState → Prop) : Prop where
  arg : ∀ {arg : KeywordArg} {state : MatcherState} {next : Outcome},
    argTerminals arg ⊆ list → Keeps state →
    matchKeywordArg m arg state none = some next →
    Leaves Keeps Fails next.rv next.state
  scan : ∀ {parts : List KeywordPart} {word : Word} {mask : List Nat}
    {state : MatcherState} {ambiguous : Bool} {scan : KeywordScan},
    parts.flatMap partTerminals ⊆ list → Keeps state →
    scanKeywords m word mask false 0 parts ⟨none, .noMatch, state⟩ = some (ambiguous, scan) →
    Fails scan.state ∧ (ambiguous = false → Keeps scan.state.advance)

namespace StepsKeep

variable {Keeps Fails : MatcherState → Prop}
  {state : MatcherState}
  (steps : StepsKeep m list Keeps Fails) (before : Keeps state)

include steps before

theorem matchKeywordArgs {args : List KeywordArg} (subset : args.flatMap argTerminals ⊆ list)
    (run : matchKeywordArgs m args state none = some next) :
    Leaves Keeps Fails next.rv next.state := by
  induction args generalizing state with
  | nil =>
    cases run
    exact before
  | cons arg rest ih =>
    rw [flatMap_cons, append_subset] at subset
    obtain ⟨middle, step, later⟩ := matchKeywordArgs_cons run
    have here := steps.arg subset.1 before step
    split at later
    · rw [later]
      exact here
    rename_i goesOn
    rw [Bool.or_eq_true, not_or, Bool.not_eq_true] at goesOn
    rw [Leaves, goesOn.1, if_neg nofun] at here
    obtain ⟨_, _, _, took⟩ := matchKeywordArg_reads fits_none step goesOn.1
    have noArgs : middle.args = none := took.args
    rw [noArgs] at later
    exact ih here subset.2 later

theorem readKeywords {fuel : Nat} {next : KeywordOutcome}
    (subset : parts.flatMap partTerminals ⊆ list)
    (run : cmdMatcherReadKeywords m parts fuel mask state none = some next) :
    Leaves Keeps Fails next.rv next.state := by
  induction fuel generalizing mask state with
  | zero => cases run
  | succ fuel ih =>
    cases round_of_readKeywords run with
    | finished => exact before
    | @refused _ ambiguous _ _ scanned =>
      have failed := (steps.scan subset before scanned).1
      cases ambiguous with
      | true => exact failed
      | false => exact failed
    | @keyword _ scan _ part _ _ scanned _ found later =>
      have here := (steps.scan subset before scanned).2 rfl
      split at later
      · rw [later]
        exact here
      obtain ⟨middle, step, later⟩ := later
      have there := steps.matchKeywordArgs here
        (List.Subset.trans (args_subset_parts found) subset) step
      split at later
      · rw [later]
        exact there
      rename_i goesOn
      rw [Bool.or_eq_true, not_or, Bool.not_eq_true] at goesOn
      rw [Leaves, goesOn.1, if_neg nofun] at there
      exact ih there later

theorem matchToken {token : CmdToken} (subset : tokenTerminals token ⊆ list)
    (run : matchToken m token state none = some next) :
    Leaves Keeps Fails next.rv next.state ∧ (next.rv.isError = false → next.args = none) := by
  have single {arg : KeywordArg} (subset : argTerminals arg ⊆ list)
      (run : matchKeywordArg m arg state none = some next) :
      Leaves Keeps Fails next.rv next.state ∧ (next.rv.isError = false → next.args = none) := by
    refine ⟨steps.arg subset before run, fun noError => ?_⟩
    obtain ⟨_, _, _, took⟩ := matchKeywordArg_reads fits_none run noError
    exact took.args
  cases token with
  | terminal token => exact @single (.terminal token) subset run
  | multiple alternatives => exact @single (.multiple alternatives) subset run
  | keyword parts =>
    obtain ⟨reader, readerRun, rfl⟩ := matchKeyword_none run
    exact ⟨steps.readKeywords before subset readerRun, fun _ => rfl⟩

/-- What every step keeps, a run over the tokens of a command keeps. -/
theorem matchTokens (fails : ∀ state, Keeps state → Fails state) (subset : terminals tokens ⊆ list)
    (run : matchTokens m tokens state none = some next) :
    Leaves Keeps Fails next.rv next.state := by
  induction tokens generalizing state with
  | nil =>
    cases run
    rw [Leaves]
    split
    · exact fails state before
    · exact before
  | cons token rest ih =>
    rw [terminals, flatMap_cons, append_subset] at subset
    obtain ⟨middle, step, later⟩ := matchTokens_cons run
    obtain ⟨here, noArgs⟩ := steps.matchToken before subset.1 step
    split at later
    · rw [later]
      exact here
    rename_i goesOn
    rw [Bool.or_eq_true, not_or, Bool.not_eq_true] at goesOn
    rw [Leaves, goesOn.1, if_neg nofun] at here
    rw [noArgs goesOn.1] at later
    exact ih here subset.2 later

end StepsKeep

theorem originates_steps (m : CmdMatcher) (list : List Terminal) : StepsKeep m list
      (fun state => Originates m.env m.filter list state.matchType)
      fun _ => True where
  arg subset before run := by
    rw [Leaves]
    split
    · trivial
    rename_i noError
    obtain ⟨reading, rest, reads, took⟩ := matchKeywordArg_reads fits_none
      run (Bool.eq_false_of_not_eq_true noError)
    rw [took.matchType]
    refine originates_recordAll before fun offer member => ?_
    exact (originates_wordOffers reads member).mono subset
  scan subset before scanned := by
    refine ⟨trivial, fun clear => ?_⟩
    rw [MatcherState.advance, (scanKeywords_spec scanned).1 clear]
    refine originates_recordAll before fun offer member => ?_
    obtain ⟨numbered, offered, rfl⟩ := mem_map.mp member
    exact (originates_keywordOffers offered).mono subset

theorem originates_cmdElementMatch {szToken : CStr}
    (run : cmdElementMatch m tokens szToken false = some next) (noError : next.rv.isError = false) :
    Originates m.env m.filter (terminals tokens) next.state.matchType := by
  have ends := (originates_steps m (terminals tokens)).matchTokens
    (.inl rfl) (fun _ _ => trivial) (fun _ member => member) run
  rw [Leaves, noError, if_neg nofun] at ends
  exact ends

end OpsCli.Command.Origin
