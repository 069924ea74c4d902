import OpsCli.Command.Origin
import OpsCli.Command.Recording
import OpsCli.Command.Survival

/-!
# The stage that a command has reached

The matcher is often run up to the word at an index, to learn which tokens of
a command match that word.  The words before it bring the command to a stage:
a terminal, a choice between terminals, a vararg that swallows what follows,
or the end of its tokens.  The stage does not depend on the word at the index,
and what the matcher records there are the terminals of the stage that match
the word.
-/

namespace OpsCli.Command.Staging

open CLib.CString Token WordMatch Matcher Reading Acceptance Choice Origin
  Recording Selection Survival List

/-! ## Stages -/

/-- What the next word is held against. -/
inductive Stage where
  | terminal (token : Terminal)
  | choice (tokens : List Terminal)
  | swallowed
  | finished
deriving DecidableEq, Repr

def argStage : KeywordArg → Stage
  | .terminal token => .terminal token
  | .multiple alternatives => .choice alternatives

/-- The keywords that have not been read. -/
def unread (mask : List Nat) : Nat → List KeywordPart → List Terminal
  | _, [] => []
  | i, part :: rest =>
    (if i ∈ mask then [] else [part.keyword]) ++ unread mask (i + 1) rest

/-- Argument tokens and the words for them: a stage among the arguments, a
word that is refused, or all arguments done with some words left. -/
inductive ArgsStage where
  | stop (stage : Stage)
  | refused
  | done (rest : List Word)
deriving DecidableEq, Repr

section

variable (env : MatchEnv) (filter : FilterType)

def argOffers (arg : KeywordArg) (word : Word) : List Offer :=
  offers env filter (argTerminals arg) word

/-- A vararg takes every word that is left. -/
def isVararg : KeywordArg → Bool
  | .terminal token => cmdVararg token.cmd
  | .multiple _ => false

def stageArgs : List KeywordArg → List Word → ArgsStage
  | [], words => .done words
  | arg :: _, [] => .stop (argStage arg)
  | arg :: args, word :: words =>
    if argOffers env filter arg word = [] then .refused
    else if isVararg arg then .stop .swallowed
    else stageArgs args words

/-- The stage in a keyword group; every round takes a word. -/
def stageUses (parts : List KeywordPart) : Nat → List Nat → List Word → Option Stage
  | 0, _, _ => none
  | _ + 1, mask, [] => some (.choice (unread mask 0 parts))
  | fuel + 1, mask, word :: words =>
    match pickKeyword (keywordOffers env filter mask word 0 parts) none .noMatch with
    | some (some i) =>
      match parts[i]? with
      | none => none
      | some part =>
        match stageArgs env filter part.args words with
        | .stop stage => some stage
        | .refused => none
        | .done rest => stageUses parts fuel (i :: mask) rest
    | _ => none

/-- The stage of a command after some words; `none` if one of them is
refused. -/
def stageTokens : List CmdToken → List Word → Option Stage
  | [], [] => some .finished
  | [], _ :: _ => none
  | .keyword parts :: _, words =>
    stageUses env filter parts (words.length + 1) [] words
  | .terminal token :: tokens, words =>
    match stageArgs env filter [.terminal token] words with
    | .stop stage => some stage
    | .refused => none
    | .done rest => stageTokens tokens rest
  | .multiple alternatives :: tokens, words =>
    match stageArgs env filter [.multiple alternatives] words with
    | .stop stage => some stage
    | .refused => none
    | .done rest => stageTokens tokens rest

def stageTerminals : Stage → List Terminal
  | .terminal token => [token]
  | .choice tokens => tokens
  | .swallowed => []
  | .finished => []

/-- What is recorded for a word at a stage: an option is recorded as a
variable. -/
def stageOffers (stage : Stage) (word : Word) : List Offer :=
  match stage with
  | .terminal token =>
    if cmdOption token.cmd then [(token, .extendMatch)]
    else offers env filter [token] word
  | stage => offers env filter (stageTerminals stage) word

end

/-- The word can be taken at a stage; at the end only an empty last word
can. -/
def Accepts (m : CmdMatcher) (n : Nat) (word : Word) : Stage → Prop
  | .swallowed => True
  | .finished => n + 1 = m.vline.length ∧ isEmptyWord word
  | stage => offers m.env m.filter (stageTerminals stage) word ≠ []

/-! ## Unread keywords -/

theorem keywordOffers_unread (env : MatchEnv) (filter : FilterType) (mask : List Nat) (word : Word)
    (start : Nat) (parts : List KeywordPart) :
    (keywordOffers env filter mask word start parts).map Prod.snd =
      offers env filter (unread mask start parts) word := by
  induction parts generalizing start with
  | nil => rfl
  | cons part rest ih =>
    rw [keywordOffers, unread, map_append, offers_append, ih]
    congr 1
    by_cases read : start ∈ mask
    · rw [if_pos read, if_pos read]
      rfl
    · rw [if_neg read, if_neg read, map_map]
      exact map_id _

/-! ## One argument token -/

section

variable {m : CmdMatcher} {n : Nat} {w : Word}

/-- The words between the position of a matcher and the word at the index;
nothing has been recorded. -/
structure Ahead (m : CmdMatcher) (n : Nat) (w : Word) (state : MatcherState)
    (before : List Word) : Prop where
  fresh : Fresh state
  front : ∃ after, m.vline.drop state.wordIndex = before ++ w :: after
  distance : state.wordIndex + before.length = n

variable {state : MatcherState} {before : List Word} {next : Outcome} {arg : KeywordArg}
  {mask : List Nat} {parts : List KeywordPart} {list : List KeywordArg} {reading : ArgReading}
  {result : ArgsStage} {scan last : KeywordScan} {after : List Word} {token : Terminal}
  {ambiguous : Bool} {start fuel : Nat}

theorem Ahead.notPast (ahead : Ahead m n w state before) : state.wordIndex ≤ n := by
  have distance := ahead.distance
  omega

theorem Ahead.word (ahead : Ahead m n w state before) :
    m.vline[state.wordIndex]? = some (before.headD w) := by
  obtain ⟨after, front⟩ := ahead.front
  rw [← Nat.add_zero state.wordIndex, ← getElem?_drop, front]
  cases before with
  | nil => rfl
  | cons word before => rfl

/-- An option among the tokens, whose buffer may refuse a word. -/
def isOption : KeywordArg → Bool
  | .terminal token => cmdOption token.cmd
  | .multiple _ => false

section

variable {word : Word} (fresh : Fresh state) (here : m.vline[state.wordIndex]? = some word)
include fresh here

/-- An error leaves nothing behind, and unless an option has refused the word
there was no offer. -/
theorem matchTerminal_refuses
    (run : cmdMatcherMatchTerminal m token state none = some next) (error : next.rv.isError) :
    Fresh next.state ∧ (cmdOption token.cmd ∧ next.state.wordIndex = state.wordIndex ∨
        offers m.env m.filter [token] word = []) := by
  obtain ⟨type, answer, run⟩ := matchTerminal_word here run
  by_cases unmatched : type = .noMatch
  · rw [if_pos unmatched] at run
    cases run
    subst unmatched
    exact ⟨fresh, .inr (offers_cons_of_noMatch answer)⟩
  rw [if_neg unmatched, takeTerminal] at run
  by_cases taken : (cmdVararg token.cmd || cmdVariable token.cmd)
  · rw [if_pos taken, pushArgument] at run
    cases run
    rw [finishTerminal] at error
    split at error
    · cases error
    · cases error
  rw [if_neg taken] at run
  by_cases option : cmdOption token.cmd
  · rw [if_pos option, matchOption] at run
    split at run
    · cases run
    split at run
    · cases run
    split at run
    · cases run
      exact ⟨⟨fresh.matchVector, fresh.matchType⟩, .inl ⟨option, rfl⟩⟩
    · rw [pushArgument] at run
      cases run
      rw [finishTerminal] at error
      split at error
      · cases error
      · cases error
  · rw [if_neg option] at run
    cases run
    rw [finishTerminal] at error
    split at error
    · cases error
    · cases error

theorem matchMultiple_refuses {alternatives : List Terminal}
    (run : cmdMatcherMatchMultiple m alternatives state none = some next)
    (error : next.rv.isError) :
    Fresh next.state ∧ offers m.env m.filter alternatives word = [] := by
  obtain ⟨recorded, result⟩ := matchMultiple_word here run
  by_cases nothing : offers m.env m.filter alternatives word = []
  · rw [nothing] at recorded
    rw [recorded]
    exact ⟨⟨fresh.matchVector, fresh.matchType⟩, nothing⟩
  · obtain ⟨chosen, best⟩ := bestOffer_ne_none nothing
    rw [best] at result
    have fine : next.rv = .ok := congrArg Prod.fst result
    rw [fine] at error
    cases error

theorem matchKeywordArg_refuses
    (run : matchKeywordArg m arg state none = some next) (error : next.rv.isError) :
    Fresh next.state ∧ (isOption arg ∧ next.state.wordIndex = state.wordIndex ∨
        argOffers m.env m.filter arg word = []) := by
  cases arg with
  | terminal token => exact matchTerminal_refuses fresh here run error
  | multiple alternatives =>
    obtain ⟨still, nothing⟩ := matchMultiple_refuses fresh here run error
    exact ⟨still, .inr nothing⟩

end

/-- An option has refused a word before the index, or it is the stage and has
refused the word at the index. -/
def ByOption (n : Nat) (state : MatcherState) (stage : Option Stage) : Prop :=
  state.wordIndex < n ∨ ∃ token, stage = some (.terminal token) ∧ cmdOption token.cmd

/-- The stage where the arguments stop. -/
def ArgsStage.stage : ArgsStage → Option Stage
  | .stop stage => some stage
  | .refused => none
  | .done _ => none

/-- How the argument tokens end. -/
inductive ArgsEnd (m : CmdMatcher) (n : Nat) (w : Word)
    (list : List KeywordArg) : ArgsStage → Outcome → Prop where
  | refused {result : ArgsStage} {next : Outcome}
      (error : next.rv.isError) (fresh : Fresh next.state)
      (reason : (list.any isOption ∧ ByOption n next.state result.stage) ∨ result = .refused ∨
        ∃ stage, result = .stop stage ∧ ¬ Accepts m n w stage) :
      ArgsEnd m n w list result next
  | arrived {stage : Stage} {next : Outcome} (rv : next.rv = .ok)
      (passed : n < next.state.wordIndex) (accepts : Accepts m n w stage)
      (recorded : Recorded next.state (stageOffers m.env m.filter stage w)) :
      ArgsEnd m n w list (.stop stage) next
  | done {rest : List Word} {next : Outcome} (rv : next.rv = .ok)
      (noArgs : next.args = none) (ahead : Ahead m n w next.state rest) :
      ArgsEnd m n w list (.done rest) next

theorem ArgsStage.eq_stop {stage : Stage} (stops : result.stage = some stage) :
    result = .stop stage := by
  cases result with
  | stop other =>
    cases stops
    rfl
  | refused => cases stops
  | done rest => cases stops

theorem ByOption.mono {first second : Option Stage} (reason : ByOption n state first)
    (implies : ∀ stage, first = some stage → second = some stage) : ByOption n state second := by
  refine reason.imp_right ?_
  rintro ⟨token, reached, isOption⟩
  exact ⟨token, implies _ reached, isOption⟩

variable {tokens : List CmdToken} {env : MatchEnv}

theorem ArgsEnd.cons (arg : KeywordArg) (ends : ArgsEnd m n w list result next) :
    ArgsEnd m n w (arg :: list) result next := by
  cases ends with
  | refused error fresh reason =>
    refine .refused error fresh (reason.imp_left fun option => ⟨?_, option.2⟩)
    rw [any_cons, option.1, Bool.or_true]
  | arrived rv passed accepts recorded =>
    exact .arrived rv passed accepts recorded
  | done rv noArgs ahead => exact .done rv noArgs ahead

theorem matches_offers_ne {filter : FilterType} {word : Word}
    (matched : Matches env filter token word) : offers env filter [token] word ≠ [] := by
  obtain ⟨type, answer, isMatch⟩ := matched
  rw [offers_singleton answer isMatch]
  exact cons_ne_nil _ _

theorem ends_here {rest : List Word} (atIndex : m.index = some n) (fresh : Fresh state)
    (position : state.wordIndex = n) (reads : ReadsArg m.env m.filter arg (w :: after) reading rest)
    (took : Took m state none next reading rest) :
    ArgsEnd m n w [arg] (.stop (argStage arg)) next := by
  have progress := took_progress took atIndex position.le fresh
  have recorded {offered : List Offer} {later : List (List Offer)}
      (shape : reading.wordOffers m.env m.filter = offered :: later) :
      n < next.state.wordIndex ∧ Recorded next.state offered := by
    rw [shape] at progress
    rcases progress with ⟨passed, found, present, recorded⟩ | ⟨notPassed, moved, _⟩
    · rw [position, Nat.sub_self, getElem?_cons_zero] at present
      cases present
      exact ⟨passed, recorded⟩
    · rw [moved, length_cons] at notPassed
      omega
  cases reads with
  | @terminal token _ _ notVararg notOption matched =>
    obtain ⟨passed, record⟩ := recorded rfl
    refine .arrived took.rv passed (matches_offers_ne matched) ?_
    rw [argStage, stageOffers, notOption, if_neg nofun]
    exact record
  | @option token _ _ _ option matched =>
    obtain ⟨passed, record⟩ := recorded rfl
    refine .arrived took.rv passed (matches_offers_ne matched) ?_
    rw [argStage, stageOffers, if_pos option]
    exact record
  | @vararg token _ _ vararg matched =>
    obtain ⟨passed, record⟩ := recorded rfl
    refine .arrived took.rv passed (matches_offers_ne matched) ?_
    rw [argStage, stageOffers, not_option_of_vararg vararg, if_neg nofun]
    exact record
  | multiple matched =>
    obtain ⟨passed, record⟩ := recorded rfl
    exact .arrived took.rv passed matched record

theorem ends_before {word : Word} {rest : List Word} (atIndex : m.index = some n)
    (ahead : Ahead m n w state (word :: before))
    (front : m.vline.drop state.wordIndex = word :: (before ++ w :: after))
    (reads : ReadsArg m.env m.filter arg (word :: (before ++ w :: after))
      reading rest) (took : Took m state none next reading rest) :
    argOffers m.env m.filter arg word ≠ [] ∧ ArgsEnd m n w [arg]
        (if isVararg arg then .stop .swallowed else .done before) next := by
  have progress := took_progress took atIndex ahead.notPast ahead.fresh
  have distance := ahead.distance
  rw [length_cons] at distance
  have goesOn (single : (reading.wordOffers m.env m.filter).length = 1) :
      ArgsEnd m n w [arg] (.done before) next := by
    have moved := took.wordIndex
    rw [single] at moved
    rcases progress with ⟨passed, _⟩ | ⟨_, _, fresh⟩
    · omega
    · refine .done took.rv took.args ⟨fresh, ⟨after, ?_⟩, by omega⟩
      rw [moved, ← tail_drop, front, tail_cons]
  cases reads with
  | terminal notVararg _ matched =>
    refine ⟨matches_offers_ne matched, ?_⟩
    rw [isVararg, notVararg, if_neg nofun]
    exact goesOn rfl
  | @option token _ _ _ option matched =>
    refine ⟨matches_offers_ne matched, ?_⟩
    have notVararg : cmdVararg token.cmd = false := by
      by_contra vararg
      rw [Bool.not_eq_false] at vararg
      rw [not_option_of_vararg vararg] at option
      cases option
    rw [isVararg, notVararg, if_neg nofun]
    exact goesOn rfl
  | vararg vararg matched =>
    refine ⟨matches_offers_ne matched, ?_⟩
    rw [isVararg, vararg, if_pos rfl]
    have moved := took.wordIndex
    rw [ArgReading.wordOffers, length_cons, length_map, length_append, length_cons] at moved
    rcases progress with ⟨passed, offered, present, recorded⟩ | ⟨notPassed, _⟩
    · rw [wordOffers_later _ _ _ (by omega) ?_] at present
      · cases present
        exact .arrived took.rv passed trivial recorded
      · rw [ArgReading.wordOffers, length_cons, length_map, length_append, length_cons]
        omega
    · omega
  | multiple matched =>
    exact ⟨matched, goesOn rfl⟩

theorem arg_ends (atIndex : m.index = some n) (ahead : Ahead m n w state before)
    (run : matchKeywordArg m arg state none = some next) :
    ArgsEnd m n w [arg] (stageArgs m.env m.filter [arg] before) next := by
  cases error : next.rv.isError with
  | true =>
    obtain ⟨fresh, reason⟩ := matchKeywordArg_refuses ahead.fresh ahead.word run error
    refine .refused error fresh ?_
    rcases reason with ⟨option, position⟩ | nothing
    · left
      refine ⟨by rw [any_cons, option, Bool.true_or], ?_⟩
      have distance := ahead.distance
      cases before with
      | nil =>
        cases arg with
        | terminal token => exact .inr ⟨token, rfl, option⟩
        | multiple alternatives => cases option
      | cons word before =>
        rw [length_cons] at distance
        exact .inl (by omega)
    · right
      cases before with
      | nil =>
        right
        refine ⟨argStage arg, rfl, ?_⟩
        cases arg with
        | terminal token => exact not_not.mpr nothing
        | multiple alternatives => exact not_not.mpr nothing
      | cons word before =>
        left
        exact if_pos nothing
  | false =>
    obtain ⟨reading, rest, reads, took⟩ := matchKeywordArg_reads fits_none run error
    obtain ⟨after, front⟩ := ahead.front
    cases before with
    | nil =>
      rw [front] at reads
      exact ends_here atIndex ahead.fresh ahead.distance reads took
    | cons word before =>
      rw [front, cons_append] at reads
      obtain ⟨offered, ends⟩ := ends_before atIndex ahead front reads took
      rw [stageArgs, if_neg offered]
      exact ends

/-! ## The arguments of a keyword part -/

theorem stageArgs_cons (env : MatchEnv) (filter : FilterType) (arg : KeywordArg)
    (args : List KeywordArg) (before : List Word) :
    stageArgs env filter (arg :: args) before = match stageArgs env filter [arg] before with
      | .done rest => stageArgs env filter args rest
      | other => other := by
  cases before with
  | nil => rfl
  | cons word before =>
    rw [stageArgs, stageArgs]
    split
    · rfl
    split
    · rfl
    · rfl

theorem notBeyond (atIndex : m.index = some n) (ahead : Ahead m n w state before) :
    ¬ beyondIndex m state := by
  rw [beyondIndex_at atIndex]
  exact Nat.not_lt.mpr ahead.notPast

theorem args_ends (atIndex : m.index = some n) (ahead : Ahead m n w state before)
    (run : matchKeywordArgs m list state none = some next) :
    ArgsEnd m n w list (stageArgs m.env m.filter list before) next := by
  induction list generalizing state before with
  | nil =>
    cases run
    exact .done rfl rfl ahead
  | cons arg rest ih =>
    obtain ⟨middle, step, later⟩ := matchKeywordArgs_cons run
    have first := arg_ends atIndex ahead step
    rw [stageArgs_cons]
    generalize stageArgs m.env m.filter [arg] before = result at first ⊢
    cases first with
    | refused error fresh reason =>
      rw [error, Bool.true_or, if_pos rfl] at later
      subst later
      refine .refused error fresh ?_
      rcases reason with ⟨option, by_⟩ | refused | ⟨stage, stops, rejects⟩
      · left
        rw [any_cons, any_nil, Bool.or_false] at option
        refine ⟨by rw [any_cons, option, Bool.true_or], ?_⟩
        refine by_.mono fun stage stops => ?_
        rw [ArgsStage.eq_stop stops]
        rfl
      · subst refused
        exact .inr (.inl rfl)
      · subst stops
        exact .inr (.inr ⟨stage, rfl, rejects⟩)
    | arrived rv passed accepts recorded =>
      rw [(beyondIndex_at atIndex _).mpr passed, Bool.or_true, if_pos rfl] at later
      subst later
      exact .arrived rv passed accepts recorded
    | done rv noArgs after =>
      rw [rv, MatcherRv.isError, Bool.false_or, if_neg (notBeyond atIndex after), noArgs] at later
      exact (ih after later).cons arg

theorem stageArgs_done {filter : FilterType} {args : List KeywordArg} {before rest : List Word}
    (done : stageArgs env filter args before = .done rest) : rest.length ≤ before.length := by
  fun_induction stageArgs env filter args before with
  | case1 =>
    cases done
    exact le_refl _
  | case2 | case3 | case4 => cases done
  | case5 _ _ _ _ _ _ ih => exact (ih done).trans (Nat.le_succ _)

theorem scanKeywords_at_index {word : Word} (here : m.index = some scan.state.wordIndex)
    (run : scanKeywords m word mask false start parts scan = some (ambiguous, last)) :
    ambiguous = false ∧ (scan.found ≠ none ∨
      scan.best = .noMatch ∧ keywordOffers m.env m.filter mask word start parts ≠ [] →
        last.found ≠ none) :=
  scanOffers_at_index here (fun _ member => (mem_keywordOffers.mp member).2.2.2.2)
    (scanKeywords_eq run)

theorem scanKeywords_elsewhere {word : Word} {haveArgs : Bool}
    (elsewhere : m.index ≠ some scan.state.wordIndex)
    (run : scanKeywords m word mask haveArgs start parts scan =
      some (ambiguous, last)) : last.state = scan.state := by
  obtain ⟨recorded, state, _⟩ := scanOffers_records (scanKeywords_eq run)
  rw [state, recordAll_elsewhere elsewhere]

/-- How a keyword group or a command ends: an error leaves nothing behind. -/
inductive End (m : CmdMatcher) (n : Nat) (w : Word) (option : Prop) :
    Option Stage → MatcherRv → MatcherState → Prop where
  | refused {result : Option Stage} {rv : MatcherRv} {state : MatcherState}
      (error : rv.isError) (fresh : Fresh state)
      (reason : (option ∧ ByOption n state result) ∨ ∀ stage ∈ result, ¬ Accepts m n w stage) :
      End m n w option result rv state
  | arrived {stage : Stage} {rv : MatcherRv} {state : MatcherState} (noError : rv.isError = false)
      (passed : stage = .finished ∨ n < state.wordIndex)
      (accepts : Accepts m n w stage)
      (recorded : Recorded state (stageOffers m.env m.filter stage w)) :
      End m n w option (some stage) rv state

theorem End.mono {first second : Prop} {result : Option Stage} {rv : MatcherRv}
    (ends : End m n w first result rv state) (implies : first → second) :
    End m n w second result rv state := by
  cases ends with
  | refused error fresh reason =>
    exact .refused error fresh (reason.imp_left (.imp_left implies))
  | arrived noError passed accepts recorded =>
    exact .arrived noError passed accepts recorded

theorem readKeywords_here {next : KeywordOutcome} (option : Prop)
    (atIndex : m.index = some n) (ahead : Ahead m n w state [])
    (run : cmdMatcherReadKeywords m parts (fuel + 1) mask state none = some next) :
    End m n w option (some (.choice (unread mask 0 parts))) next.rv next.state := by
  have position : state.wordIndex = n := ahead.distance
  have here : m.index = some state.wordIndex := by
    rw [atIndex, position]
  have offered := keywordOffers_unread m.env m.filter mask w 0 parts
  have scan_offers {ambiguous : Bool} {scan : KeywordScan}
      (scanned : scanKeywords m w mask false 0 parts
        ⟨none, .noMatch, state⟩ = some (ambiguous, scan)) :
      ambiguous = false ∧ scan.state = recordAll m
        (offers m.env m.filter (unread mask 0 parts) w) state ∧
      ((scan.found.bind fun i => parts[i]?) = none ↔
        offers m.env m.filter (unread mask 0 parts) w = []) := by
    obtain ⟨never, something⟩ := scanKeywords_at_index here scanned
    have result := scanKeywords_eq scanned
    refine ⟨never, offered ▸ (scanKeywords_spec scanned).1 never, ?_⟩
    rw [← offered, map_eq_nil_iff]
    constructor
    · intro unfound
      by_contra some
      obtain ⟨j, found⟩ := Option.ne_none_iff_exists'.mp (something (.inr ⟨rfl, some⟩))
      obtain ⟨offer, member⟩ := (scanOffers_found result found).resolve_left nofun
      obtain ⟨_, _, ⟨part, at_, _⟩, _⟩ := mem_keywordOffers.mp member
      rw [Nat.sub_zero] at at_
      rw [found, Option.bind_some, at_] at unfound
      cases unfound
    · intro none
      rw [none] at result
      cases result
      rfl
  cases round_of_readKeywords run with
  | finished nothing => cases ahead.word.symm.trans nothing
  | refused word scanned unfound =>
    cases ahead.word.symm.trans word
    obtain ⟨rfl, recorded, nothing⟩ := scan_offers scanned
    have none := nothing.mp (unfound rfl)
    refine .refused rfl ?_ (.inr ?_)
    · rw [recorded, none]
      exact ahead.fresh
    · rintro _ ⟨⟩
      exact not_not.mpr none
  | @keyword _ scan _ _ _ word scanned number found later =>
    cases ahead.word.symm.trans word
    obtain ⟨_, recorded, nothing⟩ := scan_offers scanned
    have passed : n < scan.state.advance.wordIndex := by
      rw [MatcherState.advance, recorded, recordAll_wordIndex]
      exact Nat.lt_succ_of_le position.ge
    rw [if_pos ((beyondIndex_at atIndex _).mpr passed)] at later
    subst later
    refine .arrived rfl (.inr passed) (fun none => ?_) ?_
    · have unfound := nothing.mpr none
      rw [number, Option.bind_some, found] at unfound
      cases unfound
    · have record := recorded_recordAll ahead.fresh here
        (offers m.env m.filter (unread mask 0 parts) w)
      rw [← recorded] at record
      exact ⟨record.matchVector, record.matchType⟩

theorem Ahead.advance {middle : MatcherState} {word : Word}
    (ahead : Ahead m n w state (word :: before)) (same : middle = state) :
    Ahead m n w middle.advance before := by
  subst same
  obtain ⟨after, front⟩ := ahead.front
  have distance := ahead.distance
  rw [length_cons] at distance
  refine ⟨⟨ahead.fresh.matchVector, ahead.fresh.matchType⟩, ⟨after, ?_⟩, ?_⟩
  · rw [MatcherState.advance, ← tail_drop, front]
    rfl
  · change middle.wordIndex + 1 + before.length = n
    omega

theorem readKeywords_ends {steps : Nat} {next : KeywordOutcome} (atIndex : m.index = some n)
    (enough : before.length < steps) (ahead : Ahead m n w state before)
    (run : cmdMatcherReadKeywords m parts fuel mask state none = some next) :
    End m n w (∃ part ∈ parts, part.args.any isOption)
      (stageUses m.env m.filter parts steps mask before) next.rv
      next.state := by
  induction fuel generalizing steps mask state before with
  | zero => cases run
  | succ fuel ih =>
    obtain ⟨steps, rfl⟩ := Nat.exists_eq_add_one_of_ne_zero (Nat.ne_zero_of_lt enough)
    cases before with
    | nil => exact readKeywords_here _ atIndex ahead run
    | cons word before =>
      rw [stageUses]
      have distance := ahead.distance
      rw [length_cons] at distance enough
      have elsewhere : m.index ≠ some state.wordIndex := by
        rw [atIndex]
        intro same
        have equal := Option.some.inj same
        omega
      cases round_of_readKeywords run with
      | finished nothing => cases ahead.word.symm.trans nothing
      | @refused _ ambiguous scan here scanned nothing =>
        cases ahead.word.symm.trans here
        rw [headD_cons] at scanned
        rw [(scanKeywords_spec scanned).2 (.inl elsewhere)]
        have fresh : Fresh scan.state := by
          rw [scanKeywords_elsewhere elsewhere scanned]
          exact ahead.fresh
        cases ambiguous with
        | true => exact .refused rfl fresh (.inr nofun)
        | false =>
          refine .refused rfl fresh (.inr ?_)
          rw [if_neg nofun]
          cases number : scan.found with
          | none => nofun
          | some i =>
            have none : parts[i]? = none := by
              simpa [number] using nothing rfl
            dsimp only
            rw [none]
            nofun
      | @keyword _ scan i part _ here scanned number found later =>
        cases ahead.word.symm.trans here
        rw [headD_cons] at scanned
        rw [(scanKeywords_spec scanned).2 (.inl elsewhere), if_neg nofun, number]
        dsimp only
        rw [found]
        have inside := ahead.advance (scanKeywords_elsewhere elsewhere scanned)
        rw [if_neg (notBeyond atIndex inside)] at later
        obtain ⟨middle, step, later⟩ := later
        have ends := args_ends atIndex inside step
        have shorter := @stageArgs_done m.env m.filter part.args before
        dsimp only
        generalize stageArgs m.env m.filter part.args before = result at ends shorter ⊢
        cases ends with
        | refused error fresh reason =>
          rw [error, Bool.true_or, if_pos rfl] at later
          subst later
          refine .refused error fresh ?_
          rcases reason with ⟨option, by_⟩ | refused | ⟨stage, stops, rejects⟩
          · refine .inl ⟨⟨part, mem_of_getElem? found, option⟩, ?_⟩
            refine by_.mono fun stage stops => ?_
            rw [ArgsStage.eq_stop stops]
          · subst refused
            exact .inr nofun
          · subst stops
            right
            rintro _ ⟨⟩
            exact rejects
        | arrived rv passed accepts record =>
          rw [(beyondIndex_at atIndex _).mpr passed, Bool.or_true, if_pos rfl] at later
          subst later
          rw [rv]
          exact .arrived rfl (.inr passed) accepts record
        | @done rest _ rv noArgs after =>
          have length := shorter rfl
          rw [rv, MatcherRv.isError, Bool.false_or, if_neg (notBeyond atIndex after)] at later
          exact ih (by omega) after later

/-! ## Commands -/

theorem endOfTokens_ends (option : Prop) (ahead : Ahead m n w state before) :
    End m n w option (stageTokens m.env m.filter [] before) (endOfTokens m state) state := by
  obtain ⟨after, front⟩ := ahead.front
  have distance := ahead.distance
  have size : m.vline.length = state.wordIndex + before.length + 1 + after.length := by
    have lengths := congrArg List.length front
    rw [length_drop, length_append, length_cons] at lengths
    omega
  rw [endOfTokens, if_neg (by omega), ahead.word]
  cases before with
  | nil =>
    have position : state.wordIndex = n := distance
    rw [stageTokens, headD_nil, Option.any_some, position]
    by_cases last : (n + 1 = m.vline.length && isEmptyWord w)
    · rw [if_pos last]
      simp only [Bool.and_eq_true, decide_eq_true_eq] at last
      exact .arrived rfl (.inl rfl) last ahead.fresh.recorded
    · rw [if_neg last]
      refine .refused rfl ahead.fresh (.inr ?_)
      rintro _ ⟨⟩ accepted
      simp only [Bool.and_eq_true, decide_eq_true_eq] at last
      exact last accepted
  | cons word before =>
    rw [length_cons] at size
    rw [if_neg (by
      simp only [Bool.and_eq_true, decide_eq_true_eq]
      omega), stageTokens]
    exact .refused rfl ahead.fresh (.inr nofun)

/-- There is an option among the tokens up to the stage. -/
def OptionUpTo (env : MatchEnv) (filter : FilterType) : List CmdToken → List Word → Prop
  | [], _ => False
  | .keyword parts :: _, _ => ∃ part ∈ parts, part.args.any isOption
  | .terminal token :: tokens, words =>
    cmdOption token.cmd ∨ ∃ rest, stageArgs env filter [.terminal token] words = .done rest ∧
      OptionUpTo env filter tokens rest
  | .multiple alternatives :: tokens, words =>
    ∃ rest, stageArgs env filter [.multiple alternatives] words = .done rest ∧
      OptionUpTo env filter tokens rest

theorem OptionUpTo.exists_terminal {filter : FilterType} {words : List Word}
    (option : OptionUpTo env filter tokens words) :
    ∃ terminal ∈ terminals tokens, cmdOption terminal.cmd := by
  have later {token : CmdToken} {tokens : List CmdToken}
      (found : ∃ terminal ∈ terminals tokens, cmdOption terminal.cmd) :
      ∃ terminal ∈ terminals (token :: tokens), cmdOption terminal.cmd := by
    obtain ⟨terminal, member, isOption⟩ := found
    exact ⟨terminal, mem_append_right _ member, isOption⟩
  fun_induction OptionUpTo env filter tokens words with
  | case1 => cases option
  | case2 parts =>
    obtain ⟨part, member, some⟩ := option
    obtain ⟨arg, inside, isOption⟩ := any_eq_true.mp some
    cases arg with
    | terminal token =>
      refine ⟨token, mem_append_left _ (mem_flatMap.mpr ⟨part, member, ?_⟩), isOption⟩
      exact mem_cons_of_mem _ (mem_flatMap.mpr ⟨_, inside, mem_cons_self⟩)
    | multiple alternatives => cases isOption
  | case3 token tokens words ih =>
    rcases option with here | ⟨rest, _, behind⟩
    · exact ⟨token, mem_cons_self, here⟩
    · exact later (ih rest behind)
  | case4 alternatives tokens words ih =>
    obtain ⟨rest, _, behind⟩ := option
    exact later (ih rest behind)

theorem stageArgs_not_finished {filter : FilterType} {args : List KeywordArg} {before : List Word} :
    stageArgs env filter args before ≠ .stop .finished := by
  fun_induction stageArgs env filter args before with
  | case1 | case3 | case4 => nofun
  | case2 arg => cases arg <;> nofun
  | case5 _ _ _ _ _ _ ih => exact ih

theorem stageUses_not_finished {filter : FilterType} {parts : List KeywordPart}
    {steps : Nat} {mask : List Nat} {before : List Word} :
    stageUses env filter parts steps mask before ≠ some .finished := by
  fun_induction stageUses env filter parts steps mask before with
  | case1 | case2 | case3 | case5 | case7 => nofun
  | case4 _ _ _ _ _ _ _ _ stage stops =>
    rintro ⟨⟩
    exact stageArgs_not_finished stops
  | case6 _ _ _ _ _ _ _ _ _ _ ih => exact ih

theorem matchTokens_cons_ends {state : MatcherState} {before : List Word} (arg : KeywordArg)
    (atIndex : m.index = some n) (ahead : Ahead m n w state before)
    (run : ∃ middle, matchKeywordArg m arg state none = some middle ∧
      if middle.rv.isError || beyondIndex m middle.state then next = middle
      else matchTokens m tokens middle.state middle.args = some next)
    (tail : ∀ {state before}, Ahead m n w state before →
      matchTokens m tokens state none = some next →
      End m n w (OptionUpTo m.env m.filter tokens before)
        (stageTokens m.env m.filter tokens before) next.rv next.state) :
    End m n w (isOption arg ∨ ∃ rest, stageArgs m.env m.filter [arg] before = .done rest ∧
        OptionUpTo m.env m.filter tokens rest)
      (match stageArgs m.env m.filter [arg] before with
        | .stop stage => some stage
        | .refused => none
        | .done rest => stageTokens m.env m.filter tokens rest)
      next.rv next.state := by
  obtain ⟨middle, step, later⟩ := run
  have ends := arg_ends atIndex ahead step
  generalize stageArgs m.env m.filter [arg] before = result at ends ⊢
  cases ends with
  | refused error fresh reason =>
    rw [error, Bool.true_or, if_pos rfl] at later
    subst later
    refine .refused error fresh ?_
    rcases reason with ⟨option, by_⟩ | refused | ⟨stage, stops, rejects⟩
    · left
      rw [any_cons, any_nil, Bool.or_false] at option
      refine ⟨.inl option, by_.mono fun stage stops => ?_⟩
      rw [ArgsStage.eq_stop stops]
    · subst refused
      right
      rintro _ ⟨⟩
    · subst stops
      right
      rintro _ ⟨⟩
      exact rejects
  | arrived rv passed accepts record =>
    rw [(beyondIndex_at atIndex _).mpr passed, Bool.or_true, if_pos rfl] at later
    subst later
    rw [rv]
    exact .arrived rfl (.inr passed) accepts record
  | done rv noArgs after =>
    rw [rv, MatcherRv.isError, Bool.false_or, if_neg (notBeyond atIndex after), noArgs] at later
    exact (tail after later).mono fun option => .inr ⟨_, rfl, option⟩

/-- A command up to the index: either a word is refused and nothing is left
behind, or its stage accepts the word and the terminals that match it are
recorded.  Only options make the outcome depend on more than the stage. -/
theorem matchTokens_ends (atIndex : m.index = some n) (ahead : Ahead m n w state before)
    (run : matchTokens m tokens state none = some next) :
    End m n w (OptionUpTo m.env m.filter tokens before)
      (stageTokens m.env m.filter tokens before) next.rv next.state := by
  induction tokens generalizing state before with
  | nil =>
    cases run
    exact endOfTokens_ends _ ahead
  | cons token tokens ih =>
    have step := matchTokens_cons run
    cases token with
    | terminal token => exact matchTokens_cons_ends (.terminal token) atIndex ahead step ih
    | multiple alternatives =>
      have ends := matchTokens_cons_ends (.multiple alternatives) atIndex ahead step ih
      exact ends.mono fun option => option.resolve_left Bool.false_ne_true
    | keyword parts =>
      obtain ⟨middle, matched, later⟩ := step
      obtain ⟨reader, reading, rfl⟩ := matchKeyword_none matched
      rw [stageTokens]
      have ends := readKeywords_ends atIndex (Nat.lt_succ_self _) ahead reading
      have notFinished := @stageUses_not_finished m.env m.filter parts (before.length + 1) [] before
      generalize stageUses m.env m.filter parts _ [] before = result at ends notFinished ⊢
      cases ends with
      | refused error fresh reason =>
        rw [error, Bool.true_or, if_pos rfl] at later
        subst later
        exact .refused error fresh reason
      | arrived noError passed accepts record =>
        have moved := passed.resolve_left fun finished => notFinished (congrArg some finished)
        rw [(beyondIndex_at atIndex _).mpr moved, Bool.or_true, if_pos rfl] at later
        subst later
        exact .arrived noError passed accepts record

theorem cmdElementMatch_ends {filter : FilterType} {vline : List Word} {n : Nat} {w : Word}
    {szToken : CStr} (here : vline[n]? = some w)
    (run : cmdElementMatch ⟨env, filter, vline, some n⟩ tokens szToken false = some next) :
    End ⟨env, filter, vline, some n⟩ n w (OptionUpTo env filter tokens (vline.take n))
      (stageTokens env filter tokens (vline.take n)) next.rv next.state := by
  obtain ⟨bound, same⟩ := List.getElem?_eq_some_iff.mp here
  refine matchTokens_ends rfl ⟨⟨rfl, rfl⟩, ⟨vline.drop (n + 1), ?_⟩, ?_⟩ run
  · rw [← same, ← drop_eq_getElem_cons bound, take_append_drop]
    rfl
  · rw [length_take_of_le bound.le]
    exact Nat.zero_add n

/-- A visible command either is gone, and an option or its stage refuses the
word, or it is kept with what its stage records. -/
theorem filterSlot_ends {filter : FilterType} {vline : List Word} {n : Nat} {w : Word}
    {type : MatchType} {command : CmdElement} {slot : Slot} (here : vline[n]? = some w)
    (visible : command.hidden = false)
    (filtered : FilterSlot ⟨env, filter, vline, some n⟩ type (some command) slot) :
    (slot = ⟨none, none⟩ ∧ (OptionUpTo env filter command.tokens (vline.take n) ∨
        ∀ stage ∈ stageTokens env filter command.tokens (vline.take n),
          ¬ Accepts ⟨env, filter, vline, some n⟩ n w stage)) ∨
      ∃ stage state, stageTokens env filter command.tokens (vline.take n) = some stage ∧
        Accepts ⟨env, filter, vline, some n⟩ n w stage ∧
        slot = ⟨some command, state.matchVector⟩ ∧ state.matchType ≤ type ∧
        Recorded state (stageOffers env filter stage w) := by
  cases filtered with
  | hidden hidden => cases visible.symm.trans hidden
  | failed _ run error =>
    have ends := cmdElementMatch_ends here run
    generalize stageTokens env filter command.tokens (vline.take n) = result at ends ⊢
    cases ends with
    | refused _ fresh reason =>
      rw [fresh.matchVector]
      exact .inl ⟨rfl, reason.imp_left And.left⟩
    | arrived noError => cases noError.symm.trans error
  | fine _ run noError below =>
    have ends := cmdElementMatch_ends here run
    generalize stageTokens env filter command.tokens (vline.take n) = result at ends ⊢
    cases ends with
    | refused error => cases noError.symm.trans error
    | arrived _ _ accepts recorded =>
      exact .inr ⟨_, _, rfl, accepts, rfl, below, recorded⟩

end

end OpsCli.Command.Staging
