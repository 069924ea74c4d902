import OpsCli.Command.Agreement
import OpsCli.Command.Buffer
import OpsCli.Command.Elimination

/-!
# Lines that differ at the word of the index

Two lines of the same length that differ only from the word at the index on
are matched in lockstep up to it.  A command is either refused before the
index on both lines, or it comes to the index on both; in either case the
static buffer is left in the same state.
-/

namespace OpsCli.Command.Lockstep

open CLib.CString Token WordMatch Matcher Reading Acceptance Recording Selection
  Survival Staging Elimination Agreement Buffer List

/-- Two lines of the same length that agree before the index. -/
structure Parallel (first second : List Word) (n : Nat) : Prop where
  words : ∀ j < n, first[j]? = second[j]?
  length : first.length = second.length
  bound : n < first.length

/-- A step has come to the index and stops there, for this command only. -/
structure Stops (n : Nat) (rv : MatcherRv) (state : MatcherState) : Prop where
  stops : rv.isError ∨ n < state.wordIndex
  single : ¬ Aborts rv

/-- Two steps in lockstep: they are the same step before the index, or both
stop at the index with the same buffer. -/
inductive Pair (n : Nat) : MatcherRv → MatcherState → MatcherRv → MatcherState → Prop where
  | same {rv : MatcherRv} {state : MatcherState}
      (before : rv.isError ∨ state.wordIndex ≤ n) :
      Pair n rv state rv state
  | settled {rv other : MatcherRv} {state last : MatcherState}
      (left : Stops n rv state) (right : Stops n other last)
      (buffer : state.szToken = last.szToken) :
      Pair n rv state other last

theorem not_aborts_noMatch : ¬ Aborts .noMatch := by
  rintro (ambiguous | exceeds)
  · cases ambiguous
  · cases exceeds

variable {rv : MatcherRv} {next : Outcome} {parts : List KeywordPart} {mask : List Nat} {fuel : Nat}

theorem not_aborts_of_fine (noError : rv.isError = false) : ¬ Aborts rv := by
  rintro (rfl | rfl)
  · cases noError
  · cases noError

theorem Pair.refl {n : Nat} {state : MatcherState} : Pair n rv state rv state := by
  by_cases error : rv.isError
  · exact .same (.inl error)
  by_cases before : state.wordIndex ≤ n
  · exact .same (.inr before)
  · have passed := Nat.lt_of_not_le before
    have stops : Stops n rv state := ⟨.inr passed,
        not_aborts_of_fine (Bool.not_eq_true _ ▸ error)⟩
    exact .settled stops stops rfl

section

variable {env : MatchEnv} {vline : List Word} {n : Nat}

/-- The buffer behind a token that is reached. -/
def bufferAfter (cmd szToken : CStr) : CStr :=
  if cmdOption cmd then (optionText cmd szToken).getD szToken else szToken

variable {token : Terminal} {state : MatcherState} {word : Word}

theorem option_matches (option : cmdOption token.cmd) (word : Word) :
    cmdWordMatch env token .relaxed word ≠ some .noMatch := by
  match word with
  | none => nofun
  | some [] => nofun
  | some (c :: rest) =>
    change cmdWordMatchText env token.cmd .relaxed (c :: rest) ≠ _
    rw [cmdWordMatchText_option option]
    nofun

theorem finishTerminal_stops {type : MatchType} {args : Args} (position : state.wordIndex = n) :
    Stops n (finishTerminal ⟨env, .relaxed, vline, some n⟩ token type state args).rv
      (finishTerminal ⟨env, .relaxed, vline, some n⟩ token type state args).state := by
  have passed : n < (cmdMatcherRecordMatch ⟨env, .relaxed, vline, some n⟩
      type token state).advance.wordIndex := by
    rw [MatcherState.advance, recordMatch_wordIndex, position]
    exact Nat.lt_succ_self n
  unfold finishTerminal
  split
  · have further := passed.trans_le (Nat.le_max_left _ vline.length)
    exact ⟨.inr further, not_aborts_of_fine rfl⟩
  · exact ⟨.inr passed, not_aborts_of_fine rfl⟩

section

variable (position : state.wordIndex = n) (here : vline[state.wordIndex]? = some word)
include position here

theorem matchTerminal_stops
    (run : cmdMatcherMatchTerminal ⟨env, .relaxed, vline, some n⟩ token state none = some next) :
    Stops n next.rv next.state ∧ next.state.szToken = bufferAfter token.cmd state.szToken := by
  obtain ⟨type, answer, run⟩ := matchTerminal_word here run
  by_cases unmatched : type = .noMatch
  · rw [if_pos unmatched] at run
    cases run
    subst unmatched
    have plain : ¬ cmdOption token.cmd := fun option => option_matches option word answer
    rw [bufferAfter, if_neg plain]
    exact ⟨⟨.inl rfl, not_aborts_noMatch⟩, rfl⟩
  rw [if_neg unmatched, takeTerminal] at run
  by_cases taken : (cmdVararg token.cmd || cmdVariable token.cmd)
  · rw [if_pos taken, pushArgument] at run
    cases run
    have plain : cmdOption token.cmd = false := by
      rw [Bool.or_eq_true] at taken
      rcases taken with vararg | isVariable
      · exact not_option_of_vararg vararg
      · exact (kind_of_variable isVariable).2
    rw [bufferAfter, plain]
    exact ⟨finishTerminal_stops position, finishTerminal_szToken _ _ _ _ _⟩
  rw [if_neg taken] at run
  by_cases option : cmdOption token.cmd
  · rw [if_pos option, matchOption] at run
    cases text : optionText token.cmd state.szToken with
    | none =>
      rw [text] at run
      cases run
    | some inner =>
      rw [bufferAfter, if_pos option, text, Option.getD_some]
      rw [text] at run
      dsimp only at run
      split at run
      · cases run
      split at run
      · cases run
        exact ⟨⟨.inl rfl, not_aborts_noMatch⟩, rfl⟩
      · rw [pushArgument] at run
        cases run
        exact ⟨finishTerminal_stops position, finishTerminal_szToken _ _ _ _ _⟩
  · rw [if_neg option] at run
    cases run
    rw [bufferAfter, if_neg option]
    exact ⟨finishTerminal_stops position, finishTerminal_szToken _ _ _ _ _⟩

theorem matchMultiple_stops {alternatives : List Terminal}
    (run : cmdMatcherMatchMultiple ⟨env, .relaxed, vline, some n⟩ alternatives
      state none = some next) : Stops n next.rv next.state := by
  obtain ⟨recorded, result⟩ := matchMultiple_word here run
  have passed : n < next.state.wordIndex := by
    rw [recorded, MatcherState.advance, recordAll_wordIndex, position]
    exact Nat.lt_succ_self n
  refine ⟨.inr passed, ?_⟩
  have rv : next.rv = (multipleResult none word
      (bestOffer (offers env .relaxed alternatives word))).1 :=
    congrArg Prod.fst result
  rw [rv]
  cases bestOffer (offers env .relaxed alternatives word) with
  | none => exact not_aborts_noMatch
  | some offer => exact not_aborts_of_fine rfl

theorem readKeywords_stops {next : KeywordOutcome}
    (run : cmdMatcherReadKeywords ⟨env, .relaxed, vline, some n⟩ parts
      (fuel + 1) mask state none = some next) :
    Stops n next.rv next.state ∧ next.state.szToken = state.szToken := by
  have scan_stays {word : Word} {ambiguous : Bool} {scan : KeywordScan}
      (scanned : scanKeywords ⟨env, .relaxed, vline, some n⟩ word mask false
        0 parts ⟨none, .noMatch, state⟩ = some (ambiguous, scan)) :
      ambiguous = false ∧ scan.state.wordIndex = n ∧ scan.state.szToken = state.szToken := by
    obtain ⟨never, _⟩ := scanKeywords_at_index
      (show some n = some state.wordIndex by rw [position]) scanned
    refine ⟨never, ?_, scanKeywords_szToken scanned⟩
    rw [(scanKeywords_spec scanned).1 never, recordAll_wordIndex, position]
  cases round_of_readKeywords run with
  | finished nothing => cases here.symm.trans nothing
  | refused _ scanned =>
    obtain ⟨rfl, _, buffer⟩ := scan_stays scanned
    exact ⟨⟨.inl rfl, not_aborts_noMatch⟩, buffer⟩
  | @keyword _ scan _ _ _ _ scanned _ _ later =>
    obtain ⟨_, still, buffer⟩ := scan_stays scanned
    have passed : n < scan.state.advance.wordIndex := Nat.lt_succ_of_le still.ge
    rw [if_pos ((beyondIndex_at rfl _).mpr passed)] at later
    subst later
    exact ⟨⟨.inr passed, not_aborts_of_fine rfl⟩, buffer⟩

end

end

/-! ## Two lines -/

section

variable {env : MatchEnv} {first second : List Word} {n : Nat}

variable {state : MatcherState} {left right : Outcome} {tokens : List CmdToken} {szToken : CStr}

/-- A loop ends after both steps, or it goes on from the same state. -/
theorem Pair.follow {other : MatcherRv} {last : MatcherState} {ends goes ends' goes' : Prop}
    (pair : Pair n rv state other last)
    (left : if rv.isError || beyondIndex ⟨env, .relaxed, first, some n⟩ state then ends else goes)
    (right : if other.isError || beyondIndex ⟨env, .relaxed, second, some n⟩ last then ends'
      else goes') :
    ends ∧ ends' ∨
      goes ∧ goes' ∧ other = rv ∧ last = state ∧ rv.isError = false ∧ state.wordIndex ≤ n := by
  simp only [Bool.or_eq_true, beyondIndex_at
    (show CmdMatcher.index ⟨env, .relaxed, _, some n⟩ = some n from rfl)] at left right
  cases pair with
  | settled stops stops' _ =>
    rw [if_pos stops.stops] at left
    rw [if_pos stops'.stops] at right
    exact .inl ⟨left, right⟩
  | same before =>
    by_cases stops : rv.isError ∨ n < state.wordIndex
    · rw [if_pos stops] at left right
      exact .inl ⟨left, right⟩
    · rw [if_neg stops] at left right
      obtain ⟨fine, notPast⟩ := not_or.mp stops
      exact .inr ⟨left, right, rfl, rfl, Bool.not_eq_true _ ▸ fine, Nat.le_of_not_lt notPast⟩

/-- The steps of a function of the matcher on the two lines are a pair. -/
def InStep (env : MatchEnv) (first second : List Word) (n : Nat)
    (function : CmdMatcher → MatcherState → Args → Option Outcome) : Prop :=
  ∀ {state left right}, state.wordIndex ≤ n →
    function ⟨env, .relaxed, first, some n⟩ state none = some left →
    function ⟨env, .relaxed, second, some n⟩ state none = some right →
    Pair n left.rv left.state right.rv right.state

/-- Two runs of a command in lockstep. -/
inductive Ended (left right : Outcome) : Prop where
  | same (rv : left.rv = right.rv) (state : left.state = right.state)
  | reached (leftOnly : ¬ Aborts left.rv) (rightOnly : ¬ Aborts right.rv)
      (buffer : left.state.szToken = right.state.szToken)

theorem Pair.ended (pair : Pair n left.rv left.state right.rv right.state) :
    Ended left right := by
  obtain ⟨leftRv, leftState, leftArgs⟩ := left
  obtain ⟨rightRv, rightState, rightArgs⟩ := right
  cases pair with
  | same _ => exact .same rfl rfl
  | settled stops stops' buffer =>
    exact .reached stops.single stops'.single buffer

variable (parallel : Parallel first second n)
include parallel

theorem Parallel.alike (list : List Terminal) :
    Alike first second list :=
  .inl parallel.length

theorem Parallel.hasWord {j : Nat} (before : j ≤ n) :
    (∃ word, first[j]? = some word) ∧ ∃ word, second[j]? = some word := by
  have bound := parallel.bound
  have length := parallel.length
  exact ⟨⟨_, getElem?_eq_getElem (by omega)⟩, ⟨_, getElem?_eq_getElem (by omega)⟩⟩

theorem matchKeywordArg_pair (arg : KeywordArg) :
    InStep env first second n (matchKeywordArg · arg) := by
  intro state left right before leftRun rightRun
  rcases before.lt_or_eq with inside | position
  · cases leftRun.symm.trans ((matchKeywordArg_agree (parallel.words _ inside) env .relaxed
      n (parallel.alike _)).trans rightRun)
    exact .refl
  · obtain ⟨⟨word, here⟩, other, there⟩ := parallel.hasWord before
    cases arg with
    | terminal token =>
      obtain ⟨stops, buffer⟩ := matchTerminal_stops position here leftRun
      obtain ⟨stops', buffer'⟩ := matchTerminal_stops position there rightRun
      exact .settled stops stops' (buffer.trans buffer'.symm)
    | multiple alternatives =>
      exact .settled (matchMultiple_stops position here leftRun)
        (matchMultiple_stops position there rightRun)
        ((matchMultiple_szToken leftRun).trans (matchMultiple_szToken rightRun).symm)

theorem matchKeywordArgs_pair (list : List KeywordArg) :
    InStep env first second n (matchKeywordArgs · list) := by
  intro state left right before leftRun rightRun
  induction list generalizing state with
  | nil =>
    cases leftRun
    cases rightRun
    exact .refl
  | cons arg rest ih =>
    obtain ⟨leftMiddle, leftStep, leftLater⟩ := matchKeywordArgs_cons leftRun
    obtain ⟨rightMiddle, rightStep, rightLater⟩ := matchKeywordArgs_cons rightRun
    have pair := matchKeywordArg_pair parallel arg before leftStep rightStep
    rcases pair.follow leftLater rightLater with ⟨rfl, rfl⟩ |
      ⟨leftLater, rightLater, rv, same, fine, notPast⟩
    · exact pair
    · rw [(matchKeywordArg_forward leftStep fine).1] at leftLater
      rw [same, (matchKeywordArg_forward rightStep (rv ▸ fine)).1] at rightLater
      exact ih notPast leftLater rightLater

theorem readKeywords_pair {left right : KeywordOutcome} (before : state.wordIndex ≤ n)
    (leftRun : cmdMatcherReadKeywords ⟨env, .relaxed, first, some n⟩ parts
      fuel mask state none = some left)
    (rightRun : cmdMatcherReadKeywords ⟨env, .relaxed, second, some n⟩ parts
      fuel mask state none = some right) : Pair n left.rv left.state right.rv right.state := by
  induction fuel generalizing mask state with
  | zero => cases leftRun
  | succ fuel ih =>
    obtain ⟨⟨word, here⟩, other, there⟩ := parallel.hasWord before
    rcases before.lt_or_eq with inside | position
    · cases here.symm.trans ((parallel.words _ inside).trans there)
      rw [cmdMatcherReadKeywords, here] at leftRun
      rw [cmdMatcherReadKeywords, there] at rightRun
      dsimp only at leftRun rightRun
      rw [scanKeywords_agree] at leftRun
      -- Both lines have found the same keyword.
      split at rightRun
      · cases rightRun
      · rename_i scanned
        rw [scanned] at leftRun
        cases leftRun
        cases rightRun
        exact .refl
      rename_i scan scanned
      rw [scanned] at leftRun
      split at rightRun
      · rename_i nothing
        dsimp only at leftRun
        rw [nothing] at leftRun
        cases leftRun
        cases rightRun
        exact .refl
      rename_i i part picked
      have still := scanKeywords_elsewhere (fun same => inside.ne (Option.some.inj same).symm)
        scanned
      have notPast : state.advance.wordIndex ≤ n := inside
      have goesOn (vline : List Word) : ¬ beyondIndex
          ⟨env, .relaxed, vline, some n⟩ state.advance :=
        (beyondIndex_at rfl _).not.mpr notPast.not_gt
      dsimp only at leftRun
      rw [picked, still] at leftRun
      dsimp only at leftRun
      rw [if_neg (goesOn first)] at leftRun
      rw [still, if_neg (goesOn second)] at rightRun
      split at leftRun
      · cases leftRun
      split at rightRun
      · cases rightRun
      rename_i leftStep _ _ rightStep
      have pair := matchKeywordArgs_pair parallel _ notPast leftStep rightStep
      rcases pair.follow (eq_of_ite leftRun) (eq_of_ite rightRun) with
        ⟨rfl, rfl⟩ | ⟨leftLater, rightLater, _, same, _, notPast⟩
      · exact pair
      · exact ih notPast leftLater (same ▸ rightLater)
    · obtain ⟨stops, buffer⟩ := readKeywords_stops position here leftRun
      obtain ⟨stops', buffer'⟩ := readKeywords_stops position there rightRun
      exact .settled stops stops' (buffer.trans buffer'.symm)

theorem matchToken_pair (token : CmdToken) :
    InStep env first second n (matchToken · token) := by
  intro state left right before leftRun rightRun
  cases token with
  | terminal token =>
    exact matchKeywordArg_pair parallel (.terminal token) before leftRun rightRun
  | multiple alternatives =>
    exact matchKeywordArg_pair parallel (.multiple alternatives) before leftRun rightRun
  | keyword parts =>
    obtain ⟨leftReader, leftRead, rfl⟩ := matchKeyword_none leftRun
    obtain ⟨rightReader, rightRead, rfl⟩ := matchKeyword_none rightRun
    rw [parallel.length] at leftRead
    exact readKeywords_pair parallel before leftRead rightRead

omit parallel in
theorem endOfTokens_single (vline : List Word) :
    ¬ Aborts (endOfTokens ⟨env, .relaxed, vline, some n⟩ state) := by
  unfold endOfTokens
  split
  · exact not_aborts_of_fine rfl
  split
  · exact not_aborts_of_fine rfl
  · exact not_aborts_noMatch

/-- The tokens of a command on two lines in lockstep. -/
theorem matchTokens_ended (before : state.wordIndex ≤ n)
    (leftRun : matchTokens ⟨env, .relaxed, first, some n⟩ tokens state none = some left)
    (rightRun : matchTokens ⟨env, .relaxed, second, some n⟩ tokens state
      none = some right) : Ended left right := by
  induction tokens generalizing state with
  | nil =>
    cases leftRun
    cases rightRun
    exact .reached (endOfTokens_single first) (endOfTokens_single second) rfl
  | cons token rest ih =>
    obtain ⟨leftMiddle, leftStep, leftLater⟩ := matchTokens_cons leftRun
    obtain ⟨rightMiddle, rightStep, rightLater⟩ := matchTokens_cons rightRun
    have pair := matchToken_pair parallel token before leftStep rightStep
    rcases pair.follow leftLater rightLater with ⟨rfl, rfl⟩ |
      ⟨leftLater, rightLater, rv, same, fine, notPast⟩
    · exact pair.ended
    · rw [matchToken_noArgs leftStep fine] at leftLater
      rw [same, matchToken_noArgs rightStep (rv ▸ fine)] at rightLater
      exact ih notPast leftLater rightLater

theorem cmdVectorFilter_lockstep {commands : List (Option CmdElement)}
    {leftBest rightBest : MatchType} {left right : FilterOutcome}
    (visible : ∀ command, some command ∈ commands → command.hidden = false)
    (leftRun : cmdVectorFilter ⟨env, .relaxed, first, some n⟩ commands leftBest szToken = some left)
    (rightRun : cmdVectorFilter ⟨env, .relaxed, second, some n⟩ commands
      rightBest szToken = some right) :
    left.status = right.status := by
  induction commands generalizing leftBest rightBest szToken left right with
  | nil =>
    cases leftRun
    cases rightRun
    rfl
  | cons command rest ih =>
    have visibleRest : ∀ command, some command ∈ rest → command.hidden = false :=
      fun command member => visible command (mem_cons_of_mem _ member)
    cases command with
    | none =>
      obtain ⟨leftLater, leftFound, rfl⟩ := Option.map_eq_some_iff.mp leftRun
      obtain ⟨rightLater, rightFound, rfl⟩ := Option.map_eq_some_iff.mp rightRun
      have status := ih visibleRest leftFound rightFound
      exact status
    | some command =>
      have shown := visible command mem_cons_self
      obtain ⟨leftNext, leftMatched, leftRest⟩ := cmdVectorFilter_cons shown leftRun
      obtain ⟨rightNext, rightMatched, rightRest⟩ := cmdVectorFilter_cons shown rightRun
      have ended : Ended leftNext rightNext :=
        matchTokens_ended parallel (Nat.zero_le n) leftMatched rightMatched
      have alike : (Aborts leftNext.rv ↔ Aborts rightNext.rv) ∧
          leftNext.state.szToken = rightNext.state.szToken ∧
          (Aborts leftNext.rv → abortStatus leftNext.rv = abortStatus rightNext.rv) := by
        cases ended with
        | same rv state =>
          rw [rv, state]
          exact ⟨Iff.rfl, rfl, fun _ => rfl⟩
        | reached leftOnly rightOnly buffer =>
          exact ⟨iff_of_false leftOnly rightOnly, buffer, fun aborts => absurd aborts leftOnly⟩
      rcases leftRest with ⟨aborts, status, _⟩ | ⟨fine, leftLater, leftFound, rfl⟩
      · rcases rightRest with ⟨_, status', _⟩ | ⟨fine, _⟩
        · rw [status, status', alike.2.2 aborts]
        · exact absurd (alike.1.mp aborts) fine
      · rcases rightRest with ⟨aborts, _⟩ | ⟨_, rightLater, rightFound, rfl⟩
        · exact absurd (alike.1.mpr aborts) fine
        · rw [alike.2.1] at leftFound
          have status := ih visibleRest leftFound rightFound
          exact status

end

end OpsCli.Command.Lockstep
