import OpsCli.Command.Origin
import OpsCli.Command.Recording
import OpsCli.Command.Selection

/-!
# Lines that agree up to a word

A run of the matcher up to the word at an index does not see the words behind
it.  Two lines that agree up to the index are matched alike, and a filter loop
over the words that they share leaves the same commands.
-/

namespace OpsCli.Command.Agreement

open CLib.CString Token WordMatch Matcher Reading Acceptance Recording Origin
  Selection List

/-- Two lines agree up to the word at an index, and neither ends there with
an empty word. -/
structure Agree (first second : List Word) (n : Nat) : Prop where
  words : ∀ j ≤ n, first[j]? = second[j]?
  inFirst : n < first.length
  inSecond : n < second.length
  ends : ∀ j ≤ n, (first[j]?).any isEmptyWord → j + 1 ≠ first.length ∧ j + 1 ≠ second.length

/-- A vararg would take the words up to the end of the line. -/
def Alike (first second : List Word) (list : List Terminal) : Prop :=
  first.length = second.length ∨ ∀ terminal ∈ list, cmdVararg terminal.cmd = false

theorem Alike.mono {first second : List Word} {list part : List Terminal}
    (alike : Alike first second list) (subset : part ⊆ list) : Alike first second part :=
  alike.imp_right fun none terminal member => none terminal (subset member)

section

variable {env : MatchEnv} {filter : FilterType} {first second : List Word} {n : Nat}
  {parts : List KeywordPart} {list : List KeywordArg} {token : Terminal} {arg : KeywordArg}
  {mask : List Nat} {szToken : CStr}

theorem pushRest_none (words : List Word) : pushRest none words = none := by
  induction words with
  | nil => rfl
  | cons word words ih =>
    rw [pushRest, foldl_cons]
    have still : (if Arg.ofWord word = .null then (none : Args)
        else (pushArgument none (Arg.ofWord word)).getD none) = none := by
      split
      · rfl
      · rfl
    rw [still]
    exact ih

theorem finishTerminal_agree (alike : Alike first second [token]) (type : MatchType)
    (state : MatcherState) :
    finishTerminal ⟨env, filter, first, some n⟩ token type state none =
      finishTerminal ⟨env, filter, second, some n⟩ token type state
        none := by
  simp only [finishTerminal, cmdMatcherRecordMatch, pushRest_none]
  rcases alike with lengths | none
  · rw [lengths]
  · rw [none token mem_cons_self]
    rfl

variable {state : MatcherState} {m : CmdMatcher} {next : Outcome}

section

variable (here : first[state.wordIndex]? = second[state.wordIndex]?)
include here

theorem matchTerminal_agree (alike : Alike first second [token]) :
    cmdMatcherMatchTerminal ⟨env, filter, first, some n⟩ token state none =
      cmdMatcherMatchTerminal ⟨env, filter, second, some n⟩ token state
        none := by
  simp only [cmdMatcherMatchTerminal, here, takeTerminal, matchOption, pushArgument,
    finishTerminal_agree alike]

theorem matchMultiple_agree {alternatives : List Terminal} :
    cmdMatcherMatchMultiple ⟨env, filter, first, some n⟩ alternatives state none =
      cmdMatcherMatchMultiple ⟨env, filter, second, some n⟩ alternatives state
        none := by
  simp only [cmdMatcherMatchMultiple, here]
  rfl

theorem matchKeywordArg_agree (env : MatchEnv) (filter : FilterType) (n : Nat)
    (alike : Alike first second (argTerminals arg)) :
    matchKeywordArg ⟨env, filter, first, some n⟩ arg state none =
      matchKeywordArg ⟨env, filter, second, some n⟩ arg state none := by
  cases arg with
  | terminal token => exact matchTerminal_agree here alike
  | multiple alternatives => exact matchMultiple_agree here

end

/-- A step without an error goes forward and makes no argument vector. -/
theorem matchKeywordArg_forward (run : matchKeywordArg m arg state none = some next)
    (noError : next.rv.isError = false) :
    next.args = none ∧ state.wordIndex ≤ next.state.wordIndex := by
  obtain ⟨reading, rest, _, took⟩ := matchKeywordArg_reads fits_none run noError
  refine ⟨took.args, ?_⟩
  rw [took.wordIndex]
  exact Nat.le_add_right _ _

theorem matchKeywordArgs_forward (run : matchKeywordArgs m list state none = some next)
    (noError : next.rv.isError = false) : state.wordIndex ≤ next.state.wordIndex := by
  induction list generalizing state with
  | nil =>
    cases run
    exact le_refl _
  | cons arg rest ih =>
    obtain ⟨middle, step, later⟩ := matchKeywordArgs_cons run
    obtain ⟨fine, later⟩ := fine_of_ends later fun same => same ▸ noError
    obtain ⟨noArgs, forward⟩ := matchKeywordArg_forward step fine
    split at later
    · rw [later]
      exact forward
    · rw [noArgs] at later
      exact forward.trans (ih later)

theorem notPast_of_goesOn {rv : MatcherRv} (atIndex : m.index = some n)
    (goesOn : ¬ (rv.isError || beyondIndex m state)) :
    rv.isError = false ∧ state.wordIndex ≤ n := by
  rw [Bool.or_eq_true, not_or, Bool.not_eq_true] at goesOn
  refine ⟨goesOn.1, Nat.le_of_not_lt fun past => goesOn.2 ?_⟩
  exact (beyondIndex_at atIndex state).mpr past

theorem follow_agree {α : Type} {rv : MatcherRv} {ends goes other : α}
    (same : rv.isError = false → state.wordIndex ≤ n → goes = other) :
    (if rv.isError || beyondIndex ⟨env, filter, first, some n⟩ state then ends else goes) =
      if rv.isError || beyondIndex ⟨env, filter, second, some n⟩ state then ends else other := by
  by_cases stops : rv.isError || beyondIndex ⟨env, filter, first, some n⟩ state
  · exact (if_pos stops).trans (if_pos stops).symm
  · obtain ⟨fine, notPast⟩ := notPast_of_goesOn rfl stops
    exact (if_neg stops).trans ((same fine notPast).trans (if_neg stops).symm)

theorem matchKeywordArgs_agree (agree : Agree first second n)
    (alike : Alike first second (list.flatMap argTerminals)) (before : state.wordIndex ≤ n) :
    matchKeywordArgs ⟨env, filter, first, some n⟩ list state none =
      matchKeywordArgs ⟨env, filter, second, some n⟩ list state none := by
  induction list generalizing state with
  | nil => rfl
  | cons arg rest ih =>
    rw [flatMap_cons] at alike
    have here := matchKeywordArg_agree (agree.words _ before) env filter n
      (alike.mono (subset_append_left _ _))
    rw [matchKeywordArgs, matchKeywordArgs, here]
    cases step : matchKeywordArg ⟨env, filter, second, some n⟩ arg state none with
    | none => rfl
    | some middle =>
      refine follow_agree fun fine notPast => ?_
      rw [(matchKeywordArg_forward step fine).1]
      exact ih (alike.mono (subset_append_right _ _)) notPast

theorem scanKeywords_agree {word : Word} {haveArgs : Bool} {start : Nat} {scan : KeywordScan} :
    scanKeywords ⟨env, filter, first, some n⟩ word mask haveArgs start parts scan =
      scanKeywords ⟨env, filter, second, some n⟩ word mask haveArgs start parts scan := by
  induction parts generalizing start scan with
  | nil => rfl
  | cons part rest ih =>
    simp only [scanKeywords, ih]
    rfl

section

variable (before : state.wordIndex ≤ n)
include before

theorem readKeywords_agree {fuel other : Nat} (agree : Agree first second n)
    (alike : Alike first second (parts.flatMap partTerminals)) (enough : n < fuel + state.wordIndex)
    (enough' : n < other + state.wordIndex) :
    cmdMatcherReadKeywords ⟨env, filter, first, some n⟩ parts fuel mask state none =
      cmdMatcherReadKeywords ⟨env, filter, second, some n⟩ parts other mask state none := by
  induction fuel generalizing other mask state with
  | zero => omega
  | succ fuel ih =>
    obtain ⟨other, rfl⟩ := Nat.exists_eq_add_one_of_ne_zero (show other ≠ 0 by omega)
    rw [cmdMatcherReadKeywords, cmdMatcherReadKeywords]
    rw [agree.words _ before]
    cases second[state.wordIndex]? with
    | none => rfl
    | some word =>
      dsimp only
      rw [scanKeywords_agree]
      cases scanned : scanKeywords ⟨env, filter, second, some n⟩ word mask
          (none : KeywordTable).isSome 0 parts ⟨none, .noMatch, state⟩ with
      | none => rfl
      | some result =>
        obtain ⟨ambiguous, scan⟩ := result
        cases ambiguous with
        | true => rfl
        | false =>
          dsimp only
          cases picked : scan.found.bind fun i => parts[i]?.map (i, ·) with
          | none => rfl
          | some found =>
            obtain ⟨i, part⟩ := found
            have moved : scan.state.advance.wordIndex = state.wordIndex + 1 := by
              rw [MatcherState.advance, (scanKeywords_spec scanned).1 rfl, recordAll_wordIndex]
            have inner := alike.mono (args_subset_parts (found_of_picked picked).2)
            refine @follow_agree env filter first second n _ _ .ok _ _ _ fun _ notPast => ?_
            rw [Option.map_none, matchKeywordArgs_agree agree inner notPast]
            cases step : matchKeywordArgs ⟨env, filter, second, some n⟩ part.args
                scan.state.advance none with
            | none => rfl
            | some middle =>
              refine follow_agree fun fine ahead => ?_
              have forward := matchKeywordArgs_forward step fine
              exact ih ahead (by omega) (by omega)

theorem endOfTokens_agree (agree : Agree first second n) :
    endOfTokens ⟨env, filter, first, some n⟩ state =
      endOfTokens ⟨env, filter, second, some n⟩ state := by
  have inFirst := agree.inFirst
  have inSecond := agree.inSecond
  have words := agree.words _ before
  have ends := agree.ends _ before
  simp only [endOfTokens]
  rw [if_neg (show ¬ first.length ≤ state.wordIndex by omega),
    if_neg (show ¬ second.length ≤ state.wordIndex by omega), words]
  rw [words] at ends
  by_cases empty : (second[state.wordIndex]?).any isEmptyWord
  · obtain ⟨notFirst, notSecond⟩ := ends empty
    rw [decide_eq_false notFirst, decide_eq_false notSecond]
  · rw [Bool.not_eq_true] at empty
    rw [empty, Bool.and_false, Bool.and_false]

theorem matchToken_agree {token : CmdToken} (agree : Agree first second n)
    (alike : Alike first second (tokenTerminals token)) :
    matchToken ⟨env, filter, first, some n⟩ token state none =
      matchToken ⟨env, filter, second, some n⟩ token state none := by
  have inFirst := agree.inFirst
  have inSecond := agree.inSecond
  cases token with
  | terminal token =>
    exact matchTerminal_agree (agree.words _ before) alike
  | multiple alternatives =>
    exact matchMultiple_agree (agree.words _ before)
  | keyword parts =>
    simp only [matchToken, cmdMatcherMatchKeyword, Option.map_none]
    rw [readKeywords_agree before agree alike (by omega)
      (show n < second.length + 1 + state.wordIndex by omega)]

end

theorem matchToken_noArgs {token : CmdToken} (run : matchToken m token state none = some next)
    (noError : next.rv.isError = false) : next.args = none := by
  cases token with
  | terminal token =>
    obtain ⟨_, _, _, took⟩ := matchTerminal_reads noError fits_none run
    exact took.args
  | multiple alternatives =>
    obtain ⟨_, _, _, took⟩ := matchMultiple_reads noError run
    exact took.args
  | keyword parts =>
    obtain ⟨_, _, rfl⟩ := matchKeyword_reader run
    rfl

/-- A command is matched alike on lines that agree up to the index. -/
theorem cmdElementMatch_agree {tokens : List CmdToken} (agree : Agree first second n)
    (alike : Alike first second (terminals tokens)) :
    cmdElementMatch ⟨env, filter, first, some n⟩ tokens szToken false =
      cmdElementMatch ⟨env, filter, second, some n⟩ tokens szToken
        false := by
  have loop {state : MatcherState} (before : state.wordIndex ≤ n) :
      matchTokens ⟨env, filter, first, some n⟩ tokens state none =
        matchTokens ⟨env, filter, second, some n⟩ tokens state none := by
    induction tokens generalizing state with
    | nil =>
      rw [matchTokens, matchTokens, endOfTokens_agree before agree]
    | cons token rest ih =>
      rw [terminals, flatMap_cons] at alike
      rw [matchTokens, matchTokens, matchToken_agree before
        agree (alike.mono (subset_append_left _ _))]
      cases step : matchToken ⟨env, filter, second, some n⟩ token state none with
      | none => rfl
      | some middle =>
        refine follow_agree fun fine notPast => ?_
        rw [matchToken_noArgs step fine]
        exact ih (alike.mono (subset_append_right _ _)) notPast
  exact loop (Nat.zero_le n)

theorem cmdVectorFilter_agree {commands : List (Option CmdElement)} {best : MatchType}
    (agree : Agree first second n)
    (alike : ∀ command, some command ∈ commands → Alike first second (terminals command.tokens)) :
    cmdVectorFilter ⟨env, filter, first, some n⟩ commands best szToken =
      cmdVectorFilter ⟨env, filter, second, some n⟩ commands best
        szToken := by
  induction commands generalizing best szToken with
  | nil => rfl
  | cons command rest ih =>
    have later := fun {best szToken} => @ih best szToken
      fun command member => alike command (mem_cons_of_mem _ member)
    cases command with
    | none => rw [cmdVectorFilter, cmdVectorFilter, later]
    | some command =>
      rw [cmdVectorFilter, cmdVectorFilter, later,
        cmdElementMatch_agree agree (alike command mem_cons_self)]
      simp only [later]

end

end OpsCli.Command.Agreement
