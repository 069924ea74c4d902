import OpsCli.Command.Origin
import OpsCli.Command.Survival

/-!
# Commands that leave the static buffer alone

Only an option token writes to the static buffer.  The matcher, the filter
loop and the counting loop leave it alone as long as they meet commands
without options.
-/

namespace OpsCli.Command.Buffer

open CLib.CString Token WordMatch Matcher Reading Acceptance Origin Selection
  Survival

/-- None of the tokens is an option. -/
def NoOption (list : List Terminal) : Prop :=
  ∀ terminal ∈ list, cmdOption terminal.cmd = false

variable {commands : List (Option CmdElement)} {szToken : CStr} {list : List Terminal}

theorem NoOption.mono {part : List Terminal} (none : NoOption list) (subset : part ⊆ list) :
    NoOption part :=
  fun terminal member => none terminal (subset member)

/-! ## The matcher -/

section

variable {m : CmdMatcher}

@[simp]
theorem recordMatch_szToken (m : CmdMatcher) (type : MatchType) (token : Terminal)
    (state : MatcherState) :
    (cmdMatcherRecordMatch m type token state).szToken = state.szToken := by
  unfold cmdMatcherRecordMatch
  split <;> rfl

theorem finishTerminal_szToken (m : CmdMatcher) (token : Terminal) (type : MatchType)
    (state : MatcherState) (args : Args) :
    (finishTerminal m token type state args).state.szToken = state.szToken := by
  unfold finishTerminal
  split
  · exact recordMatch_szToken m type token state
  · exact recordMatch_szToken m type token state

variable {state : MatcherState} {args : Args} {next : Outcome}

theorem matchTerminal_szToken {token : Terminal} (noOption : NoOption [token])
    (run : cmdMatcherMatchTerminal m token state args = some next) :
    next.state.szToken = state.szToken := by
  rw [cmdMatcherMatchTerminal] at run
  split at run
  · cases run
    rfl
  split at run
  · cases run
  split at run
  · cases run
    rfl
  rw [takeTerminal, noOption token List.mem_cons_self] at run
  split at run
  · split at run
    · cases run
      rfl
    · cases run
      exact finishTerminal_szToken m _ _ _ _
  · cases run
    exact finishTerminal_szToken m _ _ _ _

theorem recordAll_szToken (list : List Offer) (state : MatcherState) :
    (recordAll m list state).szToken = state.szToken := by
  induction list generalizing state with
  | nil => rfl
  | cons offer rest ih => exact (ih _).trans (recordMatch_szToken m _ _ _)

theorem matchMultiple_szToken {alternatives : List Terminal}
    (run : cmdMatcherMatchMultiple m alternatives state args = some next) :
    next.state.szToken = state.szToken := by
  cases here : m.vline[state.wordIndex]? with
  | none =>
    rw [cmdMatcherMatchMultiple, here] at run
    cases run
    rfl
  | some word =>
    rw [(matchMultiple_word here run).1]
    exact recordAll_szToken _ state

theorem matchKeywordArg_szToken {arg : KeywordArg} (noOption : NoOption (argTerminals arg))
    (run : matchKeywordArg m arg state args = some next) : next.state.szToken = state.szToken := by
  cases arg with
  | terminal token => exact matchTerminal_szToken noOption run
  | multiple alternatives => exact matchMultiple_szToken run

theorem scanKeywords_szToken {word : Word} {mask : List Nat} {haveArgs ambiguous : Bool}
    {start : Nat} {parts : List KeywordPart} {scan last : KeywordScan}
    (run : scanKeywords m word mask haveArgs start parts scan = some (ambiguous, last)) :
    last.state.szToken = scan.state.szToken := by
  obtain ⟨recorded, state, _⟩ := scanOffers_records (scanKeywords_eq run)
  rw [state, recordAll_szToken]

theorem szToken_steps (noOption : NoOption list) (szToken : CStr) :
    StepsKeep m list (·.szToken = szToken) (·.szToken = szToken) where
  arg subset before run := by
    rw [Leaves, ite_self]
    exact (matchKeywordArg_szToken (noOption.mono subset) run).trans before
  scan _ before scanned :=
    have here := (scanKeywords_szToken scanned).trans before
    ⟨here, fun _ => here⟩

theorem cmdElementMatch_szToken {tokens : List CmdToken} (noOption : NoOption (terminals tokens))
    (run : cmdElementMatch m tokens szToken false = some next) : next.state.szToken = szToken := by
  have ends := (szToken_steps noOption szToken).matchTokens (m := m) rfl
    (fun _ same => same) (fun _ member => member) run
  rw [Leaves, ite_self] at ends
  exact ends

end

/-! ## The loops over the commands -/

def NoOptions (commands : List (Option CmdElement)) : Prop :=
  ∀ command, some command ∈ commands → NoOption (terminals command.tokens)

theorem NoOptions.tail {first : Option CmdElement} {rest : List (Option CmdElement)}
    (none : NoOptions (first :: rest)) : NoOptions rest :=
  fun command member => none command (List.mem_cons_of_mem _ member)

theorem cmdVectorFilter_szToken {m : CmdMatcher} {best : MatchType}
    {next : FilterOutcome} (noOptions : NoOptions commands)
    (run : cmdVectorFilter m commands best szToken = some next) : next.szToken = szToken := by
  induction commands generalizing best szToken next with
  | nil =>
    cases run
    rfl
  | cons first rest ih =>
    cases first with
    | none =>
      obtain ⟨later, found, rfl⟩ := Option.map_eq_some_iff.mp run
      have tail := ih noOptions.tail found
      exact tail
    | some command =>
      by_cases hidden : command.hidden
      · rw [cmdVectorFilter, if_pos hidden] at run
        obtain ⟨later, found, rfl⟩ := Option.map_eq_some_iff.mp run
        have tail := ih noOptions.tail found
        exact tail
      rw [Bool.not_eq_true] at hidden
      obtain ⟨outcome, matched, ⟨_, _, buffer⟩ | ⟨_, later, found, rfl⟩⟩ :=
        cmdVectorFilter_cons hidden run
      · exact buffer.trans (cmdElementMatch_szToken (noOptions command List.mem_cons_self) matched)
      · have tail := ih noOptions.tail found
        exact tail.trans (cmdElementMatch_szToken (noOptions command List.mem_cons_self) matched)

theorem filterLoop_szToken {env : MatchEnv} {filter : FilterType} {vline words : List Word}
    {index : Nat} {left : List (Option CmdElement)} {after : CStr} (noOptions : NoOptions commands)
    (run : filterLoop env filter vline index words commands szToken =
      some (.left left after)) : after = szToken := by
  fun_induction filterLoop env filter vline index words commands szToken with
  | case1 =>
    cases run
    rfl
  | case2 | case3 | case5 | case6 | case7 => cases run
  | case4 _ _ _ _ _ next filtered =>
    cases run
    exact cmdVectorFilter_szToken noOptions filtered
  | case8 _ _ _ _ _ next filtered success _ middle judged ih =>
    have subset := round_subset (cmdVectorFilter_slots filtered (not_not.mp success)).2.2
      (isCmdAmbiguous_judged judged)
    exact (ih (fun command member => noOptions command (subset command member)) run).trans
      (cmdVectorFilter_szToken noOptions filtered)

end OpsCli.Command.Buffer
