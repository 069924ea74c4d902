import Mathlib.Data.List.Forall2
import OpsCli.Command.Selection

/-!
# The commands that survive the filter loop

One round of the filter loop matches every visible command at one word, takes
the strongest match type and drops the commands without a token of that type.
A run of the loop that leaves commands is a sequence of such rounds.
-/

namespace OpsCli.Command.Survival

open CLib.CString Token WordMatch Matcher Selection List

/-! ## One round -/

/-- The matcher's answer ends the filter for all commands. -/
def Aborts (rv : MatcherRv) : Prop :=
  rv = .ambiguous ∨ rv = .exceedArgcMax

section

variable (m : CmdMatcher) (type : MatchType)

/-- What the filter makes of a position of the command vector. -/
inductive FilterSlot : Option CmdElement → Slot → Prop where
  | gone : FilterSlot none ⟨none, none⟩
  | hidden {command : CmdElement} (hidden : command.hidden) :
      FilterSlot (some command) ⟨some command, none⟩
  | failed {command : CmdElement} {szToken : CStr} {next : Outcome}
      (visible : command.hidden = false)
      (run : cmdElementMatch m command.tokens szToken false = some next)
      (error : next.rv.isError) :
      FilterSlot (some command) ⟨none, next.state.matchVector⟩
  | fine {command : CmdElement} {szToken : CStr} {next : Outcome} (visible : command.hidden = false)
      (run : cmdElementMatch m command.tokens szToken false = some next)
      (noError : next.rv.isError = false)
      (below : next.state.matchType ≤ type) :
      FilterSlot (some command) ⟨some command, next.state.matchVector⟩

/-- A visible command of the vector has matched with this type. -/
def Provided (commands : List (Option CmdElement)) : Prop :=
  ∃ command szToken next, some command ∈ commands ∧ command.hidden = false ∧
    cmdElementMatch m command.tokens szToken false = some next ∧
    next.rv.isError = false ∧ next.state.matchType = type

/-- What the ambiguity pass makes of a position. -/
def Judged (env : MatchEnv) (word : CStr) (slot : Slot) (command : Option CmdElement) : Prop :=
  (slot.matched = none ∧ command = slot.command) ∨
    ∃ tokens matched count after, slot.matched = some tokens ∧
      judgeTokens env type word tokens 0 matched = some (.done count after) ∧
      command = if count = 0 then none else slot.command

end

variable {m : CmdMatcher} {type : MatchType} {commands : List (Option CmdElement)} {slot : Slot}
  {next : FilterOutcome} {command : CmdElement} {szToken word : CStr} {env : MatchEnv}
  {slots : List Slot} {filter : FilterType} {vline : List (Option CStr)} {position : Nat}
  {middle : List (Option CmdElement)} {before : Option CmdElement} {best : MatchType} {after : CStr}

theorem Provided.cons (first : Option CmdElement) (provided : Provided m type commands) :
    Provided m type (first :: commands) := by
  obtain ⟨command, szToken, next, member, rest⟩ := provided
  exact ⟨command, szToken, next, mem_cons_of_mem _ member, rest⟩

theorem filterOutcome_of_map {rest : Option FilterOutcome}
    (run : rest.map (FilterOutcome.cons slot) = some next) :
    ∃ later, rest = some later ∧ next.status = later.status ∧
      next.matchType = later.matchType ∧ next.slots = slot :: later.slots := by
  obtain ⟨later, found, rfl⟩ := Option.map_eq_some_iff.mp run
  exact ⟨later, found, rfl, rfl, rfl⟩

def abortStatus (rv : MatcherRv) : CmdStatus :=
  if rv = .ambiguous then .errAmbiguous else .errExeedArgcMax

/-- The filter at a visible command: it ends there, or it goes on with a slot
that keeps the command unless the matcher returned an error. -/
theorem cmdVectorFilter_cons {rest : List (Option CmdElement)} (visible : command.hidden = false)
    (run : cmdVectorFilter m (some command :: rest) best szToken = some next) :
    ∃ outcome, cmdElementMatch m command.tokens szToken false = some outcome ∧
      (Aborts outcome.rv ∧ next.status = abortStatus outcome.rv ∧
          next.szToken = outcome.state.szToken ∨
        ¬ Aborts outcome.rv ∧ ∃ later, cmdVectorFilter m rest (if outcome.rv.isError then best
              else if best < outcome.state.matchType then
                outcome.state.matchType
              else best) outcome.state.szToken = some later ∧
          next = .cons ⟨if outcome.rv.isError then none else some command,
            outcome.state.matchVector⟩ later) := by
  rw [cmdVectorFilter, visible, if_neg nofun] at run
  cases matched : cmdElementMatch m command.tokens szToken false with
  | none =>
    rw [matched] at run
    cases run
  | some outcome =>
    refine ⟨outcome, rfl, ?_⟩
    rw [matched] at run
    dsimp only at run
    by_cases ambiguous : outcome.rv = .ambiguous
    · rw [if_pos ambiguous] at run
      cases run
      rw [abortStatus, if_pos ambiguous]
      exact .inl ⟨.inl ambiguous, rfl, rfl⟩
    rw [if_neg ambiguous] at run
    by_cases exceeds : outcome.rv = .exceedArgcMax
    · rw [if_pos exceeds] at run
      cases run
      rw [abortStatus, if_neg ambiguous]
      exact .inl ⟨.inr exceeds, rfl, rfl⟩
    rw [if_neg exceeds] at run
    refine .inr ⟨not_or.mpr ⟨ambiguous, exceeds⟩, ?_⟩
    by_cases error : outcome.rv.isError
    · rw [if_pos error] at run ⊢
      obtain ⟨later, found, rfl⟩ := Option.map_eq_some_iff.mp run
      refine ⟨later, found, ?_⟩
      rw [if_pos error]
    · rw [if_neg error] at run ⊢
      obtain ⟨later, found, rfl⟩ := Option.map_eq_some_iff.mp run
      refine ⟨later, found, ?_⟩
      rw [if_neg error]

theorem abortStatus_ne_success (rv : MatcherRv) : abortStatus rv ≠ .success := by
  unfold abortStatus
  split
  · nofun
  · nofun

theorem cmdVectorFilter_slots (run : cmdVectorFilter m commands best szToken = some next)
    (success : next.status = .success) :
    best ≤ next.matchType ∧ (next.matchType = best ∨ Provided m next.matchType commands) ∧
      List.Forall₂ (FilterSlot m next.matchType) commands next.slots := by
  induction commands generalizing best szToken next with
  | nil =>
    cases run
    exact ⟨le_refl _, .inl rfl, .nil⟩
  | cons first rest ih =>
    cases first with
    | none =>
      obtain ⟨later, found, status, type, slots⟩ := filterOutcome_of_map run
      obtain ⟨le, provided, filtered⟩ := ih found (status ▸ success)
      rw [type, slots]
      exact ⟨le, provided.imp_right (.cons none), .cons .gone filtered⟩
    | some command =>
      by_cases hidden : command.hidden
      · rw [cmdVectorFilter, if_pos hidden] at run
        obtain ⟨later, found, status, type, slots⟩ := filterOutcome_of_map run
        obtain ⟨le, provided, filtered⟩ := ih found (status ▸ success)
        rw [type, slots]
        exact ⟨le, provided.imp_right (.cons _), .cons (.hidden hidden) filtered⟩
      rw [Bool.not_eq_true] at hidden
      obtain ⟨matched, matchRun, ⟨_, status, _⟩ | ⟨_, later, found, rfl⟩⟩ :=
        cmdVectorFilter_cons hidden run
      · exact absurd (status.symm.trans success) (abortStatus_ne_success _)
      obtain ⟨le, provided, filtered⟩ := ih found success
      by_cases error : matched.rv.isError
      · rw [if_pos error] at le provided
        rw [if_pos error]
        exact ⟨le, provided.imp_right (.cons _), .cons (.failed hidden matchRun error) filtered⟩
      · rw [if_neg error] at le provided
        rw [if_neg error]
        rw [Bool.not_eq_true] at error
        have here : matched.state.matchType ≤ later.matchType ∧ best ≤ later.matchType := by
          split at le
          · rename_i lt
            exact ⟨le, lt.le.trans le⟩
          · rename_i notLt
            exact ⟨(not_lt.mp notLt).trans le, le⟩
        refine ⟨here.2, ?_, .cons (.fine hidden matchRun error here.1) filtered⟩
        rcases provided with equal | provided
        · split at equal
          · exact .inr ⟨command, szToken, matched, mem_cons_self,
              hidden, matchRun, error, equal.symm⟩
          · exact .inl equal
        · exact .inr (provided.cons _)

theorem isCmdAmbiguous_judged {matched : Option CStr}
    (run : isCmdAmbiguous env type word slots matched = some (.left commands)) :
    List.Forall₂ (Judged type env word) slots commands := by
  induction slots generalizing matched commands with
  | nil =>
    cases run
    exact .nil
  | cons slot rest ih =>
    have continues {matched : Option CStr} {first : Option CmdElement}
        (run : (isCmdAmbiguous env type word rest matched).map
          (Ambiguity.cons first) = some (Ambiguity.left commands))
        (judged : Judged type env word slot first) :
        List.Forall₂ (Judged type env word) (slot :: rest) commands := by
      obtain ⟨later, found, equal⟩ := Option.map_eq_some_iff.mp run
      cases later with
      | left others =>
        cases equal
        exact .cons judged (ih found)
      | ambiguous => cases equal
      | incomplete => cases equal
    rw [isCmdAmbiguous] at run
    split at run
    · rename_i nothing
      exact continues run (.inl ⟨nothing, rfl⟩)
    · rename_i tokens found
      split at run
      · cases run
      · cases run
      · cases run
      · rename_i count after tally
        exact continues run (.inr ⟨tokens, matched, count, after, found, tally, rfl⟩)

/-! ## Whole runs -/

/-- The rounds of a run that leaves commands.  A vararg match ends the loop
before the ambiguity pass. -/
inductive FilterRun (env : MatchEnv) (filter : FilterType) (vline : List (Option CStr)) :
    Nat → List (Option CStr) → List (Option CmdElement) → List (Option CmdElement) → Prop where
  | done {index : Nat} {commands : List (Option CmdElement)} :
      FilterRun env filter vline index [] commands commands
  | vararg {index : Nat} {word : Option CStr} {words : List (Option CStr)}
      {commands : List (Option CmdElement)} {slots : List Slot}
      (filtered : List.Forall₂ (FilterSlot ⟨env, filter, vline, some index⟩ .varargMatch) commands
        slots)
      (provided : Provided ⟨env, filter, vline, some index⟩ .varargMatch commands) :
      FilterRun env filter vline index (word :: words) commands (slots.map Slot.command)
  | round {index : Nat} {word : Option CStr} {words : List (Option CStr)}
      {commands middle left : List (Option CmdElement)} {slots : List Slot}
      {type : MatchType}
      (filtered : List.Forall₂ (FilterSlot ⟨env, filter, vline, some index⟩ type) commands slots)
      (provided : type = .noMatch ∨ Provided ⟨env, filter, vline, some index⟩ type commands)
      (judged : List.Forall₂ (Judged type env (word.getD [])) slots middle)
      (rest : FilterRun env filter vline (index + 1) words middle left) :
      FilterRun env filter vline index (word :: words) commands left

theorem filterLoop_left {index : Nat} {words : List (Option CStr)} {left : List (Option CmdElement)}
    (run : filterLoop env filter vline index words commands szToken = some (.left left after)) :
    FilterRun env filter vline index words commands left := by
  fun_induction filterLoop env filter vline index words commands szToken with
  | case1 =>
    cases run
    exact .done
  | case2 | case3 | case5 | case6 | case7 => cases run
  | case4 _ _ _ _ _ next filterRun success vararg =>
    obtain ⟨_, provided, filtered⟩ := cmdVectorFilter_slots filterRun (not_not.mp success)
    cases run
    rw [vararg] at filtered provided
    exact .vararg filtered (provided.resolve_left (by decide))
  | case8 _ _ _ _ _ next filterRun success _ middle ambiguityRun ih =>
    obtain ⟨_, provided, filtered⟩ := cmdVectorFilter_slots filterRun (not_not.mp success)
    exact .round filtered provided (isCmdAmbiguous_judged ambiguityRun) (ih run)
def Survives (m : CmdMatcher) (type : MatchType) (word : CStr) (command : CmdElement) : Prop :=
  ∃ szToken next, cmdElementMatch m command.tokens szToken false = some next ∧
    next.rv.isError = false ∧ next.state.matchType ≤ type ∧
    ∀ tokens, next.state.matchVector = some tokens → ∃ matched count after,
        judgeTokens m.env type word tokens 0 matched = some (.done count after) ∧ count ≠ 0

theorem filterSlot_command (filtered : FilterSlot m type before slot)
    (kept : slot.command = some command) : before = some command := by
  cases filtered with
  | gone => cases kept
  | hidden => exact kept
  | failed => cases kept
  | fine => exact kept

/-- A command that is left by both passes was there before, and unless it is
hidden it survives. -/
theorem survives_of_judged (filtered : FilterSlot m type before slot)
    (judged : Judged type m.env word slot (some command)) :
    before = some command ∧ (command.hidden = false → Survives m type word command) := by
  have kept : slot.command = some command := by
    rcases judged with ⟨_, equal⟩ | ⟨_, _, count, _, _, _, equal⟩
    · exact equal.symm
    · split at equal
      · cases equal
      · exact equal.symm
  have same := filterSlot_command filtered kept
  refine ⟨same, fun visible => ?_⟩
  cases filtered with
  | gone => cases kept
  | hidden hidden =>
    cases kept
    rw [visible] at hidden
    cases hidden
  | failed => cases kept
  | fine _ run noError below =>
    cases kept
    refine ⟨_, _, run, noError, below, fun tokens found => ?_⟩
    rcases judged with ⟨nothing, _⟩ | ⟨others, matched, count, after, others_eq, tally, equal⟩
    · cases nothing.symm.trans found
    · cases others_eq.symm.trans found
      refine ⟨matched, count, after, tally, fun zero => ?_⟩
      rw [if_pos zero] at equal
      cases equal

def TableProvides (env : MatchEnv) (filter : FilterType) (vline : List (Option CStr))
    (type : MatchType)
    (commands : List (Option CmdElement)) : Prop :=
  ∃ index, Provided ⟨env, filter, vline, some index⟩ type commands

theorem TableProvides.mono {table : List (Option CmdElement)}
    (provided : TableProvides env filter vline type commands)
    (subset : ∀ command, some command ∈ commands → some command ∈ table) :
    TableProvides env filter vline type table := by
  obtain ⟨index, command, szToken, next, member, rest⟩ := provided
  exact ⟨index, command, szToken, next, subset command member, rest⟩

theorem forall₂_getElem? {α β : Type} {relation : α → β → Prop} {first : List α} {second : List β}
    (related : List.Forall₂ relation first second) {b : β} (found : second[position]? = some b) :
    ∃ a, first[position]? = some a ∧ relation a b := by
  induction related generalizing position with
  | nil => cases found
  | cons head _ ih =>
    cases position with
    | zero =>
      cases found
      exact ⟨_, rfl, head⟩
    | succ before => exact ih found

theorem round_position (filtered : List.Forall₂ (FilterSlot m type) commands slots)
    (judged : List.Forall₂ (Judged type m.env word) slots middle)
    (found : middle[position]? = some (some command)) :
    commands[position]? = some (some command) ∧
      (command.hidden = false → Survives m type word command) := by
  obtain ⟨slot, slotFound, slotJudged⟩ := forall₂_getElem? judged found
  obtain ⟨before, beforeFound, slotFiltered⟩ := forall₂_getElem? filtered slotFound
  obtain ⟨rfl, survives⟩ := survives_of_judged slotFiltered slotJudged
  exact ⟨beforeFound, survives⟩

theorem round_subset (filtered : List.Forall₂ (FilterSlot m type) commands slots)
    (judged : List.Forall₂ (Judged type m.env word) slots middle)
    (command : CmdElement) (member : some command ∈ middle) : some command ∈ commands := by
  obtain ⟨position, found⟩ := mem_iff_getElem?.mp member
  exact mem_iff_getElem?.mpr ⟨position, (round_position filtered judged found).1⟩

section

variable {index : Nat} {words : List (Option CStr)}
  {left : List (Option CmdElement)}

section

variable (run : FilterRun env filter vline index words commands left)
include run

theorem filterRun_position (found : left[position]? = some (some command)) :
    commands[position]? = some (some command) := by
  induction run with
  | done => exact found
  | vararg filtered _ =>
    rw [getElem?_map] at found
    obtain ⟨slot, slotFound, kept⟩ := Option.map_eq_some_iff.mp found
    obtain ⟨before, beforeFound, slotFiltered⟩ := forall₂_getElem? filtered slotFound
    rw [beforeFound, filterSlot_command slotFiltered kept]
  | round filtered _ judged _ ih =>
    exact (round_position filtered judged (ih found)).1

theorem filterRun_hidden
    (hidden : command.hidden) (found : commands[position]? = some (some command)) :
    left[position]? = some (some command) := by
  have unfiltered {m : CmdMatcher} {type : MatchType} {slot : Slot}
      (filtered : FilterSlot m type (some command) slot) :
      slot = ⟨some command, none⟩ := by
    cases filtered with
    | hidden => rfl
    | failed visible => cases visible.symm.trans hidden
    | fine visible => cases visible.symm.trans hidden
  induction run with
  | done => exact found
  | vararg filtered _ =>
    obtain ⟨slot, slotFound, slotFiltered⟩ := forall₂_getElem? filtered.flip found
    rw [getElem?_map, slotFound, unfiltered slotFiltered]
    rfl
  | round filtered _ judged _ ih =>
    obtain ⟨slot, slotFound, slotFiltered⟩ := forall₂_getElem? filtered.flip found
    obtain ⟨kept, keptFound, slotJudged⟩ := forall₂_getElem? judged.flip slotFound
    cases unfiltered slotFiltered
    rcases slotJudged with ⟨_, rfl⟩ | ⟨_, _, _, _, none, _⟩
    · exact ih keptFound
    · cases none

/-- A visible command that is left at the end survives at every word, unless
a vararg has ended the loop. -/
theorem filterRun_survives (found : left[position]? = some (some command))
    (visible : command.hidden = false) {offset : Nat} {word : Option CStr}
    (wordFound : words[offset]? = some word) :
    TableProvides env filter vline .varargMatch commands ∨
      ∃ type, (type = .noMatch ∨ TableProvides env filter vline type commands) ∧
        Survives ⟨env, filter, vline, some (index + offset)⟩ type (word.getD []) command := by
  induction run generalizing offset with
  | done => cases wordFound
  | vararg _ provided => exact .inl ⟨_, provided⟩
  | round filtered provided judged rest ih =>
    have subset := round_subset filtered judged
    cases offset with
    | zero =>
      cases wordFound
      exact .inr ⟨_, provided.imp_right fun provided => ⟨_, provided⟩,
        (round_position filtered judged (filterRun_position rest found)).2 visible⟩
    | succ before =>
      rw [← Nat.add_assoc, Nat.add_right_comm]
      rcases ih found wordFound with vararg | ⟨type, origin, survives⟩
      · exact .inl (vararg.mono subset)
      · exact .inr ⟨type, origin.imp_right (·.mono subset), survives⟩

end

end

/-! ## The selected command -/

/-- Whether the command at each position completes the line when its turn
comes. -/
def completing (env : MatchEnv) (vline : List (Option CStr)) :
    List (Option CmdElement) → CStr → List Bool
  | [], _ => []
  | none :: rest, szToken => false :: completing env vline rest szToken
  | some command :: rest, szToken =>
    if command.notEnabled then false :: completing env vline rest szToken
    else
      match cmdIsComplete env vline command szToken with
      | none => []
      | some next =>
        (next.rv = .complete) :: completing env vline rest next.state.szToken

section

variable {count last : Count}

theorem completing_position (run : countLoop env vline commands count = some last)
    (found : commands[position]? = some (some command)) (enabled : command.notEnabled = false) :
    ∃ szToken next, cmdIsComplete env vline command szToken = some next ∧
      (completing env vline commands count.szToken)[position]? =
        some (next.rv = .complete : Bool) := by
  fun_induction countLoop env vline commands count generalizing position with
  | case1 => cases found
  | case2 rest count ih =>
    cases position with
    | zero => cases found
    | succ before => exact ih run found
  | case3 other rest count disabled ih =>
    rw [completing, if_pos disabled]
    cases position with
    | zero =>
      cases found
      cases enabled.symm.trans disabled
    | succ before => exact ih run found
  | case4 => cases run
  | case5 other rest count here next matchRun ih =>
    rw [completing, if_neg here, matchRun]
    cases position with
    | zero =>
      cases found
      exact ⟨_, next, matchRun, rfl⟩
    | succ before => exact ih run found

theorem completing_true {szToken : CStr}
    (hit : (completing env vline commands szToken)[position]? = some true) :
    ∃ command before next, commands[position]? = some (some command) ∧
      cmdIsComplete env vline command before = some next ∧
      next.rv = .complete := by
  fun_induction completing env vline commands szToken generalizing position with
  | case1 | case4 => cases hit
  | case2 _ _ ih | case3 _ _ _ _ ih =>
    cases position with
    | zero => cases hit
    | succ before => exact ih hit
  | case5 other rest szToken _ next matchRun ih =>
    cases position with
    | zero =>
      have complete := of_decide_eq_true (Option.some.inj hit)
      exact ⟨other, _, next, rfl, matchRun, complete⟩
    | succ before => exact ih hit
theorem countLoop_matchedCount (run : countLoop env vline commands count = some last) :
    last.matchedCount = count.matchedCount +
      (completing env vline commands count.szToken).count true := by
  fun_induction countLoop env vline commands count with
  | case1 =>
    cases run
    rfl
  | case2 rest count ih => simpa [completing] using ih run
  | case3 count other rest disabled ih => simpa [completing, disabled] using ih run
  | case4 => cases run
  | case5 count other rest enabled next matchRun ih =>
    rw [ih run, completing, if_neg enabled, matchRun]
    by_cases complete : next.rv = .complete
    · simp [complete]
      omega
    · simp [complete]
theorem countLoop_element (run : countLoop env vline commands count = some last)
    (found : last.matchedElement = some command) :
    count.matchedElement = some command ∨
      ∃ position : Nat, commands[position]? = some (some command) ∧
        (completing env vline commands count.szToken)[position]? = some true := by
  have shift {first : Option CmdElement} {rest : List (Option CmdElement)} {flag : Bool}
      {flags : List Bool} (later : ∃ position : Nat,
        rest[position]? = some (some command) ∧ flags[position]? = some true) :
      ∃ position : Nat, (first :: rest)[position]? = some (some command) ∧
        (flag :: flags)[position]? = some true := by
    obtain ⟨position, facts⟩ := later
    exact ⟨position + 1, facts⟩
  fun_induction countLoop env vline commands count with
  | case1 =>
    cases run
    exact .inl found
  | case2 rest count ih => exact (ih run).imp_right shift
  | case3 other rest count disabled ih =>
    rw [completing, if_pos disabled]
    exact (ih run).imp_right shift
  | case4 => cases run
  | case5 other rest count enabled next matchRun ih =>
    rw [completing, if_neg enabled, matchRun]
    rcases ih run with before | later
    · dsimp only at before
      split at before
      · rename_i complete
        cases before
        refine .inr ⟨0, rfl, ?_⟩
        simp [complete]
      · exact .inl before
    · exact .inr (shift later)

end

/-- A selected command is left by the filter loop, and the matcher accepts
the whole line for it. -/
theorem selectCommand_command {table : List CmdElement} {argv : List Arg}
    (run : selectCommand env filter vline table szToken = some (.command command argv, after)) :
    (∃ left, FilterRun env filter vline 0 vline (table.map some) left ∧ some command ∈ left) ∧
    ∃ before next, cmdElementMatch ⟨env, .relaxed, vline, none⟩ command.tokens before
          true = some next ∧
        next.rv = .complete ∧ argv = next.args.getD [] := by
  revert run
  fun_cases selectCommand env filter vline table szToken with
  | case1 | case2 | case3 | case4 | case5 | case6 | case7 | case9 => nofun
  | case8 left middle filterRun count counted _ _ element found args final parsed =>
    rintro ⟨⟩
    obtain ⟨next, matchRun, parts⟩ := Option.map_eq_some_iff.mp parsed
    obtain ⟨success, rest⟩ := Prod.mk.inj parts
    cases rest
    refine ⟨⟨left, filterLoop_left filterRun, ?_⟩, _, next, matchRun, ?_, rfl⟩
    · obtain ⟨position, kept, _⟩ := (countLoop_element counted found).resolve_left nofun
      exact mem_of_getElem? kept
    · revert success
      cases next.rv <;> simp [parseStatus]

end OpsCli.Command.Survival
