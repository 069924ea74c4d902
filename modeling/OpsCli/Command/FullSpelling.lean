import Mathlib.Data.List.NodupEquivFin
import OpsCli.Command.Agreement
import OpsCli.Command.ExactReading
import OpsCli.Command.Survival
import OpsCli.Command.Trace

/-!
# Commands that are spelled in full

A line that spells the fixed words of a command in full matches this command
exactly at every word.  If the command is visible, an exact match is the
strongest one at every word, and the visible commands that survive match the
line exactly as well.  What is left are ties between keywords, which the
matcher may report before it sees an exact keyword, and hidden commands, which
are never filtered.
-/

namespace OpsCli.Command.FullSpelling

open CLib.CString Token WordMatch Matcher Reading Acceptance Recording Binding
  ExactReading Selection Survival Agreement Execute Trace List

/-! ## The command that is spelled -/

/-- The line that spells these words. -/
def spelling (words : List Terminal) : List Word :=
  words.map fun token => some token.cmd

/-- The command consists of these fixed words. -/
structure ConsistsOf (command : CmdElement) (words : List Terminal) : Prop where
  tokens : command.tokens = words.map CmdToken.terminal
  fixed : ∀ token ∈ words, isFixed token.cmd

variable {left commands : List (Option CmdElement)} {state : MatcherState} {szToken : CStr}
  {vline : List Word} {token : Terminal} {m : CmdMatcher} {next : Outcome} {slot : Slot}
  {place : Nat}

theorem matchTerminal_fixed (args : Args) (relaxed : m.filter = .relaxed)
    (fixed : isFixed token.cmd) (found : m.vline[state.wordIndex]? = some (some token.cmd)) :
    cmdMatcherMatchTerminal m token state args =
      some ⟨.ok, (recordAll m [(token, .exactMatch)] state).advance, args⟩ := by
  have kinds := fixed
  simp only [isFixed, Bool.and_eq_true, Bool.not_eq_true'] at kinds
  obtain ⟨⟨⟨_, notVararg⟩, notOption⟩, notVariable⟩ := kinds
  simp only [cmdMatcherMatchTerminal, found, relaxed, cmdWordMatch_self fixed, reduceCtorEq,
    if_false, takeTerminal, notVararg, notVariable, notOption,
    Bool.or_self, Bool.false_eq_true, finishTerminal]
  rfl

section

variable (relaxed : m.filter = .relaxed)

include relaxed

theorem matchTokens_spelled (whole : m.index = none) (words : List Terminal)
    (fixed : ∀ token ∈ words, isFixed token.cmd) (args : Args)
    (line : m.vline.drop state.wordIndex = spelling words) :
    ∃ next, matchTokens m (words.map CmdToken.terminal) state args =
      some ⟨.complete, next, args⟩ := by
  induction words generalizing state with
  | nil =>
    refine ⟨state, ?_⟩
    have finished := drop_eq_nil_iff.mp line
    rw [map_nil, matchTokens, endOfTokens, if_pos finished]
  | cons token rest ih =>
    have found : m.vline[state.wordIndex]? = some (some token.cmd) := by
      rw [← head?_drop, line]
      rfl
    have step := matchTerminal_fixed args relaxed (fixed token mem_cons_self) found
    rw [recordAll_elsewhere (by rw [whole]; rintro ⟨⟩)] at step
    obtain ⟨next, run⟩ := ih (fun other member => fixed other (mem_cons_of_mem _ member))
      (show m.vline.drop state.advance.wordIndex = spelling rest by
        change m.vline.drop (state.wordIndex + 1) = _
        rw [← drop_drop, line]
        rfl)
    refine ⟨next, ?_⟩
    rw [map_cons, matchTokens, matchToken, step]
    dsimp only
    rw [beyondIndex_whole whole, MatcherRv.isError, Bool.or_self, if_neg Bool.false_ne_true]
    exact run

theorem matchTokens_spelled_at {index : Nat} (atIndex : m.index = some index)
    (words : List Terminal) (fixed : ∀ token ∈ words, isFixed token.cmd)
    (line : m.vline.drop state.wordIndex = spelling words)
    (before : state.wordIndex ≤ index) (inLine : index < m.vline.length) (fresh : Fresh state) :
    ∃ next token, matchTokens m (words.map CmdToken.terminal) state none =
        some next ∧ next.rv.isError = false ∧
      m.vline[index]? = some (some token.cmd) ∧
      isFixed token.cmd ∧
      Recorded next.state [(token, .exactMatch)] := by
  induction words generalizing state with
  | nil =>
    have finished := drop_eq_nil_iff.mp line
    omega
  | cons token rest ih =>
    have found : m.vline[state.wordIndex]? = some (some token.cmd) := by
      rw [← head?_drop, line]
      rfl
    have isFixedToken := fixed token mem_cons_self
    have step := matchTerminal_fixed none relaxed isFixedToken found
    rw [map_cons, matchTokens, matchToken, step]
    dsimp only
    rw [MatcherRv.isError, Bool.false_or]
    by_cases here : index = state.wordIndex
    · rw [here] at atIndex
      have recorded := recorded_recordAll fresh atIndex [(token, .exactMatch)]
      have beyond : beyondIndex m (recordAll m [(token, .exactMatch)] state).advance := by
        rw [beyondIndex_at atIndex]
        simp [MatcherState.advance]
      rw [if_pos beyond, here]
      exact ⟨_, token, rfl, rfl, found, isFixedToken, recorded.matchVector, recorded.matchType⟩
    · have elsewhere : m.index ≠ some state.wordIndex := by
        rw [atIndex]
        exact fun same => here (Option.some.inj same)
      rw [recordAll_elsewhere elsewhere]
      have notBeyond : beyondIndex m state.advance = false := by
        rw [← Bool.not_eq_true, beyondIndex_at atIndex]
        change ¬ index < state.wordIndex + 1
        omega
      rw [notBeyond, if_neg Bool.false_ne_true]
      refine ih (fun other member => fixed other (mem_cons_of_mem _ member))
        ?_ ?_ ⟨fresh.matchVector, fresh.matchType⟩
      · change m.vline.drop (state.wordIndex + 1) = _
        rw [← drop_drop, line]
        rfl
      · change state.wordIndex + 1 ≤ index
        omega

end

/-! ## The filter loop on a spelled line -/

variable {rest : List Word} {word : Word} {index : Nat} {env : MatchEnv} {command : CmdElement}
  {words : List Terminal}

theorem judged_spelled {kept : Option CmdElement} (fixed : isFixed token.cmd)
    (matched : slot.matched = some [token]) (same : slot.command = some command)
    (judged : Judged .exactMatch env token.cmd slot kept) : kept = some command := by
  have counts (before : Option CStr) : judgeTokens env .exactMatch token.cmd [token] 0 before =
        some (.done 1 before) := by
    simp only [isFixed, Bool.and_eq_true, Bool.not_eq_true'] at fixed
    obtain ⟨⟨_, notOption⟩, notVariable⟩ := fixed
    simp [judgeTokens, judge, countIf, notOption, notVariable]
  rcases judged with ⟨nothing, _⟩ | ⟨tokens, before, count, after, found, tally, equal⟩
  · cases nothing.symm.trans matched
  · cases found.symm.trans matched
    cases (counts before).symm.trans tally
    rw [equal, if_neg Nat.one_ne_zero, same]

section

variable
  (consists : ConsistsOf command words)

include consists

variable {type : MatchType} {slots : List Slot}

theorem spelled_run (inLine : index < (spelling words).length)
    (run : cmdElementMatch ⟨env, .relaxed, spelling words, some index⟩
      command.tokens szToken false = some next) :
    next.rv.isError = false ∧ ∃ token, (spelling words)[index]? = some (some token.cmd) ∧
        isFixed token.cmd ∧
        Recorded next.state [(token, .exactMatch)] := by
  let m : CmdMatcher := ⟨env, .relaxed, spelling words, some index⟩
  have relaxed : m.filter = .relaxed := rfl
  have fresh : Fresh (cmdMatcherInit szToken) := ⟨rfl, rfl⟩
  have line : m.vline.drop (cmdMatcherInit szToken).wordIndex = spelling words := rfl
  obtain ⟨other, token, otherRun, noError, facts⟩ :=
    matchTokens_spelled_at relaxed rfl words consists.fixed line (Nat.zero_le index) inLine fresh
  rw [consists.tokens, cmdElementMatch] at run
  cases run.symm.trans otherRun
  exact ⟨noError, token, facts⟩

theorem filterSlot_spelled (inLine : index < (spelling words).length)
    (visible : command.hidden = false)
    (filtered : FilterSlot ⟨env, .relaxed, spelling words, some index⟩ type (some command) slot) :
    type = .exactMatch ∧ slot.command = some command ∧
      ∃ token, (spelling words)[index]? = some (some token.cmd) ∧
        isFixed token.cmd ∧ slot.matched = some [token] := by
  cases filtered with
  | hidden hidden => cases visible.symm.trans hidden
  | failed _ run error =>
    cases error.symm.trans (spelled_run consists inLine run).1
  | fine _ run _ below =>
    obtain ⟨_, token, found, fixed, recorded⟩ := spelled_run consists inLine run
    refine ⟨?_, rfl, token, found, fixed, recorded.matchVector⟩
    rw [recorded.matchType] at below
    exact le_antisymm (MatchType.le_exactMatch type) below

section

variable {word : Word} (suffix : word :: rest = (spelling words).drop index)
  (visible : command.hidden = false) (here : commands[place]? = some (some command))
  (filtered : List.Forall₂ (FilterSlot ⟨env, .relaxed, spelling words, some index⟩ type) commands
    slots)
include suffix visible here filtered

theorem filtered_spelled :
    type = .exactMatch ∧ ∃ slot token, slots[place]? = some slot ∧
      slot.command = some command ∧ slot.matched = some [token] ∧
      isFixed token.cmd ∧ word = some token.cmd := by
  obtain ⟨slot, slotFound, slotFiltered⟩ := forall₂_getElem? filtered.flip here
  have present := (cons_of_drop suffix.symm).1
  obtain ⟨sameType, kept, token, found, fixed, matched⟩ := filterSlot_spelled consists
    (List.getElem?_eq_some_iff.mp present).1 visible slotFiltered
  have sameWord := Option.some.inj (present.symm.trans found)
  exact ⟨sameType, slot, token, slotFound, kept, matched, fixed, sameWord⟩

theorem round_spelled {middle : List (Option CmdElement)}
    (judged : List.Forall₂ (Judged type env (word.getD [])) slots middle) :
    type = .exactMatch ∧ middle[place]? = some (some command) := by
  obtain ⟨rfl, slot, token, slotFound, kept, matched, fixed, rfl⟩ :=
    filtered_spelled consists suffix visible here filtered
  obtain ⟨after, afterFound, slotJudged⟩ := forall₂_getElem? judged.flip slotFound
  cases judged_spelled fixed matched kept slotJudged
  exact ⟨rfl, afterFound⟩

end

/-- A visible command that is spelled in full stays in the table, and the
visible commands beside it survive with exact matches. -/
theorem filterRun_spelled (run : FilterRun env .relaxed (spelling words) index rest commands left)
    (suffix : rest = (spelling words).drop index) (here : commands[place]? = some (some command))
    (visible : command.hidden = false) :
    left[place]? = some (some command) ∧ ∀ (position : Nat) (other : CmdElement),
        left[position]? = some (some other) →
        other.hidden = false → ∀ (offset : Nat) (word : Word), rest[offset]? = some word →
          Survives ⟨env, .relaxed, spelling words, some (index + offset)⟩
            .exactMatch (word.getD []) other := by
  induction run with
  | done => exact ⟨here, fun _ _ _ _ _ _ none => nomatch none⟩
  | vararg filtered _ =>
    cases (filtered_spelled consists suffix visible here filtered).1
  | round filtered _ judged later ih =>
    obtain ⟨rfl, stillHere⟩ := round_spelled consists suffix visible here filtered judged
    obtain ⟨stays, others⟩ := ih (cons_of_drop suffix.symm).2.symm stillHere
    refine ⟨stays, fun position other otherFound otherVisible => ?_⟩
    intro offset otherWord wordFound
    cases offset with
    | zero =>
      cases wordFound
      exact (round_position filtered judged (filterRun_position later otherFound)).2 otherVisible
    | succ before =>
      rw [← Nat.add_assoc, Nat.add_right_comm]
      exact others position other otherFound otherVisible before otherWord wordFound

end

/-! ## Exact acceptors -/

/-- The command accepts the whole line, and every word is matched exactly or
by a token that is not a fixed word. -/
def AcceptsExactly (env : MatchEnv) (line : List Word) (command : CmdElement) : Prop :=
  ∃ szToken next readings, cmdIsComplete env line command szToken = some next ∧
      next.rv = .complete ∧
      ReadsTokens env .relaxed command.tokens line readings ∧
      ∀ reading ∈ readings, TokenExact env reading

theorem judgeTokens_exact {word : CStr} {tokens : List Terminal} {start count : Nat}
    {matched after : Option CStr}
    (tally : judgeTokens env .exactMatch word tokens start matched =
      some (.done count after)) (counted : count ≠ start) : ∃ token ∈ tokens, token.cmd = word := by
  induction tokens generalizing start matched with
  | nil =>
    cases tally
    exact absurd rfl counted
  | cons token rest ih =>
    by_cases same : word = token.cmd
    · exact ⟨token, mem_cons_self, same.symm⟩
    · have skipped : judge env .exactMatch word token.cmd matched = some .skip := by
        simp [judge, countIf, same]
      rw [judgeTokens, skipped] at tally
      obtain ⟨other, member, equal⟩ := ih tally counted
      exact ⟨other, mem_cons_of_mem _ member, equal⟩

section

variable (fixed : ∀ token ∈ words, isFixed token.cmd)
include fixed

theorem spelling_word (member : word ∈ spelling words) :
    ∃ text, word = some text ∧ isFixed text := by
  obtain ⟨token, tokenMember, rfl⟩ := mem_map.mp member
  exact ⟨token.cmd, rfl, fixed token tokenMember⟩

theorem nonemptyWords_spelling : NonemptyWords (spelling words) := by
  intro word member
  obtain ⟨text, rfl, isFixedText⟩ := spelling_word fixed member
  cases text with
  | nil => cases isFixedText
  | cons c rest => rfl

theorem covered_of_survives {readings : List TokenReading}
    (reads : ReadsTokens env .relaxed command.tokens (spelling words)
      readings) (survives : ∀ (offset : Nat) (word : Word),
      (spelling words)[offset]? = some word →
      Survives ⟨env, .relaxed, spelling words, some offset⟩ .exactMatch (word.getD []) command) :
    Covered (readings.flatMap (TokenReading.wordOffers env .relaxed)) := by
  intro offered member
  obtain ⟨position, found⟩ := mem_iff_getElem?.mp member
  obtain ⟨word, wordFound, answers⟩ := (readsTokens_located reads).1 position offered found
  obtain ⟨text, rfl, isFixedText⟩ := spelling_word fixed (mem_of_getElem? wordFound)
  obtain ⟨szToken, next, run, noError, _, counts⟩ := survives position _ wordFound
  obtain ⟨others, othersFound, recorded⟩ :=
    matchTokens_records rfl (Nat.zero_le _) ⟨rfl, rfl⟩ reads run noError
      (List.getElem?_eq_some_iff.mp wordFound).1
  cases othersFound.symm.trans found
  by_cases empty : offered = []
  · exact .inl empty
  · have vector := recorded.matchVector
    rw [if_neg empty] at vector
    obtain ⟨matched, count, after, tally, counted⟩ := counts _ vector
    obtain ⟨token, tokenMember, same⟩ := judgeTokens_exact tally counted
    obtain ⟨offer, offerMember, rfl⟩ := mem_map.mp tokenMember
    have fixedOffer : isFixed offer.1.cmd := by
      rw [same]
      exact isFixedText
    refine .inr ⟨offer, offerMember, ?_⟩
    rcases answers offer offerMember with answer | option
    · have self : cmdWordMatch env offer.1 .relaxed (some offer.1.cmd) =
          some .exactMatch := cmdWordMatch_self fixedOffer
      rw [same] at self
      exact Option.some.inj (answer.symm.trans self)
    · simp [isFixed, option] at fixedOffer

end

/-! ## Ambiguity of a spelled line -/

section

variable (env : MatchEnv) (line : List Word) (table : List CmdElement)

/-- A command at another position of the table accepts the line exactly. -/
def HasOtherAcceptor (place : Nat) : Prop :=
  ∃ (position : Nat) (other : CmdElement), position ≠ place ∧
    table[position]? = some other ∧ AcceptsExactly env line other

/-- Two keywords of a group match the word equally well. -/
def Ties (parts : List KeywordPart) (word : Word) : Prop :=
  ∃ first second type, [first, second] <+ parts ∧ type ≠ MatchType.noMatch ∧
    cmdWordMatch env first.keyword .relaxed word = some type ∧
    cmdWordMatch env second.keyword .relaxed word = some type

/-- Keywords of a visible command tie for a word of the line. -/
def KeywordTie : Prop :=
  ∃ command ∈ table, command.hidden = false ∧
    ∃ parts, .keyword parts ∈ command.tokens ∧ ∃ word ∈ line, Ties env parts word

/-- A hidden command at another position completes the line. -/
def HiddenRival (place : Nat) : Prop :=
  ∃ (position : Nat) (other : CmdElement), position ≠ place ∧
    table[position]? = some other ∧ other.hidden ∧ ∃ szToken next,
      cmdIsComplete env line other szToken = some next ∧ next.rv = .complete

end

theorem two_le_count_iff {list : List Bool} (here : list[place]? = some true) :
    1 < list.count true ↔ ∃ position : Nat, position ≠ place ∧ list[position]? = some true := by
  rw [← Nat.succ_le_iff, ← duplicate_iff_two_le_count, duplicate_iff_exists_distinct_get]
  constructor
  · rintro ⟨first, second, before, atFirst, atSecond⟩
    by_cases same : first.val = place
    · refine ⟨second, by omega, ?_⟩
      rw [getElem?_eq_getElem second.2, atSecond]
      rfl
    · refine ⟨first, same, ?_⟩
      rw [getElem?_eq_getElem first.2, atFirst]
      rfl
  · rintro ⟨position, different, there⟩
    obtain ⟨bound, hit⟩ := List.getElem?_eq_some_iff.mp here
    obtain ⟨inside, other⟩ := List.getElem?_eq_some_iff.mp there
    rcases Nat.lt_or_gt_of_ne different with before | behind
    · exact ⟨⟨position, inside⟩, ⟨place, bound⟩, before, other.symm, hit.symm⟩
    · exact ⟨⟨place, bound⟩, ⟨position, inside⟩, behind, hit.symm, other.symm⟩

section

variable {table : List CmdElement} {after : CStr}
  (consists : ConsistsOf command words)

include consists

theorem cmdElementMatch_spelled (wantArgs : Bool) :
    ∃ next, cmdElementMatch ⟨env, .relaxed, spelling words, none⟩ command.tokens szToken wantArgs =
        some ⟨.complete, next, if wantArgs then some [] else none⟩ := by
  let m : CmdMatcher := ⟨env, .relaxed, spelling words, none⟩
  have relaxed : m.filter = .relaxed := rfl
  have line : m.vline.drop (cmdMatcherInit szToken).wordIndex = spelling words := rfl
  rw [consists.tokens, cmdElementMatch]
  exact matchTokens_spelled relaxed rfl words consists.fixed _ line

variable (here : table[place]? = some command)

include here

theorem filterLoop_keeps (filtered : filterLoop env .relaxed (spelling words) 0 (spelling words)
      (table.map some) szToken = some (.left left after)) : left[place]? = some (some command) := by
  have start : (table.map some)[place]? = some (some command) := by
    rw [getElem?_map, here]
    rfl
  cases hidden : command.hidden with
  | true => exact filterRun_hidden (filterLoop_left filtered) hidden start
  | false =>
    exact (filterRun_spelled consists (filterLoop_left filtered) rfl start hidden).1

variable (enabled : ∀ other ∈ table, other.notEnabled = false)

include enabled

/-- A line that is ambiguous has been found so by the filter loop, or another
command is complete. -/
theorem selectCommand_spelled {final : CStr}
    (run : selectCommand env .relaxed (spelling words) table szToken =
      some (.refused .errAmbiguous, final)) :
    (∃ after, filterLoop env .relaxed (spelling words) 0 (spelling words)
        (table.map some) szToken = some (.stopped .errAmbiguous after)) ∨
      ∃ (left : List (Option CmdElement)) (after : CStr) (position : Nat),
        filterLoop env .relaxed (spelling words) 0 (spelling words)
          (table.map some) szToken = some (.left left after) ∧
        position ≠ place ∧
        (completing env (spelling words) left after)[position]? = some true := by
  unfold selectCommand at run
  split at run
  · cases run
  · rename_i status stopped filtered
    cases run
    exact .inl ⟨_, filtered⟩
  · rename_i left middle filtered
    have kept := filterLoop_keeps consists here filtered
    have isEnabled := enabled command (mem_of_getElem? here)
    split at run
    · cases run
    rename_i count counted
    obtain ⟨_, next, complete, flag⟩ := completing_position counted kept isEnabled
    obtain ⟨state, spelled⟩ := cmdElementMatch_spelled consists false
    rw [cmdIsComplete] at complete
    cases complete.symm.trans spelled
    rw [decide_eq_true rfl] at flag
    have total := countLoop_matchedCount counted
    rw [Nat.zero_add] at total
    have positive : 0 < count.matchedCount := by
      rw [total]
      exact count_pos_iff.mpr (mem_of_getElem? flag)
    rw [if_neg positive.ne'] at run
    have rivals := two_le_count_iff flag
    rw [← total] at rivals
    right
    split at run
    · rename_i many
      obtain ⟨position, different, hit⟩ := rivals.mp many
      exact ⟨left, middle, position, filtered, different, hit⟩
    rename_i single
    split at run
    · cases run
    rename_i element found
    obtain ⟨position, elementFound, hit⟩ := (countLoop_element counted found).resolve_left nofun
    have atPlace : position = place := by
      by_contra different
      exact single (rivals.mpr ⟨position, different, hit⟩)
    subst atPlace
    cases kept.symm.trans elementFound
    obtain ⟨state, parsed⟩ := cmdElementMatch_spelled consists true
    rw [cmdParse, parsed] at run
    cases run

omit enabled in
/-- A visible command that completes a spelled line beside a visible command
accepts the line exactly. -/
theorem acceptsExactly_of_visible (visible : command.hidden = false)
    (filtered : filterLoop env .relaxed (spelling words) 0 (spelling words)
      (table.map some) szToken = some (.left left after)) {position : Nat} {other : CmdElement}
    (found : left[position]? = some (some other))
    (otherVisible : other.hidden = false) {before : CStr}
    (run : cmdIsComplete env (spelling words) other before = some next)
    (complete : next.rv = .complete) : AcceptsExactly env (spelling words) other := by
  have start : (table.map some)[place]? = some (some command) := by
    rw [getElem?_map, here]
    rfl
  obtain ⟨_, survivors⟩ := filterRun_spelled consists (filterLoop_left filtered) rfl start visible
  obtain ⟨readings, reads, _⟩ :=
    matchTokens_reads rfl (nonemptyWords_spelling consists.fixed) fits_none
      run (by rw [complete]; rfl)
  refine ⟨before, next, readings, run, complete, reads, ?_⟩
  refine tokensExact_of_covered reads
    (covered_of_survives consists.fixed reads fun offset word wordFound => ?_)
  have survives := survivors position other found otherVisible offset word wordFound
  rw [Nat.zero_add] at survives
  exact survives

end

/-! ## Ties -/

section

variable {args : Args} {parts : List KeywordPart}

theorem matchKeywordArg_unambiguous {arg : KeywordArg}
    (run : matchKeywordArg m arg state args = some next) : next.rv ≠ .ambiguous := by
  cases arg with
  | terminal token =>
    have finished (type : MatchType) (state : MatcherState) (args : Args) :
        (finishTerminal m token type state args).rv = .ok := by
      unfold finishTerminal
      split <;> rfl
    have option {word : Word} (run : matchOption m token word state args = some next) :
        next.rv ≠ .ambiguous := by
      unfold matchOption at run
      grind
    rw [matchKeywordArg, cmdMatcherMatchTerminal] at run
    grind [takeTerminal]
  | multiple alternatives =>
    rw [matchKeywordArg, cmdMatcherMatchMultiple] at run
    grind

theorem matchKeywordArgs_unambiguous {list : List KeywordArg}
    (run : matchKeywordArgs m list state args = some next) : next.rv ≠ .ambiguous := by
  induction list generalizing state args with
  | nil =>
    cases run
    rintro ⟨⟩
  | cons arg list ih =>
    obtain ⟨middle, step, later⟩ := matchKeywordArgs_cons run
    split at later
    · exact later ▸ matchKeywordArg_unambiguous step
    · exact ih later

theorem ties_of_scan {word : Word} {mask : List Nat} {haveArgs : Bool} {i : Nat}
    {scan last : KeywordScan} (relaxed : m.filter = .relaxed)
    (run : scanKeywords m word mask haveArgs i parts scan = some (true, last)) :
    (scan.best ≠ .noMatch ∧ ∃ part ∈ parts,
        cmdWordMatch m.env part.keyword .relaxed word = some scan.best) ∨
      Ties m.env parts word := by
  have later {part : KeywordPart} {rest : List KeywordPart} (ties : Ties m.env rest word) :
      Ties m.env (part :: rest) word := by
    obtain ⟨first, second, type, inside, facts⟩ := ties
    exact ⟨first, second, type, inside.cons _, facts⟩
  fun_induction scanKeywords m word mask haveArgs i parts scan with
  | case1 | case2 | case4 => cases run
  | case3 _ _ _ _ _ _ ih | case5 _ _ _ _ _ _ _ ih | case8 _ _ _ _ _ _ _ _ _ _ _ _ ih =>
    refine (ih run).imp (fun ⟨matched, part, member, same⟩ => ?_) later
    exact ⟨matched, part, mem_cons_of_mem _ member, same⟩
  | case6 _ part _ _ _ _ type answer matched _ _ ih =>
    rcases ih run with ⟨_, second, member, same⟩ | ties
    · rw [relaxed] at answer
      exact .inr ⟨part, second, type, (singleton_sublist.mpr member).cons_cons _, matched, answer,
        same⟩
    · exact .inr (later ties)
  | case7 _ part _ _ _ _ type answer matched _ _ equal =>
    obtain ⟨rfl, _⟩ : type = _ ∧ _ := by simpa using equal
    rw [relaxed] at answer
    exact .inl ⟨matched, part, mem_cons_self, answer⟩

theorem ties_of_readKeywords {fuel : Nat} {mask : List Nat} {table : KeywordTable}
    {next : KeywordOutcome} (relaxed : m.filter = .relaxed)
    (run : cmdMatcherReadKeywords m parts fuel mask state table = some next)
    (tie : next.rv = .ambiguous) : ∃ word ∈ m.vline, Ties m.env parts word := by
  induction fuel generalizing mask state table with
  | zero => cases run
  | succ fuel ih =>
    cases round_of_readKeywords run with
    | finished => cases tie
    | @refused word ambiguous _ here scanned =>
      cases ambiguous with
      | false => cases tie
      | true =>
        exact ⟨word, mem_of_getElem? here,
          (ties_of_scan relaxed scanned).resolve_left fun matched => matched.1 rfl⟩
    | keyword _ _ _ _ later =>
      split at later
      · cases later
        cases tie
      · obtain ⟨middle, step, later⟩ := later
        split at later
        · cases later
          exact absurd tie (matchKeywordArgs_unambiguous step)
        · exact ih later

theorem ties_of_matchTokens {tokens : List CmdToken} (relaxed : m.filter = .relaxed)
    (run : matchTokens m tokens state none = some next) (tie : next.rv = .ambiguous) :
    ∃ parts, .keyword parts ∈ tokens ∧ ∃ word ∈ m.vline, Ties m.env parts word := by
  induction tokens generalizing state with
  | nil =>
    cases run
    unfold endOfTokens at tie
    split_ifs at tie
  | cons token tokens ih =>
    obtain ⟨middle, step, later⟩ := matchTokens_cons run
    split at later
    · subst later
      cases token with
      | terminal token =>
        exact absurd tie (@matchKeywordArg_unambiguous _ _ _ _ (.terminal token) step)
      | multiple list =>
        exact absurd tie (@matchKeywordArg_unambiguous _ _ _ _ (.multiple list) step)
      | keyword parts =>
        obtain ⟨reader, reading, rfl⟩ := matchKeyword_none step
        exact ⟨parts, mem_cons_self, ties_of_readKeywords relaxed reading tie⟩
    · rename_i fine
      rw [matchToken_noArgs step (by simp_all)] at later
      obtain ⟨parts, member, ties⟩ := ih later
      exact ⟨parts, mem_cons_of_mem _ member, ties⟩

end

theorem cmdVectorFilter_ambiguous {best : MatchType} {next : FilterOutcome}
    (relaxed : m.filter = .relaxed) (run : cmdVectorFilter m commands best szToken = some next)
    (status : next.status = .errAmbiguous) :
    ∃ command, some command ∈ commands ∧ command.hidden = false ∧
      ∃ parts, .keyword parts ∈ command.tokens ∧ ∃ word ∈ m.vline, Ties m.env parts word := by
  fun_induction cmdVectorFilter m commands best szToken generalizing next with
  | case1 | case6 =>
    cases run
    cases status
  | case4 => cases run
  | case5 command _ _ szToken visible outcome matchRun tie =>
    exact ⟨command, mem_cons_self, by simpa using visible,
      ties_of_matchTokens relaxed matchRun tie⟩
  | case2 _ _ _ ih | case3 _ _ _ _ _ ih | case7 _ _ _ _ _ _ _ _ _ _ ih
  | case8 _ _ _ _ _ _ _ _ _ _ ih =>
    obtain ⟨others, found, same, _⟩ := filterOutcome_of_map run
    obtain ⟨command, member, tie⟩ := ih found (same ▸ status)
    exact ⟨command, mem_cons_of_mem _ member, tie⟩

theorem judgeTokens_exact_done {word : CStr} (tokens : List Terminal) (start : Nat)
    (matched : Option CStr) :
    ∃ count, judgeTokens env .exactMatch word tokens start matched =
      some (.done count matched) := by
  induction tokens generalizing start with
  | nil => exact ⟨start, rfl⟩
  | cons token rest ih =>
    rw [judgeTokens, judge, countIf]
    split_ifs
    · exact ih (start + 1)
    · exact ih start

theorem isCmdAmbiguous_exact {word : CStr} (slots : List Slot) (matched : Option CStr) :
    ∃ commands, isCmdAmbiguous env .exactMatch word slots matched = some (.left commands) := by
  induction slots with
  | nil => exact ⟨[], rfl⟩
  | cons slot rest ih =>
    obtain ⟨commands, run⟩ := ih
    rw [isCmdAmbiguous]
    split
    · rw [run]
      exact ⟨_, rfl⟩
    · rename_i tokens _
      obtain ⟨count, tally⟩ : ∃ count, judgeTokens env .exactMatch word tokens 0 matched =
            some (.done count matched) := judgeTokens_exact_done tokens 0 _
      rw [tally]
      dsimp only
      rw [run]
      exact ⟨_, rfl⟩

/-- For a visible command, an ambiguity of the filter loop is a tie between
keywords. -/
theorem filterLoop_tie {table : List CmdElement} (consists : ConsistsOf command words)
    (visible : command.hidden = false) {after : CStr}
    (subset : ∀ other, some other ∈ commands → other ∈ table)
    (suffix : rest = (spelling words).drop index) (here : commands[place]? = some (some command))
    (run : filterLoop env .relaxed (spelling words) index rest commands
      szToken = some (.stopped .errAmbiguous after)) : KeywordTie env (spelling words) table := by
  fun_induction filterLoop env .relaxed (spelling words) index rest commands szToken with
  | case1 | case2 | case4 | case5 | case7 => cases run
  | case3 index word rest commands szToken next filterRun =>
    obtain ⟨status, _⟩ := Filtered.stopped.inj (Option.some.inj run)
    obtain ⟨other, member, tie⟩ := cmdVectorFilter_ambiguous rfl filterRun status
    exact ⟨other, subset other member, tie⟩
  | case6 _ word _ _ _ next filterRun success _ ambiguous =>
    obtain ⟨_, _, filtered⟩ := cmdVectorFilter_slots filterRun (not_not.mp success)
    have exact := (filtered_spelled consists suffix visible here filtered).1
    rw [exact] at ambiguous
    obtain ⟨_, passed⟩ := isCmdAmbiguous_exact _ _
    cases passed.symm.trans ambiguous
  | case8 _ _ _ _ _ next filterRun success _ middle passed ih =>
    obtain ⟨_, _, filtered⟩ := cmdVectorFilter_slots filterRun (not_not.mp success)
    have exact := (filtered_spelled consists suffix visible here filtered).1
    rw [exact] at passed filtered
    have judged := isCmdAmbiguous_judged passed
    exact ih (fun other member => subset other (round_subset filtered judged other member))
      (cons_of_drop suffix.symm).2.symm
      (round_spelled consists suffix visible here filtered judged).2 run

def showVersionWords : List Terminal :=
  [⟨"show", none, none⟩, ⟨"version", none, none⟩]

def showVersion : CmdElement where
  string := "show version"
  tokens := showVersionWords.map CmdToken.terminal

def showVersionDetail (hidden : Bool) : CmdElement where
  string := "show version-detail"
  tokens := [.terminal ⟨"show", none, none⟩, .terminal ⟨"version-detail", none, none⟩]
  hidden := hidden

def showServices (hidden : Bool) : Services Unit :=
  plainServices (fun _ => [showVersion, showVersionDetail hidden]) fun _ => .success

def showVersionOrVlan : CmdElement where
  string := "show (version|vlan)"
  tokens := [.terminal ⟨"show", none, none⟩,
    .multiple [⟨"version", none, none⟩, ⟨"vlan", none, none⟩]]

def choiceServices : Services Unit :=
  plainServices (fun _ => [showVersion, showVersionDetail false, showVersionOrVlan])
    fun _ => .success

theorem showVersion_consistsOf : ConsistsOf showVersion showVersionWords :=
  ⟨rfl, by decide⟩

end OpsCli.Command.FullSpelling
