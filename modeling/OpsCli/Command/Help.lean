import OpsCli.Command.Agreement
import OpsCli.Command.Buffer
import OpsCli.Command.Describe
import OpsCli.Command.Staging
import OpsCli.Command.TypedArguments

/-!
# Help and execution

Help for a line that is followed by an empty word and execution of the line
run the same filter over the words of the line.  Help runs it once more at the
empty word, and this last round may stop at a keyword tie that execution does
not look at, or remove a command whose last group has no keyword left.
-/

namespace OpsCli.Command.Help

open CLib CString Qsort Token WordMatch Matcher Reading Acceptance
  Recording Origin Selection Survival TypedArguments Staging Agreement Buffer
  Describe Execute List

/-! ## The texts of a listing -/

def texts (matchvec : List Terminal) : List CStr :=
  matchvec.map Terminal.cmd

theorem descUniqueString_iff (matchvec : List Terminal) (str : CStr) :
    descUniqueString matchvec str ↔ str ∉ texts matchvec := by
  simp only [descUniqueString, texts, all_eq_true, decide_eq_true_eq, mem_map, not_exists, not_and,
    ne_eq]

variable {command : CmdElement} {commands : List (Option CmdElement)} {szToken : CStr}
  {next list : List Terminal} {rest : List Word} {slot : Slot} {m : CmdMatcher}

theorem checkUniqueHelpstr_texts {cmdstr : CStr} {helpstr : Option CStr}
    (run : checkUniqueHelpstr cmdstr helpstr list = some next) : texts next = texts list := by
  fun_induction checkUniqueHelpstr cmdstr helpstr list generalizing next with
  | case1 | case5 =>
    cases run
    rfl
  | case3 | case4 => cases run
  | case2 token rest _ ih =>
    obtain ⟨tail, found, rfl⟩ := Option.map_eq_some_iff.mp run
    exact congrArg (token.cmd :: ·) (ih found)
  | case6 token rest _ _ _ _ given _ ih =>
    cases given
    obtain ⟨tail, found, rfl⟩ := Option.map_eq_some_iff.mp run
    exact congrArg (token.cmd :: ·) (ih found)

theorem dynamicHelp_cmd (help : Terminal → CStr) (token : Terminal) :
    (dynamicHelp help token).cmd = token.cmd := by
  unfold dynamicHelp
  split <;> rfl

section

variable {env : MatchEnv} {help : Terminal → CStr} {command : Option CStr}
  {matchvec : List Terminal}

theorem describeToken_texts {token : Terminal}
    (run : describeToken env help command matchvec token = some next) (str : CStr) :
    str ∈ texts next ↔ str ∈ texts matchvec ∨
      token.cmd = str ∧ cmdEntryFunctionDesc env command str = some true := by
  rw [describeToken] at run
  cases answer : cmdEntryFunctionDesc env command token.cmd with
  | none =>
    rw [answer] at run
    cases run
  | some listed =>
    rw [answer] at run
    dsimp only at run
    rw [dynamicHelp_cmd] at run
    by_cases added : (listed &&
        descUniqueString matchvec token.cmd)
    · rw [if_pos added] at run
      cases run
      rw [Bool.and_eq_true] at added
      rw [added.1] at answer
      rw [texts, map_append, mem_append]
      refine or_congr_right ?_
      rw [map_singleton, mem_singleton, dynamicHelp_cmd]
      constructor
      · rintro rfl
        exact ⟨rfl, answer⟩
      · intro same
        exact same.1.symm
    · rw [if_neg added] at run
      rw [checkUniqueHelpstr_texts run]
      refine ⟨.inl, ?_⟩
      rintro (there | ⟨rfl, answer'⟩)
      · exact there
      · cases answer.symm.trans answer'
        rw [Bool.true_and, descUniqueString_iff, not_not] at added
        exact added

theorem describeTokens_texts
    (run : list.foldlM (describeToken env help command) matchvec = some next) (str : CStr) :
    str ∈ texts next ↔ str ∈ texts matchvec ∨ ∃ token ∈ list, token.cmd = str ∧
        cmdEntryFunctionDesc env command str = some true := by
  induction list generalizing matchvec with
  | nil =>
    cases run
    simp
  | cons token rest ih =>
    obtain ⟨middle, step, later⟩ := Option.bind_eq_some_iff.mp run
    rw [ih later, describeToken_texts step, or_assoc]
    simp only [mem_cons, exists_eq_or_imp]

/-- The command is complete on the words. -/
def Completes (env : MatchEnv) (szToken : CStr) (words : List Word) (command : CmdElement) : Prop :=
  ∃ next, cmdIsComplete env words command szToken = some next ∧ next.rv = .complete

/-- The slot records a token that is spelled `<cr>` and is listed for the
word. -/
def RecordsCr (env : MatchEnv) (last : Option CStr) (slot : Slot) : Prop :=
  ∃ token ∈ slot.matched.getD [], token.cmd = commandCr ∧
    cmdEntryFunctionDesc env last commandCr = some true

variable {vline : List Word} {type : MatchType} {listing next : Listing}

section

variable (empty : (vline.getLast?).any isEmptyWord)
include empty

section

variable (notVararg : type ≠ .varargMatch)
include notVararg

theorem describeCr_texts {element : CmdElement} (noOption : NoOption (terminals element.tokens))
    (run : describeCr env vline type element listing = some next) :
    next.szToken = listing.szToken ∧ (commandCr ∈ texts next.matchvec ↔
        commandCr ∈ texts listing.matchvec ∨
          Completes env listing.szToken (trimLast vline) element) := by
  rw [describeCr, if_pos empty] at run
  cases completed : cmdIsComplete env (trimLast vline) element listing.szToken with
  | none =>
    rw [completed] at run
    cases run
  | some outcome =>
    rw [completed] at run
    cases run
    refine ⟨cmdElementMatch_szToken noOption completed, ?_⟩
    have answer : Completes env listing.szToken (trimLast vline) element ↔
        outcome.rv = .complete := by
      constructor
      · rintro ⟨other, run, complete⟩
        cases completed.symm.trans run
        exact complete
      · intro complete
        exact ⟨outcome, completed, complete⟩
    rw [answer]
    by_cases added : (outcome.rv = .complete && descUniqueString listing.matchvec commandCr &&
        type ≠ .varargMatch)
    · rw [if_pos added]
      simp only [Bool.and_eq_true, decide_eq_true_eq] at added
      simp [texts, added.1.1, tokenCr]
    · rw [if_neg added]
      refine ⟨.inl, ?_⟩
      rintro (there | complete)
      · exact there
      · by_contra absent
        refine added ?_
        simp only [Bool.and_eq_true, decide_eq_true_eq]
        exact ⟨⟨complete, (descUniqueString_iff _ _).mpr absent⟩, notVararg⟩

theorem describeSlot_texts
    (noOption : ∀ element, slot.command = some element → NoOption (terminals element.tokens))
    (run : describeSlot env help vline type listing slot = some next) :
    next.szToken = listing.szToken ∧ (commandCr ∈ texts next.matchvec ↔
        commandCr ∈ texts listing.matchvec ∨ ∃ element, slot.command = some element ∧
            (Completes env listing.szToken (trimLast vline) element ∨
              RecordsCr env (vline.getLast?.getD none) slot)) := by
  rw [describeSlot] at run
  cases occupied : slot.command with
  | none =>
    rw [occupied] at run
    cases run
    simp
  | some element =>
    rw [occupied] at run
    dsimp only at run
    cases first : describeCr env vline type element listing with
    | none =>
      rw [first] at run
      cases run
    | some middle =>
      rw [first] at run
      obtain ⟨same, cr⟩ := describeCr_texts empty notVararg (noOption element occupied) first
      obtain ⟨matchvec, listed, rfl⟩ := Option.map_eq_some_iff.mp run
      refine ⟨same, ?_⟩
      rw [describeTokens_texts listed, cr, or_assoc]
      simp [RecordsCr]

theorem describeSlots_texts {slots : List Slot}
    (noOption : ∀ slot ∈ slots, ∀ element, slot.command = some element →
      NoOption (terminals element.tokens))
    (run : slots.foldlM (describeSlot env help vline type) listing = some next) :
    commandCr ∈ texts next.matchvec ↔ commandCr ∈ texts listing.matchvec ∨
        ∃ slot ∈ slots, ∃ element, slot.command = some element ∧
          (Completes env listing.szToken (trimLast vline) element ∨
            RecordsCr env (vline.getLast?.getD none) slot) := by
  induction slots generalizing listing with
  | nil =>
    cases run
    simp
  | cons slot rest ih =>
    obtain ⟨middle, step, later⟩ := Option.bind_eq_some_iff.mp run
    obtain ⟨same, here⟩ := describeSlot_texts empty notVararg (noOption slot mem_cons_self) step
    rw [ih (fun slot member =>
      noOption slot (mem_cons_of_mem _ member)) later, here, same,
      or_assoc]
    simp only [mem_cons, exists_eq_or_imp]

end

end

end

/-! ## The rounds before the last word -/

/-- None of the commands has an option or a vararg. -/
def Plain (commands : List (Option CmdElement)) : Prop :=
  ∀ command, some command ∈ commands → ∀ terminal ∈ terminals command.tokens,
    cmdOption terminal.cmd = false ∧ cmdVararg terminal.cmd = false

theorem Plain.noOptions (plain : Plain commands) : NoOptions commands :=
  fun command member terminal inside => (plain command member terminal inside).1

theorem notVararg_of_plain {next : FilterOutcome} (plain : Plain commands)
    (run : cmdVectorFilter m commands .noMatch szToken = some next)
    (success : next.status = .success) : next.matchType ≠ .varargMatch := by
  intro vararg
  rcases (cmdVectorFilter_slots run success).2.1 with none |
    ⟨command, before, outcome, member, _, matched, noError, same⟩
  · cases none.symm.trans vararg
  · have origin := originates_cmdElementMatch matched noError
    rw [same, vararg] at origin
    rcases origin with impossible | impossible | ⟨token, inside, _, answer⟩
    · cases impossible
    · cases impossible
    · have form : cmdVararg token.cmd := typeForm_cmdWordMatch answer
      rw [(plain command member token inside).2] at form
      cases form

def lastRound (env : MatchEnv) (vline : List Word) (n : Nat) : Filtered → Option Rounds
  | .stopped status szToken => some (.stopped status szToken)
  | .left commands szToken =>
    (cmdVectorFilter ⟨env, .relaxed, vline, some n⟩ commands .noMatch szToken).map fun next =>
        if next.status ≠ .success then .stopped next.status next.szToken
        else .last commands next

section

variable {env : MatchEnv} {words : List Word} {last : Word} {index : Nat}

theorem agree_append (nonempty : NonemptyWords words) (bound : index < words.length) :
    Agree words (words ++ [last]) index where
  words j le := (getElem?_append_left (by omega)).symm
  inFirst := bound
  inSecond := by
    rw [length_append]
    exact Nat.lt_add_right _ bound
  ends j le empty := by
    have inside : j < words.length := by omega
    rw [getElem?_eq_getElem inside, Option.any_some, nonempty _ (getElem_mem inside)] at empty
    cases empty

theorem describeRounds_append (nonempty : NonemptyWords words)
    (position : index + rest.length = words.length) (plain : Plain commands) :
    describeRounds env (words ++ [last]) index (rest ++ [last]) commands szToken =
      (filterLoop env .relaxed words index rest commands szToken).bind
        (lastRound env (words ++ [last]) words.length) := by
  induction rest generalizing index commands szToken with
  | nil =>
    have same : index = words.length := position
    rw [same, filterLoop, Option.bind_some, lastRound, nil_append, describeRounds]
    cases cmdVectorFilter ⟨env, .relaxed, words ++ [last],
        some words.length⟩ commands .noMatch szToken with
    | none => rfl
    | some next =>
      dsimp only [Option.map_some]
      by_cases stops : next.status ≠ .success
      · rw [if_pos stops, if_pos stops]
      · rw [if_neg stops, if_neg stops, if_pos rfl]
  | cons word rest ih =>
    rw [length_cons] at position
    have alike : ∀ command, some command ∈ commands →
        Alike words (words ++ [last]) (terminals command.tokens) :=
      fun command member => .inr fun terminal inside => (plain command member terminal inside).2
    rw [cons_append, describeRounds, filterLoop,
      ← cmdVectorFilter_agree (agree_append nonempty (by omega)) alike]
    cases filtered : cmdVectorFilter ⟨env, .relaxed, words, some index⟩
        commands .noMatch szToken with
    | none => rfl
    | some next =>
      dsimp only
      by_cases stops : next.status ≠ .success
      · rw [if_pos stops, if_pos stops]
        rfl
      rw [if_neg stops, if_neg stops, if_neg (append_ne_nil_of_right_ne_nil _ (by simp))]
      have notVararg := notVararg_of_plain plain filtered (not_not.mp stops)
      rw [if_neg notVararg, if_neg notVararg]
      cases judged : isCmdAmbiguous env next.matchType (word.getD []) next.slots none with
      | none => rfl
      | some answer =>
        cases answer with
        | ambiguous => rfl
        | incomplete => rfl
        | left middle =>
          have subset := round_subset (cmdVectorFilter_slots filtered (not_not.mp stops)).2.2
            (isCmdAmbiguous_judged judged)
          exact ih (by omega) fun command member => plain command (subset command member)

end

/-! ## The last round -/

theorem cmdVectorFilter_success_iff {best : MatchType} {next : FilterOutcome}
    (visible : ∀ command, some command ∈ commands → command.hidden = false)
    (noOptions : NoOptions commands) (run : cmdVectorFilter m commands best szToken = some next) :
    next.status = .success ↔ ∀ command, some command ∈ commands →
      ∀ outcome, cmdElementMatch m command.tokens szToken false =
        some outcome → ¬ Aborts outcome.rv := by
  induction commands generalizing best next with
  | nil =>
    cases run
    exact iff_of_true rfl nofun
  | cons first rest ih =>
    have visibleRest : ∀ command, some command ∈ rest → command.hidden = false :=
      fun command member => visible command (mem_cons_of_mem _ member)
    cases first with
    | none =>
      obtain ⟨tail, found, status, _⟩ := filterOutcome_of_map run
      rw [status, ih visibleRest noOptions.tail found]
      simp
    | some command =>
      obtain ⟨outcome, matched, ⟨aborts, status, _⟩ | ⟨fine, later, found, rfl⟩⟩ :=
        cmdVectorFilter_cons (visible command mem_cons_self) run
      · refine iff_of_false ?_ fun each => ?_
        · rw [status]
          exact abortStatus_ne_success _
        · exact each command mem_cons_self outcome matched aborts
      · rw [cmdElementMatch_szToken (noOptions command mem_cons_self) matched] at found
        have tail := ih visibleRest noOptions.tail found
        rw [FilterOutcome.cons, tail]
        constructor
        · intro others other member result run
          rcases mem_cons.mp member with same | later
          · cases same
            cases matched.symm.trans run
            exact fine
          · exact others other later result run
        · intro each other member
          exact each other (mem_cons_of_mem _ member)

/-! ## The stage of a complete command -/

abbrev AllPlain (list : List Terminal) : Prop :=
  ∀ terminal ∈ list, cmdOption terminal.cmd = false ∧ cmdVararg terminal.cmd = false

section

variable {env : MatchEnv} {filter : FilterType} {words : List Word}

theorem stageArgs_of_reads {arg : KeywordArg} {reading : ArgReading}
    (reads : ReadsArg env filter arg words reading rest)
    (plain : AllPlain (argTerminals arg)) (args : List KeywordArg) :
    stageArgs env filter (arg :: args) words = stageArgs env filter args rest := by
  cases reads with
  | terminal notVararg _ matched =>
    rw [stageArgs, argOffers, argTerminals, if_neg (matches_offers_ne matched), isVararg, notVararg]
    rfl
  | option option _ | missing option =>
    rw [(plain _ mem_cons_self).1] at option
    cases option
  | vararg vararg _ =>
    rw [(plain _ mem_cons_self).2] at vararg
    cases vararg
  | multiple matched =>
    rw [stageArgs, argOffers, argTerminals, if_neg matched]
    rfl

theorem stageArgs_of_readsArgs {args : List KeywordArg} {readings : List ArgReading}
    (plain : AllPlain (args.flatMap argTerminals))
    (reads : ReadsArgs env filter args words readings rest) :
    stageArgs env filter args words = .done rest := by
  induction reads with
  | nil => rfl
  | cons head _ ih =>
    rw [stageArgs_of_reads head fun terminal member => plain terminal (mem_append_left _ member)]
    exact ih fun terminal member => plain terminal (mem_append_right _ member)

theorem stageUses_of_reads {parts : List KeywordPart} {mask : List Nat} {uses : List KeywordUse}
    {fuel : Nat} (plain : AllPlain (parts.flatMap partTerminals))
    (reads : ReadsUses env filter parts mask words uses) (enough : words.length < fuel) :
    ∃ list, stageUses env filter parts fuel mask words = some (.choice list) := by
  induction reads generalizing fuel with
  | done =>
    obtain ⟨fuel, rfl⟩ := Nat.exists_eq_add_one_of_ne_zero (Nat.ne_of_gt enough)
    exact ⟨_, rfl⟩
  | use picked found args _ ih =>
    obtain ⟨fuel, rfl⟩ := Nat.exists_eq_add_one_of_ne_zero (Nat.ne_of_gt (Nat.zero_lt_of_lt enough))
    have lengths := readsArgs_length args
    rw [length_cons] at enough
    have inner := stageArgs_of_readsArgs (fun terminal member =>
      plain terminal (args_subset_parts found member)) args
    simp only [stageUses, picked, found, inner]
    exact ih (by omega)

/-- A command that takes the whole line is at its end or at a choice between
the unread keywords of a group. -/
theorem stageTokens_of_reads {tokens : List CmdToken} {readings : List TokenReading}
    (plain : AllPlain (terminals tokens)) (reads : ReadsTokens env filter tokens words readings) :
    stageTokens env filter tokens words = some .finished ∨
      ∃ list, stageTokens env filter tokens words = some (.choice list) := by
  induction reads with
  | nil => exact .inl rfl
  | terminal head _ ih | multiple head _ ih =>
    rw [stageTokens, stageArgs_of_reads head fun terminal member =>
      plain terminal (mem_append_left _ member)]
    exact ih fun terminal member => plain terminal (mem_append_right _ member)
  | keyword head _ _ =>
    exact .inr (stageUses_of_reads (fun terminal member =>
      plain terminal (mem_append_left _ member)) head
      (Nat.lt_succ_self _))

theorem stage_of_completes (nonempty : NonemptyWords words)
    (plain : AllPlain (terminals command.tokens))
    (completes : Completes env szToken words command) :
    stageTokens env .relaxed command.tokens words = some .finished ∨
      ∃ list, stageTokens env .relaxed command.tokens words = some (.choice list) := by
  obtain ⟨next, run, complete⟩ := completes
  have noError : next.rv.isError = false := by
    rw [complete]
    rfl
  obtain ⟨readings, reads, _⟩ := matchTokens_reads rfl nonempty fits_none run noError
  exact stageTokens_of_reads plain reads

end

/-! ## The empty word at a stage -/

section

variable {env : MatchEnv} {words : List Word} {last : Word} {type : MatchType}

section

variable (empty : isEmptyWord last)
include empty

theorem offers_empty (list : List Terminal) :
    offers env .relaxed list last = list.map (·, .partlyMatch) := by
  have answer (token : Terminal) : cmdWordMatch env token .relaxed last = some .partlyMatch := by
    match last, empty with
    | none, _ => rfl
    | some [], _ => rfl
  induction list with
  | nil => rfl
  | cons token rest ih =>
    rw [offers_cons_of_match (answer token) (by decide), ih]
    rfl

theorem stageOffers_empty (stage : Stage) :
    (stageOffers env .relaxed stage last).map Prod.fst = stageTerminals stage := by
  have each (list : List Terminal) : (offers env .relaxed list last).map Prod.fst = list := by
    rw [offers_empty empty, map_map]
    exact map_id _
  cases stage with
  | terminal token =>
    rw [stageOffers]
    split
    · rfl
    · exact each _
  | choice list => exact each list
  | swallowed => rfl
  | finished => rfl

theorem accepts_empty_iff (stage : Stage) :
    Accepts ⟨env, .relaxed, words ++ [last], some words.length⟩ words.length
      last stage ↔ stage ≠ .choice [] := by
  cases stage with
  | terminal token =>
    refine iff_of_true ?_ nofun
    change offers env .relaxed [token] last ≠ []
    rw [offers_empty empty]
    exact cons_ne_nil _ _
  | choice list =>
    change offers env .relaxed list last ≠ [] ↔ _
    rw [offers_empty empty]
    simp
  | swallowed => exact iff_of_true trivial nofun
  | finished =>
    refine iff_of_true ⟨?_, empty⟩ nofun
    rw [length_append]
    rfl

end

theorem lastSlot (empty : isEmptyWord last) (visible : command.hidden = false)
    (noOption : NoOption (terminals command.tokens))
    (filtered : FilterSlot ⟨env, .relaxed, words ++ [last], some words.length⟩ type
      (some command) slot) :
    (slot.command = some command ↔
        ∃ stage, stageTokens env .relaxed command.tokens words = some stage ∧ stage ≠ .choice []) ∧
      ∀ stage, stageTokens env .relaxed command.tokens words = some stage →
        slot.command = some command → slot.matched.getD [] = stageTerminals stage := by
  have here : (words ++ [last])[words.length]? = some last := getElem?_concat_length
  have front : (words ++ [last]).take words.length = words := take_left
  have noneOptional : ¬ OptionUpTo env .relaxed command.tokens words := by
    intro found
    obtain ⟨terminal, member, option⟩ := found.exists_terminal
    rw [noOption terminal member] at option
    cases option
  have ends := filterSlot_ends here visible filtered
  rw [front] at ends
  rcases ends with ⟨rfl, reason⟩ | ⟨stage, state, reached, accepts, rfl, _, recorded⟩
  · refine ⟨iff_of_false nofun ?_, fun _ _ => nofun⟩
    rintro ⟨stage, reached, notExhausted⟩
    exact reason.resolve_left noneOptional stage reached
      ((accepts_empty_iff empty stage).mpr notExhausted)
  · refine ⟨iff_of_true rfl ⟨stage, reached, (accepts_empty_iff empty stage).mp accepts⟩, ?_⟩
    intro other again _
    cases reached.symm.trans again
    rw [recorded.getD_matchVector, stageOffers_empty empty stage]

/-- A token that is spelled `<cr>` is listed for the command. -/
def Spelled (env : MatchEnv) (words : List Word) (last : Word) (command : CmdElement) : Prop :=
  ∃ stage, stageTokens env .relaxed command.tokens words = some stage ∧
    ∃ token ∈ stageTerminals stage, token.cmd = commandCr ∧
      cmdEntryFunctionDesc env last commandCr = some true

/-- The command has not come to a group without an unread keyword. -/
def HasRoom (env : MatchEnv) (words : List Word) (command : CmdElement) : Prop :=
  stageTokens env .relaxed command.tokens words ≠ some (.choice [])

theorem lastSlot_cr (empty : isEmptyWord last)
    (nonempty : NonemptyWords words) (visible : command.hidden = false)
    (plain : AllPlain (terminals command.tokens))
    (filtered : FilterSlot ⟨env, .relaxed, words ++ [last], some words.length⟩ type
      (some command) slot) :
    slot.command = some command ∧ (Completes env szToken words command ∨ RecordsCr env last slot) ↔
      Completes env szToken words command ∧ HasRoom env words command ∨
        Spelled env words last command := by
  obtain ⟨kept, matched⟩ := lastSlot empty visible
    (fun terminal member => (plain terminal member).1) filtered
  constructor
  · rintro ⟨occupied, completes | ⟨token, member, spelled⟩⟩
    · obtain ⟨stage, reached, notExhausted⟩ := kept.mp occupied
      refine .inl ⟨completes, fun exhausted => notExhausted ?_⟩
      exact Option.some.inj (reached.symm.trans exhausted)
    · obtain ⟨stage, reached, _⟩ := kept.mp occupied
      rw [matched stage reached occupied] at member
      exact .inr ⟨stage, reached, token, member, spelled⟩
  · rintro (⟨completes, room⟩ | ⟨stage, reached, token, member, spelled⟩)
    · refine ⟨kept.mpr ?_, .inl completes⟩
      rcases stage_of_completes nonempty plain completes with finished | ⟨list, choice⟩
      · exact ⟨_, finished, nofun⟩
      · refine ⟨_, choice, ?_⟩
        rintro same
        exact room (same ▸ choice)
    · have occupied : slot.command = some command := by
        refine kept.mpr ⟨stage, reached, ?_⟩
        rintro rfl
        cases member
      refine ⟨occupied, .inr ⟨token, ?_, spelled⟩⟩
      rw [matched stage reached occupied]
      exact member

end

/-! ## `<cr>` in the help -/

theorem matchesActive_visible {p : Nat} (found : commands[p]? = some (some command))
    (visible : command.hidden = false) : p < matchesActive commands := by
  induction commands generalizing p with
  | nil => cases found
  | cons first rest ih =>
    rw [matchesActive]
    cases p with
    | zero =>
      cases found
      rw [Option.any_some, visible]
      simp
    | succ p =>
      have later := ih found
      rw [if_neg (by simp; omega)]
      exact Nat.succ_lt_succ later

theorem trimLast_append {words : List Word} (nonempty : NonemptyWords words) (last : Word) :
    trimLast (words ++ [last]) = words := by
  have present : ∀ word ∈ words, word ≠ none := by
    rintro _ member rfl
    cases nonempty none member
  have kept : words.reverse.dropWhile (· = none) = words.reverse := by
    cases same : words.reverse with
    | nil => rfl
    | cons word rest =>
      have member : word ∈ words := by
        rw [← mem_reverse, same]
        exact mem_cons_self
      rw [dropWhile_cons_of_neg]
      simpa using present word member
  rw [trimLast, dropLast_concat, kept, reverse_reverse]

/-- `<cr>` is offered. -/
def OffersCr : Described → Prop
  | .refused _ => False
  | .tokens matchvec => commandCr ∈ texts matchvec

section

variable {env : MatchEnv} {words : List Word} {last : Word} {szToken : CStr}

/-- After the rounds over the line, `<cr>` is offered if the last round
succeeds and a command puts it into the listing. -/
theorem offersCr_last {help : Terminal → CStr} {next : FilterOutcome}
    {listing : Listing} (empty : isEmptyWord last)
    (nonempty : NonemptyWords words) (plain : Plain commands)
    (visible : ∀ command, some command ∈ commands → command.hidden = false)
    (filtered : cmdVectorFilter
      ⟨env, .relaxed, words ++ [last], some words.length⟩ commands .noMatch
      szToken = some next) (success : next.status = .success)
    (run : (next.slots.take (matchesActive commands)).foldlM
      (describeSlot env help (words ++ [last]) next.matchType)
      ⟨[], next.szToken⟩ = some listing) :
    commandCr ∈ texts listing.matchvec ↔ ∃ command, some command ∈ commands ∧
        (Completes env szToken words command ∧ HasRoom env words command ∨
          Spelled env words last command) := by
  have slots := (cmdVectorFilter_slots filtered success).2.2
  have origin {slot : Slot} (member : slot ∈ next.slots)
      {command : CmdElement} (occupied : slot.command = some command) :
      some command ∈ commands ∧ FilterSlot
        ⟨env, .relaxed, words ++ [last], some words.length⟩ next.matchType
        (some command) slot := by
    obtain ⟨p, found⟩ := mem_iff_getElem?.mp member
    obtain ⟨before, beforeFound, related⟩ := forall₂_getElem? slots found
    cases filterSlot_command related occupied
    exact ⟨mem_iff_getElem?.mpr ⟨p, beforeFound⟩, related⟩
  have noOption : ∀ slot ∈ next.slots.take (matchesActive commands),
      ∀ command, slot.command = some command → NoOption (terminals command.tokens) := by
    intro slot member command occupied
    exact plain.noOptions command (origin (mem_of_mem_take member) occupied).1
  have isLast : ((words ++ [last]).getLast?).any isEmptyWord := by
    rw [getLast?_concat]
    exact empty
  have listed := describeSlots_texts isLast (notVararg_of_plain plain filtered success) noOption run
  rw [cmdVectorFilter_szToken plain.noOptions filtered, trimLast_append nonempty,
    getLast?_concat] at listed
  rw [listed, or_iff_right (show commandCr ∉ texts [] from nofun)]
  constructor
  · rintro ⟨slot, member, command, occupied, reason⟩
    obtain ⟨there, related⟩ := origin (mem_of_mem_take member) occupied
    exact ⟨command, there, (lastSlot_cr empty nonempty
      (visible command there) (plain command there) related).mp
      ⟨occupied, reason⟩⟩
  · rintro ⟨command, there, reason⟩
    obtain ⟨p, found⟩ := mem_iff_getElem?.mp there
    obtain ⟨slot, slotFound, related⟩ := forall₂_getElem? slots.flip found
    obtain ⟨occupied, reason⟩ := (lastSlot_cr empty nonempty
      (visible command there) (plain command there) related).mpr reason
    refine ⟨slot, ?_, command, occupied, reason⟩
    refine mem_iff_getElem?.mpr ⟨p, ?_⟩
    rw [getElem?_take_of_lt (matchesActive_visible found (visible command there))]
    exact slotFound

def Survivor (env : MatchEnv) (table : List CmdElement) (szToken : CStr) (words : List Word)
    (command : CmdElement) : Prop :=
  ∃ left after, filterLoop env .relaxed words 0 words (table.map some) szToken =
      some (.left left after) ∧ some command ∈ left

def ReachesOne (env : MatchEnv) (table : List CmdElement) (szToken : CStr)
    (words : List Word) : Prop :=
  ∃ left after count, filterLoop env .relaxed words 0 words (table.map some) szToken =
      some (.left left after) ∧
    countLoop env words left ⟨none, 0, 0, after⟩ = some count ∧
    count.matchedCount = 1

/-- At the empty word the matcher ends the filter for all commands: the
command has a keyword tie. -/
def Tied (env : MatchEnv) (szToken : CStr) (words : List Word) (last : Word)
    (command : CmdElement) : Prop :=
  ∃ outcome, cmdElementMatch ⟨env, .relaxed, words ++ [last], some words.length⟩ command.tokens
      szToken false = some outcome ∧ Aborts outcome.rv

/-- The commands that make help offer `<cr>`. -/
def Displays (env : MatchEnv) (table : List CmdElement) (szToken : CStr) (words : List Word)
    (last : Word) : Prop :=
  (∀ command, Survivor env table szToken words command → ¬ Tied env szToken words last command) ∧
  ∃ command, Survivor env table szToken words command ∧
    (Completes env szToken words command ∧ HasRoom env words command ∨
      Spelled env words last command)

variable {table : List CmdElement} {qsort : Sorter Terminal} {help : Terminal → CStr}
  {result : Described} {after : CStr}

theorem survivor_iff {left : List (Option CmdElement)} {buffer : CStr}
    (filtered : filterLoop env .relaxed words 0 words (table.map some)
      szToken = some (.left left buffer)) (command : CmdElement) :
    Survivor env table szToken words command ↔ some command ∈ left := by
  constructor
  · rintro ⟨other, _, run, member⟩
    cases filtered.symm.trans run
    exact member
  · intro member
    exact ⟨left, buffer, filtered, member⟩

theorem mem_sort_texts (matchvec : List Terminal) (str : CStr) :
    str ∈ texts (qsort.sort cmdDescribeCmp matchvec) ↔ str ∈ texts matchvec :=
  ((qsort.perm cmdDescribeCmp matchvec).map Terminal.cmd).mem_iff

theorem offersCr_iff (empty : isEmptyWord last) (nonempty : NonemptyWords words)
    (plain : Plain (table.map some)) (visible : ∀ command ∈ table, command.hidden = false)
    (run : cmdDescribeCommandReal qsort env help (words ++ [last]) table
      szToken = some (result, after)) :
    OffersCr result ↔ Displays env table szToken words last := by
  rw [cmdDescribeCommandReal, describeRounds_append nonempty (Nat.zero_add _) plain] at run
  cases filtered : filterLoop env .relaxed words 0 words (table.map some) szToken with
  | none =>
    rw [filtered] at run
    cases run
  | some outcome =>
    rw [filtered, Option.bind_some] at run
    cases outcome with
    | stopped status buffer =>
      cases run
      refine iff_of_false id ?_
      rintro ⟨_, _, ⟨left, _, left_eq, _⟩, _⟩
      cases filtered.symm.trans left_eq
    | left left buffer =>
      have subset {command : CmdElement} (member : some command ∈ left) : command ∈ table := by
        obtain ⟨p, found⟩ := mem_iff_getElem?.mp member
        have there := filterRun_position (filterLoop_left filtered) found
        rw [getElem?_map] at there
        obtain ⟨_, tableFound, same⟩ := Option.map_eq_some_iff.mp there
        cases same
        exact mem_of_getElem? tableFound
      have plainLeft : Plain left := fun command member =>
        plain command (mem_map_of_mem (subset member))
      have visibleLeft : ∀ command, some command ∈ left → command.hidden = false :=
        fun command member => visible command (subset member)
      cases filterLoop_szToken plain.noOptions filtered
      simp only [Displays, survivor_iff filtered]
      rw [lastRound] at run
      cases final : cmdVectorFilter ⟨env, .relaxed, words ++ [last], some words.length⟩ left
          .noMatch szToken with
      | none =>
        rw [final] at run
        cases run
      | some next =>
        have success_iff := cmdVectorFilter_success_iff visibleLeft plainLeft.noOptions final
        rw [final] at run
        dsimp only [Option.map_some] at run
        by_cases stops : next.status ≠ .success
        · rw [if_pos stops] at run
          cases run
          refine iff_of_false id ?_
          rintro ⟨untied, _⟩
          refine stops (success_iff.mpr ?_)
          intro command member outcome matched aborts
          exact untied command member ⟨outcome, matched, aborts⟩
        · rw [if_neg stops] at run
          rw [not_not] at stops
          obtain ⟨listing, listed, shown⟩ := Option.map_eq_some_iff.mp run
          have cr := offersCr_last empty nonempty plainLeft visibleLeft final stops listed
          have untied : ∀ command, some command ∈ left → ¬ Tied env szToken words last command := by
            rintro command member ⟨outcome, matched, aborts⟩
            exact success_iff.mp stops command member outcome matched aborts
          rw [and_iff_right untied, ← cr]
          by_cases nothing : listing.matchvec = []
          · rw [if_pos nothing] at shown
            cases shown
            rw [nothing]
            exact iff_of_false id nofun
          · rw [if_neg nothing] at shown
            cases shown
            exact mem_sort_texts listing.matchvec commandCr

theorem countLoop_completes {count total : Count} (noOptions : NoOptions commands)
    (run : countLoop env words commands count = some total)
    (more : count.matchedCount < total.matchedCount) :
    ∃ command, some command ∈ commands ∧ Completes env count.szToken words command := by
  fun_induction countLoop env words commands count with
  | case1 =>
    cases run
    exact absurd more (Nat.lt_irrefl _)
  | case2 _ _ ih | case3 _ _ _ _ ih =>
    obtain ⟨command, member, completes⟩ := ih noOptions.tail run more
    exact ⟨command, mem_cons_of_mem _ member, completes⟩
  | case4 => cases run
  | case5 command rest count _ next matched ih =>
    by_cases complete : next.rv = .complete
    · exact ⟨command, mem_cons_self, next, matched, complete⟩
    · have buffer : next.state.szToken = count.szToken :=
        cmdElementMatch_szToken (noOptions command mem_cons_self) matched
      rw [if_neg complete, if_neg complete, buffer] at ih run
      obtain ⟨other, member, completes⟩ := ih noOptions.tail run more
      exact ⟨other, mem_cons_of_mem _ member, completes⟩

theorem completes_of_reachesOne (plain : Plain (table.map some))
    (reaches : ReachesOne env table szToken words) :
    ∃ command, Survivor env table szToken words command ∧ Completes env szToken words command := by
  obtain ⟨left, buffer, count, filtered, counted, one⟩ := reaches
  cases filterLoop_szToken plain.noOptions filtered
  have noOptions : NoOptions left := by
    intro command member
    obtain ⟨p, found⟩ := mem_iff_getElem?.mp member
    exact plain.noOptions command (mem_iff_getElem?.mpr
      ⟨p, filterRun_position (filterLoop_left filtered) found⟩)
  obtain ⟨command, member, completes⟩ :=
    countLoop_completes noOptions counted (one ▸ Nat.zero_lt_one)
  exact ⟨command, (survivor_iff filtered command).mpr member, completes⟩

/-- Help and execution agree on the end of a line unless a complete command
is hidden from help by a keyword tie or by a group without unread keywords, or
a token of the table is itself spelled `<cr>`. -/
theorem help_agrees_iff (qsort : Sorter Terminal) (help : Terminal → CStr)
    (empty : isEmptyWord last) (nonempty : NonemptyWords words)
    (visible : ∀ command ∈ table, command.hidden = false) (plain : Plain (table.map some))
    (run : cmdDescribeCommandReal qsort env help (words ++ [last]) table
      szToken = some (result, after)) :
    ((OffersCr result ↔ ∃ command, Survivor env table szToken words command ∧
          Completes env szToken words command) ∧
      (ReachesOne env table szToken words → OffersCr result)) ↔
      ((∃ command, Survivor env table szToken words command ∧ Completes env szToken words command) →
        (∀ command, Survivor env table szToken words command →
          ¬ Tied env szToken words last command) ∧
        ∃ command, Survivor env table szToken words command ∧
          (Completes env szToken words command ∧ HasRoom env words command ∨
            Spelled env words last command)) ∧
      ((∀ command, Survivor env table szToken words command →
          ¬ Tied env szToken words last command) →
        (∃ command, Survivor env table szToken words command ∧ Spelled env words last command) →
        ∃ command, Survivor env table szToken words command ∧
          Completes env szToken words command) := by
  have offered := offersCr_iff empty nonempty plain visible run
  rw [offered]
  constructor
  · rintro ⟨⟨complete, shown⟩, _⟩
    refine ⟨shown, ?_⟩
    rintro untied ⟨command, survivor, spelled⟩
    exact complete ⟨untied, command, survivor, .inr spelled⟩
  · rintro ⟨shown, spelledComplete⟩
    refine ⟨⟨?_, shown⟩, fun reaches => shown (completes_of_reachesOne plain reaches)⟩
    rintro ⟨untied, command, survivor, ⟨completes, _⟩ | spelled⟩
    · exact ⟨command, survivor, completes⟩
    · exact spelledComplete untied ⟨command, survivor, spelled⟩

end

def fixedWord (text : String) : Terminal :=
  ⟨text.toList, some "Help", none⟩

def showVersion : CmdElement where
  string := []
  tokens := [.terminal (fixedWord "show"), .terminal (fixedWord "version")]

def showVersionLine : List Word :=
  [some "show", some "version"]

theorem plain_singleton (plain : AllPlain (terminals command.tokens)) :
    Plain ([command].map some) := by
  intro other member
  cases mem_singleton.mp member
  exact plain

theorem show_version_offers_cr : (OffersCr (.tokens [tokenCr]) ↔
      ∃ command, Survivor plainEnv [showVersion] [] showVersionLine command ∧
        Completes plainEnv [] showVersionLine command) ∧
    (ReachesOne plainEnv [showVersion] [] showVersionLine → OffersCr (.tokens [tokenCr])) := by
  have filtered : filterLoop plainEnv .relaxed showVersionLine 0
      showVersionLine ([showVersion].map some) [] = some (.left [some showVersion] []) := by
    decide
  have only {command : CmdElement} (survivor : Survivor plainEnv [showVersion] [] showVersionLine
        command) : command = showVersion := by
    rw [survivor_iff filtered, mem_singleton] at survivor
    exact Option.some.inj survivor
  have stage : stageTokens plainEnv .relaxed showVersion.tokens
      showVersionLine = some .finished := by
    decide
  refine (help_agrees_iff Sorter.insertion (fun _ => [])
    (show isEmptyWord none from rfl) (by decide) (by decide)
    (plain_singleton (by decide))
    (show cmdDescribeCommandReal Sorter.insertion plainEnv (fun _ => [])
      (showVersionLine ++ [none]) [showVersion] [] =
        some (.tokens [tokenCr], []) by decide)).mpr ⟨?_, ?_⟩
  · rintro ⟨command, survivor, completes⟩
    cases only survivor
    refine ⟨?_, showVersion, survivor, .inl ⟨completes, ?_⟩⟩
    · rintro command survivor ⟨outcome, matched, aborts⟩
      cases only survivor
      have answer : (cmdElementMatch ⟨plainEnv, .relaxed, showVersionLine ++ [none], some 2⟩
          showVersion.tokens [] false).map Outcome.rv = some .complete := by
        decide
      change cmdElementMatch ⟨plainEnv, .relaxed, showVersionLine ++ [none], some 2⟩
        showVersion.tokens [] false = some outcome at matched
      rw [matched] at answer
      rw [Option.some.inj answer] at aborts
      rcases aborts with ambiguous | exceeds
      · cases ambiguous
      · cases exceeds
    · rw [HasRoom, stage]
      exact nofun
  · rintro - ⟨command, survivor, ending, reached, token, member, _⟩
    cases only survivor
    cases stage.symm.trans reached
    cases member

def timersCommand : CmdElement where
  string := []
  tokens :=
    [.terminal (fixedWord "timers"), .keyword [⟨fixedWord "hello", []⟩, ⟨fixedWord "hold", []⟩]]

def timersLine : List Word :=
  [some "timers", some "hello", some "hold"]

/-- A line that names every keyword of the last group is executed, but help
has no match for it. -/
theorem all_keywords_named_no_help : cmdDescribeCommandReal Sorter.insertion plainEnv (fun _ => [])
        (timersLine ++ [none]) [timersCommand] [] =
      some (.refused .errNoMatch, []) ∧
    selectCommand plainEnv .relaxed timersLine [timersCommand] [] = some (.command timersCommand
        [.text "hello", .text "hold"], []) ∧
    ¬ ((OffersCr (.refused .errNoMatch) ↔
        ∃ command, Survivor plainEnv [timersCommand] [] timersLine command ∧
          Completes plainEnv [] timersLine command) ∧
      (ReachesOne plainEnv [timersCommand] [] timersLine → OffersCr (.refused .errNoMatch))) := by
  refine ⟨by decide, by decide, ?_⟩
  rintro ⟨agrees, _⟩
  have filtered : filterLoop plainEnv .relaxed timersLine 0 timersLine
      ([timersCommand].map some) [] = some (.left [some timersCommand] []) := by
    decide
  have complete : (cmdIsComplete plainEnv timersLine timersCommand []).map
      Outcome.rv = some .complete := by
    decide
  obtain ⟨next, run, rv⟩ := Option.map_eq_some_iff.mp complete
  exact agrees.mpr ⟨timersCommand, ⟨_, _, filtered, mem_cons_self⟩, next, run, rv⟩

end OpsCli.Command.Help
