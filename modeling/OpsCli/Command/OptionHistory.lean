import OpsCli.Command.ExactReading
import OpsCli.Command.Execute
import OpsCli.Command.OptionDialogue

/-!
# Option tokens and the history of the buffer

The text of an option token is copied into a static buffer that is never
cleared, and the buffer itself is what the handler gets as an argument.  What
an option token means is that its own text is compared and passed on.  This
module says for which contents of the buffer both come to the same.
-/

namespace OpsCli.Command.OptionHistory

open CLib CString Questions Token WordMatch Matcher Reading Acceptance Selection
  Execute OptionDialogue

/-! ## The meaning of option tokens -/

/-- The string that an argument points to. -/
def argString (szToken : CStr) : Arg → Option CStr
  | .null => none
  | .text str => some str
  | .szToken => some szToken

/-- The string that an argument stands for. -/
def ownString : OptionArg → Option CStr
  | .given word => argString [] (Arg.ofWord word)
  | .own text => some text

/-- How a line is read if every option token answers for its own text. -/
def ownReading (env : MatchEnv) (vline : List Word) (command : CmdElement) :
    Option (Spoken (List OptionArg)) :=
  run .noMatch (.plain (ownReply env) (bufferSpeaker env).update) []
    (commandDialogue env vline command)

def spokenStatus (own : Spoken (List OptionArg)) : CmdStatus :=
  match own.result with
  | .ok _ => .success
  | .error rv => parseStatus rv

/-- The option tokens that the matcher meets, with the words and what became
of them. -/
def optionsMet (env : MatchEnv) (vline : List Word) (command : CmdElement)
    (szToken : CStr) : List (OptionQuestion × Option Contribution) :=
  ((run .noMatch (bufferSpeaker env) szToken
    (commandDialogue env vline command)).map Finished.asked).getD []

def bufferAfter (szToken : CStr) (asked : List (OptionQuestion × Option Contribution)) : CStr :=
  asked.foldl (fun buffer entry => overlay buffer entry.1.1) szToken

/-! ## Whole lines -/

section

variable (env : MatchEnv) (vline : List Word) (command : CmdElement) (szToken : CStr)
  (own : Spoken (List OptionArg))

/-- `cmd_parse` gives the status and the strings of the reading, and every
option token that it matches is matched by its own text. -/
def ParsesAsOwn : Prop :=
  ∃ argv after, cmdParse env vline command szToken = some (spokenStatus own, argv, after) ∧
      (∀ args, own.result = .ok args → argv.map (argString after) = args.map ownString) ∧
      Faithful (ownReply env) (optionsMet env vline command szToken)

/-- What the buffer holds behind the text of an option token makes no
difference to the word, unless the line is refused anyway, and at the end the
buffer holds the text of every option token that contributes it. -/
def OptionsUndisturbed : Prop :=
  Undisturbed (bufferSpeaker env) (own.result = .error .noMatch) szToken own.asked ∧
    ∀ args, own.result = .ok args → ∀ text, OptionArg.own text ∈ args →
        bufferAfter szToken own.asked = text

end

theorem eq_noMatch_of_parseStatus {rv : MatcherRv} (status : parseStatus rv = .errNoMatch) :
    rv = .noMatch := by
  cases rv with
  | noMatch => rfl
  | ok | complete | incomplete | ambiguous | exceedArgcMax => cases status

theorem strings_eq_iff (args : List OptionArg) (buffer : CStr) :
    (args.map OptionArg.pointer).map (argString buffer) = args.map ownString ↔
      ∀ text, OptionArg.own text ∈ args → buffer = text := by
  rw [List.map_map, List.map_inj_left]
  constructor
  · intro same text member
    exact Option.some.inj (same _ member)
  · intro same arg member
    cases arg with
    | given word =>
      rcases word with _ | _ | _ <;> rfl
    | own text => exact congrArg some (same text member)

variable {env : MatchEnv} {szToken : CStr}

theorem cmdParse_eq_some_iff {vline : List Word} {command : CmdElement} {after : CStr}
    {status : CmdStatus} {argv : List Arg} :
    cmdParse env vline command szToken = some (status, argv, after) ↔
      ∃ next, cmdElementMatch (wholeLine env vline) command.tokens szToken true = some next ∧
        parseStatus next.rv = status ∧ next.args.getD [] = argv ∧
        next.state.szToken = after := by
  rw [cmdParse, Option.map_eq_some_iff]
  simp only [Prod.mk.injEq]

section

variable {vline : List Word} {command : CmdElement} {own : Spoken (List OptionArg)}

section

variable (defined : ownReading env vline command = some own)
include defined

theorem ownReading_from (szToken : CStr) :
    run .noMatch (.plain (ownReply env) (bufferSpeaker env).update) szToken
        (commandDialogue env vline command) =
      some { own with state := bufferAfter szToken own.asked } := by
  rw [run_plain MatcherRv.noMatch (ownReply env) (bufferSpeaker env).update [] szToken]
  change (ownReading env vline command).map _ = _
  rw [defined]
  rfl

theorem parsesAsOwn_of_undisturbed (nonempty : NonemptyWords vline)
    (undisturbed : OptionsUndisturbed env szToken own) :
    ParsesAsOwn env vline command szToken own := by
  obtain ⟨other, ran, faithful, ending⟩ :=
    run_of_undisturbed (ownReading_from defined szToken) undisturbed.1
  have follows := @follows_command env _ nonempty command szToken
  rw [ran] at follows
  have met : Faithful (ownReply env) (optionsMet env vline command szToken) := by
    rw [optionsMet, ran]
    exact faithful
  obtain ⟨result, last, asked⟩ := other
  have same : result = own.result := by
    rcases ending with ⟨same, _⟩ | ⟨refused, same⟩
    · exact same
    · exact same.trans refused.symm
  cases found : own.result with
  | error rv =>
    rw [same, found] at follows
    obtain ⟨_, next, matched, rvSame⟩ := follows
    refine ⟨_, _, cmdParse_eq_some_iff.mpr ⟨next, matched, ?_, rfl, rfl⟩, fun args ok => ?_, met⟩
    · rw [spokenStatus, found, rvSame]
    · rw [found] at ok
      cases ok
  | ok args =>
    rw [same, found] at follows
    obtain ⟨next, matched, complete, argsSame, buffer⟩ := follows
    have lastSame : last = bufferAfter szToken own.asked := by
      rcases ending with ⟨_, same⟩ | ⟨refused, _⟩
      · exact same
      · rw [found] at refused
        cases refused
    refine ⟨_, _, cmdParse_eq_some_iff.mpr ⟨next, matched, ?_, rfl, rfl⟩, fun others ok => ?_, met⟩
    · rw [spokenStatus, found, complete]
      rfl
    · rw [found] at ok
      cases ok
      rw [argsSame, buffer, lastSame]
      exact (strings_eq_iff args _).mpr (undisturbed.2 args found)

theorem undisturbed_of_parsesAsOwn (nonempty : NonemptyWords vline)
    (parses : ParsesAsOwn env vline command szToken own) : OptionsUndisturbed env szToken own := by
  obtain ⟨argv, after, parsed, strings, met⟩ := parses
  obtain ⟨next, matched, status, rfl, rfl⟩ := cmdParse_eq_some_iff.mp parsed
  have follows := @follows_command env _ nonempty command szToken
  rw [matched] at follows
  cases ran : run .noMatch (bufferSpeaker env) szToken (commandDialogue env vline command) with
  | none =>
    rw [ran] at follows
    cases follows
  | some other =>
    rw [optionsMet, ran] at met
    rw [ran] at follows
    have cases_ := undisturbed_of_faithful (ownReading_from defined szToken) ran met
    obtain ⟨result, last, asked⟩ := other
    rcases cases_ with ⟨undisturbed, same, lastSame⟩ | ⟨undisturbed, refused⟩
    · refine ⟨undisturbed.mono False.elim, fun args found => ?_⟩
      dsimp only at same lastSame
      rw [same, found] at follows
      obtain ⟨_, equal, _, argsSame, buffer⟩ := follows
      cases equal
      have equal := strings args found
      rw [argsSame, buffer, lastSame] at equal
      exact (strings_eq_iff args _).mp equal
    · dsimp only at refused
      rw [refused] at follows
      obtain ⟨_, _, equal, noMatch⟩ := follows
      cases equal
      rw [noMatch] at status
      have ownRefused : own.result = .error .noMatch := by
        rw [spokenStatus] at status
        cases found : own.result with
        | ok args =>
          rw [found] at status
          cases status
        | error rv =>
          rw [found] at status
          rw [eq_noMatch_of_parseStatus status.symm]
      refine ⟨undisturbed.mono fun _ => ownRefused, fun args found => ?_⟩
      rw [ownRefused] at found
      cases found

end

/--
A line that has a reading by the own texts of its option tokens is parsed like
this, whatever the buffer holds, exactly when the old contents of the buffer
disturb none of them.
-/
theorem parses_as_own_iff_undisturbed (nonempty : NonemptyWords vline)
    {own : Spoken (List OptionArg)}
    (defined : ownReading env vline command = some own) (szToken : CStr) :
    ParsesAsOwn env vline command szToken own ↔ OptionsUndisturbed env szToken own :=
  ⟨undisturbed_of_parsesAsOwn defined nonempty, parsesAsOwn_of_undisturbed defined nonempty⟩

end

/-! ## A longer option before a shorter one -/

def showOption (option : CStr) : CmdElement where
  string := "show " ++ option
  tokens := [.terminal ⟨"show", none, none⟩, .terminal ⟨option, none, none⟩]

/-- A shorter text in the buffer does not matter. -/
theorem show_all_parses_as_own : ParsesAsOwn plainEnv [some "show", some "al"]
      (showOption "[all]") "up" ⟨.ok [.own "all"], "all", [(("all", some "al"), some .text)]⟩ := by
  refine (parses_as_own_iff_undisturbed (by decide) rfl "up").mpr ⟨?_, ?_⟩
  · exact .inl ⟨by decide, trivial⟩
  · rintro _ ⟨⟩ text member
    cases List.mem_singleton.mp member
    rfl

/-- After `show inter` has been parsed, `show al` passes `allerface` on. -/
theorem option_text_spoiled_by_history : cmdParse plainEnv [some "show", some "inter"]
        (showOption "[interface]") [] =
      some (.success, [.szToken], "interface".toList) ∧
    cmdParse plainEnv [some "show", some "al"]
        (showOption "[all]") "interface" =
      some (.success, [.szToken], "allerface".toList) ∧
    argString "allerface" .szToken = some "allerface".toList ∧
    cmdParse plainEnv [some "show", some "al"] (showOption "[all]") [] =
      some (.success, [.szToken], "all".toList) := by
  decide

end OpsCli.Command.OptionHistory
