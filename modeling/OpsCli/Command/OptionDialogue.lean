import OpsCli.CLib.Questions
import OpsCli.Command.Recording
import OpsCli.Command.Selection

/-!
# The matcher as a dialogue about option tokens

Everything that the matcher does on a whole line is determined by the command
and the line, except what becomes of its option tokens: their texts are
compared, and passed on, from a static buffer.  Here the matcher is a dialogue
that asks for each option token what the word is to its text.  The matcher of
the source is the run of the dialogue in which the buffer answers.
-/

namespace OpsCli.Command.OptionDialogue

open CLib CString Questions Token WordMatch Matcher Reading Acceptance
  Choice Recording Selection List

/-! ## Questions -/

/-- An option token that matches gives its text or the word. -/
inductive Contribution where
  | text
  | word
deriving DecidableEq, Repr

/-- The text of an option token and the word of the line. -/
abbrev OptionQuestion := CStr × Word

/-- What the word is to a text: refused, an abbreviation of the text, or
accepted as a value. -/
def verdict (env : MatchEnv) (text : CStr) (word : Word) : Option (Option Contribution) :=
  (cmdWordMatch env ⟨text, none, none⟩ .relaxed word).map fun type =>
    if type = .noMatch || type = .varargMatch then none
    else if type = .partlyMatch || type = .exactMatch then some .text
    else some .word

/-- The text written over the old contents of the buffer. -/
def overlay (buffer : CStr) (text : CStr) : CStr :=
  text ++ buffer.drop text.length

/-- The buffer answers for the texts that are written to it. -/
def bufferSpeaker (env : MatchEnv) : Speaker OptionQuestion Contribution CStr where
  reply buffer question := verdict env (overlay buffer question.1) question.2
  update buffer question := overlay buffer question.1

/-- Every text answers for itself. -/
def ownReply (env : MatchEnv) (question : OptionQuestion) : Option (Option Contribution) :=
  verdict env question.1 question.2

/-! ## The dialogue -/

/-- An argument: a word, or the text of an option token. -/
inductive OptionArg where
  | given (word : Word)
  | own (text : CStr)
deriving DecidableEq, Repr

abbrev Matching := Dialogue OptionQuestion Contribution MatcherRv

def innerText (cmd : CStr) : Option CStr :=
  if cmd.length < 2 || maxCmdLen ≤ cmd.length - 2 then none
  else some ((cmd.drop 1).take (cmd.length - 2))

/-- `push_argument`. -/
def push (args : List OptionArg) (arg : OptionArg) : Matching (List OptionArg) :=
  if cmdArgcMax ≤ args.length then .fail .exceedArgcMax
  else .done (args ++ [arg])

def contributed (text : CStr) (word : Word) : Contribution → OptionArg
  | .text => .own text
  | .word => .given word

/-- The words that are left for a vararg token. -/
def givenWords (words : List Word) : List OptionArg :=
  (words.filter fun word => Arg.ofWord word ≠ .null).map .given

/-- The word that an alternative of a multiple contributes. -/
def offerWord (word : Word) (offer : Offer) : Word :=
  if offer.2 = .partlyMatch then some offer.1.cmd else word

section

variable (env : MatchEnv)

/-- `cmd_matcher_match_terminal`: the arguments and the words that are
left. -/
def readTerminal (token : Terminal) (args : List OptionArg) :
    List Word → Matching (List OptionArg × List Word)
  | [] => if cmdOption token.cmd then .done (args, []) else .fail .incomplete
  | word :: rest =>
    match cmdWordMatch env token .relaxed word with
    | none => .crash
    | some type =>
      if type = .noMatch then .fail .noMatch
      else if cmdVararg token.cmd then
        (push args (.given word)).bind fun args =>
          .done ((args ++ givenWords rest).take cmdArgcMax, [])
      else if cmdVariable token.cmd then
        (push args (.given word)).bind fun args => .done (args, rest)
      else if cmdOption token.cmd then
        match innerText token.cmd with
        | none => .crash
        | some text =>
          .ask (text, word) fun contribution =>
            (push args (contributed text word contribution)).bind fun args => .done (args, rest)
      else .done (args, rest)

/-- `cmd_matcher_match_multiple`. -/
def readMultiple (alternatives : List Terminal) (args : List OptionArg) :
    List Word → Matching (List OptionArg × List Word)
  | [] => .fail .incomplete
  | word :: rest =>
    if alternatives.all fun token => (cmdWordMatch env token .relaxed word).isSome then
      match bestOffer (offers env .relaxed alternatives word) with
      | none => .fail .noMatch
      | some offer =>
        (push args (.given (offerWord word offer))).bind fun args => .done (args, rest)
    else .crash

def readArg (arg : KeywordArg) (args : List OptionArg) (words : List Word) :
    Matching (List OptionArg × List Word) :=
  match arg with
  | .terminal token => readTerminal env token args words
  | .multiple alternatives => readMultiple env alternatives args words

def readArgs : List KeywordArg → List OptionArg → List Word → Matching (List OptionArg × List Word)
  | [], args, words => .done (args, words)
  | arg :: rest, args, words =>
    (readArg env arg args words).bind fun left => readArgs rest left.1 left.2

/-- The keyword that is read for a word; `some none` is an ambiguity. -/
def chooseKeyword (mask : List Nat) (word : Word) :
    Nat → List KeywordPart → Option Nat → MatchType → Option (Option (Option Nat))
  | _, [], found, _ => some (some found)
  | i, part :: rest, found, best =>
    if 31 ≤ i then none
    else if i ∈ mask then chooseKeyword mask word (i + 1) rest found best
    else
      match cmdWordMatch env part.keyword .relaxed word with
      | none => none
      | some type =>
        if type = .noMatch then
          chooseKeyword mask word (i + 1) rest found best
        else if best < type then
          chooseKeyword mask word (i + 1) rest (some i) type
        else if type = best then some none
        else chooseKeyword mask word (i + 1) rest found best

/-- `cmd_matcher_read_keywords`: the arguments of the keywords that were
read. -/
def readKeywords (parts : List KeywordPart) :
    Nat → List Nat → List (Nat × List OptionArg) → List Word →
      Matching (List (Nat × List OptionArg))
  | 0, _, _, _ => .crash
  | _ + 1, _, table, [] => .done table
  | fuel + 1, mask, table, word :: rest =>
    match chooseKeyword env mask word 0 parts none .noMatch with
    | none => .crash
    | some none => .fail .ambiguous
    | some (some found) =>
      match found.bind fun i => parts[i]?.map (i, ·) with
      | none => .fail .noMatch
      | some (i, part) =>
        (readArgs env part.args [] rest).bind fun left =>
          readKeywords parts fuel (i :: mask) (table ++ [(i, left.1)]) left.2

end

def partArgs (part : KeywordPart) (read : Option (List OptionArg)) : List OptionArg :=
  if part.args = [] then
    [.given (if read.isSome then some part.keyword.cmd else none)]
  else
    match read with
    | some args => args
    | none => (part.args.filter takesNull).map fun _ => .given none

def partsArgs (parts : List KeywordPart) (table : List (Nat × List OptionArg)) : List OptionArg :=
  parts.zipIdx.flatMap fun (part, i) => partArgs part (table.lookup i)

section

variable (env : MatchEnv)

/-- `cmd_matcher_match_keyword`; `length` is that of the whole line. -/
def readGroup (length : Nat) (parts : List KeywordPart)
    (args : List OptionArg) (words : List Word) : Matching (List OptionArg × List Word) :=
  (readKeywords env parts (length + 1) [] [] words).bind fun table =>
    if args.length + (partsArgs parts table).length ≤ cmdArgcMax then
      .done (args ++ partsArgs parts table, [])
    else .fail .exceedArgcMax

def readToken (length : Nat) (token : CmdToken) (args : List OptionArg)
    (words : List Word) : Matching (List OptionArg × List Word) :=
  match token with
  | .terminal token => readTerminal env token args words
  | .multiple alternatives => readMultiple env alternatives args words
  | .keyword parts => readGroup env length parts args words

def readTokens (length : Nat) :
    List CmdToken → List OptionArg → List Word → Matching (List OptionArg)
  | [], args, words => if words = [] then .done args else .fail .noMatch
  | token :: rest, args, words =>
    (readToken env length token args words).bind fun left => readTokens length rest left.1 left.2

def commandDialogue (vline : List Word) (command : CmdElement) : Matching (List OptionArg) :=
  readTokens env vline.length command.tokens [] vline

end

/-! ## What the matcher of the source makes of the dialogue -/

/-- In the argument vector the text of an option is the buffer. -/
def OptionArg.pointer : OptionArg → Arg
  | .given word => Arg.ofWord word
  | .own _ => .szToken

/-- The arguments of the dialogue as an argument vector. -/
def argVector (args : List OptionArg) : Args :=
  some (args.map OptionArg.pointer)

/-- A matcher over a whole line. -/
abbrev wholeLine (env : MatchEnv) (vline : List Word) : CmdMatcher :=
  ⟨env, .relaxed, vline, none⟩

abbrev Spoken (α : Type) :=
  Finished OptionQuestion Contribution MatcherRv CStr α

/-- The result of a matcher function is that of the run of a dialogue: both
are undefined, both end with the same error, or their values agree. -/
def Follows {Result α : Type} (rv : Result → MatcherRv) (agrees : Result → α → CStr → Prop)
    (result : Option Result) :
    Option (Spoken α) → Prop
  | none => result = none
  | some ⟨.error error, _, _⟩ =>
    error.isError ∧ ∃ next, result = some next ∧ rv next = error
  | some ⟨.ok value, buffer, _⟩ =>
    ∃ next, result = some next ∧ agrees next value buffer

theorem Follows.asking {Result α : Type} {rv : Result → MatcherRv}
    {agrees : Result → α → CStr → Prop} {result : Option Result} {ran : Option (Spoken α)}
    (follows : Follows rv agrees result ran) (more : List _ → List _) :
    Follows rv agrees result (ran.map fun ended => { ended with asked := more ended.asked }) := by
  match ran with
  | none | some ⟨.error _, _, _⟩ | some ⟨.ok _, _, _⟩ => exact follows

/-- A function that goes on unless there was an error follows the dialogue
that goes on. -/
theorem Follows.bind {env : MatchEnv} {Result Last α β : Type} {rv : Result → MatcherRv}
    {agrees : Result → α → CStr → Prop}
    {lastRv : Last → MatcherRv} {lastAgrees : Last → β → CStr → Prop}
    {result : Option Result} {dialogue : Matching α} {buffer : CStr}
    {next : α → Matching β} {after : Result → Option Last}
    (first : Follows rv agrees result (run .noMatch (bufferSpeaker env) buffer dialogue))
    (fails : ∀ result, (rv result).isError →
      ∃ last, after result = some last ∧ lastRv last = rv result)
    (continues : ∀ result value buffer, agrees result value buffer →
      Follows lastRv lastAgrees (after result)
        (run .noMatch (bufferSpeaker env) buffer (next value))) :
    Follows lastRv lastAgrees (result.bind after)
      (run .noMatch (bufferSpeaker env) buffer (dialogue.bind next)) := by
  rw [run_bind]
  cases ran : run .noMatch (bufferSpeaker env) buffer dialogue with
  | none =>
    rw [ran] at first
    change result = none at first
    rw [first]
    rfl
  | some finished =>
    rw [ran] at first
    obtain ⟨ending, last, asked⟩ := finished
    cases ending with
    | error error =>
      obtain ⟨isError, middle, rfl, same⟩ := first
      obtain ⟨final, run, equal⟩ := fails middle (same.symm ▸ isError)
      exact ⟨isError, final, run, equal.trans same⟩
    | ok value =>
      obtain ⟨middle, rfl, agree⟩ := first
      exact (continues middle value last agree).asking (asked ++ ·)

/-- A matcher function has left these arguments and words behind. -/
structure Leaves (vline : List Word) (next : Outcome) (left : List OptionArg × List Word)
    (buffer : CStr) : Prop where
  rv : next.rv = .ok
  args : next.args = argVector left.1
  words : vline.drop next.state.wordIndex = left.2
  szToken : next.state.szToken = buffer

/-- A matcher function follows a dialogue from every state. -/
def Tracks {α : Type} (env : MatchEnv) (vline : List Word) (agrees : Outcome → α → CStr → Prop)
    (function : MatcherState → Args → Option Outcome)
    (dialogue : List OptionArg → List Word → Matching α) : Prop :=
  ∀ state args, Follows Outcome.rv agrees (function state (argVector args))
    (run .noMatch (bufferSpeaker env) state.szToken (dialogue args (vline.drop state.wordIndex)))

theorem grow_argVector (args new : List OptionArg) :
    grow (argVector args) (new.map OptionArg.pointer) =
      argVector ((args ++ new).take cmdArgcMax) := by
  rw [argVector, argVector, grow, Option.map_some, map_take, map_append]

theorem givenWords_pointer (words : List Word) :
    (givenWords words).map OptionArg.pointer = wordArgs words := by
  rw [givenWords, wordArgs, map_map, filter_map]
  rfl

theorem offerWord_pointer (word : Word) (offer : Offer) :
    (OptionArg.given (offerWord word offer)).pointer = offerArg word offer := by
  rw [OptionArg.pointer, offerWord, offerArg]
  split <;> rfl

/-- The arguments of the keywords as the matcher keeps them. -/
def tableVector (table : List (Nat × List OptionArg)) : KeywordTable :=
  some (table.map fun row => (row.1, row.2.map OptionArg.pointer))

theorem partArgs_pointer (part : KeywordPart) (read : Option (List OptionArg)) :
    (partArgs part read).map OptionArg.pointer = keywordArgs part (read.map fun args =>
        args.map OptionArg.pointer) := by
  unfold partArgs keywordArgs
  split
  · cases read <;> rfl
  · cases read with
    | none =>
      rw [map_map]
      rfl
    | some args => rfl

theorem lookup_map_pointer (table : List (Nat × List OptionArg)) (i : Nat) :
    (table.map fun row => (row.1, row.2.map OptionArg.pointer)).lookup i =
      (table.lookup i).map fun args => args.map OptionArg.pointer := by
  induction table with
  | nil => rfl
  | cons row rest ih =>
    rw [map_cons, lookup_cons, lookup_cons, ih]
    split <;> rfl

theorem partsArgs_pointer (parts : List KeywordPart) (table : List (Nat × List OptionArg)) :
    (partsArgs parts table).map OptionArg.pointer = groupArgs parts
        (table.map fun row => (row.1, row.2.map OptionArg.pointer)) := by
  rw [partsArgs, groupArgs, map_flatMap]
  congr 1
  funext ⟨part, i⟩
  rw [partArgs_pointer]
  exact congrArg (keywordArgs part) (lookup_map_pointer table i).symm

theorem buildKeywordArgs_argVector (parts : List KeywordPart) (args : List OptionArg)
    (table : List (Nat × List OptionArg)) :
    cmdMatcherBuildKeywordArgs parts (argVector args) (tableVector table) =
      if args.length + (partsArgs parts table).length ≤ cmdArgcMax then
        (.ok, argVector (args ++ partsArgs parts table))
      else
        (.exceedArgcMax, argVector ((args ++ partsArgs parts table).take cmdArgcMax)) := by
  rw [argVector, tableVector, cmdMatcherBuildKeywordArgs, ← partsArgs_pointer, pushAll, length_map,
    length_map, ← map_append, ← map_take]
  split <;> rfl

/-! ## The functions over a whole line -/

section

variable {env : MatchEnv} {vline : List Word} {state : MatcherState} {token : Terminal}
  {rest : List Word} {type : MatchType} {m : CmdMatcher} {args : Args}

theorem finishTerminal_whole (notVararg : cmdVararg token.cmd = false) :
    finishTerminal (wholeLine env vline) token type state args = ⟨.ok, state.advance, args⟩ := by
  rw [finishTerminal, notVararg]
  rfl

theorem finishTerminal_vararg (vararg : cmdVararg token.cmd) :
    finishTerminal (wholeLine env vline) token type state args =
      ⟨.ok, { state with
          wordIndex := max (state.wordIndex + 1) vline.length },
        pushRest args (vline.drop (state.wordIndex + 1))⟩ := by
  rw [finishTerminal, vararg]
  rfl

theorem cmdWordMatch_text (token : Terminal) (text : CStr) (word : Word) :
    cmdWordMatch env { token with cmd := text } .relaxed word =
      cmdWordMatch env ⟨text, none, none⟩ .relaxed word := by
  unfold cmdWordMatch
  rfl

theorem optionText_eq (cmd buffer : CStr) :
    optionText cmd buffer = (innerText cmd).map (overlay buffer) := by
  unfold optionText innerText
  split
  · rfl
  · rename_i size
    simp only [Bool.or_eq_true, decide_eq_true_eq, not_or, not_lt, not_le] at size
    rw [Option.map_some, overlay, length_take, length_drop, Nat.min_eq_left (by omega)]

theorem multipleStep_isSome {word : Word} (scan : MultipleScan) (token : Terminal) :
    (multipleStep m word scan token).isSome = (cmdWordMatch m.env token m.filter word).isSome := by
  rw [multipleStep]
  cases cmdWordMatch m.env token m.filter word with
  | none => rfl
  | some type =>
    dsimp only
    split
    · rfl
    · split <;> rfl

theorem multiple_isSome {word : Word} (alternatives : List Terminal) (scan : MultipleScan) :
    (alternatives.foldlM (multipleStep m word) scan).isSome = alternatives.all fun token =>
        (cmdWordMatch m.env token m.filter word).isSome := by
  induction alternatives generalizing scan with
  | nil => rfl
  | cons token rest ih =>
    rw [foldlM_cons, all_cons, ← multipleStep_isSome scan token]
    cases multipleStep m word scan token with
    | none => rfl
    | some next => exact ih next

theorem beyondIndex_whole : beyondIndex (wholeLine env vline) state = false :=
  rfl

theorem scanKeywords_whole {word : Word} {mask : List Nat} {haveArgs : Bool} (start : Nat)
    (parts : List KeywordPart) (found : Option Nat) (best : MatchType) (state : MatcherState) :
    (scanKeywords (wholeLine env vline) word mask haveArgs start parts ⟨found, best, state⟩).map
      (fun (ambiguous, scan) => (if ambiguous then none else some scan.found, scan.state)) =
    (chooseKeyword env mask word start parts found best).map (·, state) := by
  induction parts generalizing start found best with
  | nil => rfl
  | cons part rest ih =>
    rw [scanKeywords, chooseKeyword]
    split
    · rfl
    split
    · exact ih _ _ _
    cases cmdWordMatch env part.keyword .relaxed word with
    | none => rfl
    | some type =>
      dsimp only
      split
      · exact ih _ _ _
      have unrecorded : cmdMatcherRecordMatch (wholeLine env vline) type
          part.keyword state = state := if_neg (by rintro ⟨⟩)
      rw [unrecorded]
      split
      · exact ih _ _ _
      by_cases tie : type = best
      · rw [if_pos tie, if_pos (by simp [tie])]
        rfl
      · rw [if_neg tie, if_neg (by simp [tie])]
        exact ih _ _ _

/-- One keyword has been read. -/
def keywordRound (env : MatchEnv) (vline : List Word) (parts : List KeywordPart) (fuel : Nat)
    (mask : List Nat)
    (table : KeywordTable) (i : Nat) (next : Outcome) : Option KeywordOutcome :=
  let table := table.map (· ++ [(i, next.args.getD [])])
  if next.rv.isError then some ⟨next.rv, next.state, table⟩
  else
    cmdMatcherReadKeywords (wholeLine env vline) parts fuel (i :: mask) next.state table

theorem readKeywords_whole {word : Word} (found : vline[state.wordIndex]? = some word)
    (parts : List KeywordPart) (fuel : Nat) (mask : List Nat)
    (table : List (Nat × List OptionArg)) :
    cmdMatcherReadKeywords (wholeLine env vline) parts (fuel + 1) mask state (tableVector table) =
      (chooseKeyword env mask word 0 parts none .noMatch).bind fun choice =>
        match choice with
        | none => some ⟨.ambiguous, state, tableVector table⟩
        | some number =>
          match number.bind fun i => parts[i]?.map (i, ·) with
          | none => some ⟨.noMatch, state, tableVector table⟩
          | some (i, part) =>
            (matchKeywordArgs (wholeLine env vline) part.args state.advance (argVector [])).bind
              (keywordRound env vline parts fuel mask (tableVector table) i) := by
  rw [cmdMatcherReadKeywords]
  have scanned := @scanKeywords_whole env vline word mask
    (tableVector table).isSome 0 parts none .noMatch state
  rw [found]
  dsimp only
  cases scan : scanKeywords (wholeLine env vline) word mask
      (tableVector table).isSome 0 parts ⟨none, .noMatch, state⟩ with
  | none =>
    rw [scan, Option.map_none, eq_comm, Option.map_eq_none_iff] at scanned
    rw [scanned]
    rfl
  | some pair =>
    obtain ⟨ambiguous, lastFound, best, lastState⟩ := pair
    rw [scan, Option.map_some, eq_comm] at scanned
    obtain ⟨choice, chosen, same⟩ := Option.map_eq_some_iff.mp scanned
    obtain ⟨rfl, rfl⟩ := Prod.mk.inj same
    rw [chosen, Option.bind_some]
    cases ambiguous with
    | true => rfl
    | false =>
      rw [if_neg Bool.false_ne_true]
      dsimp only
      cases lastFound.bind fun i => parts[i]?.map (i, ·) with
      | none => rfl
      | some pick =>
        obtain ⟨i, part⟩ := pick
        have same : (tableVector table).map (fun _ => []) = argVector [] := rfl
        dsimp only
        rw [beyondIndex_whole, if_neg Bool.false_ne_true, same]
        cases matchKeywordArgs (wholeLine env vline) part.args state.advance (argVector []) with
        | none => rfl
        | some next =>
          dsimp only [Option.bind_some, keywordRound]
          rw [beyondIndex_whole, Bool.or_false]

/-! ## The functions follow the dialogue -/

theorem ne_nil_of_verdict {text : CStr} {word : Word} (nonempty : isEmptyWord word = false)
    (answer : verdict env text word = some (some .text)) : text ≠ [] := by
  rintro rfl
  cases word with
  | none => cases nonempty
  | some word =>
    cases word with
    | nil => cases nonempty
    | cons c rest =>
      have ifname : cmdWordMatch env ⟨[], none, none⟩ .relaxed
          (some (c :: rest)) = (ifnameWordMatch env [] (c :: rest)).map
            (matchIf .ifnameMatch) := rfl
      rw [verdict, ifname] at answer
      cases found : ifnameWordMatch env [] (c :: rest) with
      | none =>
        rw [found] at answer
        cases answer
      | some accepts =>
        rw [found] at answer
        cases accepts <;> cases answer

theorem Tracks.andThen {α : Type} {agrees : Outcome → α → CStr → Prop}
    {function others : MatcherState → Args → Option Outcome}
    {dialogue : List OptionArg → List Word → Matching (List OptionArg × List Word)}
    {later : List OptionArg → List Word → Matching α}
    (first : Tracks env vline (Leaves vline) function dialogue)
    (rest : Tracks env vline agrees others later) :
    Tracks env vline agrees
      (fun state args => match function state args with
        | none => none
        | some next =>
          if next.rv.isError || beyondIndex (wholeLine env vline) next.state then some next
          else others next.state next.args)
      fun args words => (dialogue args words).bind fun left => later left.1 left.2 := by
  intro state args
  have continues (next left buffer) (leaves : Leaves vline next left buffer) :
      Follows Outcome.rv agrees
        (if next.rv.isError then some next else others next.state next.args)
        (run .noMatch (bufferSpeaker env) buffer (later left.1 left.2)) := by
    obtain ⟨rv, middle, middleArgs⟩ := next
    obtain ⟨rfl, rfl, words, rfl⟩ := leaves
    rw [← words]
    exact rest middle left.1
  have goes := (first state args).bind (fun next error => ⟨next, if_pos error, rfl⟩) continues
  simp only [beyondIndex_whole, Bool.or_false]
  generalize function state (argVector args) = result at goes ⊢
  cases result with
  | none | some => exact goes

theorem follows_push {args : List OptionArg} {arg : OptionArg} {buffer : CStr} {failed : Outcome}
    {after : Args → Outcome} {left : List OptionArg → List OptionArg × List Word}
    (rv : failed.rv = .exceedArgcMax)
    (room : args.length < cmdArgcMax →
      Leaves vline (after (argVector (args ++ [arg]))) (left (args ++ [arg])) buffer) :
    Follows Outcome.rv (Leaves vline)
      (match pushArgument (argVector args) arg.pointer with
        | none => some failed
        | some args => some (after args))
      (run .noMatch (bufferSpeaker env) buffer
        ((push args arg).bind fun args => .done (left args))) := by
  rw [argVector, pushArgument, length_map, push]
  by_cases full : cmdArgcMax ≤ args.length
  · rw [if_pos full, if_pos full]
    exact ⟨rfl, _, rfl, rv⟩
  · rw [if_neg full, if_neg full, ← map_singleton, ← map_append]
    exact ⟨_, rfl, room (not_le.mp full)⟩

theorem follows_option {args : List OptionArg} {word : Word} (nonempty : isEmptyWord word = false)
    (notVararg : cmdVararg token.cmd = false) (words : vline.drop state.wordIndex = word :: rest) :
    Follows Outcome.rv (Leaves vline)
      (matchOption (wholeLine env vline) token word state (argVector args))
      (run .noMatch (bufferSpeaker env) state.szToken (match innerText token.cmd with
          | none => .crash
          | some text =>
            .ask (text, word) fun contribution =>
              (push args (contributed text word contribution)).bind
                fun args => .done (args, rest))) := by
  rw [matchOption, optionText_eq]
  cases innerText token.cmd with
  | none => rfl
  | some text =>
    dsimp only [Option.map_some]
    rw [cmdWordMatch_text, run]
    cases answer : verdict env (overlay state.szToken text) word with
    | none =>
      have undefined := Option.map_eq_none_iff.mp answer
      simp only [bufferSpeaker, answer, undefined]
      rfl
    | some given =>
      obtain ⟨type, found, same⟩ := Option.map_eq_some_iff.mp answer
      simp only [bufferSpeaker, answer, found]
      by_cases refused : (decide (type = .noMatch) || decide (type = .varargMatch))
      · rw [if_pos refused] at same ⊢
        cases same
        exact ⟨rfl, _, rfl, rfl⟩
      rw [if_neg refused] at same ⊢
      obtain ⟨contribution, rfl, pushed⟩ : ∃ contribution, given = some contribution ∧
          optionArg type (overlay state.szToken text) word =
            (contributed text word contribution).pointer := by
        unfold optionArg
        split at same
        · rename_i abbreviates
          rw [if_pos abbreviates, if_neg (ne_nil_of_verdict nonempty
            (answer.trans (congrArg some same.symm)))]
          exact ⟨.text, same.symm, rfl⟩
        · rename_i value
          rw [if_neg value]
          exact ⟨.word, same.symm, rfl⟩
      rw [pushed]
      refine (follows_push rfl fun _ => ?_).asking (_ :: ·)
      rw [finishTerminal_whole notVararg]
      exact ⟨rfl, rfl, (cons_of_drop words).2, rfl⟩

theorem follows_multiple (alternatives : List Terminal) :
    Tracks env vline (Leaves vline) (cmdMatcherMatchMultiple (wholeLine env vline) alternatives)
      (readMultiple env alternatives) := by
  intro state args
  rw [cmdMatcherMatchMultiple]
  cases words : vline.drop state.wordIndex with
  | nil =>
    rw [getElem?_eq_none (drop_eq_nil_iff.mp words), readMultiple]
    exact ⟨rfl, _, rfl, rfl⟩
  | cons word rest =>
    obtain ⟨found, behind⟩ := cons_of_drop words
    rw [found, readMultiple]
    dsimp only
    have defined := @multiple_isSome (wholeLine env vline) word
      alternatives ⟨.noMatch, .null, state⟩
    rw [← defined]
    cases folded : alternatives.foldlM (multipleStep (wholeLine env vline) word)
        ⟨.noMatch, .null, state⟩ with
    | none => rfl
    | some scan =>
      have start : Scanned word ⟨.noMatch, .null, state⟩ none := ⟨rfl, rfl⟩
      obtain ⟨scanned, recorded⟩ := scanned_multiple start folded
      have same : scan.state = state := recorded.trans (recordAll_elsewhere
          (show (none : Option Nat) ≠ some state.wordIndex from (by rintro ⟨⟩)) _)
      change Scanned word scan (bestOffer (offers env .relaxed alternatives word)) at scanned
      rw [Option.isSome_some, if_pos rfl]
      dsimp only
      rw [same, scanned.type, scanned.arg]
      cases best : bestOffer (offers env .relaxed alternatives word) with
      | none => exact ⟨rfl, _, rfl, rfl⟩
      | some offer =>
        have matched : offer.2 ≠ .noMatch := (mem_offers.mp (bestOffer_spec best).1).2.2
        rw [bestType, if_neg matched, bestArg]
        rw [← offerWord_pointer]
        exact follows_push rfl fun _ => ⟨rfl, rfl, behind, rfl⟩

variable (nonempty : NonemptyWords vline)
include nonempty

theorem follows_terminal (token : Terminal) :
    Tracks env vline (Leaves vline) (cmdMatcherMatchTerminal (wholeLine env vline) token)
      (readTerminal env token) := by
  intro state args
  rw [cmdMatcherMatchTerminal]
  cases words : vline.drop state.wordIndex with
  | nil =>
    have late := drop_eq_nil_iff.mp words
    rw [getElem?_eq_none late, readTerminal]
    by_cases option : cmdOption token.cmd
    · rw [if_pos option, if_pos option]
      exact ⟨_, rfl, rfl, rfl, words, rfl⟩
    · rw [if_neg option, if_neg option]
      exact ⟨rfl, _, rfl, rfl⟩
  | cons word rest =>
    obtain ⟨found, behind⟩ := cons_of_drop words
    rw [found, readTerminal]
    dsimp only
    cases cmdWordMatch env token .relaxed word with
    | none => rfl
    | some type =>
      dsimp only
      by_cases unmatched : type = .noMatch
      · rw [if_pos unmatched, if_pos unmatched]
        exact ⟨rfl, _, rfl, rfl⟩
      rw [if_neg unmatched, if_neg unmatched, takeTerminal]
      by_cases vararg : cmdVararg token.cmd
      · rw [vararg, Bool.true_or, if_pos rfl, if_pos rfl]
        refine @follows_push env vline args (.given word) _ _ _ _ rfl fun room => ?_
        rw [finishTerminal_vararg vararg, behind]
        refine ⟨rfl, ?_, ?_, rfl⟩
        · rw [pushRest_eq]
          · rw [← grow_argVector, givenWords_pointer]
          · intro list member
            cases member
            rw [length_map, length_append, length_singleton]
            exact room
        · exact drop_eq_nil_iff.mpr (le_max_right _ _)
      rw [Bool.not_eq_true] at vararg
      rw [vararg, Bool.false_or, if_neg Bool.false_ne_true]
      by_cases isVariable : cmdVariable token.cmd
      · rw [if_pos isVariable, if_pos isVariable]
        refine @follows_push env vline args (.given word) _ _ _ _ rfl fun _ => ?_
        rw [finishTerminal_whole vararg]
        exact ⟨rfl, rfl, behind, rfl⟩
      rw [if_neg isVariable, if_neg isVariable]
      by_cases option : cmdOption token.cmd
      · rw [if_pos option, if_pos option]
        exact follows_option (nonempty word (mem_of_getElem? found)) vararg words
      · rw [if_neg option, if_neg option]
        refine ⟨_, rfl, ?_⟩
        rw [finishTerminal_whole vararg]
        exact ⟨rfl, rfl, behind, rfl⟩

theorem follows_arg (arg : KeywordArg) :
    Tracks env vline (Leaves vline) (matchKeywordArg (wholeLine env vline) arg)
      (readArg env arg) := by
  cases arg with
  | terminal token => exact follows_terminal nonempty token
  | multiple alternatives => exact follows_multiple alternatives

theorem follows_args (list : List KeywordArg) :
    Tracks env vline (Leaves vline) (matchKeywordArgs (wholeLine env vline) list)
      (readArgs env list) := by
  induction list with
  | nil => exact fun _ _ => ⟨_, rfl, rfl, rfl, rfl, rfl⟩
  | cons arg rest ih =>
    exact (follows_arg nonempty arg).andThen ih

/-- The keywords have been read up to the end of the line. -/
structure Collects (vline : List Word) (next : KeywordOutcome) (table : List (Nat × List OptionArg))
    (buffer : CStr) : Prop where
  rv : next.rv = .ok
  table : next.table = tableVector table
  words : vline.drop next.state.wordIndex = []
  szToken : next.state.szToken = buffer

theorem follows_keywords (parts : List KeywordPart) (fuel : Nat)
    (mask : List Nat) (state : MatcherState) (table : List (Nat × List OptionArg)) :
    Follows KeywordOutcome.rv (Collects vline)
      (cmdMatcherReadKeywords (wholeLine env vline) parts fuel mask state (tableVector table))
      (run .noMatch (bufferSpeaker env) state.szToken (readKeywords env parts fuel mask table
          (vline.drop state.wordIndex))) := by
  induction fuel generalizing mask state table with
  | zero => rfl
  | succ fuel ih =>
    cases words : vline.drop state.wordIndex with
    | nil =>
      rw [cmdMatcherReadKeywords, getElem?_eq_none (drop_eq_nil_iff.mp words)]
      exact ⟨_, rfl, rfl, rfl, words, rfl⟩
    | cons word rest =>
      obtain ⟨found, behind⟩ := cons_of_drop words
      rw [readKeywords_whole found, readKeywords]
      cases chooseKeyword env mask word 0 parts none .noMatch with
      | none => rfl
      | some choice =>
        cases choice with
        | none => exact ⟨rfl, _, rfl, rfl⟩
        | some number =>
          rw [Option.bind_some]
          dsimp only
          cases number.bind fun i => parts[i]?.map (i, ·) with
          | none => exact ⟨rfl, _, rfl, rfl⟩
          | some pick =>
            obtain ⟨i, part⟩ := pick
            have args := @follows_args env _ nonempty part.args state.advance []
            rw [show state.advance.wordIndex = state.wordIndex + 1 from rfl, behind] at args
            refine args.bind (fun next error => ⟨_, if_pos error, rfl⟩)
              fun next left buffer leaves => ?_
            obtain ⟨rv, middle, middleArgs⟩ := next
            obtain ⟨rfl, rfl, words, rfl⟩ := leaves
            have later := ih (i :: mask) middle (table ++ [(i, left.1)])
            rw [words] at later
            rw [tableVector, map_append] at later
            exact later

theorem follows_group (parts : List KeywordPart) :
    Tracks env vline (Leaves vline) (cmdMatcherMatchKeyword (wholeLine env vline) parts)
      (readGroup env vline.length parts) := by
  intro state args
  have unfolded : cmdMatcherMatchKeyword (wholeLine env vline) parts state (argVector args) =
      (cmdMatcherReadKeywords (wholeLine env vline) parts (vline.length + 1)
        [] state (tableVector [])).bind fun reader =>
          some ⟨if !reader.rv.isError && (cmdMatcherBuildKeywordArgs parts
              (argVector args) reader.table).1.isError then
              (cmdMatcherBuildKeywordArgs parts (argVector args) reader.table).1
            else reader.rv, reader.state,
            (cmdMatcherBuildKeywordArgs parts (argVector args) reader.table).2⟩ := by
    have same : (argVector args).map (fun _ => []) = tableVector [] := rfl
    rw [cmdMatcherMatchKeyword, same]
    cases cmdMatcherReadKeywords (wholeLine env vline) parts
        (vline.length + 1) [] state (tableVector []) with
    | none => rfl
    | some reader => rfl
  rw [unfolded, readGroup]
  refine (follows_keywords nonempty parts (vline.length + 1) [] state
    []).bind (fun reader error => ⟨_, rfl, ?_⟩)
    fun reader table buffer collects => ?_
  · rw [error]
    rfl
  · obtain ⟨rv, last, rows⟩ := reader
    obtain ⟨rfl, rfl, words, rfl⟩ := collects
    have built := buildKeywordArgs_argVector parts args table
    by_cases fits : args.length + (partsArgs parts table).length ≤ cmdArgcMax
    · rw [if_pos fits] at built
      simp only [built]
      rw [if_pos fits]
      exact ⟨_, rfl, rfl, rfl, words, rfl⟩
    · rw [if_neg fits] at built
      simp only [built]
      rw [if_neg fits]
      exact ⟨rfl, _, rfl, rfl⟩

theorem follows_token (token : CmdToken) :
    Tracks env vline (Leaves vline) (matchToken (wholeLine env vline) token)
      (readToken env vline.length token) := by
  cases token with
  | terminal token => exact follows_terminal nonempty token
  | multiple alternatives => exact follows_multiple alternatives
  | keyword parts => exact follows_group nonempty parts

structure Completes (next : Outcome) (args : List OptionArg) (buffer : CStr) : Prop where
  rv : next.rv = .complete
  args : next.args = argVector args
  szToken : next.state.szToken = buffer

theorem follows_tokens (tokens : List CmdToken) :
    Tracks env vline Completes (matchTokens (wholeLine env vline) tokens)
      (readTokens env vline.length tokens) := by
  induction tokens with
  | nil =>
    intro state args
    rw [matchTokens, readTokens]
    by_cases finished : vline.drop state.wordIndex = []
    · have late := drop_eq_nil_iff.mp finished
      rw [if_pos finished, endOfTokens, if_pos late]
      exact ⟨_, rfl, rfl, rfl, rfl⟩
    · have refused : endOfTokens (wholeLine env vline) state = .noMatch := by
        cases ending : (endOfTokens (wholeLine env vline) state).isError with
        | false =>
          exact absurd (endOfTokens_complete nonempty ending).1 finished
        | true =>
          unfold endOfTokens at ending ⊢
          split at ending
          · cases ending
          rename_i early
          rw [if_neg early]
          split at ending
          · cases ending
          rename_i more
          rw [if_neg more]
      rw [if_neg finished, refused]
      exact ⟨rfl, _, rfl, rfl⟩
  | cons token rest ih =>
    exact (follows_token nonempty token).andThen ih

/-- The matcher of the source is the run of the dialogue in which the buffer
answers. -/
theorem follows_command (command : CmdElement) (szToken : CStr) :
    Follows Outcome.rv Completes (cmdElementMatch (wholeLine env vline) command.tokens szToken true)
      (run .noMatch (bufferSpeaker env) szToken (commandDialogue env vline command)) :=
  follows_tokens nonempty command.tokens (cmdMatcherInit szToken) []

end

end OpsCli.Command.OptionDialogue
