import OpsCli.Command.ExactReading
import OpsCli.Command.Execute
import OpsCli.Command.Origin

/-!
# The record of an executed command

The record is written by a second, simpler matcher.  A word is held against
the text that `cmd_token` points to and replaced by it when it begins that
text.  The pointer is not always at the token that the parser chose for the
word: it may be at a variable, at the last alternative that matches, at a
keyword that an argument word happens to begin, or at the rest of an earlier
keyword.  The record is faithful if no word begins such a text, other than the
word itself and the fixed word chosen for it, and if every word has a token to
be held against or comes behind `.LINE`.
-/

namespace OpsCli.Command.Record

open CLib.CString Token WordMatch Matcher Reading Acceptance ExactReading
  Origin Recording Selection Execute Autocomplete List

/-! ## The words of a record -/

def Solid (text : CStr) : Prop :=
  text ≠ [] ∧ ' ' ∉ text

instance (text : CStr) : Decidable (Solid text) :=
  inferInstanceAs (Decidable (text ≠ [] ∧ ' ' ∉ text))

def spaceWords (text : CStr) : List CStr :=
  (text.splitOn ' ').filter (· ≠ [])

def record (words : List CStr) : CStr :=
  words.flatMap (· ++ [' '])

variable {words : List CStr} {env : MatchEnv} {tokens : List CmdToken}

theorem spaceWords_record (solid : ∀ word ∈ words, Solid word) :
    spaceWords (record words) = words := by
  induction words with
  | nil => rfl
  | cons word words ih =>
    obtain ⟨⟨nonempty, spaceless⟩, later⟩ := forall_mem_cons.mp solid
    have here : (word ++ ' ' :: record words).splitOn ' ' = word :: (record words).splitOn ' ' := by
      refine splitOnP_append_cons_of_forall_mem ?_ _ (by rfl) _
      intro c member
      exact beq_false_of_ne fun equal => spaceless (equal ▸ member)
    have split : record (word :: words) = word ++ ' ' :: record words := by
      rw [record, flatMap_cons, append_assoc]
      rfl
    rw [spaceWords, split, here, filter_cons, if_pos (decide_eq_true nonempty)]
    exact congrArg _ (ih later)

/-! ## The fixed words that were chosen -/

/-- The text of a fixed word. -/
def fixedText (cmd : CStr) : Option CStr :=
  if isFixed cmd then some cmd else none

/-- The word inside an option. -/
def optionWord (cmd : CStr) : CStr :=
  (cmd.drop 1).take (cmd.length - 2)

section

variable (env : MatchEnv)

def argChosen : ArgReading → List (Option CStr)
  | .terminal token _ => [fixedText token.cmd]
  | .option token _ _ => [fixedText (optionWord token.cmd)]
  | .missing _ => []
  | .vararg _ _ rest => none :: rest.map fun _ => none
  | .multiple alternatives word =>
    [(bestOffer (offers env .relaxed alternatives word)).bind fun offer => fixedText offer.1.cmd]

def useChosen (parts : List KeywordPart) (use : KeywordUse) : List (Option CStr) :=
  (parts[use.index]?.bind fun part => fixedText part.keyword.cmd) ::
    use.args.flatMap (argChosen env)

def tokenChosen : TokenReading → List (Option CStr)
  | .arg reading => argChosen env reading
  | .keyword parts uses => uses.flatMap (useChosen env parts)

def chosenWords (readings : List TokenReading) : List (Option CStr) :=
  readings.flatMap (tokenChosen env)

end

theorem argChosen_length (env : MatchEnv) (reading : ArgReading) : (argChosen env reading).length =
      (reading.wordOffers env .relaxed).length := by
  cases reading with
  | vararg token word rest =>
    rw [argChosen, ArgReading.wordOffers, length_cons, length_cons, length_map, length_map]
  | _ => rfl

theorem usesChosen_length (env : MatchEnv) (parts : List KeywordPart) (mask : List Nat)
    (uses : List KeywordUse) :
    (uses.flatMap (useChosen env parts)).length =
      (usesOffers env .relaxed parts mask uses).length := by
  induction uses generalizing mask with
  | nil => rfl
  | cons use uses ih =>
    rw [flatMap_cons, usesOffers, length_append, length_append, ih (use.index :: mask),
      useChosen, length_cons,
      length_cons, length_flatMap, length_flatMap]
    simp only [argChosen_length]

theorem chosenWords_length {words : List Word} {readings : List TokenReading}
    (reads : ReadsTokens env .relaxed tokens words readings) :
    (chosenWords env readings).length = words.length := by
  rw [readsTokens_length reads, chosenWords, length_flatMap, length_flatMap]
  refine congrArg List.sum (map_congr_left fun reading _ => ?_)
  cases reading with
  | arg reading => exact argChosen_length env reading
  | keyword parts uses => exact usesChosen_length env parts [] uses

/-- A word of the line and the fixed word that was chosen for it. -/
abbrev Source := CStr × Option CStr

/-- What is written for a word is the word itself or the fixed word that was
chosen for it. -/
def Kept (written : CStr) (source : Source) : Prop :=
  written = source.1 ∨ source.2 = some written

/-- The record has a word for each word of the line. -/
def Faithful (vline : List CStr) (chosen : List (Option CStr)) (text : CStr) : Prop :=
  Forall₂ Kept (spaceWords text) (vline.zip chosen)

/-! ## Lines that are recorded -/

/-- The word may be held against a text: it does not begin it, or the text is
the word itself or the fixed word chosen for it. -/
def Safe (text : CStr) (source : Source) : Prop :=
  source.1 <+: text → Kept text source

/-- Word by word, the tokens can be held against the line.  Of a choice, any
alternative that matches may be the last one.  In a keyword group a word is
held against a keyword or against the rest that earlier words have left of
one.  Words behind the tokens are copied only after `.LINE`. -/
def Recordable (env : MatchEnv) : List CmdToken → List Source → Prop
  | _, [] => True
  | [], _ :: _ => False
  | .terminal token :: tokens, source :: line =>
    Safe token.cmd source ∧ (Recordable env tokens line ∨
      tokens = [] ∧ token.cmd = ".LINE" ∧ source.1.head? ≠ some '.')
  | .multiple alternatives :: tokens, source :: line =>
    (∃ token ∈ alternatives, Matches env .relaxed token (some source.1)) ∧
    (∀ token ∈ alternatives, ∃ type, cmdWordMatch env token .relaxed (some source.1) = some type ∧
      (type ≠ .noMatch → Safe token.cmd source)) ∧
    Recordable env tokens line
  | .keyword parts :: _, source :: line =>
    (∃ part ∈ parts, Matches env .relaxed part.keyword (some source.1)) ∧
    ∀ other ∈ source :: line, ∀ part ∈ parts,
      cmdWordMatch env part.keyword .relaxed (some other.1) ≠ none ∧
      ∀ text, text <:+ part.keyword.cmd → Safe text other

/-! ## One word -/

theorem advance_fst (word text : CStr) : (advance word text).1 = word.isPrefixOf text := by
  induction word generalizing text with
  | nil => rfl
  | cons c word ih =>
    cases text with
    | nil => rfl
    | cons d text =>
      rw [advance, isPrefixOf_cons_cons]
      by_cases same : c = d
      · rw [if_pos same, same, beq_self_eq_true, Bool.true_and]
        exact ih text
      · rw [if_neg same, beq_false_of_ne same, Bool.false_and]

theorem advance_suffix (word text : CStr) : (advance word text).2 <:+ text := by
  induction word generalizing text with
  | nil => exact suffix_refl text
  | cons c word ih =>
    cases text with
    | nil => exact suffix_refl []
    | cons d text =>
      rw [advance]
      split
      · exact (ih text).trans (suffix_cons d text)
      · exact suffix_refl _

variable {text cmdString : CStr} {source : Source} {line : List Source}

theorem completeWord_some (solid : Solid source.1) (spaceless : ' ' ∉ text)
    (safe : Safe text source) (cmdString : CStr) (words : List (Option CStr)) :
    ∃ written, completeWord (some text) cmdString (some source.1) words =
        some ⟨some (advance source.1 text).2, cmdString ++ record [written], words⟩ ∧
      Kept written source ∧ Solid written := by
  have begins : source.1.isPrefixOf text ↔ source.1 <+: text := by simp
  rw [completeWord, advance_fst, append_assoc]
  split
  · rename_i starts
    have start := begins.mp starts
    refine ⟨text, by simp [record], safe start, ?_, spaceless⟩
    rintro rfl
    exact solid.1 (prefix_nil.mp start)
  · exact ⟨source.1, by simp [record], .inl rfl, solid⟩

theorem lastMatch_some {word : CStr} {list : List Terminal} {pointer : Option CStr}
    (defined : ∀ token ∈ list, cmdWordMatch env token .relaxed (some word) ≠ none)
    (ready : pointer ≠ none ∨ ∃ token ∈ list, Matches env .relaxed token (some word)) :
    ∃ text, lastMatch env (some word) list pointer = some (some text) ∧
      ((∃ token ∈ list, Matches env .relaxed token (some word) ∧ token.cmd = text) ∨
        pointer = some text ∧ ∀ token ∈ list, ¬ Matches env .relaxed token (some word)) := by
  induction list generalizing pointer with
  | nil =>
    obtain ⟨text, rfl⟩ := Option.ne_none_iff_exists'.mp (ready.resolve_right (by simp))
    exact ⟨text, rfl, .inr ⟨rfl, nofun⟩⟩
  | cons token rest ih =>
    obtain ⟨here, later⟩ := forall_mem_cons.mp defined
    obtain ⟨type, answer⟩ := Option.ne_none_iff_exists'.mp here
    have matches_iff : Matches env .relaxed token (some word) ↔ type ≠ .noMatch := by
      simp [Matches, answer]
    rw [lastMatch, answer]
    dsimp only
    by_cases unmatched : type = .noMatch
    · rw [if_pos unmatched]
      have missed : ¬ Matches env .relaxed token (some word) := by simp [matches_iff, unmatched]
      obtain ⟨text, run, found⟩ := ih later (ready.imp_right (by simp [missed]))
      exact ⟨text, run, by simpa [missed] using found⟩
    · rw [if_neg unmatched]
      obtain ⟨text, run, found⟩ := ih later (.inl (Option.some_ne_none token.cmd))
      refine ⟨text, run, .inl ?_⟩
      rcases found with ⟨other, member, found⟩ | ⟨same, _⟩
      · exact ⟨other, mem_cons_of_mem _ member, found⟩
      · exact ⟨token, mem_cons_self, matches_iff.mpr unmatched, Option.some.inj same⟩

theorem lastMatch_of_matching {word : CStr} {list : List Terminal} (pointer : Option CStr)
    (defined : ∀ token ∈ list, cmdWordMatch env token .relaxed (some word) ≠ none)
    (matching : ∃ token ∈ list, Matches env .relaxed token (some word)) :
    ∃ token ∈ list, Matches env .relaxed token (some word) ∧
      lastMatch env (some word) list pointer = some (some token.cmd) := by
  obtain ⟨_, run, ⟨found, inside, matched, rfl⟩ | ⟨_, missed⟩⟩ :=
    @lastMatch_some _ _ _ pointer defined (.inr matching)
  · exact ⟨found, inside, matched, run⟩
  · obtain ⟨token, member, found⟩ := matching
    exact absurd found (missed token member)

/-! ## The record of a line -/

def wordsOf (line : List Source) : List (Option CStr) :=
  line.map fun source => some source.1

/-- The terminals of a token that words are held against. -/
def held : CmdToken → List Terminal
  | .terminal token => [token]
  | .multiple alternatives => alternatives
  | .keyword parts => parts.map KeywordPart.keyword

/-- The text has no blank in it, and no ending of it is `alias`. -/
def Plain (text : CStr) : Prop :=
  ' ' ∉ text ∧ ¬ "alias".toList <:+ text

instance (text : CStr) : Decidable (Plain text) :=
  inferInstanceAs (Decidable (_ ∧ _))

theorem Plain.suffix {ending : CStr} (plain : Plain text) (suffix : ending <:+ text) :
    Plain ending :=
  ⟨fun inside => plain.1 (suffix.mem inside), fun ends => plain.2 (ends.trans suffix)⟩

theorem Plain.notAlias (plain : Plain text) : atAlias (some text) = false := by
  refine decide_eq_false fun same => plain.2 ?_
  obtain rfl := Option.some.inj same
  exact suffix_refl _

theorem record_append (first second : List CStr) :
    record (first ++ second) = record first ++ record second :=
  flatMap_append

theorem appendWords_wordsOf (line : List Source) (cmdString : CStr) :
    appendWords (wordsOf line) cmdString = some (cmdString ++ record (line.map Prod.fst)) := by
  induction line generalizing cmdString with
  | nil =>
    rw [map_nil, record, flatMap_nil, append_nil]
    rfl
  | cons source line ih =>
    rw [wordsOf, map_cons, appendWords]
    refine (ih _).trans ?_
    simp [record]

/-- A record that began with `cmdString` goes on with a word for each word of
the line. -/
def Records (cmdString : CStr) (line : List Source) (result : Option CStr) : Prop :=
  ∃ written, result = some (cmdString ++ record written) ∧ Forall₂ Kept written line ∧
    ∀ word ∈ written, Solid word

theorem Records.cons {written : CStr} {result : Option CStr} (kept : Kept written source)
    (solid : Solid written) (later : Records (cmdString ++ record [written]) line result) :
    Records cmdString (source :: line) result := by
  obtain ⟨rest, rfl, others, solids⟩ := later
  refine ⟨written :: rest, ?_, .cons kept others, forall_mem_cons.mpr ⟨solid, solids⟩⟩
  rw [append_assoc, ← record_append]
  rfl

/-- The end of `autocomplete_command_tokens`. -/
def finish (state : Completion) : Option CStr :=
  match state.cmdToken with
  | none => none
  | some cmdToken =>
    if cmdToken = ".LINE" then
      appendWords state.words state.cmdString
    else some state.cmdString

/-- `autocomplete_command_tokens` behind a token. -/
def resume (env : MatchEnv) (tokens : List CmdToken) (state : Completion) : Option CStr :=
  (if atAlias state.cmdToken then some state else completeTokens env tokens state).bind finish

theorem resume_start (env : MatchEnv) (tokens : List CmdToken) (vline : List (Option CStr))
    (cmdString : CStr) :
    autocompleteCommandTokens env tokens vline cmdString =
      resume env tokens ⟨none, cmdString, vline⟩ := by
  rw [autocompleteCommandTokens, resume, if_neg nofun]
  cases completeTokens env tokens ⟨none, cmdString, vline⟩ <;> rfl

theorem resume_cons (token : CmdToken) {state : Completion}
    (goesOn : atAlias state.cmdToken = false) :
    resume env (token :: tokens) state =
      (completeToken env token state).bind (resume env tokens) := by
  rw [resume, goesOn, if_neg Bool.false_ne_true, completeTokens]
  cases completeToken env token state <;> rfl

theorem records_done (tokens : List CmdToken) (plain : Plain text) :
    Records cmdString [] (resume env tokens ⟨some text, cmdString, []⟩) := by
  induction tokens with
  | nil =>
    refine ⟨[], ?_, .nil, nofun⟩
    rw [resume, plain.notAlias, if_neg Bool.false_ne_true, completeTokens, Option.bind_some, finish,
      record, flatMap_nil, append_nil]
    dsimp only
    split <;> rfl
  | cons token tokens ih =>
    rw [resume_cons token plain.notAlias]
    cases token <;> exact ih

/-- A keyword group takes every word that is left. -/
theorem records_keywordLoop {keywords : List Terminal} {pointer : Option CStr}
    (tokens : List CmdToken) (plain : ∀ token ∈ keywords, Plain token.cmd)
    (solid : ∀ source ∈ line, Solid source.1)
    (safe : ∀ source ∈ line, ∀ token ∈ keywords,
      cmdWordMatch env token .relaxed (some source.1) ≠ none ∧
      ∀ text, text <:+ token.cmd → Safe text source)
    (ready : (∃ text ∈ pointer, ∃ token ∈ keywords, text <:+ token.cmd) ∨
      ∃ source ∈ line.head?, ∃ token ∈ keywords, Matches env .relaxed token (some source.1)) :
    Records cmdString line ((keywordLoop env keywords (wordsOf line) pointer cmdString).bind
      (resume env tokens)) := by
  induction line generalizing pointer cmdString with
  | nil =>
    obtain ⟨text, rfl, token, member, suffix⟩ := ready.resolve_right (by simp)
    exact records_done tokens ((plain token member).suffix suffix)
  | cons source line ih =>
    obtain ⟨here, later⟩ := forall_mem_cons.mp solid
    obtain ⟨safeHere, safeLater⟩ := forall_mem_cons.mp safe
    have first : ∃ token ∈ keywords, ∃ text, text <:+ token.cmd ∧
        lastMatch env (some source.1) keywords pointer = some (some text) := by
      rcases ready with ⟨text, rfl, token, member, suffix⟩ | ⟨_, ⟨⟩, matching⟩
      · obtain ⟨other, run, ⟨found, inside, _, rfl⟩ | ⟨same, _⟩⟩ := lastMatch_some
          (fun token member => (safeHere token member).1) (.inl (Option.some_ne_none text))
        · exact ⟨found, inside, _, suffix_refl _, run⟩
        · exact ⟨token, member, other, Option.some.inj same ▸ suffix, run⟩
      · obtain ⟨found, inside, _, run⟩ := lastMatch_of_matching pointer
          (fun token member => (safeHere token member).1) matching
        exact ⟨found, inside, _, suffix_refl _, run⟩
    obtain ⟨token, member, text, suffix, run⟩ := first
    have clean := (plain token member).suffix suffix
    obtain ⟨written, complete, kept, solidWord⟩ := completeWord_some here clean.1
      ((safeHere token member).2 text suffix) cmdString (wordsOf line)
    rw [wordsOf, map_cons, keywordLoop, run]
    dsimp only
    rw [clean.notAlias, if_neg Bool.false_ne_true, ← wordsOf, complete]
    exact .cons kept solidWord (ih later safeLater
      (.inl ⟨_, rfl, token, member, (advance_suffix _ _).trans suffix⟩))

theorem records_jump (plain : Plain text) (solid : Solid source.1) (safe : Safe text source)
    (later : ∀ cmdString, Records cmdString line
      (resume env tokens ⟨some (advance source.1 text).2, cmdString, wordsOf line⟩)) :
    Records cmdString (source :: line) ((jump (some text) cmdString (some source.1)
      (wordsOf line)).bind (resume env tokens)) := by
  obtain ⟨written, complete, kept, solidWord⟩ :=
    completeWord_some solid plain.1 safe cmdString (wordsOf line)
  rw [jump, plain.notAlias, if_neg Bool.false_ne_true, complete]
  exact .cons kept solidWord (later _)

theorem records_copied (plain : Plain ".LINE".toList) (solid : ∀ source ∈ line, Solid source.1) :
    Records cmdString line (resume env [] ⟨some ".LINE".toList, cmdString, wordsOf line⟩) := by
  refine ⟨line.map Prod.fst, ?_, ?_, by simpa using solid⟩
  · rw [resume, plain.notAlias, if_neg Bool.false_ne_true, completeTokens, Option.bind_some, finish]
    exact (if_pos rfl).trans (appendWords_wordsOf line cmdString)
  · rw [forall₂_map_left_iff]
    exact forall₂_same.mpr fun _ _ => .inl rfl

/-- A word that does not begin with a dot leaves the pointer at `.LINE`. -/
theorem advance_line {word : CStr} (undotted : word.head? ≠ some '.') :
    (advance word ".LINE".toList).2 = ".LINE".toList := by
  cases word with
  | nil => rfl
  | cons c rest => exact congrArg Prod.snd (if_neg fun same => undotted (congrArg some same))

theorem records_multiple {alternatives : List Terminal} (pointer : Option CStr)
    (plain : ∀ token ∈ alternatives, Plain token.cmd) (solid : Solid source.1)
    (matching : ∃ token ∈ alternatives, Matches env .relaxed token (some source.1))
    (safe : ∀ token ∈ alternatives, ∃ type,
      cmdWordMatch env token .relaxed (some source.1) = some type ∧
        (type ≠ .noMatch → Safe token.cmd source))
    (later : ∀ text, Plain text → ∀ cmdString, Records cmdString line
      (resume env tokens ⟨some (advance source.1 text).2, cmdString, wordsOf line⟩)) :
    Records cmdString (source :: line) ((completeToken env (.multiple alternatives)
      ⟨pointer, cmdString, wordsOf (source :: line)⟩).bind (resume env tokens)) := by
  obtain ⟨found, inside, ⟨type, answer, matched⟩, run⟩ := lastMatch_of_matching pointer
    (fun token member => (safe token member).elim fun _ both => by simp [both.1]) matching
  obtain ⟨_, again, keeps⟩ := safe found inside
  cases again.symm.trans answer
  have step : completeToken env (.multiple alternatives)
      ⟨pointer, cmdString, wordsOf (source :: line)⟩ =
        jump (some found.cmd) cmdString (some source.1) (wordsOf line) := by
    simp only [completeToken, wordsOf, map_cons, run]
  rw [step]
  exact records_jump (plain found inside) solid (keeps matched) (later _ (plain found inside))

/-- The tokens of an element, from one of them on. -/
theorem records_resume {pointer : Option CStr} (recordable : Recordable env tokens line)
    (plain : ∀ token ∈ tokens, ∀ terminal ∈ held token, Plain terminal.cmd)
    (solid : ∀ source ∈ line, Solid source.1) (before : ∀ text ∈ pointer, Plain text)
    (ready : pointer ≠ none ∨ line ≠ []) :
    Records cmdString line (resume env tokens ⟨pointer, cmdString, wordsOf line⟩) := by
  induction tokens generalizing pointer cmdString line with
  | nil =>
    cases line with
    | nil =>
      obtain ⟨text, rfl⟩ := Option.ne_none_iff_exists'.mp (ready.resolve_right (by simp))
      exact records_done [] (before text rfl)
    | cons source line => cases recordable
  | cons token tokens ih =>
    obtain ⟨plainHere, plainLater⟩ := forall_mem_cons.mp plain
    cases line with
    | nil =>
      obtain ⟨text, rfl⟩ := Option.ne_none_iff_exists'.mp (ready.resolve_right (by simp))
      exact records_done (token :: tokens) (before text rfl)
    | cons source line =>
      obtain ⟨solidHere, solidLater⟩ := forall_mem_cons.mp solid
      have goesOn {text : CStr} (clean : Plain text) (recordable : Recordable env tokens line)
          (cmdString : CStr) : Records cmdString line
            (resume env tokens ⟨some (advance source.1 text).2, cmdString, wordsOf line⟩) := by
        refine ih recordable plainLater solidLater ?_ (.inl (Option.some_ne_none _))
        rintro _ ⟨⟩
        exact clean.suffix (advance_suffix _ _)
      rw [resume_cons]
      · cases token with
        | terminal token =>
          have clean := plainHere token mem_cons_self
          obtain ⟨safe, later | ⟨rfl, atLine, undotted⟩⟩ := recordable
          · exact records_jump clean solidHere safe (goesOn clean later)
          · refine records_jump clean solidHere safe fun cmdString => ?_
            rw [atLine] at clean ⊢
            rw [advance_line undotted]
            exact records_copied clean solidLater
        | multiple alternatives =>
          obtain ⟨matching, safe, later⟩ := recordable
          exact records_multiple pointer plainHere solidHere matching safe
            fun _ clean => goesOn clean later
        | keyword parts =>
          obtain ⟨⟨part, member, found⟩, safe⟩ := recordable
          refine records_keywordLoop tokens plainHere solid ?_
            (.inr ⟨source, rfl, _, mem_map_of_mem member, found⟩)
          intro other inside token there
          obtain ⟨part, member, rfl⟩ := mem_map.mp there
          exact safe other inside part member
      · cases pointer with
        | none => rfl
        | some text => exact (before text rfl).notAlias

theorem reads_of_cmdParse {command : CmdElement} {vline : List CStr} {szToken after : CStr}
    {argv : List Arg} (solid : ∀ word ∈ vline, Solid word)
    (parsed : cmdParse env (vline.map some) command szToken = some (.success, argv, after)) :
    ∃ readings, ReadsTokens env .relaxed command.tokens (vline.map some) readings := by
  obtain ⟨next, run, same⟩ := Option.map_eq_some_iff.mp parsed
  have status : parseStatus next.rv = .success := congrArg Prod.fst same
  have noError : next.rv.isError = false := by
    cases rv : next.rv with
    | complete => rfl
    | _ =>
      rw [rv] at status
      cases status
  have nonempty : NonemptyWords (vline.map some) := by
    intro word member
    obtain ⟨text, inside, rfl⟩ := mem_map.mp member
    have notEmpty := (solid text inside).1
    simp [isEmptyWord, notEmpty]
  obtain ⟨readings, reads, _⟩ := matchTokens_reads rfl nonempty (fits_emptied (some [])) run noError
  exact ⟨readings, reads⟩

def hostname : CmdElement where
  string := "hostname WORD"
  tokens := [.terminal ⟨"hostname".toList, none, none⟩, .terminal ⟨"WORD".toList, none, none⟩]

end OpsCli.Command.Record
