import OpsCli.Command.Binding
import OpsCli.Command.Origin
import OpsCli.Command.Survival
import OpsCli.Command.Trace

/-!
# Typed arguments of handlers

Under the relaxed filter the beginning of an address matches its token.  It is
the ambiguity pass that refuses such a word, and only if the match type of the
token is the strongest one at this word.  This module says for which tokens of
a table a word reaches the handler checked by the matcher of its own token.
-/

namespace OpsCli.Command.TypedArguments

open CLib.CString Token Address RangeList WordMatch Matcher Reading Acceptance
  Recording Binding Origin Selection Survival Authorization Execute Trace List

/-! ## Typed tokens -/

/-- The tokens with a matcher of their own. -/
inductive TypedKind where
  | ipv4
  | ipv4Prefix
  | ipv4Netmask
  | ipv6
  | ipv6Prefix
  | range
deriving DecidableEq, Repr

/-- The kind of a token text; list tokens have none. -/
def typedKind (cmd : CStr) : Option TypedKind :=
  if cmdIpv4 cmd then some .ipv4
  else if cmdIpv4Prefix cmd then some .ipv4Prefix
  else if cmdIpv4Netmask cmd then some .ipv4Netmask
  else if cmdIpv6 cmd then some .ipv6
  else if cmdIpv6Prefix cmd then some .ipv6Prefix
  else if cmdRange cmd && listOperator cmd = none then some .range
  else none

def ownMatcherAccepts (env : MatchEnv) (kind : TypedKind) (cmd word : CStr) : Bool :=
  match kind with
  | .ipv4 => cmdIpv4Match word = .exactMatch
  | .ipv4Prefix => cmdIpv4PrefixMatch word = .exactMatch
  | .ipv4Netmask => cmdIpv4NetmaskMatch word = .exactMatch
  | .ipv6 => cmdIpv6Match env.inetPton6 word = .exactMatch
  | .ipv6Prefix => cmdIpv6PrefixMatch word = .exactMatch
  | .range => cmdRangeMatch cmd word

/-- If the token of a binding is typed, its matcher accepts the word. -/
def Exact (env : MatchEnv) (binding : Terminal × Word) : Prop :=
  ∀ kind, typedKind binding.1.cmd = some kind → ∃ text, binding.2 = some text ∧
      ownMatcherAccepts env kind binding.1.cmd text

/-! ## Tokens that are not checked -/

def offersToken (table : List CmdElement) (form : CStr → Bool) : Bool :=
  table.any fun command =>
    !command.hidden && (terminals command.tokens).any fun token => form token.cmd

/-- A list token `<L:..>`. -/
def isRangeList (cmd : CStr) : Bool :=
  cmdRange cmd && listOperator cmd = some .rangeOperator

/-- The kinds of tokens for which the ambiguity pass may let the beginning of
an address through. -/
def unchecked (table : List CmdElement) (command : CmdElement) : TypedKind → Bool
  | .ipv4 => true
  | .ipv4Prefix =>
    command.hidden || offersToken table cmdVararg ||
      offersToken table isRangeList || offersToken table cmdIpv6Prefix
  | .ipv4Netmask =>
    command.hidden || offersToken table cmdVararg ||
      offersToken table isRangeList || offersToken table cmdIpv6Prefix ||
      offersToken table cmdIpv4Prefix
  | .ipv6 => false
  | .ipv6Prefix =>
    command.hidden || offersToken table cmdVararg || offersToken table isRangeList
  | .range => false

/-! ## Answers for typed tokens -/

/-- The match type of a kind. -/
def kindMatchType : TypedKind → MatchType
  | .ipv4 => .ipv4Match
  | .ipv4Prefix => .ipv4PrefixMatch
  | .ipv4Netmask => .ipv4NetmaskMatch
  | .ipv6 => .ipv6Match
  | .ipv6Prefix => .ipv6PrefixMatch
  | .range => .rangeMatch

variable {matched : Option CStr} {readings : List TokenReading} {answer result : MatchType}
  {kind : TypedKind} {accepts : Bool} {cmd : CStr}

theorem typedKind_text (found : typedKind cmd = some kind) :
    match kind with
    | .ipv4 => cmd = "A.B.C.D"
    | .ipv4Prefix => cmd = "A.B.C.D/M"
    | .ipv4Netmask => cmd = "A.B.C.D/W.X.Y.Z"
    | .ipv6 => cmd = "X:X::X:X"
    | .ipv6Prefix => cmd = "X:X::X:X/M"
    | .range => cmdRange cmd ∧ listOperator cmd = none := by
  unfold typedKind at found
  split at found
  · cases found
    exact of_decide_eq_true ‹_›
  split at found
  · cases found
    exact of_decide_eq_true ‹_›
  split at found
  · cases found
    exact of_decide_eq_true ‹_›
  split at found
  · cases found
    exact of_decide_eq_true ‹_›
  split at found
  · cases found
    exact of_decide_eq_true ‹_›
  split at found
  · cases found
    rename_i range
    rw [Bool.and_eq_true] at range
    exact ⟨range.1, of_decide_eq_true range.2⟩
  · cases found

variable {type : MatchType} {env : MatchEnv} {word : CStr} {filter : FilterType}
  {token : Terminal} {vline : List Word}
  {table : List CmdElement} {after : Option CStr} {command : CmdElement}

theorem addressMatch_relaxed (same : addressMatch .relaxed type answer = result)
    (matched : result ≠ .noMatch) : result = type ∧ answer ≠ .noMatch := by
  subst same
  unfold addressMatch matchIf at matched ⊢
  split at matched
  · rename_i accepted
    rw [if_pos accepted]
    simpa using accepted
  · exact absurd rfl matched

/-- A word that matches a typed token does so with the type of its kind; for
two kinds this already means that the matcher accepts the word. -/
theorem typed_answer (found : typedKind cmd = some kind)
    (answer : cmdWordMatchText env cmd .relaxed word = some type) (matched : type ≠ .noMatch) :
    type = kindMatchType kind ∧ (kind = .ipv6 ∨ kind = .range →
        ownMatcherAccepts env kind cmd word) := by
  cases kind with
  | ipv4 =>
    obtain rfl : cmd = "A.B.C.D" := typedKind_text found
    exact ⟨(addressMatch_relaxed (Option.some.inj answer) matched).1, nofun⟩
  | ipv4Prefix =>
    obtain rfl : cmd = "A.B.C.D/M" := typedKind_text found
    exact ⟨(addressMatch_relaxed (Option.some.inj answer) matched).1, nofun⟩
  | ipv4Netmask =>
    obtain rfl : cmd = "A.B.C.D/W.X.Y.Z" := typedKind_text found
    exact ⟨(addressMatch_relaxed (Option.some.inj answer) matched).1, nofun⟩
  | ipv6 =>
    obtain rfl : cmd = "X:X::X:X" := typedKind_text found
    obtain ⟨same, accepted⟩ := addressMatch_relaxed (Option.some.inj answer) matched
    exact ⟨same, fun _ => decide_eq_true (cmdIpv6Match_exact accepted)⟩
  | ipv6Prefix =>
    obtain rfl : cmd = "X:X::X:X/M" := typedKind_text found
    exact ⟨(addressMatch_relaxed (Option.some.inj answer) matched).1, nofun⟩
  | range =>
    obtain ⟨range, noList⟩ := typedKind_text found
    have notVararg : cmdVararg cmd = false := by
      simp only [cmdRange, decide_eq_true_eq] at range
      simp [cmdVararg, range]
    unfold cmdWordMatchText rangeWordMatch at answer
    rw [notVararg, range, noList] at answer
    simp only [Bool.false_eq_true, if_false, if_true, Option.some.injEq, matchIf] at answer
    subst answer
    split at matched
    · rename_i accepted
      rw [if_pos accepted]
      exact ⟨rfl, fun _ => accepted⟩
    · exact absurd rfl matched

/-! ## Match types and the table -/

/-- The form of the tokens that give a match type, where it matters. -/
def typeForm : MatchType → CStr → Bool
  | .varargMatch => cmdVararg
  | .rangeMatchList => isRangeList
  | .ipv6PrefixMatch => cmdIpv6Prefix
  | .ipv4PrefixMatch => cmdIpv4Prefix
  | _ => fun _ => true

theorem typeForm_matchIf (form : typeForm type cmd) :
    typeForm (matchIf type accepts) cmd := by
  unfold matchIf
  split
  · exact form
  · rfl

theorem typeForm_rangeWordMatch (range : cmdRange cmd)
    (answer : rangeWordMatch env cmd word = some type) : typeForm type cmd := by
  unfold rangeWordMatch at answer
  split at answer
  · rename_i operator found
    obtain ⟨accepts, _, rfl⟩ := Option.map_eq_some_iff.mp answer
    refine typeForm_matchIf ?_
    cases operator with
    | commaOperator => rfl
    | rangeOperator =>
      change isRangeList cmd
      rw [isRangeList, range, found]
      rfl
    | bothOperator => rfl
  · cases answer
    exact typeForm_matchIf rfl

theorem typeForm_fixedWordMatch (filter : FilterType) (cmd word : CStr) :
    typeForm (fixedWordMatch filter cmd word) cmd := by
  unfold fixedWordMatch
  split
  · split
    · split <;> rfl
    · rfl
  · exact typeForm_matchIf rfl

theorem typeForm_some_matchIf (form : typeForm type cmd)
    (answer : some (matchIf type accepts) = some result) : typeForm result cmd := by
  rw [← Option.some.inj answer]
  exact typeForm_matchIf form

theorem typeForm_cmdWordMatchText (answer : cmdWordMatchText env cmd filter word = some type) :
    typeForm type cmd := by
  refine of_branch answer (fun vararg same => ?_) fun _ answer => ?_
  · rw [← Option.some.inj same]
    exact vararg
  refine of_branch answer typeForm_rangeWordMatch fun _ answer => ?_
  refine of_branch answer (fun _ => typeForm_some_matchIf rfl) fun _ answer => ?_
  refine of_branch answer (fun form => typeForm_some_matchIf form) fun _ answer => ?_
  refine of_branch answer (fun _ => typeForm_some_matchIf rfl) fun _ answer => ?_
  refine of_branch answer (fun form => typeForm_some_matchIf form) fun _ answer => ?_
  refine of_branch answer (fun _ => typeForm_some_matchIf rfl) fun _ answer => ?_
  refine of_branch answer (fun _ same => ?_) fun _ answer => ?_
  · obtain ⟨accepts, _, rfl⟩ := Option.map_eq_some_iff.mp same
    exact typeForm_matchIf rfl
  refine of_branch answer (fun _ => typeForm_some_matchIf rfl) fun _ answer => ?_
  refine of_branch answer (fun _ => typeForm_some_matchIf rfl) fun _ answer => ?_
  refine of_branch answer (fun _ => typeForm_some_matchIf rfl) fun _ answer => ?_
  refine of_branch answer (fun _ same => ?_) fun _ answer => ?_
  · rw [← Option.some.inj same]
    rfl
  · rw [← Option.some.inj answer]
    exact typeForm_fixedWordMatch filter cmd word

theorem typeForm_cmdWordMatch {word : Word}
    (answer : cmdWordMatch env token filter word = some type) : typeForm type token.cmd := by
  unfold cmdWordMatch at answer
  split at answer
  · cases answer
    rfl
  · cases answer
    rfl
  · cases answer
    rfl
  · exact typeForm_cmdWordMatchText answer

theorem offersToken_of_provides (provided : TableProvides env filter vline type (table.map some))
    (matched : type ≠ .noMatch) (notOption : type ≠ .extendMatch) :
    offersToken table (typeForm type) := by
  obtain ⟨index, command, szToken, next, member, visible, run, noError, same⟩ := provided
  have origin := originates_cmdElementMatch run noError
  rw [same] at origin
  rcases origin with none | extend | ⟨token, tokenMember, word, answer⟩
  · exact absurd none matched
  · exact absurd extend notOption
  · obtain ⟨found, foundMember, equal⟩ := mem_map.mp member
    cases equal
    refine any_eq_true.mpr ⟨command, foundMember, ?_⟩
    rw [visible, Bool.not_false, Bool.true_and]
    exact any_eq_true.mpr ⟨token, tokenMember, typeForm_cmdWordMatch answer⟩

/-! ## The ambiguity pass on address tokens -/

/-- What the ambiguity pass can tell about the text of an address token with
a prefix or a netmask. -/
structure IsPrefixText (cmd : CStr) : Prop where
  isVariable : cmdVariable cmd
  noDash : '-' ∉ cmd.tail
  noLimits : limitsText ('<' :: cmd.drop 3) = none
  long : 2 < cmd.length
  notIpv4 : cmdIpv4 cmd = false
  notIpv6 : cmdIpv6 cmd = false
  notIfname : cmdIfname cmd = false
  notPort : cmdPort cmd = false
  notVlan : cmdVlan cmd = false
  notMac : cmdMac cmd = false

theorem ipv4Prefix_isPrefixText : IsPrefixText "A.B.C.D/M" :=
  ⟨rfl, by decide, rfl, by decide, rfl, rfl, rfl, rfl, rfl, rfl⟩

theorem ipv4Netmask_isPrefixText : IsPrefixText "A.B.C.D/W.X.Y.Z" :=
  ⟨rfl, by decide, rfl, by decide, rfl, rfl, rfl, rfl, rfl, rfl⟩

theorem ipv6Prefix_isPrefixText : IsPrefixText "X:X::X:X/M" :=
  ⟨rfl, by decide, rfl, by decide, rfl, rfl, rfl, rfl, rfl, rfl⟩

theorem cmdRangeMatch_of_noDash {range : CStr} (noDash : '-' ∉ range.tail) :
    cmdRangeMatch range word = false := by
  unfold cmdRangeMatch
  rw [strchr_eq_none noDash]
  split <;> rfl

theorem countList_of_prefixText {type : CliIntType} (text : IsPrefixText cmd)
    (counted : countList env word cmd type = some (.count after)) : type = .rangeOperator := by
  obtain ⟨accepts, answer, verdict⟩ := Option.map_eq_some_iff.mp counted
  have accepted : accepts := by
    by_contra refused
    rw [if_neg refused] at verdict
    cases verdict
  subst accepted
  have long := text.long
  rw [cmdRangeCommaCliParserValidate, if_neg (by omega), if_neg (by omega),
    cmdInputRangeMatch] at answer
  split at answer
  · split at answer
    · simp only [cmdInputIsWithinRange, Option.bind_some, text.noLimits] at answer
      cases answer
    · cases type with
      | rangeOperator => rfl
      | commaOperator => simp at *
      | bothOperator => simp at *
  · cases answer

theorem countPrefix_exact (known : IsAnswer answer)
    (counted : countPrefix answer matched = .count after) : answer = .exactMatch := by
  rcases known with rfl | rfl | exact
  · cases counted
  · cases counted
  · exact exact

/-- If an address token with a prefix or a netmask counts, the word is checked
by the matcher that belongs to the match type, except for two types. -/
theorem judge_prefixText {env : MatchEnv} {type : MatchType} {word : CStr}
    {after : Option CStr} (text : IsPrefixText cmd)
    (counted : judge env type word cmd matched = some (.count after)) :
    match type with
    | .extendMatch => True
    | .rangeMatchList => True
    | .ipv4NetmaskMatch => cmdIpv4NetmaskMatch word = .exactMatch
    | .ipv4PrefixMatch => cmdIpv4PrefixMatch word = .exactMatch
    | .ipv6PrefixMatch => cmdIpv6PrefixMatch word = .exactMatch
    | _ => False := by
  cases type with
  | extendMatch => trivial
  | rangeMatchList => trivial
  | ipv4NetmaskMatch =>
    exact countPrefix_exact (cmdIpv4NetmaskMatch_answer word) (Option.some.inj counted)
  | ipv4PrefixMatch =>
    exact countPrefix_exact (cmdIpv4PrefixMatch_answer word) (Option.some.inj counted)
  | ipv6PrefixMatch =>
    exact countPrefix_exact (cmdIpv6PrefixMatch_answer word) (Option.some.inj counted)
  | noMatch => cases counted
  | varargMatch => cases counted
  | exactMatch => simp [judge, countIf, text.isVariable] at counted
  | partlyMatch => simp [judge, rememberIf, text.isVariable] at counted
  | rangeMatch =>
    simp [judge, rememberIf, cmdRangeMatch_of_noDash text.noDash] at counted
  | rangeMatchComma | rangeMatchCommaList =>
    cases countList_of_prefixText text counted
  | ipv6Match => simp [judge, countIf, text.notIpv6] at counted
  | ipv4Match => simp [judge, countIf, text.notIpv4] at counted
  | ifnameMatch => simp [judge, countIf, text.notIfname] at counted
  | portMatch => simp [judge, countIf, text.notPort] at counted
  | vlanMatch => simp [judge, countIf, text.notVlan] at counted
  | macMatch => simp [judge, countIf, text.notMac] at counted

/-! ## Surviving commands -/

theorem judgeTokens_singleton {count : Nat}
    (tally : judgeTokens env type word [token] 0 matched =
      some (.done count after)) (counted : count ≠ 0) :
    ∃ later, judge env type word token.cmd matched = some (.count later) := by
  rw [judgeTokens] at tally
  split at tally
  · cases tally
  · cases tally
    exact absurd rfl counted
  · rename_i later verdict
    exact ⟨later, verdict⟩
  · cases tally
  · cases tally

theorem survives_counted (reads : ReadsTokens env .relaxed command.tokens vline readings)
    {position : Nat} {own : MatchType} (inLine : position < vline.length)
    (offered : (readings.flatMap (TokenReading.wordOffers env .relaxed))[
      position]? = some [(token, own)])
    (survives : Survives ⟨env, .relaxed, vline, some position⟩ type word command) :
    own ≤ type ∧ ∃ matched after, judge env type word token.cmd matched = some (.count after) := by
  obtain ⟨szToken, next, run, noError, below, counts⟩ := survives
  obtain ⟨recordedOffers, found, recorded⟩ :=
    matchTokens_records rfl (Nat.zero_le _) ⟨rfl, rfl⟩ reads run noError inLine
  cases found.symm.trans offered
  have vector : next.state.matchVector = some [token] := recorded.matchVector
  obtain ⟨matched, count, after, tally, counted⟩ := counts [token] vector
  obtain ⟨later, verdict⟩ := judgeTokens_singleton tally counted
  refine ⟨?_, matched, later, verdict⟩
  have strong : strongest [(token, own)] = own := by
    cases own <;> rfl
  rw [recorded.matchType, strong] at below
  exact below

/-- The strongest match type has been provided by the table. -/
def ProvidedBy (env : MatchEnv) (vline : List Word) (type : MatchType)
    (table : List CmdElement) : Prop :=
  type = .noMatch ∨ TableProvides env .relaxed vline type (table.map some)

theorem provided_form (provided : ProvidedBy env vline type table) (strong : .extendMatch < type) :
    offersToken table (typeForm type) := by
  rcases provided with rfl | provides
  · cases strong.not_ge (by decide)
  · refine offersToken_of_provides provides ?_ strong.ne'
    rintro rfl
    exact absurd strong (by decide)

/-- A prefix or netmask token that counts has been checked by its own
matcher, or the table has a token that hides the check. -/
theorem prefix_checked (kind : TypedKind) (found : typedKind cmd = some kind)
    (checked : unchecked table command kind = false) (provided : ProvidedBy env vline type table)
    (below : kindMatchType kind ≤ type)
    (counted : judge env type word cmd matched = some (.count after))
    (isPrefix : kind = .ipv4Prefix ∨ kind = .ipv4Netmask ∨ kind = .ipv6Prefix) :
    ownMatcherAccepts env kind cmd word := by
  have form (strong : .extendMatch < type) := provided_form provided strong
  rcases isPrefix with rfl | rfl | rfl
  · obtain rfl : cmd = "A.B.C.D/M" := typedKind_text found
    have verdict := judge_prefixText ipv4Prefix_isPrefixText counted
    simp only [unchecked, Bool.or_eq_false_iff] at checked
    obtain ⟨⟨⟨_, _⟩, noList⟩, noIpv6⟩ := checked
    cases type with
    | ipv4PrefixMatch => exact decide_eq_true verdict
    | ipv6PrefixMatch => cases noIpv6.symm.trans (form (by decide))
    | rangeMatchList => cases noList.symm.trans (form (by decide))
    | extendMatch => exact absurd below (by decide)
    | ipv4NetmaskMatch => exact absurd below (by decide)
    | _ => exact verdict.elim
  · obtain rfl : cmd = "A.B.C.D/W.X.Y.Z" := typedKind_text found
    have verdict := judge_prefixText ipv4Netmask_isPrefixText counted
    simp only [unchecked, Bool.or_eq_false_iff] at checked
    obtain ⟨⟨⟨⟨_, _⟩, noList⟩, noIpv6⟩, noIpv4⟩ := checked
    cases type with
    | ipv4NetmaskMatch => exact decide_eq_true verdict
    | ipv4PrefixMatch => cases noIpv4.symm.trans (form (by decide))
    | ipv6PrefixMatch => cases noIpv6.symm.trans (form (by decide))
    | rangeMatchList => cases noList.symm.trans (form (by decide))
    | extendMatch => exact absurd below (by decide)
    | _ => exact verdict.elim
  · obtain rfl : cmd = "X:X::X:X/M" := typedKind_text found
    have verdict := judge_prefixText ipv6Prefix_isPrefixText counted
    simp only [unchecked, Bool.or_eq_false_iff] at checked
    obtain ⟨⟨_, _⟩, noList⟩ := checked
    cases type with
    | ipv6PrefixMatch => exact decide_eq_true verdict
    | rangeMatchList => cases noList.symm.trans (form (by decide))
    | extendMatch | ipv4NetmaskMatch | ipv4PrefixMatch =>
      exact absurd below (by decide)
    | _ => exact verdict.elim

/-! ## Handlers -/

/-- Outside of the tokens that are not checked, the word of a typed token is
accepted by the matcher of the token. -/
theorem binding_exact {left : List (Option CmdElement)} (nonempty : NonemptyWords vline)
    (filterRun : FilterRun env .relaxed vline 0 vline (table.map some) left)
    (kept : some command ∈ left) (reads : ReadsTokens env .relaxed command.tokens vline readings)
    {binding : Terminal × Word} (member : binding ∈ bindings env .relaxed readings)
    (checked : ∀ kind, typedKind binding.1.cmd = some kind → unchecked table command kind = false) :
    Exact env binding := by
  intro kind found
  obtain ⟨position, own, wordFound, offered, answer, matched⟩ := readsTokens_offered reads member
  have inLine := (List.getElem?_eq_some_iff.mp wordFound).1
  have notEmpty := nonempty _ (mem_of_getElem? wordFound)
  obtain ⟨token, word⟩ := binding
  obtain ⟨text, rfl⟩ : ∃ text, word = some text := by
    cases word with
    | none => cases notEmpty
    | some text => exact ⟨text, rfl⟩
  have textAnswer : cmdWordMatchText env token.cmd .relaxed text = some own := by
    cases text with
    | nil => cases notEmpty
    | cons c rest => exact answer
  obtain ⟨rfl, immediate⟩ := typed_answer found textAnswer matched
  refine ⟨text, rfl, ?_⟩
  have notUnchecked := checked kind found
  by_cases atOnce : kind = .ipv6 ∨ kind = .range
  · exact immediate atOnce
  obtain ⟨visible, noVararg⟩ : command.hidden = false ∧ offersToken table cmdVararg = false := by
    cases kind <;> simp_all [unchecked]
  have isPrefix : kind = .ipv4Prefix ∨ kind = .ipv4Netmask ∨ kind = .ipv6Prefix := by
    cases kind <;> simp_all [unchecked]
  obtain ⟨place, keptAt⟩ := mem_iff_getElem?.mp kept
  rcases filterRun_survives filterRun keptAt visible wordFound with
    vararg | ⟨type, provided, survives⟩
  · cases noVararg.symm.trans (offersToken_of_provides vararg (by decide) (by decide))
  · rw [Nat.zero_add] at survives
    obtain ⟨below, before, after, counted⟩ := survives_counted reads inLine offered survives
    exact prefix_checked kind found notUnchecked provided below counted isPrefix

theorem selected_reads {szToken after : CStr} {argv : List Arg} (nonempty : NonemptyWords vline)
    (selected : selectCommand env filter vline table szToken =
      some (.command command argv, after)) :
    ∃ readings, ReadsTokens env .relaxed command.tokens vline readings ∧ argv = (readings.flatMap
        (TokenReading.args env .relaxed)).take cmdArgcMax := by
  obtain ⟨_, before, next, run, complete, argvEqual⟩ := selectCommand_command selected
  obtain ⟨readings, reads, _, grown⟩ := matchTokens_reads rfl nonempty (fits_grow (some []) []) run
      (by rw [complete]; rfl)
  refine ⟨readings, reads, ?_⟩
  rw [argvEqual, grown]
  rfl

/--
A handler that is called gets arguments of a reading of the line.  The words
of all typed tokens in it are accepted by the matchers of these tokens exactly
when this is the case for the tokens that are not checked.
-/
theorem handler_typed_arguments_exact_iff {World : Type} (services : Services World)
    {vline : List Word} (nonempty : NonemptyWords vline) {session next : Session World}
    {status : CmdStatus}
    (run : cmdExecuteCommandReal services .relaxed vline session = some (status, next))
    {command : CmdElement} {argv : List Arg} {index : Option CStr} {result : CmdStatus}
    (called : Event.handler command argv index result ∈ eventsSince session next) :
    ∃ readings, ReadsTokens services.env .relaxed command.tokens vline readings ∧
      argv = (readings.flatMap (TokenReading.args services.env .relaxed)).take cmdArgcMax ∧
      ((∀ binding ∈ bindings services.env .relaxed readings, Exact services.env binding) ↔
        ∀ binding ∈ bindings services.env .relaxed readings,
          (∃ kind, typedKind binding.1.cmd = some kind ∧
            unchecked (services.commands session.vty.node) command kind) →
          Exact services.env binding) := by
  obtain ⟨szToken, selected⟩ := selected_of_called run called
  obtain ⟨readings, reads, argvEqual⟩ := selected_reads nonempty selected
  obtain ⟨⟨left, filterRun, kept⟩, _⟩ := selectCommand_command selected
  refine ⟨readings, reads, argvEqual, fun all binding member _ =>
    all binding member, fun others binding member => ?_⟩
  by_cases open_ : ∃ kind, typedKind binding.1.cmd = some kind ∧
      unchecked (services.commands session.vty.node) command kind
  · exact others binding member open_
  · refine binding_exact nonempty filterRun kept reads member fun kind found => ?_
    rw [← Bool.not_eq_true]
    exact fun notChecked => open_ ⟨kind, found, notChecked⟩

/-! ## A command with an address -/

def pingCommand : CmdElement where
  string := "ping A.B.C.D"
  tokens := [.terminal ⟨"ping", none, none⟩, .terminal ⟨"A.B.C.D", none, none⟩]

def pingServices : Services Unit :=
  plainServices (fun _ => [pingCommand]) fun _ => .success

def pingDone (address : CStr) : Session Unit :=
  ⟨⟨.enableNode, none, []⟩, (), [], some pingCommand, [.authorization pingCommand exitOk,
      .handler pingCommand [.text address] none .success]⟩

theorem ping_address_exact : ∃ readings,
      ReadsTokens plainEnv .relaxed pingCommand.tokens
        [some "ping", some "10.0.0.1"] readings ∧
      [Arg.text "10.0.0.1"] = (readings.flatMap
        (TokenReading.args plainEnv .relaxed)).take cmdArgcMax ∧
      ∀ binding ∈ bindings plainEnv .relaxed readings, Exact plainEnv binding := by
  obtain ⟨readings, reads, argv, exact_iff⟩ := handler_typed_arguments_exact_iff pingServices
    (by decide)
    (show cmdExecuteCommandReal pingServices .relaxed [some "ping", some "10.0.0.1"]
        (plainSession .enableNode) =
      some (.success, pingDone "10.0.0.1") by decide)
    (show Event.handler pingCommand [.text "10.0.0.1"] none .success ∈
      eventsSince (plainSession .enableNode) (pingDone "10.0.0.1") by decide)
  refine ⟨readings, reads, argv, exact_iff.mpr ?_⟩
  rintro ⟨⟨cmd, _, _⟩, word⟩ member ⟨kind, typed, free⟩ other found
  obtain ⟨position, type, wordFound, _, answer, matched⟩ := readsTokens_offered reads member
  cases typed.symm.trans found
  have same : kind = .ipv4 := by
    cases kind <;> first | rfl | exact absurd free (by decide)
  subst same
  obtain rfl : cmd = "A.B.C.D" := typedKind_text typed
  have refused : cmdWordMatchText plainEnv "A.B.C.D" .relaxed "ping" = some .noMatch := by decide
  have accepted : ownMatcherAccepts plainEnv .ipv4 "A.B.C.D" "10.0.0.1" := by decide
  rcases mem_cons.mp (mem_of_getElem? wordFound) with same | later
  · obtain rfl : word = some "ping" := same
    exact absurd (Option.some.inj (answer.symm.trans refused)) matched
  · obtain rfl : word = some "10.0.0.1" := mem_singleton.mp later
    exact ⟨_, rfl, accepted⟩

/-- The beginning of an address reaches the handler of `ping`. -/
theorem partial_address_reaches_handler : cmdExecuteCommandReal pingServices .relaxed
        [some "ping", some "1.2"]
        (plainSession .enableNode) =
      some (.success, pingDone "1.2") ∧
    Event.handler pingCommand [.text "1.2"] none .success ∈
      eventsSince (plainSession .enableNode) (pingDone "1.2") ∧
    typedKind "A.B.C.D" = some .ipv4 ∧
    ownMatcherAccepts plainEnv .ipv4 "A.B.C.D" "1.2" =
      false := by
  decide

end OpsCli.Command.TypedArguments
