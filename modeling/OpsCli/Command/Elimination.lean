import OpsCli.Command.ExactReading
import OpsCli.Command.Execute
import OpsCli.Command.Staging
import OpsCli.Command.Survival

/-!
# The commands that the strongest match type leaves

`cmd_vector_filter` finds the strongest type of match for a word and
`is_cmd_ambiguous` drops the commands without a token of that type.  The
second function does not ask for the type of a token again but makes a test of
its own for each type.  A token of the type always passes the test.  Other
tokens do not pass it, except for the types of ranges, where the test does not ask
for the form of the token, and for the types of prefixes, where it looks at the
word alone.
-/

namespace OpsCli.Command.Elimination

open CLib.CString Token Address RangeList WordMatch Matcher Reading Choice
  Recording ExactReading Staging Selection Survival Execute List

/-! ## The test of a token -/

/-- The test of `is_cmd_ambiguous` for a type. -/
def test (env : MatchEnv) (type : MatchType) (command str : CStr) : Bool :=
  match type with
  | .exactMatch => !(cmdOption str || cmdVariable str) && command = str
  | .partlyMatch =>
    !(cmdOption str || cmdVariable str) && command.isPrefixOf str
  | .rangeMatch => cmdRangeMatch str command
  | .rangeMatchComma =>
    cmdRangeCommaCliParserValidate env.uninit (some command) str .commaOperator = some true
  | .rangeMatchList =>
    cmdRangeCommaCliParserValidate env.uninit (some command) str .rangeOperator = some true
  | .rangeMatchCommaList =>
    cmdRangeCommaCliParserValidate env.uninit (some command) str .bothOperator = some true
  | .ipv6Match => cmdIpv6 str
  | .ipv6PrefixMatch => cmdIpv6PrefixMatch command ≠ .noMatch
  | .ipv4Match => cmdIpv4 str
  | .ipv4PrefixMatch => cmdIpv4PrefixMatch command ≠ .noMatch
  | .ipv4NetmaskMatch => cmdIpv4NetmaskMatch command ≠ .noMatch
  | .ifnameMatch => cmdIfname str
  | .portMatch => cmdPort str
  | .vlanMatch => cmdVlan str
  | .macMatch => cmdMac str
  | .extendMatch => cmdOption str || cmdVariable str
  | .noMatch => false
  | .varargMatch => false

section

variable {env : MatchEnv} {type : MatchType} {command str : CStr} {matched after : Option CStr}
  {verdict : Verdict}

def Decides (verdict : Verdict) (passed : Bool) : Prop :=
  (verdict = .skip → passed = false) ∧ ∀ after, verdict = .count after → passed

theorem decides_countIf (counts : Bool) (matched : Option CStr) :
    Decides (countIf counts matched) counts := by
  cases counts with
  | true => exact ⟨nofun, fun _ _ => rfl⟩
  | false => exact ⟨fun _ => rfl, nofun⟩

theorem decides_rememberIf (counts : Bool) (str : CStr) (matched : Option CStr) :
    Decides (rememberIf counts str matched) counts := by
  cases counts with
  | true =>
    refine ⟨fun skipped => ?_, fun _ _ => rfl⟩
    rw [rememberIf, if_pos rfl] at skipped
    split at skipped
    · cases skipped
    · cases skipped
  | false => exact ⟨fun _ => rfl, nofun⟩

theorem decides_countPrefix (answer : MatchType) (matched : Option CStr) :
    Decides (countPrefix answer matched) (answer ≠ .noMatch) := by
  unfold countPrefix Decides
  by_cases unmatched : answer = .noMatch
  · rw [if_pos unmatched]
    exact ⟨fun _ => by simp [unmatched], nofun⟩
  · rw [if_neg unmatched]
    refine ⟨fun skipped => ?_, fun _ _ => by simp [unmatched]⟩
    split at skipped
    · cases skipped
    · cases skipped

theorem decides_countList {operator : CliIntType}
    (judged : countList env command str operator = some verdict) :
    Decides verdict (cmdRangeCommaCliParserValidate env.uninit (some command)
      str operator = some true) := by
  obtain ⟨accepts, answer, same⟩ := Option.map_eq_some_iff.mp judged
  rw [answer, ← same]
  cases accepts with
  | true => exact ⟨nofun, fun _ _ => rfl⟩
  | false => exact ⟨fun _ => rfl, nofun⟩

theorem decides_judge (judged : judge env type command str matched = some verdict) :
    Decides verdict (test env type command str) := by
  cases type with
  | partlyMatch | rangeMatch =>
    cases judged
    exact decides_rememberIf _ _ _
  | rangeMatchComma | rangeMatchList | rangeMatchCommaList =>
    exact decides_countList judged
  | ipv6PrefixMatch | ipv4PrefixMatch | ipv4NetmaskMatch =>
    cases judged
    exact decides_countPrefix _ _
  | noMatch | varargMatch =>
    cases judged
    exact ⟨fun _ => rfl, nofun⟩
  | _ =>
    cases judged
    exact decides_countIf _ _

variable {tokens : List Terminal} {word : Word} {stage : Stage}
  {state : MatcherState}

theorem judgeTokens_count {start count : Nat}
    (judged : judgeTokens env type command tokens start matched = some (.done count after)) :
    start ≤ count ∧ (count ≠ start ↔ ∃ token ∈ tokens, test env type command token.cmd) := by
  induction tokens generalizing start matched with
  | nil =>
    cases judged
    exact ⟨le_refl _, iff_of_false (fun different => different rfl)
      fun ⟨_, member, _⟩ => nomatch member⟩
  | cons token rest ih =>
    rw [judgeTokens] at judged
    cases verdict : judge env type command token.cmd matched with
    | none =>
      rw [verdict] at judged
      cases judged
    | some said =>
      have decides := decides_judge verdict
      rw [verdict] at judged
      simp only [mem_cons, exists_eq_or_imp]
      cases said with
      | skip =>
        obtain ⟨le, counts⟩ := ih judged
        rw [decides.1 rfl]
        exact ⟨le, counts.trans (or_iff_right nofun).symm⟩
      | count later =>
        obtain ⟨le, _⟩ := ih judged
        exact ⟨by omega, iff_of_true (by omega) (.inl (decides.2 later rfl))⟩
      | ambiguous => cases judged
      | incomplete => cases judged

end

/-! ## Tokens of the type -/

/-- The test asks for the form of the token. -/
def asksForm : MatchType → Bool
  | .rangeMatch | .rangeMatchComma | .rangeMatchList | .rangeMatchCommaList
  | .ipv6PrefixMatch | .ipv4PrefixMatch | .ipv4NetmaskMatch => false
  | _ => true

/-- The token has the form of the type, as far as the test does not ask for it. -/
def hasForm : MatchType → CStr → Bool
  | .rangeMatch, cmd => cmdRange cmd && listOperator cmd = none
  | .rangeMatchComma, cmd => cmdRange cmd && listOperator cmd = some .commaOperator
  | .rangeMatchList, cmd => cmdRange cmd && listOperator cmd = some .rangeOperator
  | .rangeMatchCommaList, cmd => cmdRange cmd && listOperator cmd = some .bothOperator
  | .ipv6PrefixMatch, cmd => cmdIpv6Prefix cmd
  | .ipv4PrefixMatch, cmd => cmdIpv4Prefix cmd
  | .ipv4NetmaskMatch, cmd => cmdIpv4Netmask cmd
  | _, _ => true

section

variable {env : MatchEnv} {filter : FilterType} {type own : MatchType} {cmd str text : CStr}

theorem matchIf_matched {accepts : Bool} (answer : matchIf own accepts = type)
    (matched : type ≠ .noMatch) : type = own ∧ accepts := by
  cases accepts with
  | true => exact ⟨answer.symm, rfl⟩
  | false => exact absurd answer.symm matched

theorem addressMatch_matched {reply : MatchType} (answer : addressMatch filter own reply = type)
    (matched : type ≠ .noMatch) : type = own ∧ reply ≠ .noMatch := by
  obtain ⟨same, accepts⟩ := matchIf_matched answer matched
  refine ⟨same, ?_⟩
  rintro rfl
  simp at accepts

theorem test_of_range (range : cmdRange str) (matched : type ≠ .noMatch)
    (answer : rangeWordMatch env str text = some type) :
    test env type text str ∧ hasForm type str := by
  rw [rangeWordMatch] at answer
  split at answer
  · rename_i operator isList
    obtain ⟨accepts, validated, same⟩ := Option.map_eq_some_iff.mp answer
    obtain ⟨rfl, accepted⟩ := matchIf_matched same matched
    rw [accepted] at validated
    cases operator with
    | commaOperator | rangeOperator | bothOperator =>
      exact ⟨decide_eq_true validated, Bool.and_eq_true_iff.mpr ⟨range, decide_eq_true isList⟩⟩
  · rename_i plain
    obtain ⟨rfl, accepted⟩ := matchIf_matched (Option.some.inj answer) matched
    exact ⟨accepted, Bool.and_eq_true_iff.mpr ⟨range, decide_eq_true plain⟩⟩

theorem test_of_fixed (notOption : (cmdOption str || cmdVariable str) = false)
    (matched : fixedWordMatch filter str text ≠ .noMatch) :
    test env (fixedWordMatch filter str text) text str ∧
      hasForm (fixedWordMatch filter str text) str := by
  cases filter with
  | relaxed =>
    rw [fixedWordMatch] at matched ⊢
    by_cases begins : text.isPrefixOf str
    · rw [if_pos begins]
      by_cases same : str = text
      · rw [if_pos same, test, notOption, same]
        simp [hasForm]
      · rw [if_neg same, test, notOption, begins]
        exact ⟨rfl, rfl⟩
    · rw [if_neg begins] at matched
      exact absurd rfl matched
  | strict =>
    rw [fixedWordMatch] at matched ⊢
    obtain ⟨equal, same⟩ := matchIf_matched rfl matched
    rw [equal, test, notOption, of_decide_eq_true same]
    simp [hasForm]

theorem test_of_type (matched : type ≠ .noMatch) (notVararg : type ≠ .varargMatch)
    (answer : cmdWordMatchText env str filter text = some type) :
    test env type text str ∧ hasForm type str := by
  refine of_branch answer (fun _ same => ?_) fun _ answer => ?_
  · exact absurd (Option.some.inj same).symm notVararg
  refine of_branch answer (fun range => test_of_range range matched) fun _ answer => ?_
  refine of_branch answer (fun form same => ?_) fun _ answer => ?_
  · obtain ⟨rfl, _⟩ := addressMatch_matched (Option.some.inj same) matched
    exact ⟨form, rfl⟩
  refine of_branch answer (fun form same => ?_) fun _ answer => ?_
  · obtain ⟨rfl, reply⟩ := addressMatch_matched (Option.some.inj same) matched
    exact ⟨decide_eq_true reply, form⟩
  refine of_branch answer (fun form same => ?_) fun _ answer => ?_
  · obtain ⟨rfl, _⟩ := addressMatch_matched (Option.some.inj same) matched
    exact ⟨form, rfl⟩
  refine of_branch answer (fun form same => ?_) fun _ answer => ?_
  · obtain ⟨rfl, reply⟩ := addressMatch_matched (Option.some.inj same) matched
    exact ⟨decide_eq_true reply, form⟩
  refine of_branch answer (fun form same => ?_) fun _ answer => ?_
  · obtain ⟨rfl, reply⟩ := addressMatch_matched (Option.some.inj same) matched
    exact ⟨decide_eq_true reply, form⟩
  refine of_branch answer (fun form same => ?_) fun _ answer => ?_
  · obtain ⟨accepts, _, same⟩ := Option.map_eq_some_iff.mp same
    obtain ⟨rfl, _⟩ := matchIf_matched same matched
    exact ⟨form, rfl⟩
  refine of_branch answer (fun form same => ?_) fun _ answer => ?_
  · obtain ⟨rfl, _⟩ := matchIf_matched (Option.some.inj same) matched
    exact ⟨form, rfl⟩
  refine of_branch answer (fun form same => ?_) fun _ answer => ?_
  · obtain ⟨rfl, _⟩ := matchIf_matched (Option.some.inj same) matched
    exact ⟨form, rfl⟩
  refine of_branch answer (fun form same => ?_) fun _ answer => ?_
  · obtain ⟨rfl, _⟩ := matchIf_matched (Option.some.inj same) matched
    exact ⟨form, rfl⟩
  refine of_branch answer (fun form same => ?_) fun plain answer => ?_
  · cases same
    exact ⟨form, rfl⟩
  · cases answer
    exact test_of_fixed (Bool.not_eq_true _ ▸ plain) matched

theorem cmdWordMatchText_ifname (ifname : cmdIfname str) :
    cmdWordMatchText env str filter text =
      (ifnameWordMatch env str text).map (matchIf .ifnameMatch) := by
  cases str with
  | nil => rfl
  | cons c rest =>
    obtain ⟨after, same⟩ := isPrefixOf_iff_prefix.mp ifname
    cases (cons_eq_cons.mp same).1
    simp only [cmdWordMatchText, ifname]
    rfl

theorem cmdWordMatchText_range (range : cmdRange str) :
    cmdWordMatchText env str filter text = rangeWordMatch env str text := by
  have notVararg : cmdVararg str = false := by
    simp only [cmdRange, cmdVararg, decide_eq_true_eq] at range ⊢
    simp [range]
  rw [cmdWordMatchText, if_neg (by simp [notVararg]), if_pos range]

theorem cmdVararg_of_begins (nonempty : text ≠ []) (begins : text <+: str) :
    cmdVararg str = cmdVararg text := by
  obtain ⟨rest, rfl⟩ := begins
  cases text with
  | nil => exact absurd rfl nonempty
  | cons c text => rfl

/-- A token that is begun by a word which some token of these types matches is a
fixed word: only a vararg token could be begun by it besides, but then the other
token would be one too. -/
theorem isFixed_of_begins (nonempty : text ≠ []) (notVararg : type ≠ .varargMatch)
    (provided : cmdWordMatchText env cmd filter text = some type) (begun : text <+: cmd)
    (notOption : (cmdOption str || cmdVariable str) = false) (begins : text <+: str) :
    isFixed str := by
  have plain : cmdVararg text = false := by
    rw [← cmdVararg_of_begins nonempty begun]
    by_contra vararg
    rw [cmdWordMatchText, if_pos (Bool.not_eq_false _ ▸ vararg)] at provided
    exact notVararg (Option.some.inj provided).symm
  have something : str ≠ [] := by
    rintro rfl
    exact nonempty (prefix_nil.mp begins)
  rw [Bool.or_eq_false_iff] at notOption
  simp [isFixed, something, cmdVararg_of_begins nonempty begins, plain, notOption]

theorem type_of_form (asked : asksForm type = false) (form : hasForm type str)
    (answer : cmdWordMatchText env str filter text = some own) (matched : own ≠ .noMatch) :
    own = type := by
  cases type with
  | ipv6PrefixMatch | ipv4PrefixMatch | ipv4NetmaskMatch =>
    cases of_decide_eq_true form
    exact (addressMatch_matched (Option.some.inj answer) matched).1
  | rangeMatch =>
    obtain ⟨range, plain⟩ := Bool.and_eq_true_iff.mp form
    rw [cmdWordMatchText_range range, rangeWordMatch, of_decide_eq_true plain] at answer
    exact (matchIf_matched (Option.some.inj answer) matched).1
  | rangeMatchComma | rangeMatchList | rangeMatchCommaList =>
    obtain ⟨range, isList⟩ := Bool.and_eq_true_iff.mp form
    rw [cmdWordMatchText_range range, rangeWordMatch, of_decide_eq_true isList] at answer
    obtain ⟨accepts, _, same⟩ := Option.map_eq_some_iff.mp answer
    exact (matchIf_matched same matched).1
  | _ => cases asked

/-- Where the test asks for the form, a token that passes it and matches no
stronger than the strongest type is of this type. -/
theorem type_of_test (asked : asksForm type) (nonempty : text ≠ [])
    (provided : cmdWordMatchText env cmd filter text = some type)
    (passed : test env type text str)
    (answer : cmdWordMatchText env str filter text = some own)
    (matched : own ≠ .noMatch) (le : own ≤ type) : own = type := by
  cases type with
  | noMatch | varargMatch => cases passed
  | ipv6Match | ipv4Match =>
    cases of_decide_eq_true passed
    exact (addressMatch_matched (Option.some.inj answer) matched).1
  | ifnameMatch =>
    rw [cmdWordMatchText_ifname passed] at answer
    obtain ⟨accepts, _, same⟩ := Option.map_eq_some_iff.mp answer
    exact (matchIf_matched same matched).1
  | portMatch | vlanMatch | macMatch =>
    cases of_decide_eq_true passed
    exact (matchIf_matched (Option.some.inj answer) matched).1
  | extendMatch =>
    cases own with
    | extendMatch => rfl
    | noMatch => exact absurd rfl matched
    | _ => exact absurd le (by decide)
  | exactMatch =>
    obtain ⟨other, _⟩ := test_of_type (by rintro ⟨⟩) (by rintro ⟨⟩) provided
    simp only [test, Bool.and_eq_true, Bool.not_eq_true', decide_eq_true_eq] at passed other
    obtain ⟨notOption, rfl⟩ := passed
    have fixed := isFixed_of_begins nonempty (by rintro ⟨⟩) provided (other.2 ▸ prefix_rfl)
      notOption prefix_rfl
    rw [cmdWordMatchText_fixed fixed] at answer
    cases answer
    cases filter <;> simp [fixedWordMatch, matchIf]
  | partlyMatch =>
    obtain ⟨other, _⟩ := test_of_type (by rintro ⟨⟩) (by rintro ⟨⟩) provided
    simp only [test, Bool.and_eq_true, Bool.not_eq_true'] at passed other
    have begins := isPrefixOf_iff_prefix.mp other.2
    have starts := isPrefixOf_iff_prefix.mp passed.2
    have fixed := isFixed_of_begins nonempty (by rintro ⟨⟩) provided begins passed.1 starts
    rw [cmdWordMatchText_fixed fixed] at answer
    cases answer
    cases filter with
    | strict =>
      have equal : fixedWordMatch .strict str text = .exactMatch := (matchIf_matched rfl matched).1
      rw [equal] at le
      exact absurd le (by decide)
    | relaxed =>
      rw [fixedWordMatch, if_pos passed.2] at le ⊢
      split at le
      · exact absurd le (by decide)
      · rename_i different
        exact if_neg different
  | _ => cases asked

end

/-! ## Recorded tokens -/

section

variable {env : MatchEnv} {filter : FilterType} {offer : Offer} {word : Word}

theorem cmdWordMatchText_option {str : CStr} (option : cmdOption str) (text : CStr) :
    cmdWordMatchText env str filter text = some .extendMatch := by
  cases str with
  | nil => cases option
  | cons c rest =>
    simp only [cmdOption, head?_cons, Option.some.injEq, decide_eq_true_eq] at option
    subst option
    rfl

theorem cmdWordMatch_nonempty (nonempty : isEmptyWord word = false) (token : Terminal) :
    cmdWordMatch env token filter word = cmdWordMatchText env token.cmd filter (word.getD []) := by
  match word, nonempty with
  | some (c :: rest), _ => cases filter <;> rfl

theorem own_type_of_offer (nonempty : isEmptyWord word = false)
    (member : offer ∈ stageOffers env filter stage word) :
    cmdWordMatch env offer.1 filter word = some offer.2 ∧ offer.2 ≠ .noMatch := by
  cases stage with
  | terminal token =>
    rw [stageOffers] at member
    split at member
    · rename_i option
      cases mem_singleton.mp member
      rw [cmdWordMatch_nonempty nonempty, cmdWordMatchText_option option]
      exact ⟨rfl, by rintro ⟨⟩⟩
    · exact (mem_offers.mp member).2
  | choice tokens => exact (mem_offers.mp member).2
  | swallowed => cases member
  | finished => cases member

theorem foldl_stronger (list : List Offer) (best : MatchType) :
    let result := list.foldl (fun best offer => if best < offer.2 then offer.2 else best) best
    best ≤ result ∧ (∀ offer ∈ list, offer.2 ≤ result) ∧
      (result = best ∨ ∃ offer ∈ list, offer.2 = result) := by
  induction list generalizing best with
  | nil => exact ⟨le_refl _, nofun, .inl rfl⟩
  | cons first rest ih =>
    obtain ⟨above, others, attained⟩ := ih (if best < first.2 then first.2 else best)
    have bounds : best ≤ (if best < first.2 then first.2 else best) ∧
        first.2 ≤ (if best < first.2 then first.2 else best) := by
      by_cases stronger : best < first.2
      · rw [if_pos stronger]
        exact ⟨stronger.le, le_refl _⟩
      · rw [if_neg stronger]
        exact ⟨le_refl _, not_lt.mp stronger⟩
    refine ⟨bounds.1.trans above, forall_mem_cons.mpr ⟨bounds.2.trans above, others⟩, ?_⟩
    rcases attained with same | ⟨offer, member, same⟩
    · rw [foldl_cons, same]
      by_cases stronger : best < first.2
      · exact .inr ⟨first, mem_cons_self, (if_pos stronger).symm⟩
      · exact .inl (if_neg stronger)
    · exact .inr ⟨offer, mem_cons_of_mem _ member, same⟩

theorem le_strongest {list : List Offer} (member : offer ∈ list) : offer.2 ≤ strongest list :=
  (foldl_stronger list .noMatch).2.1 offer member

theorem exists_of_provided {vline : List Word} {index : Nat} {commands : List (Option CmdElement)}
    (nonempty : isEmptyWord word = false) (here : vline[index]? = some word)
    (matched : type ≠ .noMatch)
    (provided : Provided ⟨env, filter, vline, some index⟩ type commands) :
    ∃ cmd, cmdWordMatchText env cmd filter (word.getD []) = some type := by
  obtain ⟨command, szToken, next, _, _, run, noError, rfl⟩ := provided
  have ends := cmdElementMatch_ends here run
  generalize stageTokens env filter command.tokens (vline.take index) = result at ends
  cases ends with
  | refused error => cases noError.symm.trans error
  | arrived _ _ _ recorded =>
    rw [recorded.matchType] at matched ⊢
    obtain ⟨offer, offered, same⟩ := (foldl_stronger _ .noMatch).2.2.resolve_left matched
    have answer := (own_type_of_offer nonempty offered).1
    rw [cmdWordMatch_nonempty nonempty, same] at answer
    exact ⟨offer.1.cmd, answer⟩

/-- A recorded token has the type for the word. -/
def Typed (env : MatchEnv) (filter : FilterType) (type : MatchType) (word : Word)
    (tokens : List Terminal) : Prop :=
  ∃ token ∈ tokens, cmdWordMatch env token filter word = some type

/-- A recorded token passes the test for the type. -/
def Counted (env : MatchEnv) (type : MatchType) (word : Word) (tokens : List Terminal) : Prop :=
  ∃ token ∈ tokens, test env type (word.getD []) token.cmd

theorem counted_of_typed (nonempty : isEmptyWord word = false)
    (matched : type ≠ .noMatch) (notVararg : type ≠ .varargMatch)
    (typed : Typed env filter type word tokens) : Counted env type word tokens := by
  obtain ⟨token, member, answer⟩ := typed
  rw [cmdWordMatch_nonempty nonempty] at answer
  exact ⟨token, member, (test_of_type matched notVararg answer).1⟩

theorem recorded_types (nonempty : isEmptyWord word = false)
    (recorded : Recorded state (stageOffers env filter stage word))
    (vector : state.matchVector = some tokens) (below : state.matchType ≤ type) :
    tokens ≠ [] ∧ ∀ token ∈ tokens, ∃ own,
      cmdWordMatchText env token.cmd filter (word.getD []) = some own ∧
        own ≠ .noMatch ∧ own ≤ type := by
  rw [recorded.matchVector] at vector
  rw [recorded.matchType] at below
  split at vector
  · cases vector
  rename_i something
  cases vector
  refine ⟨mt map_eq_nil_iff.mp something, fun token member => ?_⟩
  obtain ⟨offer, offered, rfl⟩ := mem_map.mp member
  obtain ⟨answer, matched⟩ := own_type_of_offer nonempty offered
  rw [cmdWordMatch_nonempty nonempty] at answer
  exact ⟨offer.2, answer, matched, (le_strongest offered).trans below⟩

/-- The recorded tokens of a command tell rightly whether one of them has the
type.  For a range or a list, this asks for a token of this form if the word is
in any of the tokens; for a prefix or a netmask, it asks for a token of this form.
There is no condition for the other types. -/
def RightlyRecorded (env : MatchEnv) (type : MatchType) (word : CStr)
    (tokens : List Terminal) : Prop :=
  match type with
  | .rangeMatch | .rangeMatchComma | .rangeMatchList | .rangeMatchCommaList =>
    (∃ token ∈ tokens, test env type word token.cmd) → ∃ token ∈ tokens, hasForm type token.cmd
  | .ipv6PrefixMatch | .ipv4PrefixMatch | .ipv4NetmaskMatch =>
    ∃ token ∈ tokens, hasForm type token.cmd
  | _ => True

theorem rightlyRecorded_iff {cmd : CStr} (nonempty : isEmptyWord word = false)
    (matched : type ≠ .noMatch) (notVararg : type ≠ .varargMatch)
    (provided : cmdWordMatchText env cmd filter (word.getD []) = some type)
    (something : tokens ≠ []) (types : ∀ token ∈ tokens, ∃ own,
      cmdWordMatchText env token.cmd filter (word.getD []) = some own ∧
        own ≠ .noMatch ∧ own ≤ type) :
    RightlyRecorded env type (word.getD []) tokens ↔
      (Counted env type word tokens → Typed env filter type word tokens) := by
  have text : word.getD [] ≠ [] := by
    match word, nonempty with
    | some (c :: rest), _ => exact cons_ne_nil c rest
  obtain ⟨first, inside⟩ := exists_mem_of_ne_nil tokens something
  have typed_of {token : Terminal} (member : token ∈ tokens)
      (same : ∀ own, cmdWordMatchText env token.cmd filter (word.getD []) = some own →
        own ≠ .noMatch → own ≤ type → own = type) : Typed env filter type word tokens := by
    obtain ⟨own, answer, matched, le⟩ := types token member
    rw [same own answer matched le, ← cmdWordMatch_nonempty nonempty] at answer
    exact ⟨token, member, answer⟩
  have ofForm (asked : asksForm type = false) (form : ∃ token ∈ tokens, hasForm type token.cmd) :
      Typed env filter type word tokens := by
    obtain ⟨token, member, form⟩ := form
    exact typed_of member fun own answer matched _ => type_of_form asked form answer matched
  have toForm (typed : Typed env filter type word tokens) :
      ∃ token ∈ tokens, hasForm type token.cmd := by
    obtain ⟨token, member, answer⟩ := typed
    rw [cmdWordMatch_nonempty nonempty] at answer
    exact ⟨token, member, (test_of_type matched notVararg answer).2⟩
  cases type with
  | rangeMatch | rangeMatchComma | rangeMatchList | rangeMatchCommaList =>
    exact ⟨fun rightly counted => ofForm rfl (rightly counted),
      fun finds counted => toForm (finds counted)⟩
  | ipv6PrefixMatch | ipv4PrefixMatch | ipv4NetmaskMatch =>
    -- The test looks at the word alone, which some token matches.
    have passed := (test_of_type matched notVararg provided).1
    exact ⟨fun form _ => ofForm rfl form, fun finds => toForm (finds ⟨first, inside, passed⟩)⟩
  | _ =>
    refine iff_of_true trivial fun ⟨token, member, passed⟩ => typed_of member ?_
    exact fun own answer matched le => type_of_test rfl text provided passed answer matched le

end

/-! ## Elimination -/

/-- A candidate stays exactly when nothing was recorded for it or a recorded
token passes the test. -/
theorem judged_kept_iff {env : MatchEnv} {command : CmdElement} {matched : Option (List Terminal)}
    {after : Option CmdElement}
    (judged : Judged type env (word.getD []) ⟨some command, matched⟩ after) :
    after = some command ↔ ∀ tokens, matched = some tokens → Counted env type word tokens := by
  rcases judged with ⟨nothing, same⟩ | ⟨tokens, before, count, later, found, tally, same⟩
  · dsimp only at nothing
    subst nothing
    exact iff_of_true same nofun
  · dsimp only at found same
    subst found
    have counts := (judgeTokens_count tally).2
    by_cases zero : count = 0
    · rw [if_pos zero] at same
      refine iff_of_false (by rw [same]; nofun) fun holds => ?_
      exact counts.mpr (holds tokens rfl) zero
    · rw [if_neg zero] at same
      refine iff_of_true same ?_
      rintro _ ⟨⟩
      exact counts.mp zero

section

variable {env : MatchEnv} {filter : FilterType} {vline : List Word} {index : Nat} {word : Word}
  {type : MatchType}

/-- A visible command stays exactly if one of its tokens has the strongest type,
precisely if it is no candidate or its tokens are recorded and tell rightly. -/
theorem candidate_iff {command : CmdElement} {commands : List (Option CmdElement)} {slot : Slot}
    {after : Option CmdElement} (nonempty : isEmptyWord word = false)
    (here : vline[index]? = some word) (notVararg : type ≠ .varargMatch)
    (provided : type = .noMatch ∨ Provided ⟨env, filter, vline, some index⟩ type commands)
    (visible : command.hidden = false)
    (related : FilterSlot ⟨env, filter, vline, some index⟩ type (some command) slot)
    (said : Judged type env (word.getD []) slot after) :
    (after = some command ↔
        ∃ tokens, slot.matched = some tokens ∧ Typed env filter type word tokens) ↔
      (slot.command = some command →
        ∃ tokens, slot.matched = some tokens ∧
          RightlyRecorded env type (word.getD []) tokens) := by
  rcases filterSlot_ends here visible related with ⟨rfl, _⟩ |
    ⟨stage, state, _, _, rfl, below, recorded⟩
  · refine iff_of_true (iff_of_false (fun kept => ?_) nofun) nofun
    rcases said with ⟨_, equal⟩ | ⟨_, _, _, _, absent, _⟩
    · cases kept.symm.trans equal
    · cases absent
  rw [judged_kept_iff said]
  cases vector : state.matchVector with
  | none => simp
  | some tokens =>
    obtain ⟨something, types⟩ := recorded_types nonempty recorded vector below
    have matched : type ≠ .noMatch := by
      rintro rfl
      obtain ⟨token, member⟩ := exists_mem_of_ne_nil tokens something
      obtain ⟨own, _, matched, le⟩ := types token member
      exact matched (le_antisymm le (by cases own <;> decide))
    obtain ⟨cmd, answer⟩ :=
      exists_of_provided nonempty here matched (provided.resolve_left matched)
    have rightly := rightlyRecorded_iff nonempty matched notVararg answer something types
    have stays : Typed env filter type word tokens → Counted env type word tokens :=
      counted_of_typed nonempty matched notVararg
    simp only [Option.some.injEq, forall_eq', exists_eq_left', forall_const, rightly]
    exact ⟨Iff.mp, fun finds => ⟨finds, stays⟩⟩

/-- When the filter succeeds for a word and nothing is ambiguous, the commands
that are left are exactly those with a recorded token of the strongest type,
precisely if the tokens of every candidate are recorded and tell rightly. -/
theorem elimination_iff {commands left : List (Option CmdElement)} {szToken : CStr}
    {next : FilterOutcome} (visible : ∀ command, some command ∈ commands → command.hidden = false)
    (filtered : cmdVectorFilter ⟨env, filter, vline, some index⟩ commands
      .noMatch szToken = some next) (success : next.status = .success)
    (notVararg : next.matchType ≠ .varargMatch) (here : vline[index]? = some word)
    (nonempty : isEmptyWord word = false)
    (judged : isCmdAmbiguous env next.matchType (word.getD []) next.slots
      none = some (.left left)) :
    (∀ (p : Nat) command, commands[p]? = some (some command) → (left[p]? = some (some command) ↔
        ∃ tokens, next.slots[p]?.bind Slot.matched = some tokens ∧
          Typed env filter next.matchType word tokens)) ↔
    ∀ (p : Nat) command matched, next.slots[p]? = some ⟨some command, matched⟩ →
      ∃ tokens, matched = some tokens ∧
        RightlyRecorded env next.matchType (word.getD []) tokens := by
  obtain ⟨_, provided, slots⟩ := cmdVectorFilter_slots filtered success
  have verdicts := isCmdAmbiguous_judged judged
  have verdict {p : Nat} {slot : Slot} (found : next.slots[p]? = some slot) :
      ∃ after, left[p]? = some after ∧ Judged next.matchType env (word.getD []) slot after :=
    forall₂_getElem? verdicts.flip found
  have candidate {p : Nat} {command : CmdElement} {slot : Slot} {after : Option CmdElement}
      (at_ : commands[p]? = some (some command)) :=
    @candidate_iff env filter vline index word next.matchType command commands slot after nonempty
      here notVararg provided (visible command (mem_of_getElem? at_))
  constructor
  · intro exactly p command matched found
    obtain ⟨before, at_, slot⟩ := forall₂_getElem? slots found
    have same := filterSlot_command slot rfl
    subst same
    obtain ⟨after, position, said⟩ := verdict found
    have right := exactly p command at_
    rw [position, found, Option.some.injEq, Option.bind_some] at right
    exact (candidate at_ slot said).mp right rfl
  · intro rightly p command at_
    obtain ⟨slot, found, related⟩ := forall₂_getElem? slots.flip at_
    obtain ⟨after, position, said⟩ := verdict found
    rw [position, found, Option.some.injEq, Option.bind_some]
    refine (candidate at_ related said).mpr fun kept => ?_
    exact rightly p command slot.matched (by rw [found, ← kept])

end

def ipCommand (argument : CStr) : CmdElement where
  string := []
  tokens := [.terminal ⟨"ip", none, none⟩, .terminal ⟨argument, none, none⟩]

def ipLine (argument : CStr) : List Word :=
  [some "ip", some argument]

/-- What the filter leaves of the commands for an address and for a word. -/
def addressOutcome : FilterOutcome where
  status := .success
  slots :=
    [⟨some (ipCommand "A.B.C.D"), some [⟨"A.B.C.D", none, none⟩]⟩,
      ⟨some (ipCommand "WORD"), some [⟨"WORD", none, none⟩]⟩]
  matchType := .ipv4Match
  szToken := []

theorem address_leaves_address_command : cmdVectorFilter
        ⟨plainEnv, .relaxed, ipLine "10.0.0.1", some 1⟩
        [some (ipCommand "A.B.C.D"), some (ipCommand "WORD")]
        .noMatch [] = some addressOutcome ∧
      ∀ (p : Nat) command, [some (ipCommand "A.B.C.D"),
            some (ipCommand "WORD")][p]? = some (some command) →
          ([some (ipCommand "A.B.C.D"), none][p]? = some (some command) ↔
            ∃ tokens, addressOutcome.slots[p]?.bind Slot.matched = some tokens ∧
              Typed plainEnv .relaxed .ipv4Match (some "10.0.0.1") tokens) := by
  have filtered : cmdVectorFilter ⟨plainEnv, .relaxed, ipLine "10.0.0.1", some 1⟩
      [some (ipCommand "A.B.C.D"), some (ipCommand "WORD")]
      .noMatch [] = some addressOutcome := by
    decide
  have visible : ∀ command, some command ∈ [some (ipCommand "A.B.C.D"),
        some (ipCommand "WORD")] → command.hidden = false := by
    intro command member
    simp only [mem_cons, Option.some.injEq, not_mem_nil, or_false] at member
    rcases member with rfl | rfl
    · rfl
    · rfl
  refine ⟨filtered, (elimination_iff visible filtered rfl (by decide) rfl rfl
    (show isCmdAmbiguous plainEnv .ipv4Match "10.0.0.1" addressOutcome.slots none =
        some (.left [some (ipCommand "A.B.C.D"), none])
      by decide)).mpr ?_⟩
  intro p command matched found
  match p, found with
  | 0, rfl | 1, rfl => exact ⟨_, rfl, trivial⟩

/-- A prefix leaves the command for words as well. -/
theorem prefix_leaves_word_command : (cmdVectorFilter
      ⟨plainEnv, .relaxed, ipLine "10.0.0.0/8", some 1⟩
      [some (ipCommand "A.B.C.D/M"), some (ipCommand "WORD")]
      .noMatch []).map (fun next => (next.status, next.matchType,
          isCmdAmbiguous plainEnv next.matchType "10.0.0.0/8" next.slots none)) =
      some (.success, .ipv4PrefixMatch, some (.left [some (ipCommand "A.B.C.D/M"),
          some (ipCommand "WORD")])) ∧
      cmdWordMatch plainEnv ⟨"WORD", none, none⟩ .relaxed
        (some "10.0.0.0/8") = some .extendMatch := by
  decide

end OpsCli.Command.Elimination
