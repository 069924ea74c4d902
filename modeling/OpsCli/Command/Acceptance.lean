import OpsCli.Command.Choice

/-!
# Accepted lines have readings

One lemma for each matcher function: if it is not an error, it has taken the
words of a reading, and it has pushed the arguments of that reading.
-/

namespace OpsCli.Command.Acceptance

open CLib.CString Token WordMatch Matcher Reading Choice List

/-! ## Recording -/

def recordAll (m : CmdMatcher) (list : List Offer) (state : MatcherState) : MatcherState :=
  list.foldl (fun state offer => cmdMatcherRecordMatch m offer.2 offer.1 state) state

@[simp]
theorem recordMatch_wordIndex (m : CmdMatcher) (type : MatchType) (token : Terminal)
    (state : MatcherState) :
    (cmdMatcherRecordMatch m type token state).wordIndex = state.wordIndex := by
  unfold cmdMatcherRecordMatch
  split <;> rfl

@[simp]
theorem recordAll_wordIndex (m : CmdMatcher) (list : List Offer) (state : MatcherState) :
    (recordAll m list state).wordIndex = state.wordIndex := by
  induction list generalizing state with
  | nil => rfl
  | cons offer rest ih =>
    exact (ih _).trans (recordMatch_wordIndex m _ _ _)

theorem recordAll_append (m : CmdMatcher) (first second : List Offer) (state : MatcherState) :
    recordAll m (first ++ second) state = recordAll m second (recordAll m first state) :=
  foldl_append

variable {type : MatchType} {m : CmdMatcher} {word : Word} {token : Terminal} {args : Args}
  {state : MatcherState} {env : MatchEnv} {filter : FilterType} {next : Outcome} {mask : List Nat}
  {i : Nat} {alternatives : List Terminal} {parts rest : List KeywordPart} {scan : MultipleScan}
  {best : Option Offer} {part : KeywordPart} {pushed : Args} {cmd : CStr}

theorem noMatch_lt (matched : type ≠ .noMatch) : .noMatch < type :=
  lt_of_le_of_ne (MatchType.noMatch_le type) (Ne.symm matched)

/-! ## Offers -/

theorem offers_cons_of_match {rest : List Terminal} {type : MatchType}
    (answer : cmdWordMatch env token filter word = some type) (matched : type ≠ .noMatch) :
    offers env filter (token :: rest) word = (token, type) :: offers env filter rest word := by
  rw [offers, filterMap_cons_some (b := (token, type))]
  · rfl
  · simp [answer, matched]

theorem offers_cons_of_noMatch {rest : List Terminal}
    (answer : cmdWordMatch env token filter word = some .noMatch) :
    offers env filter (token :: rest) word = offers env filter rest word := by
  rw [offers, filterMap_cons_none]
  · rfl
  · simp [answer]

/-! ## Multiples -/

def bestType : Option Offer → MatchType
  | none => .noMatch
  | some offer => offer.2

def bestArg (word : Word) : Option Offer → Arg
  | none => .null
  | some offer => offerArg word offer

/-- A scan over alternatives has seen `best` as the best offer. -/
structure Scanned (word : Word) (scan : MultipleScan) (best : Option Offer) : Prop where
  type : scan.best = bestType best
  arg : scan.arg = bestArg word best

theorem scanned_multipleStep {next : MultipleScan} (scanned : Scanned word scan best)
    (step : multipleStep m word scan token = some next) :
    Scanned word next
        ((offers m.env m.filter [token] word).foldl better best) ∧
      next.state = recordAll m (offers m.env m.filter [token] word) scan.state := by
  unfold multipleStep at step
  cases answer : cmdWordMatch m.env token m.filter word with
  | none =>
    rw [answer] at step
    cases step
  | some type =>
    rw [answer] at step
    by_cases unmatched : type = .noMatch
    · subst unmatched
      rw [offers_cons_of_noMatch answer]
      cases step
      exact ⟨scanned, rfl⟩
    rw [offers_cons_of_match answer unmatched]
    simp only [unmatched, if_false] at step
    by_cases improves : scan.best < type
    · rw [if_pos improves] at step
      cases step
      have taken : better best (token, type) = some (token, type) := by
        cases best with
        | none => rfl
        | some old =>
          rw [scanned.type] at improves
          exact if_pos improves
      refine ⟨?_, rfl⟩
      change Scanned word _ (better best (token, type))
      rw [taken]
      exact ⟨rfl, rfl⟩
    · rw [if_neg improves] at step
      cases step
      have kept : better best (token, type) = best := by
        cases best with
        | none =>
          rw [scanned.type] at improves
          exact absurd (noMatch_lt unmatched) improves
        | some old =>
          rw [scanned.type] at improves
          exact if_neg improves
      refine ⟨?_, rfl⟩
      change Scanned word _ (better best (token, type))
      rw [kept]
      exact ⟨scanned.type, scanned.arg⟩

theorem offers_append (env : MatchEnv) (filter : FilterType) (first second : List Terminal)
    (word : Word) :
    offers env filter (first ++ second) word =
      offers env filter first word ++ offers env filter second word :=
  filterMap_append

/-- The loop over the alternatives finds the best offer and records all. -/
theorem scanned_multiple {last : MultipleScan} (scanned : Scanned word scan best)
    (run : alternatives.foldlM (multipleStep m word) scan = some last) :
    Scanned word last ((offers m.env m.filter alternatives word).foldl better best) ∧ last.state =
        recordAll m (offers m.env m.filter alternatives word) scan.state := by
  induction alternatives generalizing scan best with
  | nil =>
    cases run
    exact ⟨scanned, rfl⟩
  | cons token rest ih =>
    rw [foldlM_cons] at run
    obtain ⟨next, step, tail⟩ := Option.bind_eq_some_iff.mp run
    obtain ⟨scannedNext, recorded⟩ := scanned_multipleStep scanned step
    obtain ⟨scannedLast, recordedLast⟩ := ih scannedNext tail
    rw [← singleton_append, offers_append, foldl_append, recordAll_append]
    rw [recorded] at recordedLast
    exact ⟨scannedLast, recordedLast⟩

/-- What a multiple returns when this is the best offer. -/
def multipleResult (args : Args) (word : Word) : Option Offer → MatcherRv × Args
  | none => (.noMatch, args)
  | some offer =>
    match pushArgument args (offerArg word offer) with
    | none => (.exceedArgcMax, args)
    | some args => (.ok, args)

theorem matchMultiple_word (here : m.vline[state.wordIndex]? = some word)
    (run : cmdMatcherMatchMultiple m alternatives state args = some next) :
    next.state = (recordAll m (offers m.env m.filter alternatives word) state).advance ∧
      (next.rv, next.args) = multipleResult args word
        (bestOffer (offers m.env m.filter alternatives word)) := by
  rw [cmdMatcherMatchMultiple, here] at run
  dsimp only at run
  split at run
  · cases run
  rename_i scan folded
  have start : Scanned word ⟨.noMatch, .null, state⟩ none := ⟨rfl, rfl⟩
  obtain ⟨scanned, recorded⟩ := scanned_multiple start folded
  change Scanned word scan (bestOffer (offers m.env m.filter alternatives word)) at scanned
  rw [scanned.type, scanned.arg, recorded] at run
  cases best : bestOffer (offers m.env m.filter alternatives word) with
  | none =>
    rw [best] at run
    cases run
    exact ⟨rfl, rfl⟩
  | some offer =>
    have matched : offer.2 ≠ .noMatch := (mem_offers.mp (bestOffer_spec best).1).2.2
    rw [best, bestType, if_neg matched, bestArg] at run
    cases pushed : pushArgument args (offerArg word offer) with
    | none =>
      rw [pushed] at run
      cases run
      exact ⟨rfl, by rw [multipleResult, pushed]⟩
    | some grown =>
      rw [pushed] at run
      cases run
      exact ⟨rfl, by rw [multipleResult, pushed]⟩

theorem matchTerminal_word (here : m.vline[state.wordIndex]? = some word)
    (run : cmdMatcherMatchTerminal m token state args = some next) :
    ∃ type, cmdWordMatch m.env token m.filter word = some type ∧
      (if type = .noMatch then some ⟨.noMatch, state, args⟩
        else takeTerminal m token word type state args) = some next := by
  rw [cmdMatcherMatchTerminal, here] at run
  dsimp only at run
  split at run
  · cases run
  · exact ⟨_, ‹_›, run⟩

/-! ## Growing argument vectors -/

def grow (args : Args) (new : List Arg) : Args :=
  args.map fun list => (list ++ new).take cmdArgcMax

def Fits (args : Args) : Prop :=
  ∀ list ∈ args, list.length ≤ cmdArgcMax

theorem fits_none : Fits none := by
  rintro list ⟨⟩

theorem fits_grow (args : Args) (new : List Arg) : Fits (grow args new) := by
  intro list member
  obtain ⟨old, _, rfl⟩ := Option.map_eq_some_iff.mp member
  exact length_take_le _ _

theorem grow_nil (fits : Fits args) : grow args [] = args := by
  cases args with
  | none => rfl
  | some list =>
    simp only [grow, Option.map_some, append_nil]
    rw [take_of_length_le (fits list rfl)]

theorem take_append_take (limit : Nat) (first second : List Arg) :
    (first.take limit ++ second).take limit = (first ++ second).take limit := by
  rw [take_append, take_append, take_take, Nat.min_self, length_take]
  congr 2
  omega

theorem grow_grow (args : Args) (first second : List Arg) :
    grow (grow args first) second = grow args (first ++ second) := by
  cases args with
  | none => rfl
  | some list =>
    simp only [grow, Option.map_some, take_append_take, append_assoc]

theorem grow_of_pushArgument {next : Args} {arg : Arg}
    (pushed : pushArgument args arg = some next) : next = grow args [arg] := by
  cases args with
  | none =>
    cases pushed
    rfl
  | some list =>
    rw [pushArgument] at pushed
    split at pushed
    · cases pushed
    rename_i room
    cases pushed
    have short : (list ++ [arg]).length ≤ cmdArgcMax := by
      rw [length_append, length_singleton]
      omega
    simp only [grow, Option.map_some, take_of_length_le short]

theorem pushRest_eq (args : Args) (fits : Fits args) (words : List Word) :
    pushRest args words = grow args (wordArgs words) := by
  induction words generalizing args with
  | nil => exact (grow_nil fits).symm
  | cons word rest ih =>
    rw [pushRest, foldl_cons]
    by_cases empty : Arg.ofWord word = .null
    · rw [if_pos empty]
      change pushRest args rest = _
      rw [ih args fits]
      simp [wordArgs, empty]
    rw [if_neg empty]
    have filtered : wordArgs (word :: rest) = [Arg.ofWord word] ++ wordArgs rest := by
      simp [wordArgs, empty]
    rw [filtered, ← grow_grow]
    cases pushed : pushArgument args (Arg.ofWord word) with
    | some next =>
      rw [← grow_of_pushArgument pushed]
      refine ih next ?_
      rw [grow_of_pushArgument pushed]
      exact fits_grow _ _
    | none =>
      have full : grow args [Arg.ofWord word] = args := by
        cases args with
        | none => cases pushed
        | some list =>
          rw [pushArgument] at pushed
          split at pushed
          · rename_i full
            have exact : list.length = cmdArgcMax := Nat.le_antisymm (fits list rfl) full
            simp [grow, ← exact]
          · cases pushed
      rw [full]
      exact ih args fits

/-! ## Terminals and multiples -/

theorem kind_of_variable (variable_ : cmdVariable cmd) :
    cmdVararg cmd = false ∧ cmdOption cmd = false := by
  cases cmd with
  | nil => cases variable_
  | cons c rest =>
    have notDot : c ≠ '.' := by
      rintro rfl
      cases variable_
    have notBracket : c ≠ '[' := by
      rintro rfl
      cases variable_
    simp [cmdVararg, cmdOption, notDot, notBracket]

theorem not_option_of_vararg (vararg : cmdVararg cmd) : cmdOption cmd = false := by
  simp only [cmdVararg, decide_eq_true_eq] at vararg
  simp [cmdOption, vararg]

/-- A matcher function took the words of a reading. -/
structure Took (m : CmdMatcher) (state : MatcherState) (args : Args) (next : Outcome)
    (reading : ArgReading) (rest : List Word) : Prop where
  rv : next.rv = .ok
  rest : rest = m.vline.drop next.state.wordIndex
  wordIndex : next.state.wordIndex = state.wordIndex + (reading.wordOffers m.env m.filter).length
  args : next.args = grow args (reading.args m.env m.filter)
  matchVector : next.state.matchVector = (recordAll m ((reading.wordOffers m.env m.filter).headD [])
        state).matchVector
  matchType : next.state.matchType = (recordAll m ((reading.wordOffers m.env m.filter).headD [])
        state).matchType

theorem drop_of_getElem? {index : Nat} (found : m.vline[index]? = some word) :
    m.vline.drop index = word :: m.vline.drop (index + 1) := by
  obtain ⟨bound, same⟩ := List.getElem?_eq_some_iff.mp found
  rw [drop_eq_getElem_cons bound, same]

theorem cons_of_drop {words rest : List Word} {index : Nat}
    (front : words.drop index = word :: rest) :
    words[index]? = some word ∧ words.drop (index + 1) = rest := by
  rw [← head?_drop, ← tail_drop, front]
  exact ⟨rfl, rfl⟩

theorem recordMatch_withSzToken (m : CmdMatcher) (type : MatchType) (token : Terminal)
    (state : MatcherState) (szToken : CStr) :
    cmdMatcherRecordMatch m type token { state with szToken := szToken } =
      { cmdMatcherRecordMatch m type token state with szToken := szToken } := by
  unfold cmdMatcherRecordMatch
  split <;> rfl

theorem took_finishTerminal {reading : ArgReading} {szToken : CStr}
    (notVararg : cmdVararg token.cmd = false)
    (offered : reading.wordOffers m.env m.filter = [[(token, type)]])
    (args' : pushed = grow args (reading.args m.env m.filter)) :
    Took m state args (finishTerminal m token type { state with szToken := szToken } pushed)
      reading (m.vline.drop (state.wordIndex + 1)) := by
  rw [finishTerminal, notVararg, recordMatch_withSzToken]
  refine ⟨rfl, ?_, ?_, args', ?_, ?_⟩
  · simp [MatcherState.advance]
  · simp [MatcherState.advance, offered]
  · rw [offered]
    rfl
  · rw [offered]
    rfl

theorem offers_singleton (answer : cmdWordMatch env token filter word = some type)
    (matched : type ≠ .noMatch) : offers env filter [token] word = [(token, type)] := by
  rw [offers_cons_of_match answer matched]
  rfl

theorem took_finishVararg (vararg : cmdVararg token.cmd)
    (found : m.vline[state.wordIndex]? = some word)
    (answer : cmdWordMatch m.env token m.filter word = some type)
    (matched : type ≠ .noMatch) (args' : pushed = grow args [Arg.ofWord word]) :
    Took m state args (finishTerminal m token type state pushed)
      (.vararg token word (m.vline.drop (state.wordIndex + 1))) [] := by
  have bound : state.wordIndex < m.vline.length := (List.getElem?_eq_some_iff.mp found).choose
  have last : max (state.wordIndex + 1) m.vline.length = m.vline.length := Nat.max_eq_right bound
  have fits : Fits pushed := by
    rw [args']
    exact fits_grow _ _
  rw [finishTerminal, vararg]
  refine ⟨rfl, ?_, ?_, ?_, ?_, ?_⟩
  · simp [MatcherState.advance, last]
  · simp only [MatcherState.advance, recordMatch_wordIndex, last, ArgReading.wordOffers,
      length_cons, length_map, length_drop, if_true]
    omega
  · simp only [MatcherState.advance, recordMatch_wordIndex, if_true]
    rw [pushRest_eq _ fits, args', grow_grow]
    rfl
  · rw [ArgReading.wordOffers, offers_singleton answer matched]
    rfl
  · rw [ArgReading.wordOffers, offers_singleton answer matched]
    rfl

section

variable (noError : next.rv.isError = false)
include noError

theorem takeTerminal_reads (fits : Fits args) (found : m.vline[state.wordIndex]? = some word)
    (answer : cmdWordMatch m.env token m.filter word = some type) (matched : type ≠ .noMatch)
    (run : takeTerminal m token word type state args = some next) :
    ∃ reading rest, ReadsArg m.env m.filter (.terminal token)
          (word :: m.vline.drop (state.wordIndex + 1)) reading rest ∧
        Took m state args next reading rest := by
  have isMatch : Matches m.env m.filter token word := ⟨type, answer, matched⟩
  have offered := offers_singleton answer matched
  unfold takeTerminal at run
  by_cases taken : (cmdVararg token.cmd || cmdVariable token.cmd)
  · rw [if_pos taken] at run
    cases pushed : pushArgument args (Arg.ofWord word) with
    | none =>
      rw [pushed] at run
      cases run
      cases noError
    | some args' =>
      rw [pushed] at run
      cases run
      have grown := grow_of_pushArgument pushed
      by_cases vararg : cmdVararg token.cmd
      · exact ⟨_, _, .vararg vararg isMatch, took_finishVararg vararg found answer matched grown⟩
      · rw [Bool.or_eq_true, or_iff_right vararg] at taken
        obtain ⟨notVararg, notOption⟩ := kind_of_variable taken
        refine ⟨_, _, .terminal notVararg notOption isMatch, ?_⟩
        refine took_finishTerminal notVararg ?_ ?_
        · rw [ArgReading.wordOffers, offered]
        · rw [ArgReading.args, if_pos taken, grown]
  · rw [if_neg taken] at run
    rw [Bool.or_eq_true, not_or] at taken
    have notVararg : cmdVararg token.cmd = false := by simpa using taken.1
    by_cases option : cmdOption token.cmd
    · rw [if_pos option] at run
      unfold matchOption at run
      split at run
      · cases run
      rename_i inner _
      split at run
      · cases run
      rename_i innerType _
      split at run
      · cases run
        cases noError
      split at run
      · cases run
        cases noError
      rename_i args' pushed
      cases run
      refine ⟨.option token word (optionArg innerType inner word), _, .option option isMatch, ?_⟩
      exact took_finishTerminal notVararg rfl (grow_of_pushArgument pushed)
    · rw [if_neg option] at run
      cases run
      refine ⟨_, _, .terminal notVararg (by simpa using option) isMatch, ?_⟩
      refine took_finishTerminal notVararg ?_ ?_
      · rw [ArgReading.wordOffers, offered]
      · rw [ArgReading.args, if_neg taken.2, grow_nil fits]

theorem matchTerminal_reads (fits : Fits args)
    (run : cmdMatcherMatchTerminal m token state args = some next) :
    ∃ reading rest, ReadsArg m.env m.filter (.terminal token)
          (m.vline.drop state.wordIndex) reading rest ∧
        Took m state args next reading rest := by
  cases found : m.vline[state.wordIndex]? with
  | none =>
    rw [cmdMatcherMatchTerminal, found] at run
    cases run
    have option : cmdOption token.cmd := by
      by_contra other
      rw [if_neg other] at noError
      cases noError
    have nothing : m.vline.drop state.wordIndex = [] :=
      drop_eq_nil_iff.mpr (List.getElem?_eq_none_iff.mp found)
    rw [nothing]
    refine ⟨.missing token, [], .missing option, ?_⟩
    exact ⟨if_pos option, nothing.symm, rfl, (grow_nil fits).symm, rfl, rfl⟩
  | some word =>
    obtain ⟨type, answer, run⟩ := matchTerminal_word found run
    split at run
    · cases run
      cases noError
    rename_i matched
    rw [drop_of_getElem? found]
    exact takeTerminal_reads noError fits found answer matched run

theorem matchMultiple_reads (run : cmdMatcherMatchMultiple m alternatives state args = some next) :
    ∃ reading rest, ReadsArg m.env m.filter (.multiple alternatives)
          (m.vline.drop state.wordIndex) reading rest ∧
        Took m state args next reading rest := by
  cases found : m.vline[state.wordIndex]? with
  | none =>
    rw [cmdMatcherMatchMultiple, found] at run
    cases run
    cases noError
  | some word =>
    obtain ⟨recorded, result⟩ := matchMultiple_word found run
    obtain ⟨rv, last, others⟩ := next
    cases best : bestOffer (offers m.env m.filter alternatives word) with
    | none =>
      rw [best] at result
      cases result
      cases noError
    | some offer =>
      have nonempty : offers m.env m.filter alternatives word ≠ [] := by
        intro nothing
        rw [nothing] at best
        cases best
      rw [best, multipleResult] at result
      split at result
      · cases result
        cases noError
      rename_i pushed
      cases result
      cases recorded
      rw [drop_of_getElem? found]
      refine ⟨_, _, .multiple nonempty, rfl, ?_, ?_, ?_, rfl, rfl⟩
      · simp
      · simp [ArgReading.wordOffers]
      · rw [ArgReading.args, best, grow_of_pushArgument pushed]
        rfl

end

/-! ## Keyword groups -/

theorem keywordOffers_cons_read (env : MatchEnv) (filter : FilterType) (read : i ∈ mask)
    (word : Word) (part : KeywordPart) (rest : List KeywordPart) :
    keywordOffers env filter mask word i (part :: rest) =
      keywordOffers env filter mask word (i + 1) rest := by
  rw [keywordOffers, if_pos read, nil_append]

theorem keywordOffers_cons_of_noMatch
    (answer : cmdWordMatch env part.keyword filter word = some .noMatch) :
    keywordOffers env filter mask word i (part :: rest) =
      keywordOffers env filter mask word (i + 1) rest := by
  rw [keywordOffers, offers_cons_of_noMatch answer]
  split <;> rfl

theorem keywordOffers_cons_of_match (unread : i ∉ mask)
    (answer : cmdWordMatch env part.keyword filter word = some type) (matched : type ≠ .noMatch) :
    keywordOffers env filter mask word i (part :: rest) = (i, part.keyword, type) ::
        keywordOffers env filter mask word (i + 1) rest := by
  rw [keywordOffers, if_neg unread, offers_singleton answer matched]
  rfl

def scanOffers (m : CmdMatcher) (haveArgs : Bool) :
    List (Nat × Offer) → KeywordScan → Bool × KeywordScan
  | [], scan => (false, scan)
  | (i, offer) :: rest, scan =>
    let state := cmdMatcherRecordMatch m offer.2 offer.1 scan.state
    if scan.best < offer.2 then scanOffers m haveArgs rest ⟨some i, offer.2, state⟩
    else if offer.2 = scan.best && (m.index ≠ some state.wordIndex || haveArgs) then
      (true, { scan with state := state })
    else scanOffers m haveArgs rest { scan with state := state }

section

variable {haveArgs ambiguous : Bool} {scan last : KeywordScan} {list : List (Nat × Offer)}

theorem scanKeywords_eq {result : Bool × KeywordScan}
    (run : scanKeywords m word mask haveArgs i parts scan = some result) :
    scanOffers m haveArgs (keywordOffers m.env m.filter mask word i parts) scan = result := by
  induction parts generalizing i scan with
  | nil =>
    cases run
    rfl
  | cons part rest ih =>
    rw [scanKeywords] at run
    split at run
    · cases run
    split at run
    · rename_i read
      rw [keywordOffers_cons_read _ _ read]
      exact ih run
    rename_i unread
    split at run
    · cases run
    rename_i type answer
    split at run
    · rename_i unmatched
      subst unmatched
      rw [keywordOffers_cons_of_noMatch answer]
      exact ih run
    rename_i matched
    rw [keywordOffers_cons_of_match unread answer matched, scanOffers]
    dsimp only at run ⊢
    split at run
    · rename_i improves
      rw [if_pos improves]
      exact ih run
    rename_i worse
    rw [if_neg worse]
    split at run
    · rename_i tie
      rw [if_pos tie]
      exact Option.some.inj run
    · rename_i noTie
      rw [if_neg noTie]
      exact ih run

section

variable (scanned : scanOffers m haveArgs list scan = (ambiguous, last))
include scanned

theorem scanOffers_records :
    ∃ recorded, last.state = recordAll m recorded scan.state ∧
      (ambiguous = false → recorded = list.map Prod.snd) := by
  fun_induction scanOffers m haveArgs list scan with
  | case1 scan =>
    cases scanned
    exact ⟨[], rfl, fun _ => rfl⟩
  | case2 number offer rest scan _ _ ih | case4 number offer rest scan _ _ _ ih =>
    obtain ⟨recorded, states, all⟩ := ih scanned
    exact ⟨offer :: recorded, states, fun clear => congrArg _ (all clear)⟩
  | case3 number offer rest scan =>
    cases scanned
    exact ⟨[offer], rfl, nofun⟩
theorem scanOffers_picks (strict : m.index ≠ some scan.state.wordIndex ∨ haveArgs) :
    pickKeyword list scan.found scan.best = if ambiguous then none else some last.found := by
  fun_induction scanOffers m haveArgs list scan with
  | case1 scan =>
    cases scanned
    rfl
  | case2 number offer rest scan state improves ih =>
    rw [← recordMatch_wordIndex] at strict
    rw [pickKeyword, if_pos improves]
    exact ih scanned strict
  | case3 number offer rest scan state worse tie =>
    cases scanned
    simp only [Bool.and_eq_true, decide_eq_true_eq] at tie
    rw [pickKeyword, if_neg worse, if_pos tie.1, if_pos rfl]
  | case4 number offer rest scan state worse noTie ih =>
    have still : m.index ≠ some state.wordIndex ∨ haveArgs := by
      rwa [recordMatch_wordIndex]
    have different : ¬ offer.2 = scan.best := by
      intro same
      apply noTie
      simp only [same, decide_true, Bool.true_and, Bool.or_eq_true, decide_eq_true_eq]
      exact still
    rw [pickKeyword, if_neg worse, if_neg different]
    exact ih scanned still

theorem scanOffers_found {number : Nat} (found : last.found = some number) :
    scan.found = some number ∨ ∃ offer, (number, offer) ∈ list := by
  fun_induction scanOffers m haveArgs list scan with
  | case1 | case3 =>
    cases scanned
    exact .inl found
  | case2 _ offer _ _ _ _ ih =>
    refine .inr ?_
    rcases ih scanned with same | ⟨other, member⟩
    · cases same
      exact ⟨offer, mem_cons_self⟩
    · exact ⟨other, mem_cons_of_mem _ member⟩
  | case4 _ _ _ _ _ _ _ ih =>
    exact (ih scanned).imp_right fun ⟨other, member⟩ => ⟨other, mem_cons_of_mem _ member⟩

end

/-- A scan at the index never ends with an ambiguity, and it finds a keyword
when there is an offer. -/
theorem scanOffers_at_index (here : m.index = some scan.state.wordIndex)
    (matched : ∀ offer ∈ list, offer.2.2 ≠ .noMatch)
    (scanned : scanOffers m false list scan = (ambiguous, last)) :
    ambiguous = false ∧ (scan.found ≠ none ∨ scan.best = .noMatch ∧ list ≠ [] →
      last.found ≠ none) := by
  fun_induction scanOffers m false list scan with
  | case1 scan =>
    cases scanned
    exact ⟨rfl, fun found => found.resolve_right fun none => none.2 rfl⟩
  | case2 number offer rest scan state improves ih =>
    have still : m.index = some state.wordIndex := by
      rwa [recordMatch_wordIndex]
    obtain ⟨never, found⟩ := ih still (forall_mem_cons.mp matched).2 scanned
    exact ⟨never, fun _ => found (.inl nofun)⟩
  | case3 number offer rest scan state worse tie =>
    have still : m.index = some state.wordIndex := by
      rwa [recordMatch_wordIndex]
    simp [still] at tie
  | case4 number offer rest scan state worse noTie ih =>
    have still : m.index = some state.wordIndex := by
      rwa [recordMatch_wordIndex]
    obtain ⟨never, found⟩ := ih still (forall_mem_cons.mp matched).2 scanned
    refine ⟨never, ?_⟩
    rintro (before | ⟨best, _⟩)
    · exact found (.inl before)
    · rw [best] at worse
      exact absurd (noMatch_lt (matched _ mem_cons_self)) worse
theorem scanKeywords_spec
    (run : scanKeywords m word mask haveArgs i parts scan = some (ambiguous, last)) :
    (ambiguous = false → last.state = recordAll m
        ((keywordOffers m.env m.filter mask word i parts).map Prod.snd)
        scan.state) ∧
    (m.index ≠ some scan.state.wordIndex ∨ haveArgs →
      pickKeyword (keywordOffers m.env m.filter mask word i parts) scan.found scan.best =
        if ambiguous then none else some last.found) := by
  obtain ⟨recorded, state, all⟩ := scanOffers_records (scanKeywords_eq run)
  exact ⟨fun clear => all clear ▸ state,
    fun strict => scanOffers_picks (scanKeywords_eq run) strict⟩

end

theorem matchKeywordArg_reads {arg : KeywordArg} (fits : Fits args)
    (run : matchKeywordArg m arg state args = some next) (noError : next.rv.isError = false) :
    ∃ reading rest, ReadsArg m.env m.filter arg (m.vline.drop state.wordIndex) reading rest ∧
        Took m state args next reading rest := by
  cases arg with
  | terminal token => exact matchTerminal_reads noError fits run
  | multiple alternatives => exact matchMultiple_reads noError run

theorem fits_emptied (table : KeywordTable) : Fits (table.map fun _ => []) := by
  intro list member
  obtain ⟨_, _, rfl⟩ := Option.map_eq_some_iff.mp member
  exact Nat.zero_le _

/-- The rows of a keyword table for the uses of a reading. -/
def useRows (env : MatchEnv) (filter : FilterType)
    (uses : List KeywordUse) : List (Nat × List Arg) :=
  uses.map fun use => (use.index, use.argv env filter)

theorem pushAll_grow (list new : List Arg) : some (pushAll list new).2 = grow (some list) new := by
  unfold pushAll
  split
  · rename_i short
    rw [← length_append] at short
    simp only [grow, Option.map_some, take_of_length_le short]
  · rfl

def NonemptyWords (words : List Word) : Prop :=
  ∀ word ∈ words, isEmptyWord word = false

instance (words : List Word) : Decidable (NonemptyWords words) :=
  inferInstanceAs (Decidable (∀ word ∈ words, isEmptyWord word = false))

theorem endOfTokens_complete (nonempty : NonemptyWords m.vline)
    (noError : (endOfTokens m state).isError = false) :
    m.vline.drop state.wordIndex = [] ∧ endOfTokens m state = .complete := by
  unfold endOfTokens at noError ⊢
  by_cases finished : m.vline.length ≤ state.wordIndex
  · exact ⟨drop_eq_nil_iff.mpr finished, if_pos finished⟩
  rw [if_neg finished] at noError
  have notEmpty : (m.vline[state.wordIndex]?).any isEmptyWord = false := by
    rw [getElem?_eq_getElem (Nat.lt_of_not_le finished)]
    exact nonempty _ (getElem_mem _)
  rw [notEmpty, Bool.and_false] at noError
  cases noError

section

variable (whole : m.index = none)

include whole

theorem beyondIndex_whole (state : MatcherState) : beyondIndex m state = false := by
  rw [beyondIndex, whole]

theorem goes_of_whole {rv : MatcherRv} {stops goes : Prop}
    (later : if rv.isError || beyondIndex m state then stops else goes)
    (ends : stops → rv.isError = false) : rv.isError = false ∧ goes := by
  rw [beyondIndex_whole whole] at later
  exact fine_of_ends later ends

theorem matchKeywordArgs_reads {list : List KeywordArg} (fits : Fits args)
    (run : matchKeywordArgs m list state args = some next) (noError : next.rv.isError = false) :
    ∃ readings, ReadsArgs m.env m.filter list (m.vline.drop state.wordIndex) readings
          (m.vline.drop next.state.wordIndex) ∧
        next.args = grow args (readings.flatMap (ArgReading.args m.env m.filter)) := by
  induction list generalizing state args with
  | nil =>
    cases run
    exact ⟨[], .nil, (grow_nil fits).symm⟩
  | cons arg rest ih =>
    obtain ⟨middle, step, later⟩ := matchKeywordArgs_cons run
    obtain ⟨fine, later⟩ := goes_of_whole whole later fun same => same ▸ noError
    obtain ⟨reading, words, reads, took⟩ := matchKeywordArg_reads fits step fine
    have fitsNext : Fits middle.args := by
      rw [took.args]
      exact fits_grow _ _
    obtain ⟨readings, tail, grown⟩ := ih fitsNext later
    rw [← took.rest] at tail
    refine ⟨reading :: readings, .cons reads tail, ?_⟩
    rw [grown, took.args, grow_grow, flatMap_cons]

theorem readKeywords_reads {fuel : Nat} {mask : List Nat}
    {table : KeywordTable} {next : KeywordOutcome}
    (run : cmdMatcherReadKeywords m parts fuel mask state table = some next)
    (noError : next.rv.isError = false) :
    ∃ uses, ReadsUses m.env m.filter parts mask (m.vline.drop state.wordIndex) uses ∧
        m.vline.drop next.state.wordIndex = [] ∧ next.rv = .ok ∧
        next.table = table.map (· ++ useRows m.env m.filter uses) := by
  induction fuel generalizing mask state table with
  | zero => cases run
  | succ fuel ih =>
    cases round_of_readKeywords run with
    | finished nothing =>
      rw [drop_eq_nil_iff.mpr (List.getElem?_eq_none_iff.mp nothing)]
      refine ⟨[], .done, rfl, rfl, ?_⟩
      cases table <;> simp [useRows]
    | @refused _ ambiguous => cases ambiguous <;> cases noError
    | @keyword word scan i part _ here scanned number found later =>
      obtain ⟨recorded, picked⟩ := scanKeywords_spec scanned
      have picked := picked (.inl (by rw [whole]; nofun))
      rw [beyondIndex_whole whole] at later
      obtain ⟨middle, step, later⟩ := later
      obtain ⟨fine, later⟩ := goes_of_whole whole later fun same => by
        rw [same] at noError
        exact noError
      obtain ⟨readings, reads, grown⟩ := matchKeywordArgs_reads whole (fits_emptied table) step fine
      obtain ⟨uses, tail, finished, ok, rows⟩ := ih later
      refine ⟨⟨i, word, readings⟩ :: uses, ?_, finished, ok, ?_⟩
      · rw [drop_of_getElem? here]
        refine .use ?_ found ?_ tail
        · rw [picked, number]
          rfl
        · rw [recorded rfl] at reads
          simpa [MatcherState.advance] using reads
      · rw [rows, grown]
        cases table with
        | none => rfl
        | some old => simp [grow, useRows, KeywordUse.argv]

theorem matchKeyword_reads (run : cmdMatcherMatchKeyword m parts state args = some next)
    (noError : next.rv.isError = false) :
    ∃ uses, ReadsUses m.env m.filter parts [] (m.vline.drop state.wordIndex) uses ∧
        m.vline.drop next.state.wordIndex = [] ∧
        next.args = args.bind fun list => grow (some list)
            (groupArgs parts (useRows m.env m.filter uses)) := by
  obtain ⟨reader, readerRun, rfl⟩ := matchKeyword_reader run
  obtain ⟨uses, reads, finished, _, table⟩ :=
    readKeywords_reads whole readerRun (fine_of_reader noError)
  refine ⟨uses, reads, finished, ?_⟩
  cases args with
  | none => rfl
  | some list =>
    change (cmdMatcherBuildKeywordArgs parts (some list) reader.table).2 = _
    rw [table]
    exact pushAll_grow list _

/-- A line that the matcher accepts has a reading, and the arguments are
those of the reading. -/
theorem matchTokens_reads (nonempty : NonemptyWords m.vline) {tokens : List CmdToken}
    (fits : Fits args) (run : matchTokens m tokens state args = some next)
    (noError : next.rv.isError = false) :
    ∃ readings, ReadsTokens m.env m.filter tokens (m.vline.drop state.wordIndex) readings ∧
        next.rv = .complete ∧
        next.args = grow args (readings.flatMap (TokenReading.args m.env m.filter)) := by
  induction tokens generalizing state args with
  | nil =>
    cases run
    obtain ⟨finished, complete⟩ := endOfTokens_complete nonempty noError
    rw [finished]
    exact ⟨[], .nil, complete, (grow_nil fits).symm⟩
  | cons token rest ih =>
    obtain ⟨middle, step, later⟩ := matchTokens_cons run
    obtain ⟨fine, later⟩ := goes_of_whole whole later fun same => same ▸ noError
    cases token with
    | terminal token =>
      obtain ⟨reading, words, reads, took⟩ := matchTerminal_reads fine fits step
      obtain ⟨readings, tail, complete, grown⟩ := ih (by rw [took.args]; exact fits_grow _ _) later
      rw [← took.rest] at tail
      refine ⟨.arg reading :: readings, .terminal reads tail, complete, ?_⟩
      rw [grown, took.args, grow_grow]
      rfl
    | multiple alternatives =>
      obtain ⟨reading, words, reads, took⟩ := matchMultiple_reads fine step
      obtain ⟨readings, tail, complete, grown⟩ := ih (by rw [took.args]; exact fits_grow _ _) later
      rw [← took.rest] at tail
      refine ⟨.arg reading :: readings, .multiple reads tail, complete, ?_⟩
      rw [grown, took.args, grow_grow]
      rfl
    | keyword parts =>
      obtain ⟨uses, reads, finished, grownGroup⟩ := matchKeyword_reads whole step fine
      have same : middle.args = grow args (groupArgs parts (useRows m.env m.filter uses)) := by
        rw [grownGroup]
        cases args <;> rfl
      obtain ⟨readings, tail, complete, grown⟩ := ih (by rw [same]; exact fits_grow _ _) later
      rw [finished] at tail
      refine ⟨.keyword parts uses :: readings, .keyword reads tail, complete, ?_⟩
      rw [grown, same, grow_grow]
      rfl

end

end OpsCli.Command.Acceptance
