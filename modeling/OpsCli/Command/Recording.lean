import OpsCli.Command.Acceptance

/-!
# What the matcher records at one position

With an `index`, the matcher stops behind that word and leaves the tokens that
matched it in the match vector.  For a line with a reading these are the
offers of the reading at that word.
-/

namespace OpsCli.Command.Recording

open Token WordMatch Matcher Reading Acceptance List

/-! ## The match vector -/

/-- The strongest match type of a list of offers. -/
def strongest (list : List Offer) : MatchType :=
  list.foldl (fun best offer => if best < offer.2 then offer.2 else best) .noMatch

/-- Nothing has been recorded yet. -/
structure Fresh (state : MatcherState) : Prop where
  matchVector : state.matchVector = none
  matchType : state.matchType = .noMatch

structure Recorded (state : MatcherState) (list : List Offer) : Prop where
  matchVector : state.matchVector = if list = [] then none else some (list.map Prod.fst)
  matchType : state.matchType = strongest list

variable {state : MatcherState} {m : CmdMatcher} {index : Nat}

theorem Fresh.recorded (fresh : Fresh state) : Recorded state [] :=
  ⟨fresh.matchVector, fresh.matchType⟩

theorem Recorded.getD_matchVector {list : List Offer} (recorded : Recorded state list) :
    state.matchVector.getD [] = list.map Prod.fst := by
  rw [recorded.matchVector]
  split
  · rename_i nothing
    rw [nothing]
    rfl
  · rfl

theorem recordAll_at (here : m.index = some state.wordIndex) (list : List Offer) :
    (recordAll m list state).matchVector = (if list = [] then state.matchVector
          else some (state.matchVector.getD [] ++ list.map Prod.fst)) ∧
      (recordAll m list state).matchType = list.foldl (fun best offer =>
          if best < offer.2 then offer.2 else best) state.matchType := by
  induction list generalizing state with
  | nil => exact ⟨rfl, rfl⟩
  | cons offer rest ih =>
    have still : m.index = some (cmdMatcherRecordMatch m offer.2 offer.1 state).wordIndex := by
      rw [recordMatch_wordIndex]
      exact here
    obtain ⟨vector, type⟩ := ih still
    change (recordAll m rest _).matchVector = _ ∧ (recordAll m rest _).matchType = _
    rw [vector, type]
    unfold cmdMatcherRecordMatch
    rw [if_pos here]
    refine ⟨?_, rfl⟩
    cases rest <;> simp

theorem recorded_recordAll (fresh : Fresh state) (here : m.index = some state.wordIndex)
    (list : List Offer) : Recorded (recordAll m list state) list := by
  obtain ⟨vector, type⟩ := recordAll_at here list
  rw [fresh.matchVector] at vector
  rw [fresh.matchType] at type
  exact ⟨vector, type⟩

theorem recordAll_elsewhere (elsewhere : m.index ≠ some state.wordIndex) (list : List Offer) :
    recordAll m list state = state := by
  induction list with
  | nil => rfl
  | cons offer rest ih =>
    change recordAll m rest (cmdMatcherRecordMatch m offer.2 offer.1 state) = state
    rw [cmdMatcherRecordMatch, if_neg elsewhere, ih]

/-! ## Terminals and multiples -/

variable {rest : List Word} {reading : ArgReading} {start : Nat} {first second : List (List Offer)}
  {arg : KeywordArg} {list : List KeywordArg} {mask : List Nat}

/-- A token reads a line in one way only, up to the argument of an
option. -/
theorem readsArg_deterministic {env : MatchEnv} {filter : FilterType}
    {words other : List Word} {second : ArgReading}
    (reads : ReadsArg env filter arg words reading rest)
    (again : ReadsArg env filter arg words second other) :
    other = rest ∧ second.wordOffers env filter = reading.wordOffers env filter := by
  cases reads with
  | terminal notVararg notOption _ =>
    cases again with
    | terminal => exact ⟨rfl, rfl⟩
    | option option => simp [notOption] at option
    | vararg vararg => simp [notVararg] at vararg
  | option option _ =>
    cases again with
    | terminal _ notOption => simp [notOption] at option
    | option => exact ⟨rfl, rfl⟩
    | vararg vararg =>
      simp [not_option_of_vararg vararg] at option
  | missing option =>
    cases again with
    | missing => exact ⟨rfl, rfl⟩
  | vararg vararg _ =>
    cases again with
    | terminal notVararg => simp [notVararg] at vararg
    | option option =>
      simp [not_option_of_vararg vararg] at option
    | vararg => exact ⟨rfl, rfl⟩
  | multiple _ =>
    cases again with
    | multiple => exact ⟨rfl, rfl⟩

theorem wordOffers_later (env : MatchEnv) (filter : FilterType) (reading : ArgReading)
    {position : Nat} (later : 0 < position)
    (bound : position < (reading.wordOffers env filter).length) :
    (reading.wordOffers env filter)[position]? = some [] := by
  cases reading with
  | missing token => cases bound
  | vararg token word rest =>
    obtain ⟨before, rfl⟩ : ∃ before, position = before + 1 := ⟨position - 1, by omega⟩
    simp only [ArgReading.wordOffers, length_cons, length_map] at bound
    rw [ArgReading.wordOffers, getElem?_cons_succ, getElem?_map,
      getElem?_eq_getElem (show before < rest.length by omega)]
    rfl
  | terminal token word | option token word arg | multiple alternatives word =>
    simp only [ArgReading.wordOffers, length_singleton] at bound
    omega

section

variable {env : MatchEnv} {filter : FilterType} {words : List Word}

theorem readsArg_length (reads : ReadsArg env filter arg words reading rest) :
    words.length = (reading.wordOffers env filter).length + rest.length := by
  cases reads <;> simp [ArgReading.wordOffers, Nat.add_comm]

theorem readsArgs_length {readings : List ArgReading}
    (reads : ReadsArgs env filter list words readings rest) :
    words.length = (readings.flatMap (ArgReading.wordOffers env filter)).length + rest.length := by
  induction reads with
  | nil => simp
  | cons head _ ih =>
    rw [readsArg_length head, ih, flatMap_cons, length_append]
    omega

theorem readsUses_length {parts : List KeywordPart} {uses : List KeywordUse}
    (reads : ReadsUses env filter parts mask words uses) :
    words.length = (usesOffers env filter parts mask uses).length := by
  induction reads with
  | done => rfl
  | use _ _ args _ ih =>
    rw [length_cons, readsArgs_length args, ih, usesOffers, cons_append, length_cons, length_append]

theorem readsTokens_length {tokens : List CmdToken} {readings : List TokenReading}
    (reads : ReadsTokens env filter tokens words readings) :
    words.length = (readings.flatMap (TokenReading.wordOffers env filter)).length := by
  induction reads with
  | nil => rfl
  | terminal head _ ih | multiple head _ ih =>
    rw [readsArg_length head, ih, flatMap_cons, length_append]
    rfl
  | keyword head _ ih =>
    rw [readsUses_length head, flatMap_cons, length_append, ← ih]
    rfl

end

/-- The matcher has passed the index and recorded the offers at it, or it
has not reached the index and recorded nothing. -/
def Progress (index start : Nat) (state : MatcherState) (all : List (List Offer)) : Prop :=
  (index < state.wordIndex ∧ ∃ offered, all[index - start]? = some offered ∧
      Recorded state offered) ∨
    (state.wordIndex ≤ index ∧ state.wordIndex = start + all.length ∧ Fresh state)

theorem took_progress {args : Args} {next : Outcome} (took : Took m state args next reading rest)
    (atIndex : m.index = some index) (before : state.wordIndex ≤ index) (fresh : Fresh state) :
    Progress index state.wordIndex next.state (reading.wordOffers m.env m.filter) := by
  have position := took.wordIndex
  have vector := took.matchVector
  have type := took.matchType
  by_cases here : index = state.wordIndex
  · subst here
    cases all : reading.wordOffers m.env m.filter with
    | nil =>
      rw [all] at position vector type
      refine .inr ⟨?_, position, ?_⟩
      · rw [position]
        exact le_rfl
      · exact ⟨vector.trans fresh.matchVector, type.trans fresh.matchType⟩
    | cons offered later =>
      rw [all] at position vector type
      refine .inl ⟨?_, offered, by simp, ?_⟩
      · rw [position, length_cons]
        omega
      · have recorded := recorded_recordAll fresh atIndex offered
        exact ⟨vector.trans recorded.matchVector, type.trans recorded.matchType⟩
  · have elsewhere : m.index ≠ some state.wordIndex := by
      rw [atIndex]
      exact fun same => here (Option.some.inj same)
    rw [recordAll_elsewhere elsewhere] at vector type
    have stillFresh : Fresh next.state :=
      ⟨vector.trans fresh.matchVector, type.trans fresh.matchType⟩
    by_cases passed : index < next.state.wordIndex
    · refine .inl ⟨passed, [], ?_, stillFresh.recorded⟩
      exact wordOffers_later _ _ reading (by omega) (by omega)
    · exact .inr ⟨Nat.le_of_not_lt passed, position, stillFresh⟩

theorem progress_passed (passed : index < state.wordIndex)
    (found : ∃ offered, first[index - start]? = some offered ∧ Recorded state offered) :
    Progress index start state (first ++ second) := by
  obtain ⟨offered, present, recorded⟩ := found
  refine .inl ⟨passed, offered, ?_, recorded⟩
  rw [getElem?_append_left (List.getElem?_eq_some_iff.mp present).choose]
  exact present

theorem Progress.after {middle : Nat} (position : middle = start + first.length)
    (before : middle ≤ index) (progress : Progress index middle state second) :
    Progress index start state (first ++ second) := by
  rcases progress with ⟨passed, offered, present, recorded⟩ | ⟨notPassed, wordIndex, fresh⟩
  · refine .inl ⟨passed, offered, ?_, recorded⟩
    rw [getElem?_append_right (by omega)]
    rw [position] at present
    rw [← present]
    congr 1
    omega
  · refine .inr ⟨notPassed, ?_, fresh⟩
    rw [wordIndex, position, length_append]
    omega

theorem beyondIndex_at (atIndex : m.index = some index) (state : MatcherState) :
    beyondIndex m state ↔ index < state.wordIndex := by
  simp [beyondIndex, atIndex]

/-! ## Keyword groups -/

section

variable (atIndex : m.index = some index) (before : state.wordIndex ≤ index) (fresh : Fresh state)

include atIndex before fresh

variable {next : Outcome} {parts : List KeywordPart} {uses : List KeywordUse}
  {tokens : List CmdToken} {readings : List TokenReading}

theorem matchArg_records (reads : ReadsArg m.env m.filter arg (m.vline.drop state.wordIndex)
      reading rest) (run : matchKeywordArg m arg state none = some next)
    (noError : next.rv.isError = false) :
    Progress index state.wordIndex next.state (reading.wordOffers m.env m.filter) ∧
      rest = m.vline.drop next.state.wordIndex ∧ next.args = none := by
  obtain ⟨second, words, again, took⟩ := matchKeywordArg_reads fits_none run noError
  obtain ⟨sameWords, sameOffers⟩ := readsArg_deterministic reads again
  have progress := took_progress took atIndex before fresh
  rw [sameOffers] at progress
  exact ⟨progress, sameWords.symm.trans took.rest, took.args⟩

theorem matchKeywordArgs_records {readings : List ArgReading}
    (reads : ReadsArgs m.env m.filter list (m.vline.drop state.wordIndex)
      readings rest) (run : matchKeywordArgs m list state none = some next)
    (noError : next.rv.isError = false) :
    Progress index state.wordIndex next.state
        (readings.flatMap (ArgReading.wordOffers m.env m.filter)) ∧
      (next.state.wordIndex ≤ index → rest = m.vline.drop next.state.wordIndex) := by
  induction list generalizing state readings with
  | nil =>
    cases run
    cases reads
    exact ⟨.inr ⟨before, rfl, fresh⟩, fun _ => rfl⟩
  | cons arg others ih =>
    cases reads with
    | cons head tail =>
      obtain ⟨middle, step, after⟩ := matchKeywordArgs_cons run
      obtain ⟨fine, after⟩ := fine_of_ends after fun same => same ▸ noError
      rw [flatMap_cons]
      obtain ⟨progress, words, noArgs⟩ := matchArg_records atIndex before fresh head step fine
      rcases progress with ⟨passed, found⟩ | ⟨notPassed, position, still⟩
      · rw [if_pos ((beyondIndex_at atIndex _).mpr passed)] at after
        subst after
        exact ⟨progress_passed passed found, fun late => by omega⟩
      · rw [if_neg (by rw [beyondIndex_at atIndex]; omega), noArgs] at after
        rw [words] at tail
        obtain ⟨later, restLater⟩ := ih notPassed still tail after
        exact ⟨later.after position notPassed, restLater⟩

theorem readKeywords_records {fuel : Nat} {next : KeywordOutcome}
    (reads : ReadsUses m.env m.filter parts mask (m.vline.drop state.wordIndex) uses)
    (run : cmdMatcherReadKeywords m parts fuel mask state none = some next)
    (noError : next.rv.isError = false) :
    Progress index state.wordIndex next.state (usesOffers m.env m.filter parts mask uses) := by
  induction fuel generalizing mask state uses with
  | zero => cases run
  | succ fuel ih =>
    cases round_of_readKeywords run with
    | finished nothing =>
      rw [drop_eq_nil_iff.mpr (List.getElem?_eq_none_iff.mp nothing)] at reads
      cases reads
      exact .inr ⟨before, rfl, fresh⟩
    | @refused _ ambiguous => cases ambiguous <;> cases noError
    | @keyword word scan _ _ _ found scanned number chosen rest =>
      rw [drop_of_getElem? found] at reads
      cases reads with
      | use picked partFound readsArgs tail =>
      obtain ⟨recorded, pickedAgain⟩ := scanKeywords_spec scanned
      have recorded := recorded rfl
      rw [usesOffers]
      have position : scan.state.advance.wordIndex = state.wordIndex + 1 := by
        rw [recorded]
        simp [MatcherState.advance]
      by_cases here : index = state.wordIndex
      · rw [if_pos (by rw [beyondIndex_at atIndex, position]; omega)] at rest
        subst rest
        refine .inl ⟨by rw [position]; omega,
          (keywordOffers m.env m.filter mask word 0 parts).map Prod.snd,
          ?_, ?_⟩
        · rw [here, Nat.sub_self]
          rfl
        · rw [here] at atIndex
          have all := recorded_recordAll fresh atIndex
            ((keywordOffers m.env m.filter mask word 0 parts).map Prod.snd)
          rw [← recorded] at all
          exact ⟨all.matchVector, all.matchType⟩
      have elsewhere : m.index ≠ some state.wordIndex := by
        rw [atIndex]
        exact fun same => here (Option.some.inj same)
      have still : Fresh scan.state.advance := by
        rw [recorded, recordAll_elsewhere elsewhere]
        exact ⟨fresh.matchVector, fresh.matchType⟩
      have same := (pickedAgain (.inl elsewhere)).symm.trans picked
      rw [if_neg Bool.false_ne_true, Option.some.injEq, number] at same
      cases same
      cases partFound.symm.trans chosen
      rw [if_neg (by rw [beyondIndex_at atIndex, position]; omega)] at rest
      obtain ⟨middle, argsRun, rest⟩ := rest
      obtain ⟨fine, rest⟩ := fine_of_ends rest fun same => by
        rw [same] at noError
        exact noError
      rw [← position] at readsArgs
      obtain ⟨progress, restMiddle⟩ := matchKeywordArgs_records atIndex
        (by rw [position]; omega) still readsArgs argsRun fine
      rw [cons_append, ← singleton_append]
      refine Progress.after position (by rw [position]; omega) ?_
      rcases progress with ⟨passed, offered⟩ | ⟨notPassed, after, clean⟩
      · rw [if_pos ((beyondIndex_at atIndex _).mpr passed)] at rest
        subst rest
        exact progress_passed passed offered
      · rw [if_neg (by rw [beyondIndex_at atIndex]; omega)] at rest
        rw [restMiddle notPassed] at tail
        exact (ih notPassed clean tail rest).after after notPassed

theorem matchKeyword_records (reads : ReadsUses m.env m.filter parts []
      (m.vline.drop state.wordIndex) uses)
    (run : cmdMatcherMatchKeyword m parts state none = some next)
    (noError : next.rv.isError = false) :
    Progress index state.wordIndex next.state (usesOffers m.env m.filter parts [] uses) ∧
      (next.state.wordIndex ≤ index → m.vline.drop next.state.wordIndex = []) ∧
      next.args = none := by
  obtain ⟨reader, readerRun, rfl⟩ := matchKeyword_none run
  have progress := readKeywords_records atIndex before fresh reads readerRun noError
  refine ⟨progress, fun late => ?_, rfl⟩
  rcases progress with ⟨passed, _⟩ | ⟨_, position, _⟩
  · change reader.state.wordIndex ≤ index at late
    omega
  · have total := readsUses_length reads
    rw [length_drop] at total
    apply drop_eq_nil_iff.mpr
    change m.vline.length ≤ reader.state.wordIndex
    omega

section

variable (reads : ReadsTokens m.env m.filter tokens (m.vline.drop state.wordIndex) readings)
include reads

theorem matchTokens_progress (run : matchTokens m tokens state none = some next)
    (noError : next.rv.isError = false) :
    Progress index state.wordIndex next.state
      (readings.flatMap (TokenReading.wordOffers m.env m.filter)) := by
  induction tokens generalizing state readings with
  | nil =>
    generalize m.vline.drop state.wordIndex = words at reads
    cases reads
    cases run
    exact .inr ⟨before, rfl, fresh⟩
  | cons token others ih =>
    obtain ⟨middle, step, goes⟩ := matchTokens_cons run
    obtain ⟨fine, goes⟩ := fine_of_ends goes fun same => same ▸ noError
    have continues {first : List (List Offer)} {later : List TokenReading}
        (progress : Progress index state.wordIndex middle.state first)
        (noArgs : middle.args = none)
        (tail : middle.state.wordIndex ≤ index → ReadsTokens m.env m.filter others
            (m.vline.drop middle.state.wordIndex) later) :
        Progress index state.wordIndex next.state (first ++
          later.flatMap (TokenReading.wordOffers m.env m.filter)) := by
      rcases progress with ⟨passed, found⟩ | ⟨notPassed, position, still⟩
      · rw [if_pos ((beyondIndex_at atIndex _).mpr passed)] at goes
        subst goes
        exact progress_passed passed found
      · rw [if_neg (by rw [beyondIndex_at atIndex]; omega), noArgs] at goes
        exact (ih notPassed still (tail notPassed) goes).after position notPassed
    cases reads with
    | terminal head tail | multiple head tail =>
      obtain ⟨progress, rest, noArgs⟩ := matchArg_records atIndex before fresh head step fine
      rw [flatMap_cons]
      exact continues progress noArgs fun _ => rest ▸ tail
    | keyword head tail =>
      obtain ⟨progress, rest, noArgs⟩ := matchKeyword_records atIndex before fresh head step fine
      rw [flatMap_cons]
      exact continues progress noArgs fun late => (rest late).symm ▸ tail

/-- On a line with a reading, the matcher leaves the offers at the index. -/
theorem matchTokens_records (run : matchTokens m tokens state none = some next)
    (noError : next.rv.isError = false) (inLine : index < m.vline.length) :
    ∃ offered, (readings.flatMap (TokenReading.wordOffers m.env m.filter))[
          index - state.wordIndex]? = some offered ∧
        Recorded next.state offered := by
  rcases matchTokens_progress atIndex before fresh reads run noError with
    ⟨_, found⟩ | ⟨notPassed, position, _⟩
  · exact found
  · have total := readsTokens_length reads
    rw [length_drop] at total
    omega

end

end

end OpsCli.Command.Recording
