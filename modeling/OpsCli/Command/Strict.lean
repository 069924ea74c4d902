import OpsCli.Command.ExactReading
import OpsCli.Command.TypedArguments

/-!
# Strict execution

Strict execution applies the strict filter word by word to the visible
commands.  Whether a command that is left is complete, and what its arguments
are, is found out by the relaxed matcher.  This module says which words of a
line that reaches a handler have been compared strictly, and that a fixed word
that took one of them was spelled in full.
-/

namespace OpsCli.Command.Strict

open CLib.CString Token WordMatch Matcher Reading Acceptance Recording Choice
  ExactReading Selection Survival Authorization Execute Trace TypedArguments
  List

/-- `cmd_execute_command_strict`. -/
def cmdExecuteCommandStrict {World : Type} (services : Services World) (vline : List Word)
    (session : Session World) : Option (CmdStatus × Session World) :=
  cmdExecuteCommandReal services .strict vline session

/-! ## Which token takes which word -/

/-- The token that takes a word of the line, and whether the strict filter
compares the word with fixed words only. -/
structure Taker where
  token : Terminal
  word : Word
  guarded : Bool
deriving DecidableEq, Repr

/-- The alternatives are all fixed words. -/
def allFixed (tokens : List Terminal) : Bool :=
  tokens.all fun token => isFixed token.cmd

section

variable (env : MatchEnv)

/-- The takers of a terminal or a multiple; `guarded` says whether the strict
filter comes to the same token. -/
def ArgReading.takers (guarded : Bool) : ArgReading → List Taker
  | .terminal token word => [⟨token, word, guarded⟩]
  | .option token word _ => [⟨token, word, guarded⟩]
  | .missing _ => []
  | .vararg token word rest =>
    (word :: rest).map fun word => ⟨token, word, guarded⟩
  | .multiple alternatives word =>
    ((bestOffer (offers env .relaxed alternatives word)).map fun offer =>
      ⟨offer.1, word, guarded && allFixed alternatives⟩).toList

/-- The takers of a keyword group.  Unless all keywords are fixed words, the
strict filter may read other keywords. -/
def usesTakers (parts : List KeywordPart) (uses : List KeywordUse) : List Taker :=
  let guarded := allFixed (parts.map KeywordPart.keyword)
  uses.flatMap fun use =>
    (parts[use.index]?.map fun part =>
      ⟨part.keyword, use.word, guarded⟩).toList ++
      use.args.flatMap (ArgReading.takers env guarded)

/-- The takers of a token of a command. -/
def TokenReading.takers : TokenReading → List Taker
  | .arg reading => ArgReading.takers env true reading
  | .keyword parts uses => usesTakers env parts uses

def takers (readings : List TokenReading) : List Taker :=
  readings.flatMap (TokenReading.takers env)

end

/-- A fixed word that takes a guarded word is spelled in full. -/
def Taker.Sound (taker : Taker) : Prop :=
  taker.guarded → WordExact taker.token taker.word

/-! ## Every word has a taker -/

section

variable {env : MatchEnv} {words : List Word} {rest : List Word} {parts : List KeywordPart}
  {readings : List TokenReading} {reading : ArgReading} {arg : KeywordArg} {mask : List Nat}
  {list : List KeywordArg} {tokens : List CmdToken}

theorem readsArg_words (guarded : Bool) (reads : ReadsArg env .relaxed arg words reading rest) :
    words = (ArgReading.takers env guarded reading).map Taker.word ++
      rest := by
  cases reads with
  | terminal => rfl
  | option => rfl
  | missing => rfl
  | vararg => simp [ArgReading.takers, Function.comp_def]
  | multiple matched =>
    obtain ⟨chosen, best⟩ := bestOffer_ne_none matched
    rw [ArgReading.takers, best]
    rfl

theorem readsArgs_words {readings : List ArgReading} (guarded : Bool)
    (reads : ReadsArgs env .relaxed list words readings rest) :
    words = (readings.flatMap (ArgReading.takers env guarded)).map Taker.word ++ rest := by
  induction reads with
  | nil => rfl
  | cons head _ ih =>
    rw [flatMap_cons, map_append, append_assoc, ← ih]
    exact readsArg_words guarded head

theorem usesTakers_cons {part : KeywordPart} {use : KeywordUse}
    (found : parts[use.index]? = some part) (uses : List KeywordUse) :
    usesTakers env parts (use :: uses) = ⟨part.keyword, use.word,
          allFixed (parts.map KeywordPart.keyword)⟩ ::
        (use.args.flatMap (ArgReading.takers env (allFixed (parts.map KeywordPart.keyword))) ++
          usesTakers env parts uses) := by
  rw [usesTakers, flatMap_cons, found]
  rfl

theorem readsUses_words {uses : List KeywordUse}
    (reads : ReadsUses env .relaxed parts mask words uses) :
    words = (usesTakers env parts uses).map Taker.word := by
  induction reads with
  | done => rfl
  | use _ found args _ ih =>
    rw [usesTakers_cons found, map_cons, map_append, ← ih]
    exact congrArg (List.cons _) (readsArgs_words _ args)

theorem readsTokens_words (reads : ReadsTokens env .relaxed tokens words readings) :
    words = (takers env readings).map Taker.word := by
  induction reads with
  | nil => rfl
  | terminal head _ ih | multiple head _ ih =>
    rw [takers, flatMap_cons, map_append]
    rw [takers] at ih
    rw [← ih]
    exact readsArg_words true head
  | keyword head _ ih =>
    rw [takers, flatMap_cons, map_append]
    rw [takers] at ih
    rw [← ih, append_nil]
    exact readsUses_words head

end

/-! ## Strict matches of fixed words -/

section

variable {env : MatchEnv} {word : Word} {token : Terminal} {words : List Word} {arg : KeywordArg}
  {reading : ArgReading}

theorem wordExact_of_strict (matched : Matches env .strict token word) : WordExact token word := by
  intro fixed
  obtain ⟨type, answer, different⟩ := matched
  cases word with
  | none =>
    cases answer
    exact absurd rfl different
  | some text =>
    change cmdWordMatchText env token.cmd .strict text = some type at answer
    rw [cmdWordMatchText_fixed fixed, fixedWordMatch, matchIf] at answer
    split at answer
    · rename_i same
      rw [of_decide_eq_true same]
    · cases answer
      exact absurd rfl different

theorem relaxed_of_strict (fixed : isFixed token.cmd) (matched : Matches env .strict token word) :
    cmdWordMatch env token .relaxed word = some .exactMatch := by
  rw [wordExact_of_strict matched fixed]
  exact cmdWordMatch_self fixed

/-- Among fixed words with a strict match the relaxed filter chooses one that
is spelled in full. -/
theorem bestOffer_exact {alternatives : List Terminal} {chosen : Offer}
    (fixed : allFixed alternatives) (matched : offers env .strict alternatives word ≠ [])
    (best : bestOffer (offers env .relaxed alternatives word) = some chosen) :
    WordExact chosen.1 word := by
  obtain ⟨offer, member⟩ := exists_mem_of_ne_nil _ matched
  obtain ⟨present, answer⟩ := mem_offers.mp member
  have exact := relaxed_of_strict (all_eq_true.mp fixed _ present) ⟨offer.2, answer⟩
  obtain ⟨chosenMember, strongest⟩ := bestOffer_spec best
  have above := strongest (offer.1, .exactMatch) (mem_offers.mpr ⟨present, exact, nofun⟩)
  obtain ⟨_, chosenAnswer, _⟩ := mem_offers.mp chosenMember
  rw [le_antisymm (MatchType.le_exactMatch _) above] at chosenAnswer
  exact fun isFixed => word_of_exactMatch isFixed chosenAnswer

theorem readsArg_strict {rest other : List Word} {second : ArgReading} (guarded : Bool)
    (reads : ReadsArg env .relaxed arg words reading rest)
    (again : ReadsArg env .strict arg words second other) :
    other = rest ∧ (second.wordOffers env .strict).length =
        (ArgReading.takers env guarded reading).length ∧
      ∀ taker ∈ ArgReading.takers env guarded reading, taker.Sound := by
  cases reads with
  | terminal notVararg notOption _ =>
    cases again with
    | terminal _ _ matched =>
      exact ⟨rfl, rfl, forall_mem_singleton.mpr fun _ => wordExact_of_strict matched⟩
    | option option => cases notOption.symm.trans option
    | vararg vararg => cases notVararg.symm.trans vararg
  | option option _ =>
    cases again with
    | terminal _ notOption => cases notOption.symm.trans option
    | option _ matched =>
      exact ⟨rfl, rfl, forall_mem_singleton.mpr fun _ => wordExact_of_strict matched⟩
    | vararg vararg =>
      cases (not_option_of_vararg vararg).symm.trans option
  | missing _ =>
    cases again with
    | missing => exact ⟨rfl, rfl, nofun⟩
  | vararg vararg _ =>
    cases again with
    | terminal notVararg => cases notVararg.symm.trans vararg
    | option option =>
      cases (not_option_of_vararg vararg).symm.trans option
    | vararg =>
      refine ⟨rfl, ?_, fun taker member _ fixed => ?_⟩
      · simp [ArgReading.wordOffers, ArgReading.takers]
      · obtain ⟨word, _, rfl⟩ := mem_map.mp member
        simp [isFixed, vararg] at fixed
  | multiple matched =>
    obtain ⟨chosen, best⟩ := bestOffer_ne_none matched
    cases again with
    | multiple strictly =>
      rw [ArgReading.takers, best]
      refine ⟨rfl, rfl, forall_mem_singleton.mpr fun guard => ?_⟩
      rw [Bool.and_eq_true] at guard
      exact bestOffer_exact guard.2 strictly best

end

/-! ## Keywords -/

section

variable {env : MatchEnv} {parts : List KeywordPart} {mask : List Nat} {word : Word} {i : Nat}
  {number : Nat} {offer : Offer}

section

variable (member : (number, offer) ∈ keywordOffers env .strict mask word 0 parts)
include member

theorem keywordOffer_relaxed (fixed : allFixed (parts.map KeywordPart.keyword)) :
    (number, offer.1, MatchType.exactMatch) ∈ keywordOffers env .relaxed mask word 0 parts := by
  obtain ⟨after, unread, ⟨part, found, same⟩, answer⟩ := mem_keywordOffers.mp member
  have isFixed : isFixed offer.1.cmd := by
    rw [same]
    exact all_eq_true.mp fixed _ (mem_map_of_mem (mem_of_getElem? found))
  exact mem_keywordOffers.mpr ⟨after, unread, ⟨part, found, same⟩,
    relaxed_of_strict isFixed ⟨offer.2, answer⟩, nofun⟩

/-- The keyword that the relaxed filter reads is the one of a strict offer,
and it is spelled in full. -/
theorem picked_of_strict (fixed : allFixed (parts.map KeywordPart.keyword))
    (picked : pickKeyword (keywordOffers env .relaxed mask word 0 parts) none
      .noMatch = some (some i)) :
    number = i ∧ ∀ part, parts[i]? = some part → WordExact part.keyword word := by
  obtain ⟨type, _, _, others, _⟩ := pickKeyword_strongest picked
  obtain ⟨below, alone⟩ := others _ (keywordOffer_relaxed member fixed)
  obtain rfl : number = i := alone (le_antisymm below (MatchType.le_exactMatch _))
  refine ⟨rfl, fun part found => ?_⟩
  obtain ⟨_, _, ⟨other, otherFound, same⟩, answer⟩ := mem_keywordOffers.mp member
  cases found.symm.trans otherFound
  rw [← same]
  exact wordExact_of_strict ⟨offer.2, answer⟩

end

end

variable {start index : Nat} {m : CmdMatcher} {commands left : List (Option CmdElement)}
  {env : MatchEnv} {vline : List Word} {command : CmdElement}

/-! ## The strict matcher beside a relaxed reading -/

/-- The taker of the word at the index is sound; `start` is the position of
the first taker. -/
def SoundAt (index start : Nat) (list : List Taker) : Prop :=
  ∀ taker, list[index - start]? = some taker → taker.Sound

theorem soundAt_of_all {list : List Taker} (sound : ∀ taker ∈ list, taker.Sound) :
    SoundAt index start list :=
  fun taker found => sound taker (mem_of_getElem? found)

theorem SoundAt.append {first second : List Taker} (sound : SoundAt index start first)
    (later : start + first.length ≤ index → SoundAt index (start + first.length) second)
    (before : start ≤ index) : SoundAt index start (first ++ second) := by
  intro taker found
  by_cases here : index - start < first.length
  · rw [getElem?_append_left here] at found
    exact sound taker found
  · rw [getElem?_append_right (Nat.le_of_not_lt here), Nat.sub_sub] at found
    exact later (by omega) taker found

section

variable (atIndex : m.index = some index)
  (strict : m.filter = .strict)

include strict

variable {state : MatcherState} {next : Outcome} {parts : List KeywordPart} {args : Args}
  {rest : List Word} {uses : List KeywordUse}

/-- A terminal or a multiple that is not refused: its takers are sound, and
it has taken as many words as the reading says. -/
theorem matchKeywordArg_sound (guarded : Bool) (fits : Fits args)
    (reads : ReadsArg m.env .relaxed arg (m.vline.drop state.wordIndex)
      reading rest) (run : matchKeywordArg m arg state args = some next)
    (noError : next.rv.isError = false) :
    (∀ taker ∈ ArgReading.takers m.env guarded reading, taker.Sound) ∧
      next.state.wordIndex = state.wordIndex + (ArgReading.takers m.env guarded reading).length ∧
      rest = m.vline.drop next.state.wordIndex ∧ Fits next.args := by
  obtain ⟨second, words, again, took⟩ := matchKeywordArg_reads fits run noError
  have position := took.wordIndex
  rw [strict] at again position
  obtain ⟨sameWords, sameLength, sound⟩ := readsArg_strict guarded reads again
  rw [sameLength] at position
  refine ⟨sound, position, sameWords.symm.trans took.rest, ?_⟩
  rw [took.args]
  exact fits_grow _ _

include atIndex

theorem matchKeywordArgs_sound {readings : List ArgReading} (guarded : Bool) (fits : Fits args)
    (reads : ReadsArgs m.env .relaxed list (m.vline.drop state.wordIndex)
      readings rest) (run : matchKeywordArgs m list state args = some next)
    (noError : next.rv.isError = false) (before : state.wordIndex ≤ index) :
    SoundAt index state.wordIndex (readings.flatMap (ArgReading.takers m.env guarded)) ∧
      (state.wordIndex + (readings.flatMap (ArgReading.takers m.env guarded)).length ≤ index →
        next.state.wordIndex = state.wordIndex + (readings.flatMap
            (ArgReading.takers m.env guarded)).length ∧
          rest = m.vline.drop next.state.wordIndex) := by
  induction list generalizing state args readings with
  | nil =>
    cases run
    cases reads
    exact ⟨soundAt_of_all nofun, fun _ => ⟨rfl, rfl⟩⟩
  | cons arg others ih =>
    cases reads with
    | cons head tail =>
      obtain ⟨middle, step, goes⟩ := matchKeywordArgs_cons run
      obtain ⟨fine, goes⟩ := fine_of_ends goes fun same => same ▸ noError
      rw [flatMap_cons, length_append]
      obtain ⟨sound, position, words, fitsNext⟩ :=
        matchKeywordArg_sound strict guarded fits head step fine
      rw [words] at tail
      have continues (late : middle.state.wordIndex ≤ index) := ih fitsNext tail (by
          rwa [if_neg (by rw [beyondIndex_at atIndex]; omega)] at goes)
          late
      refine ⟨(soundAt_of_all sound).append (fun late => ?_) before, fun late => ?_⟩
      · rw [← position] at late ⊢
        exact (continues late).1
      · rw [← Nat.add_assoc, ← position] at late ⊢
        exact (continues (by omega)).2 late

theorem readKeywords_sound {fuel : Nat} {next : KeywordOutcome}
    (fixed : allFixed (parts.map KeywordPart.keyword))
    (reads : ReadsUses m.env .relaxed parts mask (m.vline.drop state.wordIndex) uses)
    (run : cmdMatcherReadKeywords m parts fuel mask state none = some next)
    (noError : next.rv.isError = false) (before : state.wordIndex ≤ index) :
    SoundAt index state.wordIndex (usesTakers m.env parts uses) := by
  induction fuel generalizing mask state uses with
  | zero => cases run
  | succ fuel ih =>
    cases round_of_readKeywords run with
    | finished nothing =>
      rw [drop_eq_nil_iff.mpr (List.getElem?_eq_none_iff.mp nothing)] at reads
      cases reads
      exact soundAt_of_all nofun
    | @refused _ ambiguous => cases ambiguous <;> cases noError
    | @keyword _ scan _ _ _ found scanned numberFound otherFound rest =>
      rw [drop_of_getElem? found] at reads
      cases reads with
      | use picked partFound readsArgs tail =>
      obtain ⟨offer, member⟩ := (scanOffers_found (scanKeywords_eq scanned)
        numberFound).resolve_left nofun
      rw [strict] at member
      obtain ⟨rfl, exact⟩ := picked_of_strict member fixed picked
      cases partFound.symm.trans otherFound
      have position : scan.state.advance.wordIndex = state.wordIndex + 1 := by
        rw [(scanKeywords_spec scanned).1 rfl]
        simp [MatcherState.advance]
      rw [usesTakers_cons partFound, ← singleton_append]
      refine SoundAt.append (soundAt_of_all (forall_mem_singleton.mpr fun _ => exact _ partFound))
        (fun late => ?_) before
      rw [length_singleton, ← position] at late ⊢
      rw [if_neg (by rw [beyondIndex_at atIndex]; omega)] at rest
      obtain ⟨middle, argsRun, rest⟩ := rest
      obtain ⟨fine, rest⟩ := fine_of_ends rest fun same => by
        rw [same] at noError
        exact noError
      rw [← position] at readsArgs
      obtain ⟨sound, moved⟩ := matchKeywordArgs_sound atIndex strict
        (allFixed (parts.map KeywordPart.keyword)) fits_none readsArgs
        argsRun fine late
      refine sound.append (fun later => ?_) late
      obtain ⟨after, words⟩ := moved later
      rw [← after] at later ⊢
      rw [if_neg (by rw [beyondIndex_at atIndex]; omega)] at rest
      rw [words] at tail
      exact ih tail rest later

omit atIndex strict in
theorem usesTakers_unguarded {env : MatchEnv}
    (other : allFixed (parts.map KeywordPart.keyword) = false) (uses : List KeywordUse) :
    ∀ taker ∈ usesTakers env parts uses, taker.Sound := by
  intro taker member guard
  have unguarded : taker.guarded = false := by
    rw [usesTakers, other] at member
    obtain ⟨use, _, inUse⟩ := mem_flatMap.mp member
    rcases mem_append.mp inUse with keyword | inArgs
    · obtain ⟨part, _, rfl⟩ := Option.map_eq_some_iff.mp (Option.mem_toList.mp keyword)
      rfl
    · obtain ⟨reading, _, inReading⟩ := mem_flatMap.mp inArgs
      cases reading with
      | terminal | option =>
        cases mem_singleton.mp inReading
        rfl
      | missing => cases inReading
      | vararg =>
        obtain ⟨_, _, rfl⟩ := mem_map.mp inReading
        rfl
      | multiple =>
        obtain ⟨_, _, rfl⟩ := Option.map_eq_some_iff.mp (Option.mem_toList.mp inReading)
        rfl
  cases unguarded.symm.trans guard

theorem matchKeyword_sound (reads : ReadsUses m.env .relaxed parts []
      (m.vline.drop state.wordIndex) uses)
    (run : cmdMatcherMatchKeyword m parts state none = some next)
    (noError : next.rv.isError = false) (before : state.wordIndex ≤ index) :
    SoundAt index state.wordIndex (usesTakers m.env parts uses) := by
  cases fixed : allFixed (parts.map KeywordPart.keyword) with
  | false => exact soundAt_of_all (usesTakers_unguarded fixed uses)
  | true =>
    obtain ⟨reader, readerRun, rfl⟩ := matchKeyword_none run
    exact readKeywords_sound atIndex strict fixed reads readerRun noError before

theorem matchTokens_sound
    (reads : ReadsTokens m.env .relaxed tokens (m.vline.drop state.wordIndex) readings)
    (run : matchTokens m tokens state none = some next)
    (noError : next.rv.isError = false) (before : state.wordIndex ≤ index) :
    SoundAt index state.wordIndex (takers m.env readings) := by
  induction tokens generalizing state readings with
  | nil =>
    generalize m.vline.drop state.wordIndex = words at reads
    cases reads
    exact soundAt_of_all nofun
  | cons token others ih =>
    obtain ⟨middle, step, goes⟩ := matchTokens_cons run
    obtain ⟨fine, goes⟩ := fine_of_ends goes fun same => same ▸ noError
    have continues {arg : KeywordArg} {reading : ArgReading}
        {rest : List Word} {later : List TokenReading}
        (head : ReadsArg m.env .relaxed arg (m.vline.drop state.wordIndex) reading rest)
        (argStep : matchKeywordArg m arg state none = some middle)
        (tail : ReadsTokens m.env .relaxed others rest later) :
        SoundAt index state.wordIndex (takers m.env (.arg reading :: later)) := by
      obtain ⟨sound, position, words, _⟩ :=
        matchKeywordArg_sound strict true fits_none head argStep fine
      have noArgs : middle.args = none := by
        obtain ⟨_, _, _, took⟩ := matchKeywordArg_reads fits_none argStep fine
        exact took.args
      rw [words] at tail
      rw [takers, flatMap_cons]
      refine (soundAt_of_all sound).append (fun late => ?_) before
      rw [← position] at late ⊢
      rw [if_neg (by rw [beyondIndex_at atIndex]; omega), noArgs] at goes
      exact ih tail goes late
    cases reads with
    | terminal head tail => exact continues head step tail
    | multiple head tail => exact continues head step tail
    | keyword head tail =>
      have nothing := readsTokens_words tail
      rw [nil_eq, map_eq_nil_iff, takers] at nothing
      rw [takers, flatMap_cons, nothing, append_nil]
      exact matchKeyword_sound atIndex strict head step fine before

end

/-! ## The words that are compared strictly -/

section

variable (env : MatchEnv) (table : List CmdElement) (vline : List Word)

/-- Before this position a visible command of the table takes the rest of the
line, which ends the filter for all commands. -/
def VarargBefore (position : Nat) : Prop :=
  ∃ earlier < position, Provided ⟨env, .strict, vline, some earlier⟩ .varargMatch (table.map some)

/-- The strict filter does not look at the taker of this position: the command
is hidden, the filter has ended, or a token that is no fixed word competes for
the word. -/
def Unguarded (command : CmdElement) (position : Nat) (taker : Taker) : Prop :=
  command.hidden ∨ VarargBefore env table vline position ∨ taker.guarded = false

end

theorem provided_mono {type : MatchType} {table : List (Option CmdElement)}
    (provided : Provided m type commands)
    (subset : ∀ command, some command ∈ commands → some command ∈ table) :
    Provided m type table := by
  obtain ⟨command, szToken, next, member, rest⟩ := provided
  exact ⟨command, szToken, next, subset command member, rest⟩

/-- A visible command that is left at the end has not been refused at any
word up to the one where a vararg ended the loop. -/
theorem filterRun_accepts {filter : FilterType}
    (run : FilterRun env filter vline index words commands left) {place : Nat}
    (found : left[place]? = some (some command)) (visible : command.hidden = false) {offset : Nat}
    (inLine : offset < words.length) :
    (∃ earlier < offset, Provided ⟨env, filter, vline, some (index + earlier)⟩ .varargMatch
        commands) ∨
      ∃ szToken next, cmdElementMatch ⟨env, filter, vline, some (index + offset)⟩
          command.tokens szToken false = some next ∧
        next.rv.isError = false := by
  induction run generalizing offset with
  | done => exact absurd inLine (Nat.not_lt_zero _)
  | vararg filtered provided =>
    cases offset with
    | zero =>
      rw [getElem?_map] at found
      obtain ⟨slot, slotFound, kept⟩ := Option.map_eq_some_iff.mp found
      obtain ⟨before, _, slotFiltered⟩ := forall₂_getElem? filtered slotFound
      refine .inr ?_
      cases slotFiltered with
      | gone => cases kept
      | hidden hidden =>
        cases kept
        cases visible.symm.trans hidden
      | failed => cases kept
      | fine _ run noError =>
        cases kept
        exact ⟨_, _, run, noError⟩
    | succ before =>
      exact .inl ⟨0, Nat.succ_pos _, provided⟩
  | round filtered provided judged rest ih =>
    have subset := round_subset filtered judged
    cases offset with
    | zero =>
      obtain ⟨szToken, next, matchRun, noError, _⟩ := (round_position filtered judged
          (filterRun_position rest found)).2 visible
      exact .inr ⟨szToken, next, matchRun, noError⟩
    | succ before =>
      rcases ih found (Nat.lt_of_succ_lt_succ inLine) with
        ⟨earlier, less, provided⟩ | accepted
      · refine .inl ⟨earlier + 1, Nat.succ_lt_succ less, ?_⟩
        rw [← Nat.add_assoc, Nat.add_right_comm]
        exact provided_mono provided subset
      · rw [← Nat.add_assoc, Nat.add_right_comm]
        exact .inr accepted

/-- A fixed word that took a guarded word of a line that was selected strictly
is spelled in full. -/
theorem taker_exact {table : List CmdElement}
    (run : FilterRun env .strict vline 0 vline (table.map some) left) (kept : some command ∈ left)
    (reads : ReadsTokens env .relaxed command.tokens vline readings)
    {position : Nat} {taker : Taker} (found : (takers env readings)[position]? = some taker)
    (guarded : ¬ Unguarded env table vline command position taker) :
    WordExact taker.token taker.word := by
  obtain ⟨notHidden, notEnded, compared⟩ :
      command.hidden ≠ true ∧ ¬ VarargBefore env table vline position ∧ taker.guarded ≠ false := by
    simpa only [Unguarded, not_or] using guarded
  obtain ⟨place, placeFound⟩ := mem_iff_getElem?.mp kept
  have inLine : position < vline.length := by
    rw [readsTokens_words reads, length_map]
    exact (List.getElem?_eq_some_iff.mp found).1
  rcases filterRun_accepts run placeFound (Bool.not_eq_true _ ▸ notHidden) inLine with
    ⟨earlier, less, provided⟩ | ⟨szToken, next, matchRun, noError⟩
  · rw [Nat.zero_add] at provided
    exact absurd ⟨earlier, less, provided⟩ notEnded
  · rw [Nat.zero_add] at matchRun
    have sound := matchTokens_sound rfl rfl reads matchRun noError (Nat.zero_le position)
    exact sound taker found (by simpa using compared)

/--
A handler that strict execution calls belongs to a command that reads the
whole line.  Every fixed word of the command that took a word of the line
equals this word exactly when this is the case for the words that the strict
filter did not compare.
-/
theorem strict_handler_exact_iff {World : Type} (services : Services World) {vline : List Word}
    (nonempty : NonemptyWords vline) {session next : Session World} {status : CmdStatus}
    (run : cmdExecuteCommandStrict services vline session = some (status, next))
    {command : CmdElement} {argv : List Arg} {index : Option CStr} {result : CmdStatus}
    (called : Event.handler command argv index result ∈ eventsSince session next) :
    ∃ readings, ReadsTokens services.env .relaxed command.tokens vline readings ∧
      argv = (readings.flatMap (TokenReading.args services.env .relaxed)).take cmdArgcMax ∧
      vline = (takers services.env readings).map Taker.word ∧
      ((∀ taker ∈ takers services.env readings, WordExact taker.token taker.word) ↔
        ∀ position taker, (takers services.env readings)[position]? = some taker →
          Unguarded services.env (services.commands session.vty.node) vline command position taker →
          WordExact taker.token taker.word) := by
  obtain ⟨szToken, selected⟩ := selected_of_called run called
  obtain ⟨readings, reads, argvEqual⟩ := selected_reads nonempty selected
  obtain ⟨⟨left, filterRun, kept⟩, _⟩ := selectCommand_command selected
  refine ⟨readings, reads, argvEqual, readsTokens_words reads,
    fun all position taker found _ => all taker (mem_of_getElem? found),
    fun others taker member => ?_⟩
  obtain ⟨position, takerFound⟩ := mem_iff_getElem?.mp member
  by_cases unguarded : Unguarded services.env
      (services.commands session.vty.node) vline command position taker
  · exact others position taker takerFound unguarded
  · exact taker_exact filterRun kept reads takerFound unguarded

/-! ## A hidden command -/

def showVersion (hidden : Bool) : CmdElement where
  string := "show version"
  tokens := [.terminal ⟨"show", none, none⟩, .terminal ⟨"version", none, none⟩]
  hidden := hidden

def versionServices (hidden : Bool) : Services Unit :=
  plainServices (fun _ => [showVersion hidden]) fun _ => .success

def versionDone (hidden : Bool) : Session Unit :=
  ⟨⟨.enableNode, none, []⟩, (), [], some (showVersion hidden),
    [.authorization (showVersion hidden) exitOk, .handler (showVersion hidden) [] none .success]⟩

theorem show_version_exact : ∃ readings,
      ReadsTokens plainEnv .relaxed (showVersion false).tokens
        [some "show", some "version"] readings ∧
      [] = (readings.flatMap (TokenReading.args plainEnv .relaxed)).take cmdArgcMax ∧
      [some "show".toList, some "version".toList] = (takers plainEnv readings).map Taker.word ∧
      ∀ taker ∈ takers plainEnv readings, WordExact taker.token taker.word := by
  obtain ⟨readings, reads, argv, words, exact_iff⟩ := strict_handler_exact_iff
    (versionServices false) (by decide)
    (show cmdExecuteCommandStrict (versionServices false)
        [some "show", some "version"]
        (plainSession .enableNode) =
      some (.success, versionDone false) by decide)
    (show Event.handler (showVersion false) [] none .success ∈
      eventsSince (plainSession .enableNode) (versionDone false) by decide)
  refine ⟨readings, reads, argv, words, exact_iff.mpr ?_⟩
  rintro position taker found (hidden | ⟨earlier, _, vararg⟩ | free)
  · cases hidden
  · exact absurd (offersToken_of_provides ⟨earlier, vararg⟩ (by decide) (by decide)) (by decide)
  · have guarded : ∀ taker ∈ takers plainEnv readings, taker.guarded := by
      cases reads with
      | terminal head tail =>
        cases tail with
        | terminal second last =>
          cases last
          cases head <;> cases second <;> simp [takers, TokenReading.takers, ArgReading.takers]
    cases free.symm.trans (guarded taker (mem_of_getElem? found))

/-- Abbreviations of a hidden command reach its handler. -/
theorem hidden_command_abbreviated : cmdExecuteCommandStrict (versionServices true)
        [some "sh", some "ver"] (plainSession .enableNode) =
      some (.success, versionDone true) ∧
    Event.handler (showVersion true) [] none .success ∈
      eventsSince (plainSession .enableNode) (versionDone true) ∧
    ¬ WordExact ⟨"show", none, none⟩ (some "sh") := by
  refine ⟨by decide, by decide, fun exact => ?_⟩
  exact absurd (exact rfl) (by decide)

end OpsCli.Command.Strict
