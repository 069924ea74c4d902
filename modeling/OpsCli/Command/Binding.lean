import OpsCli.Command.Recording

/-!
# The words that are bound to tokens

A reading binds words of the line to terminals: a terminal takes its word, and
an alternative of a multiple takes the word if no other alternative matches it.
For every such binding the matcher records exactly this token at the position
of the word.
-/

namespace OpsCli.Command.Binding

open Token WordMatch Reading Choice Acceptance Recording List

def argReadings : TokenReading → List ArgReading
  | .arg reading => [reading]
  | .keyword _ uses => uses.flatMap KeywordUse.args

section

variable (env : MatchEnv) (filter : FilterType)

/-- The terminal and the word of a reading that takes one word for which only
this terminal is offered. -/
def soleBinding : ArgReading → Option (Terminal × Word)
  | .terminal token word => some (token, word)
  | .multiple alternatives word =>
    match offers env filter alternatives word with
    | [(token, _)] => some (token, word)
    | _ => none
  | _ => none

/-- The bindings of a reading. -/
def bindings (readings : List TokenReading) : List (Terminal × Word) :=
  (readings.flatMap argReadings).filterMap (soleBinding env filter)

/-! ## Positions -/

def Offered (words : List Word) (list : List (List Offer)) (binding : Terminal × Word) : Prop :=
  ∃ (position : Nat) (type : MatchType), words[position]? = some binding.2 ∧
    list[position]? = some [(binding.1, type)] ∧
    cmdWordMatch env binding.1 filter binding.2 = some type ∧
    type ≠ .noMatch

end

section

variable {env : MatchEnv} {filter : FilterType} {words rest : List Word} {list : List (List Offer)}
  {binding : Terminal × Word} {arg : KeywordArg} {reading : ArgReading} {readings : List ArgReading}
  {word : Word} {first second : List (List Offer)} {tokens : List CmdToken}

theorem Offered.append_right (offered : Offered env filter words list binding)
    (more : List (List Offer)) : Offered env filter words (list ++ more) binding := by
  obtain ⟨position, type, word, found, answer⟩ := offered
  refine ⟨position, type, word, ?_, answer⟩
  rw [getElem?_append_left (List.getElem?_eq_some_iff.mp found).1, found]

theorem Offered.append_left (offered : Offered env filter (words.drop first.length) list binding) :
    Offered env filter words (first ++ list) binding := by
  obtain ⟨position, type, word, found, answer⟩ := offered
  refine ⟨first.length + position, type, ?_, ?_, answer⟩
  · rw [← getElem?_drop, word]
  · rw [getElem?_append_right (Nat.le_add_right _ _), Nat.add_sub_cancel_left, found]

theorem readsArg_drop (reads : ReadsArg env filter arg words reading rest) :
    words.drop (reading.wordOffers env filter).length = rest := by
  cases reads <;> simp [ArgReading.wordOffers]

theorem readsArgs_drop {list : List KeywordArg}
    (reads : ReadsArgs env filter list words readings rest) :
    words.drop (readings.flatMap (ArgReading.wordOffers env filter)).length = rest := by
  induction reads with
  | nil => rfl
  | cons head _ ih =>
    rw [flatMap_cons, length_append, ← drop_drop, readsArg_drop head, ih]

theorem matches_offers {token : Terminal} (matched : Matches env filter token word) :
    ∃ type, offers env filter [token] word = [(token, type)] ∧
      cmdWordMatch env token filter word = some type ∧ type ≠ .noMatch := by
  obtain ⟨type, answer, different⟩ := matched
  exact ⟨type, offers_singleton answer different, answer, different⟩

theorem readsArg_offered (reads : ReadsArg env filter arg words reading rest)
    (bound : soleBinding env filter reading = some binding) :
    Offered env filter words (reading.wordOffers env filter) binding := by
  cases reads with
  | terminal _ _ matched =>
    cases bound
    obtain ⟨type, offered, answer⟩ := matches_offers matched
    exact ⟨0, type, rfl, congrArg some offered, answer⟩
  | option => cases bound
  | missing => cases bound
  | vararg => cases bound
  | multiple =>
    rw [soleBinding] at bound
    split at bound
    · rename_i token type offered
      cases bound
      have member : (token, type) ∈ offers env filter _ _ := offered ▸ mem_singleton_self _
      obtain ⟨_, answered, different⟩ := mem_offers.mp member
      exact ⟨0, type, rfl, congrArg some offered, answered, different⟩
    · cases bound

/-! ## Offers are answers -/

/-- Apart from options, every offer is the answer for the word at its
position. -/
def Answered (env : MatchEnv) (filter : FilterType) (words : List Word)
    (list : List (List Offer)) : Prop :=
  ∀ (position : Nat) (offered : List Offer), list[position]? = some offered →
    ∃ word, words[position]? = some word ∧ ∀ offer ∈ offered,
      cmdWordMatch env offer.1 filter word = some offer.2 ∨ cmdOption offer.1.cmd

theorem Answered.append (here : Answered env filter words first)
    (later : Answered env filter (words.drop first.length) second) :
    Answered env filter words (first ++ second) := by
  intro position offered found
  by_cases before : position < first.length
  · rw [getElem?_append_left before] at found
    exact here position offered found
  · rw [getElem?_append_right (not_lt.mp before)] at found
    obtain ⟨word, wordFound, answers⟩ := later _ offered found
    refine ⟨word, ?_, answers⟩
    rw [getElem?_drop, Nat.add_sub_cancel' (not_lt.mp before)] at wordFound
    exact wordFound

theorem answered_singleton {offered : List Offer} (answers : ∀ offer ∈ offered,
      cmdWordMatch env offer.1 filter word = some offer.2 ∨ cmdOption offer.1.cmd) :
    Answered env filter (word :: words) [offered] := by
  intro position other found
  cases position with
  | zero =>
    cases found
    exact ⟨word, rfl, answers⟩
  | succ before => cases found

theorem answered_empty (words : List Word) : Answered env filter words (words.map fun _ => []) := by
  intro position offered found
  rw [getElem?_map] at found
  obtain ⟨word, wordFound, rfl⟩ := Option.map_eq_some_iff.mp found
  exact ⟨word, wordFound, nofun⟩

theorem answers_offers {tokens : List Terminal} : ∀ offer ∈ offers env filter tokens word,
      cmdWordMatch env offer.1 filter word = some offer.2 ∨ cmdOption offer.1.cmd :=
  fun _ member => .inl (mem_offers.mp member).2.1

theorem readsArg_answered (reads : ReadsArg env filter arg words reading rest) :
    Answered env filter words (reading.wordOffers env filter) := by
  cases reads with
  | terminal | multiple => exact answered_singleton answers_offers
  | option option _ =>
    refine answered_singleton fun offer member => .inr ?_
    rw [mem_singleton.mp member]
    exact option
  | missing => exact fun _ _ none => nomatch none
  | vararg =>
    exact (answered_singleton answers_offers).append (answered_empty _)

/-! ## Readings of a line -/

/-- The offers are answers, and every binding of the readings is offered. -/
def Located (env : MatchEnv) (filter : FilterType) (words : List Word) (list : List (List Offer))
    (readings : List ArgReading) : Prop :=
  Answered env filter words list ∧ ∀ reading ∈ readings, ∀ binding,
    soleBinding env filter reading = some binding → Offered env filter words list binding

theorem located_nil (words : List Word) : Located env filter words [] [] :=
  ⟨nofun, nofun⟩

theorem Located.append {others : List ArgReading} (here : Located env filter words first readings)
    (later : Located env filter (words.drop first.length) second others) :
    Located env filter words (first ++ second) (readings ++ others) := by
  refine ⟨here.1.append later.1, fun reading member binding bound => ?_⟩
  rcases mem_append.mp member with before | behind
  · exact (here.2 reading before binding bound).append_right _
  · exact (later.2 reading behind binding bound).append_left

theorem readsArg_located (reads : ReadsArg env filter arg words reading rest) :
    Located env filter words (reading.wordOffers env filter) [reading] := by
  refine ⟨readsArg_answered reads, fun other member binding bound => ?_⟩
  cases mem_singleton.mp member
  exact readsArg_offered reads bound

theorem readsArgs_located {list : List KeywordArg}
    (reads : ReadsArgs env filter list words readings rest) :
    Located env filter words (readings.flatMap (ArgReading.wordOffers env filter)) readings := by
  induction reads with
  | nil => exact located_nil _
  | cons head _ ih =>
    rw [flatMap_cons]
    refine (readsArg_located head).append ?_
    rw [readsArg_drop head]
    exact ih

theorem readsUses_located {parts : List KeywordPart} {mask : List Nat} {uses : List KeywordUse}
    (reads : ReadsUses env filter parts mask words uses) :
    Located env filter words (usesOffers env filter parts mask uses)
      (uses.flatMap KeywordUse.args) := by
  induction reads with
  | done => exact located_nil _
  | use _ _ inside _ ih =>
    rw [usesOffers, cons_append, ← singleton_append]
    refine @Located.append _ _ _ [] _ _ _
      ⟨answered_singleton fun offer member => ?_, forall_mem_nil _⟩ ?_
    · obtain ⟨⟨i, found⟩, foundMember, rfl⟩ := mem_map.mp member
      exact .inl (mem_keywordOffers.mp foundMember).2.2.2.1
    · refine (readsArgs_located inside).append ?_
      rw [readsArgs_drop inside]
      exact ih

theorem readsTokens_located {readings : List TokenReading}
    (reads : ReadsTokens env filter tokens words readings) :
    Located env filter words (readings.flatMap (TokenReading.wordOffers env filter))
      (readings.flatMap argReadings) := by
  induction reads with
  | nil => exact located_nil _
  | terminal head _ ih | multiple head _ ih =>
    rw [flatMap_cons, flatMap_cons]
    refine (readsArg_located head).append ?_
    rw [readsArg_drop head]
    exact ih
  | keyword head _ ih =>
    rw [flatMap_cons, flatMap_cons]
    refine (readsUses_located head).append ?_
    rw [← readsUses_length head, drop_length]
    exact ih

/-- Every binding of a reading is offered alone at the position of its
word. -/
theorem readsTokens_offered {readings : List TokenReading}
    (reads : ReadsTokens env filter tokens words readings)
    (member : binding ∈ bindings env filter readings) :
    Offered env filter words (readings.flatMap (TokenReading.wordOffers env filter)) binding := by
  obtain ⟨reading, inside, bound⟩ := mem_filterMap.mp member
  exact (readsTokens_located reads).2 reading inside binding bound

end

end OpsCli.Command.Binding
