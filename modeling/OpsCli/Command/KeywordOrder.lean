import Mathlib.Data.List.Perm.Basic
import OpsCli.Command.ExactReading
import OpsCli.Command.Execute

/-!
# The order of the keyword parts

A keyword group takes its parts in any order.  Which parts have been read
before still matters: a keyword that is spelled in full is refused as
ambiguous while two longer keywords that begin with it are unread and declared
before it.  So two lines that list the same parts in different orders are
parsed alike exactly when the first part that is refused, if any, is refused
for the same reason in both.
-/

namespace OpsCli.Command.KeywordOrder

open CLib.CString Token WordMatch Matcher Reading Acceptance ExactReading
  Selection Execute List

/-! ## Lines that list keyword parts -/

/-- A keyword part as a line lists it: its number and its argument words. -/
structure Listing where
  index : Nat
  args : List Word
deriving DecidableEq, Repr

variable (parts : List KeywordPart)

def Listing.words (listing : Listing) : List Word :=
  (parts[listing.index]?.map fun part => some part.keyword.cmd).toList ++ listing.args

def spell (listings : List Listing) : List Word :=
  listings.flatMap (Listing.words parts)

/-- An argument token that takes exactly one word. -/
def oneWord : KeywordArg → Bool
  | .terminal token => !cmdVararg token.cmd && !cmdOption token.cmd
  | .multiple _ => true

/-- A keyword group: fixed and pairwise distinct keywords, no optional or
variable number of arguments. -/
structure PlainGroup : Prop where
  fixed : ∀ part ∈ parts, isFixed part.keyword.cmd
  distinct : (parts.map fun part => part.keyword.cmd).Nodup
  args : ∀ part ∈ parts, ∀ arg ∈ part.args, oneWord arg

instance (parts : List KeywordPart) : Decidable (PlainGroup parts) :=
  decidable_of_iff ((∀ part ∈ parts, isFixed part.keyword.cmd) ∧
      (parts.map fun part => part.keyword.cmd).Nodup ∧
      ∀ part ∈ parts, ∀ arg ∈ part.args, oneWord arg)
    ⟨fun ⟨fixed, distinct, args⟩ => ⟨fixed, distinct, args⟩,
      fun ⟨fixed, distinct, args⟩ => ⟨fixed, distinct, args⟩⟩

/-- A listed part is one of the group and has a word for each argument. -/
def Complete (parts : List KeywordPart) (listing : Listing) : Prop :=
  ∃ part ∈ parts[listing.index]?, listing.args.length = part.args.length

instance (parts : List KeywordPart) (listing : Listing) : Decidable (Complete parts listing) :=
  inferInstanceAs (Decidable (∃ part ∈ parts[listing.index]?, _))

/-- Every part is listed at most once. -/
structure Listed (listings : List Listing) : Prop where
  once : (listings.map Listing.index).Nodup
  complete : ∀ listing ∈ listings, Complete parts listing

instance (parts : List KeywordPart) (listings : List Listing) : Decidable (Listed parts listings) :=
  decidable_of_iff ((listings.map Listing.index).Nodup ∧
      ∀ listing ∈ listings, Complete parts listing)
    ⟨fun ⟨once, complete⟩ => ⟨once, complete⟩, fun ⟨once, complete⟩ => ⟨once, complete⟩⟩

/-! ## What becomes of a listed part -/

def pushResult (list : List Arg) (arg : Arg) : MatcherRv × List Arg :=
  if cmdArgcMax ≤ list.length then (.exceedArgcMax, list)
  else (.ok, list ++ [arg])

/-- What an argument token makes of its word. -/
def argResult (env : MatchEnv) (arg : KeywordArg) (word : Word)
    (list : List Arg) : MatcherRv × List Arg :=
  match arg with
  | .terminal token =>
    if offers env .relaxed [token] word = [] then (.noMatch, list)
    else if cmdVariable token.cmd then pushResult list (Arg.ofWord word)
    else (.ok, list)
  | .multiple alternatives =>
    match bestOffer (offers env .relaxed alternatives word) with
    | none => (.noMatch, list)
    | some offer => pushResult list (offerArg word offer)

def argsResult (env : MatchEnv) : List KeywordArg → List Word → List Arg → MatcherRv × List Arg
  | [], _, list => (.ok, list)
  | _ :: _, [], list => (.incomplete, list)
  | arg :: args, word :: words, list =>
    if (argResult env arg word list).1.isError then
      argResult env arg word list
    else argsResult env args words (argResult env arg word list).2

/-- The unread parts declared before a part whose keywords begin with its
keyword. -/
def rivals (mask : List Nat) (index : Nat)
    (keyword : CStr) : List (KeywordPart × Nat) :=
  (parts.take index).zipIdx.filter fun (part, i) => i ∉ mask && keyword.isPrefixOf part.keyword.cmd

def listingArgs (env : MatchEnv) (parts : List KeywordPart)
    (listing : Listing) : MatcherRv × List Arg :=
  match parts[listing.index]? with
  | none => (.noMatch, [])
  | some part => argsResult env part.args listing.args []

/-- A listed keyword is taken for ambiguous. -/
def Tied (parts : List KeywordPart) (mask : List Nat) (listing : Listing) : Prop :=
  ∃ part ∈ parts[listing.index]?, 2 ≤ (rivals parts mask listing.index part.keyword.cmd).length

instance (parts : List KeywordPart) (mask : List Nat) (listing : Listing) :
    Decidable (Tied parts mask listing) :=
  inferInstanceAs (Decidable (∃ part ∈ parts[listing.index]?, _))

/-- What becomes of the listed parts when those of `mask` have been read: the
first refusal, if any. -/
def groupResult (env : MatchEnv) (parts : List KeywordPart) : List Nat → List Listing → MatcherRv
  | _, [] => .ok
  | mask, listing :: rest =>
    if Tied parts mask listing then .ambiguous
    else if (listingArgs env parts listing).1.isError then
      (listingArgs env parts listing).1
    else groupResult env parts (listing.index :: mask) rest

/-! ## The keyword is picked -/

section

variable {env : MatchEnv} {mask : List Nat} {text : CStr} {parts : List KeywordPart}

theorem keywordOffers_append (env : MatchEnv) (mask : List Nat) (filter : FilterType) (word : Word)
    (start : Nat) (first second : List KeywordPart) :
    keywordOffers env filter mask word start (first ++ second) =
      keywordOffers env filter mask word start first ++
        keywordOffers env filter mask word (start + first.length)
          second := by
  induction first generalizing start with
  | nil => rfl
  | cons part rest ih =>
    rw [cons_append, keywordOffers, keywordOffers, ih, append_assoc, length_cons,
      Nat.add_assoc, Nat.add_comm 1]

variable {token : Terminal} {rest words : List Word} {part : KeywordPart} {listing : Listing}
  {arg : KeywordArg} {list : List Arg} {m : CmdMatcher}

theorem cmdWordMatch_other (fixed : isFixed token.cmd) (nonempty : text ≠ [])
    (other : token.cmd ≠ text) :
    cmdWordMatch env token .relaxed (some text) =
      some (if text.isPrefixOf token.cmd then .partlyMatch
        else .noMatch) := by
  cases text with
  | nil => exact absurd rfl nonempty
  | cons c rest =>
    rw [cmdWordMatch, cmdWordMatchText_fixed fixed, fixedWordMatch, if_neg other]
    exact fun _ => nonempty

theorem keywordOffers_others {start : Nat} (fixed : ∀ part ∈ parts, isFixed part.keyword.cmd)
    (nonempty : text ≠ []) (others : ∀ part ∈ parts, part.keyword.cmd ≠ text) :
    keywordOffers env .relaxed mask (some text) start parts =
      ((parts.zipIdx start).filter fun (part, i) =>
        i ∉ mask && text.isPrefixOf part.keyword.cmd).map fun (part, i) =>
          (i, part.keyword, .partlyMatch) := by
  induction parts generalizing start with
  | nil => rfl
  | cons part rest ih =>
    obtain ⟨fixedHere, fixedRest⟩ := forall_mem_cons.mp fixed
    obtain ⟨otherHere, otherRest⟩ := forall_mem_cons.mp others
    have answer : cmdWordMatch env part.keyword .relaxed (some text) = _ :=
      cmdWordMatch_other fixedHere nonempty otherHere
    rw [zipIdx_cons, filter_cons]
    by_cases read : start ∈ mask
    · rw [keywordOffers_cons_read _ _ read, ih fixedRest otherRest, if_neg (by simp [read])]
    by_cases begins : text.isPrefixOf part.keyword.cmd
    · rw [if_pos begins] at answer
      rw [keywordOffers_cons_of_match read answer nofun, ih fixedRest otherRest,
        if_pos (by simp [read, begins])]
      rfl
    · rw [if_neg begins] at answer
      rw [keywordOffers_cons_of_noMatch answer, ih fixedRest otherRest, if_neg (by simp [begins])]

theorem noMatch_lt_partly : MatchType.noMatch < .partlyMatch := by
  decide

theorem partly_lt_exact : MatchType.partlyMatch < .exactMatch := by
  decide

theorem pickKeyword_after_exact {list : List (Nat × Offer)}
    (partly : ∀ offer ∈ list, offer.2.2 = .partlyMatch) (found : Option Nat) :
    pickKeyword list found .exactMatch = some found := by
  induction list with
  | nil => rfl
  | cons first rest ih =>
    obtain ⟨number, token, type⟩ := first
    obtain ⟨here, later⟩ := forall_mem_cons.mp partly
    subst here
    rw [pickKeyword, if_neg (not_lt.mpr partly_lt_exact.le), if_neg partly_lt_exact.ne]
    exact ih later

/-- An exact offer is picked unless two weaker ones tie before it. -/
theorem pickKeyword_exact {before after : List (Nat × Offer)} {i : Nat}
    (weaker : ∀ offer ∈ before, offer.2.2 = .partlyMatch)
    (partly : ∀ offer ∈ after, offer.2.2 = .partlyMatch) :
    pickKeyword (before ++ (i, token, .exactMatch) :: after) none .noMatch =
      if 2 ≤ before.length then none else some (some i) := by
  match before, weaker with
  | [], _ =>
    rw [nil_append, pickKeyword, if_pos (noMatch_lt_partly.trans partly_lt_exact),
      pickKeyword_after_exact partly]
    rfl
  | [(_, _, type)], weaker =>
    have here : type = .partlyMatch := weaker _ mem_cons_self
    subst here
    rw [singleton_append, pickKeyword, if_pos noMatch_lt_partly, pickKeyword,
      if_pos partly_lt_exact, pickKeyword_after_exact partly]
    rfl
  | (_, _, first) :: (_, _, second) :: rest, weaker =>
    obtain ⟨here, later⟩ := forall_mem_cons.mp weaker
    have next : second = .partlyMatch := later _ mem_cons_self
    subst here next
    rw [cons_append, cons_append, pickKeyword, if_pos noMatch_lt_partly, pickKeyword,
      if_neg (lt_irrefl _), if_pos rfl, if_pos (by simp)]

theorem pickKeyword_listed (group : PlainGroup parts) (found : parts[listing.index]? = some part)
    (unread : listing.index ∉ mask) :
    pickKeyword (keywordOffers env .relaxed mask (some part.keyword.cmd) 0 parts) none .noMatch =
      if Tied parts mask listing then none else some (some listing.index) := by
  obtain ⟨bound, same⟩ := List.getElem?_eq_some_iff.mp found
  have split : parts = parts.take listing.index ++ part :: parts.drop (listing.index + 1) := by
    rw [← same, ← drop_eq_getElem_cons bound, take_append_drop]
  have distinct := group.distinct
  rw [split, map_append, map_cons, nodup_append] at distinct
  obtain ⟨_, tail, apart⟩ := distinct
  have fixedHere := group.fixed part (mem_of_getElem? found)
  have nonempty : part.keyword.cmd ≠ [] := by
    intro empty
    rw [empty] at fixedHere
    cases fixedHere
  have before : ∀ other ∈ parts.take listing.index,
      other.keyword.cmd ≠ part.keyword.cmd := fun other member =>
    apart _ (mem_map_of_mem member) _ mem_cons_self
  have after : ∀ other ∈ parts.drop (listing.index + 1),
      other.keyword.cmd ≠ part.keyword.cmd := fun other member equal =>
    (nodup_cons.mp tail).1 (equal ▸ mem_map_of_mem member)
  have offered : keywordOffers env .relaxed mask (some part.keyword.cmd) 0
      parts = keywordOffers env .relaxed mask (some part.keyword.cmd) 0
            (parts.take listing.index) ++
          keywordOffers env .relaxed mask (some part.keyword.cmd)
            listing.index (part :: parts.drop (listing.index + 1)) := by
    have appended := keywordOffers_append env mask .relaxed
      (some part.keyword.cmd) 0 (parts.take listing.index)
      (part :: parts.drop (listing.index + 1))
    rwa [← split, Nat.zero_add, length_take_of_le bound.le] at appended
  rw [offered, keywordOffers_others (fun other member => group.fixed other (mem_of_mem_take member))
      nonempty before,
    keywordOffers_cons_of_match unread (cmdWordMatch_self fixedHere) nofun,
    keywordOffers_others (fun other member => group.fixed other (mem_of_mem_drop member))
      nonempty after,
    pickKeyword_exact, length_map]
  · refine if_congr ?_ rfl rfl
    constructor
    · intro tied
      exact ⟨part, found, tied⟩
    · rintro ⟨other, member, tied⟩
      rw [found] at member
      cases member
      exact tied
  · intro offer member
    obtain ⟨_, _, rfl⟩ := mem_map.mp member
    rfl
  · intro offer member
    obtain ⟨_, _, rfl⟩ := mem_map.mp member
    rfl

end

/-! ## The parts are read -/

section

variable {env : MatchEnv} {vline : List Word} {list : List Arg} {word : Word} {state : MatcherState}
  {next : Outcome} {parts : List KeywordPart} {mask : List Nat} {listings : List Listing}
  {rows : List (Nat × List Arg)} {second first : List Listing} {fuel : Nat} {token : Terminal}
  {m : CmdMatcher}

theorem pushArgument_result {arg : Arg} : (pushArgument (some list) arg = none ∧
      pushResult list arg = (.exceedArgcMax, list)) ∨
    (pushArgument (some list) arg = some (some (list ++ [arg])) ∧
      pushResult list arg = (.ok, list ++ [arg])) := by
  unfold pushArgument pushResult
  by_cases full : cmdArgcMax ≤ list.length
  · left
    exact ⟨if_pos full, if_pos full⟩
  · right
    exact ⟨if_neg full, if_neg full⟩

theorem finishTerminal_oneWord (notVararg : cmdVararg token.cmd = false) (type : MatchType)
    (state : MatcherState) (args : Args) :
    finishTerminal m token type state args =
      ⟨.ok, (cmdMatcherRecordMatch m type token state).advance, args⟩ := by
  rw [finishTerminal, notVararg]
  exact if_neg (by rintro ⟨⟩)

/-- A step has this result, and without an error it is one word further. -/
abbrev Steps (state : MatcherState) (result : MatcherRv × List Arg) (next : Outcome) : Prop :=
  next.rv = result.1 ∧ (next.rv.isError = false →
    next.args = some result.2 ∧ next.state.wordIndex = state.wordIndex + 1)

section

variable (here : vline[state.wordIndex]? = some word)
include here

theorem matchTerminal_result (notVararg : cmdVararg token.cmd = false)
    (notOption : cmdOption token.cmd = false)
    (run : cmdMatcherMatchTerminal ⟨env, .relaxed, vline, none⟩ token state
      (some list) = some next) : Steps state (argResult env (.terminal token) word list) next := by
  obtain ⟨type, answer, run⟩ := matchTerminal_word here run
  rw [argResult]
  by_cases unmatched : type = .noMatch
  · rw [if_pos unmatched] at run
    cases run
    subst unmatched
    rw [offers_cons_of_noMatch answer, if_pos (by rfl)]
    exact ⟨rfl, by rintro ⟨⟩⟩
  rw [if_neg unmatched, takeTerminal, notVararg, Bool.false_or, notOption] at run
  rw [offers_singleton answer unmatched, if_neg (by simp)]
  by_cases isVariable : cmdVariable token.cmd
  · rw [if_pos isVariable] at run ⊢
    rcases pushArgument_result with ⟨full, result⟩ | ⟨room, result⟩
    · rw [full] at run
      cases run
      rw [result]
      exact ⟨rfl, by rintro ⟨⟩⟩
    · rw [room] at run
      dsimp only at run
      rw [finishTerminal_oneWord notVararg] at run
      cases run
      rw [result]
      refine ⟨rfl, fun _ => ⟨rfl, ?_⟩⟩
      rw [MatcherState.advance, recordMatch_wordIndex]
  · rw [if_neg isVariable, if_neg (by rintro ⟨⟩), finishTerminal_oneWord notVararg] at run
    cases run
    rw [if_neg isVariable]
    refine ⟨rfl, fun _ => ⟨rfl, ?_⟩⟩
    rw [MatcherState.advance, recordMatch_wordIndex]

theorem matchMultiple_result {alternatives : List Terminal}
    (run : cmdMatcherMatchMultiple ⟨env, .relaxed, vline, none⟩ alternatives
      state (some list) = some next) :
    Steps state (argResult env (.multiple alternatives) word list) next := by
  obtain ⟨recorded, result⟩ := matchMultiple_word here run
  have moved : next.state.wordIndex = state.wordIndex + 1 := by
    rw [recorded, MatcherState.advance, recordAll_wordIndex]
  obtain ⟨rv, last, args⟩ := next
  rw [argResult]
  cases best : bestOffer (offers env .relaxed alternatives word) with
  | none =>
    rw [best] at result
    cases result
    exact ⟨rfl, by rintro ⟨⟩⟩
  | some offer =>
    rw [best, multipleResult] at result
    dsimp only
    rcases pushArgument_result with ⟨full, pushed⟩ | ⟨room, pushed⟩
    · rw [full] at result
      cases result
      rw [pushed]
      exact ⟨rfl, by rintro ⟨⟩⟩
    · rw [room] at result
      cases result
      rw [pushed]
      exact ⟨rfl, fun _ => ⟨rfl, moved⟩⟩

theorem matchKeywordArg_result (plain : oneWord arg)
    (run : matchKeywordArg ⟨env, .relaxed, vline, none⟩ arg state (some list) = some next) :
    Steps state (argResult env arg word list) next := by
  cases arg with
  | terminal token =>
    simp only [oneWord, Bool.and_eq_true, Bool.not_eq_true'] at plain
    exact matchTerminal_result here plain.1 plain.2 run
  | multiple alternatives => exact matchMultiple_result here run

end

theorem matchKeywordArgs_result {args : List KeywordArg} (plain : ∀ arg ∈ args, oneWord arg)
    (count : words.length = args.length) (front : vline.drop state.wordIndex = words ++ rest)
    (run : matchKeywordArgs ⟨env, .relaxed, vline, none⟩ args state (some list) = some next) :
    next.rv = (argsResult env args words list).1 ∧ (next.rv.isError = false →
        next.args = some (argsResult env args words list).2 ∧
          vline.drop next.state.wordIndex = rest) := by
  induction args generalizing words state list with
  | nil =>
    cases run
    cases length_eq_zero_iff.mp count
    exact ⟨rfl, fun _ => ⟨rfl, front⟩⟩
  | cons arg args ih =>
    cases words with
    | nil => cases count
    | cons word words =>
      obtain ⟨plainHere, plainRest⟩ := forall_mem_cons.mp plain
      obtain ⟨here, after⟩ := cons_of_drop front
      obtain ⟨middle, step, later⟩ := matchKeywordArgs_cons run
      obtain ⟨rv, fine⟩ := matchKeywordArg_result here plainHere step
      rw [beyondIndex_whole rfl, Bool.or_false] at later
      rw [argsResult, ← rv]
      by_cases error : middle.rv.isError
      · rw [if_pos error] at later ⊢
        subst later
        refine ⟨rv, fun noError => ?_⟩
        rw [error] at noError
        cases noError
      · obtain ⟨grown, moved⟩ := fine (Bool.not_eq_true _ ▸ error)
        rw [if_neg error, grown] at later
        rw [if_neg error]
        rw [← moved] at after
        exact ih plainRest (Nat.succ.inj count) after later

def listingRow (env : MatchEnv) (parts : List KeywordPart) (listing : Listing) : Nat × List Arg :=
  (listing.index, (listingArgs env parts listing).2)

theorem readKeywords_round {next : KeywordOutcome}
    (group : PlainGroup parts) (found : parts[listing.index]? = some part)
    (unread : listing.index ∉ mask) (here : vline[state.wordIndex]? = some (some part.keyword.cmd))
    (run : cmdMatcherReadKeywords ⟨env, .relaxed, vline, none⟩ parts
      (fuel + 1) mask state (some rows) = some next) :
    (Tied parts mask listing ∧ next.rv = .ambiguous) ∨ ¬ Tied parts mask listing ∧
        ∃ start middle, start.wordIndex = state.wordIndex + 1 ∧
          matchKeywordArgs ⟨env, .relaxed, vline, none⟩ part.args start (some []) = some middle ∧
          if middle.rv.isError then next.rv = middle.rv
          else cmdMatcherReadKeywords ⟨env, .relaxed, vline, none⟩ parts fuel
            (listing.index :: mask) middle.state
            (some (rows ++ [(listing.index, middle.args.getD [])])) = some next := by
  have pick {ambiguous : Bool} {scan : KeywordScan}
      (scanned : scanKeywords ⟨env, .relaxed, vline, none⟩
        (some part.keyword.cmd) mask (some rows).isSome 0 parts
        ⟨none, .noMatch, state⟩ = some (ambiguous, scan)) :=
    (pickKeyword_listed group found unread).symm.trans ((scanKeywords_spec scanned).2 (.inl nofun))
  cases round_of_readKeywords run with
  | finished nothing => cases here.symm.trans nothing
  | @refused _ ambiguous scan word scanned nothing =>
    cases here.symm.trans word
    have picked := pick scanned
    cases ambiguous with
    | true =>
      refine .inl ⟨?_, rfl⟩
      by_contra free
      rw [if_neg free, if_pos rfl] at picked
      cases picked
    | false =>
      have none := nothing rfl
      rw [if_neg Bool.false_ne_true] at picked
      split at picked
      · cases picked
      · rw [← Option.some.inj picked, Option.bind_some, found] at none
        cases none
  | @keyword _ scan i _ _ word scanned number chosen later =>
    cases here.symm.trans word
    have picked := pick scanned
    rw [if_neg Bool.false_ne_true, number] at picked
    split at picked
    · cases picked
    rename_i free
    cases picked
    cases found.symm.trans chosen
    rw [beyondIndex_whole rfl, if_neg nofun] at later
    obtain ⟨middle, step, later⟩ := later
    rw [beyondIndex_whole rfl, Bool.or_false] at later
    refine .inr ⟨free, _, middle, ?_, step, ?_⟩
    · rw [MatcherState.advance, (scanKeywords_spec scanned).1 rfl, recordAll_wordIndex]
    · by_cases error : middle.rv.isError
      · rw [if_pos error] at later ⊢
        rw [later]
      · rw [if_neg error] at later ⊢
        exact later

theorem readKeywords_result {next : KeywordOutcome} (group : PlainGroup parts)
    (listed : Listed parts listings) (unread : ∀ listing ∈ listings, listing.index ∉ mask)
    (front : vline.drop state.wordIndex = spell parts listings)
    (run : cmdMatcherReadKeywords ⟨env, .relaxed, vline, none⟩ parts fuel mask
      state (some rows) = some next) :
    next.rv = groupResult env parts mask listings ∧ (next.rv.isError = false →
        next.table = some (rows ++ listings.map (listingRow env parts)) ∧
          vline.drop next.state.wordIndex = []) := by
  induction listings generalizing fuel mask state rows with
  | nil =>
    cases fuel with
    | zero => cases run
    | succ fuel =>
      have finished : vline[state.wordIndex]? = none := getElem?_eq_none (drop_eq_nil_iff.mp front)
      rw [cmdMatcherReadKeywords, finished] at run
      cases run
      refine ⟨rfl, fun _ => ⟨?_, front⟩⟩
      rw [map_nil, append_nil]
  | cons listing rest ih =>
    obtain ⟨part, found, count⟩ := listed.complete listing mem_cons_self
    obtain ⟨fresh, once⟩ := nodup_cons.mp listed.once
    have listedRest : Listed parts rest := ⟨once, fun other member =>
        listed.complete other (mem_cons_of_mem _ member)⟩
    have unreadRest : ∀ other ∈ rest, other.index ∉ listing.index :: mask := by
      intro other member inside
      rcases mem_cons.mp inside with same | before
      · exact fresh (same ▸ mem_map_of_mem member)
      · exact unread other (mem_cons_of_mem _ member) before
    rw [spell, flatMap_cons, Listing.words, found, Option.map_some, Option.toList_some,
      append_assoc, singleton_append] at front
    obtain ⟨here, after⟩ := cons_of_drop front
    cases fuel with
    | zero => cases run
    | succ fuel =>
      have result : listingArgs env parts listing = argsResult env part.args listing.args [] := by
        rw [listingArgs, found]
      rw [groupResult, result]
      rcases readKeywords_round group found (unread listing mem_cons_self) here run with
        ⟨tied, refused⟩ | ⟨free, start, middle, moved, step, tail⟩
      · rw [if_pos tied, refused]
        exact ⟨rfl, by rintro ⟨⟩⟩
      rw [← moved] at after
      obtain ⟨rv, fine⟩ := matchKeywordArgs_result
        (group.args part (mem_of_getElem? found)) count after step
      rw [if_neg free, ← rv]
      by_cases error : middle.rv.isError
      · rw [if_pos error] at tail ⊢
        refine ⟨tail, fun noError => ?_⟩
        rw [tail, error] at noError
        cases noError
      · obtain ⟨grown, afterwards⟩ := fine (Bool.not_eq_true _ ▸ error)
        rw [if_neg error, grown] at tail
        rw [if_neg error]
        obtain ⟨answer, table⟩ := ih listedRest unreadRest afterwards tail
        refine ⟨answer, fun noError => ?_⟩
        obtain ⟨filled, finished⟩ := table noError
        refine ⟨?_, finished⟩
        rw [filled, map_cons, append_assoc, singleton_append, listingRow, result, Option.getD_some]

theorem lookup_perm {first second : List (Nat × List Arg)} (same : first.Perm second)
    (once : (first.map Prod.fst).Nodup) (i : Nat) : first.lookup i = second.lookup i := by
  induction same with
  | nil => rfl
  | cons row _ ih =>
    obtain ⟨number, args⟩ := row
    rw [lookup_cons, lookup_cons, ih (nodup_cons.mp once).2]
  | swap later earlier _ =>
    obtain ⟨number, args⟩ := later
    obtain ⟨other, arguments⟩ := earlier
    have different : number ≠ other := by
      rintro rfl
      exact (nodup_cons.mp once).1 mem_cons_self
    simp only [lookup_cons]
    by_cases here : i = number
    · subst here
      rw [beq_self_eq_true, beq_false_of_ne different]
    · rw [beq_false_of_ne here]
  | trans firstStep _ head tail =>
    have onceMiddle := (firstStep.map Prod.fst).nodup_iff.mp once
    exact (head once).trans (tail onceMiddle)

theorem groupArgs_perm (same : first.Perm second) (once : (first.map Listing.index).Nodup) :
    groupArgs parts (first.map (listingRow env parts)) =
      groupArgs parts (second.map (listingRow env parts)) := by
  have keys : ((first.map (listingRow env parts)).map Prod.fst).Nodup := by
    rw [map_map]
    exact once
  refine congrArg List.flatten (map_congr_left fun entry _ => ?_)
  dsimp only
  rw [lookup_perm (same.map _) keys]

theorem groupResult_ok (fine : (groupResult env parts mask listings).isError = false) :
    groupResult env parts mask listings = .ok ∧ ∀ listing ∈ listings,
        (listingArgs env parts listing).1.isError = false := by
  fun_induction groupResult env parts mask listings with
  | case1 => exact ⟨rfl, nofun⟩
  | case2 => cases fine
  | case3 _ _ _ _ error => cases fine.symm.trans error
  | case4 _ _ _ _ noError ih =>
    obtain ⟨ok, others⟩ := ih fine
    exact ⟨ok, forall_mem_cons.mpr ⟨Bool.not_eq_true _ ▸ noError, others⟩⟩
theorem groupResult_ambiguous (fine : ∀ listing ∈ listings,
      (listingArgs env parts listing).1.isError = false)
    (error : (groupResult env parts mask listings).isError) :
    groupResult env parts mask listings = .ambiguous := by
  fun_induction groupResult env parts mask listings with
  | case1 => cases error
  | case2 => rfl
  | case3 => cases (fine _ mem_cons_self).symm.trans error
  | case4 _ _ _ _ _ ih => exact ih (forall_mem_cons.mp fine).2 error
theorem groupResult_tied {mask' : List Nat} (same : first.Perm second)
    (fine : (groupResult env parts mask first).isError = false)
    (error : (groupResult env parts mask' second).isError) :
    groupResult env parts mask' second = .ambiguous :=
  groupResult_ambiguous (fun listing member =>
      (groupResult_ok fine).2 listing (same.mem_iff.mpr member)) error

theorem matchKeyword_result (group : PlainGroup parts) (listed : Listed parts listings)
    (front : vline.drop state.wordIndex = spell parts listings)
    (run : cmdMatcherMatchKeyword ⟨env, .relaxed, vline, none⟩ parts state
      (some list) = some next) :
    ((groupResult env parts [] listings).isError →
      next.rv = groupResult env parts [] listings) ∧
    ((groupResult env parts [] listings).isError = false → next.rv = (pushAll list (groupArgs parts
          (listings.map (listingRow env parts)))).1 ∧
        next.args = some (pushAll list (groupArgs parts (listings.map (listingRow env parts)))).2 ∧
        vline.drop next.state.wordIndex = []) := by
  obtain ⟨reader, reading, rfl⟩ := matchKeyword_reader run
  obtain ⟨answer, table⟩ := readKeywords_result group listed (fun _ _ => not_mem_nil) front reading
  rw [← answer]
  refine ⟨fun error => ?_, fun noError => ?_⟩
  · rw [error]
    rfl
  · obtain ⟨filled, finished⟩ := table noError
    have ok : reader.rv = .ok := by
      rw [answer] at noError ⊢
      exact (groupResult_ok noError).1
    rw [filled, nil_append, cmdMatcherBuildKeywordArgs, ok]
    refine ⟨?_, rfl, finished⟩
    rw [pushAll]
    split
    · rfl
    · rfl

end

/-! ## The tokens before the group -/

section

/-- A token that takes one word when there is one. -/
def takesOneWord : CmdToken → Bool
  | .terminal token => !cmdVararg token.cmd
  | .multiple _ => true
  | .keyword _ => false

/-- The loop over the first tokens of a command. -/
def matchFirst (m : CmdMatcher) : List CmdToken → MatcherState → Args → Option Outcome
  | [], state, args => some ⟨.ok, state, args⟩
  | token :: rest, state, args =>
    match matchToken m token state args with
    | none => none
    | some next =>
      if next.rv.isError then some next
      else matchFirst m rest next.state next.args

theorem matchTokens_append (whole : m.index = none) (first second : List CmdToken)
    (state : MatcherState) (args : Args) :
    matchTokens m (first ++ second) state args = (matchFirst m first state args).bind fun next =>
        if next.rv.isError then some next
        else matchTokens m second next.state next.args := by
  induction first generalizing state args with
  | nil => rfl
  | cons token rest ih =>
    rw [cons_append, matchTokens, matchFirst]
    cases matchToken m token state args with
    | none => rfl
    | some next =>
      dsimp only
      rw [beyondIndex_whole whole, Bool.or_false]
      by_cases error : next.rv.isError
      · rw [if_pos error, if_pos error, Option.bind_some, if_pos error]
      · rw [if_neg error, if_neg error]
        exact ih _ _

variable {env : MatchEnv} {state : MatcherState} {args : Args}

theorem matchToken_shared {token : CmdToken} {first second : List Word}
    (one : takesOneWord token) (same : first[state.wordIndex]? = second[state.wordIndex]?) :
    matchToken ⟨env, .relaxed, first, none⟩ token state args =
      matchToken ⟨env, .relaxed, second, none⟩ token state args := by
  cases token with
  | terminal token =>
    have notVararg : cmdVararg token.cmd = false := by
      simpa only [takesOneWord, Bool.not_eq_true'] using one
    simp only [matchToken, cmdMatcherMatchTerminal, same, takeTerminal, matchOption,
      finishTerminal_oneWord notVararg, cmdMatcherRecordMatch]
  | multiple alternatives =>
    simp only [matchToken, cmdMatcherMatchMultiple, same]
    rfl
  | keyword parts => cases one

theorem wordOffers_one {word : Word} {reading : ArgReading}
    (one : ∀ token, arg = .terminal token → cmdVararg token.cmd = false)
    (reads : ReadsArg env .relaxed arg (word :: words) reading rest) :
    (reading.wordOffers env .relaxed).length = 1 := by
  cases reads with
  | terminal _ _ _ => rfl
  | option _ _ => rfl
  | vararg isVararg _ =>
    rw [one _ rfl] at isVararg
    cases isVararg
  | multiple _ => rfl

theorem matchToken_advances {token : CmdToken} {vline : List Word} {next : Outcome}
    (fits : Fits args) (one : takesOneWord token) (bound : state.wordIndex < vline.length)
    (run : matchToken ⟨env, .relaxed, vline, none⟩ token state args =
      some next) (noError : next.rv.isError = false) :
    next.state.wordIndex = state.wordIndex + 1 ∧ ∃ new, next.args = grow args new := by
  have step : ∃ reading rest, (∃ arg,
      (∀ token, arg = .terminal token → cmdVararg token.cmd = false) ∧
        ReadsArg env .relaxed arg (vline.drop state.wordIndex) reading rest) ∧
      Took ⟨env, .relaxed, vline, none⟩ state args next reading rest := by
    cases token with
    | terminal token =>
      obtain ⟨reading, rest, reads, took⟩ := matchTerminal_reads noError fits run
      refine ⟨reading, rest, ⟨_, ?_, reads⟩, took⟩
      rintro _ ⟨⟩
      simpa only [takesOneWord, Bool.not_eq_true'] using one
    | multiple alternatives =>
      obtain ⟨reading, rest, reads, took⟩ := matchMultiple_reads noError run
      exact ⟨reading, rest, ⟨.multiple alternatives, fun _ => nofun, reads⟩, took⟩
    | keyword parts => cases one
  obtain ⟨reading, rest, ⟨arg, single, reads⟩, took⟩ := step
  rw [drop_eq_getElem_cons bound] at reads
  have moved := took.wordIndex
  rw [wordOffers_one single reads] at moved
  exact ⟨moved, _, took.args⟩

/-- The first tokens see only as many words as there are tokens. -/
theorem matchFirst_shared (env : MatchEnv) {tokens : List CmdToken}
    {before : List Word} (first second : List Word) (fits : Fits (some list))
    (one : ∀ token ∈ tokens, takesOneWord token)
    (count : state.wordIndex + tokens.length = before.length) :
    matchFirst ⟨env, .relaxed, before ++ first, none⟩ tokens state (some list) =
      matchFirst ⟨env, .relaxed, before ++ second, none⟩ tokens state (some list) ∧
    ∀ next, matchFirst ⟨env, .relaxed, before ++ first, none⟩ tokens state
        (some list) = some next → next.rv.isError = false →
      next.state.wordIndex = before.length ∧ ∃ grown, next.args = some grown := by
  induction tokens generalizing state list with
  | nil =>
    refine ⟨rfl, ?_⟩
    rintro next ⟨⟩ _
    exact ⟨count, list, rfl⟩
  | cons token rest ih =>
    obtain ⟨oneHere, oneRest⟩ := forall_mem_cons.mp one
    rw [length_cons] at count
    have inside : state.wordIndex < before.length := by omega
    have same : (before ++ first)[state.wordIndex]? = (before ++ second)[state.wordIndex]? := by
      rw [getElem?_append_left inside, getElem?_append_left inside]
    rw [matchFirst, matchFirst, matchToken_shared oneHere same]
    cases step : matchToken ⟨env, .relaxed, before ++ second, none⟩ token state (some list) with
    | none => exact ⟨rfl, nofun⟩
    | some middle =>
      dsimp only
      by_cases error : middle.rv.isError
      · rw [if_pos error, if_pos error]
        refine ⟨rfl, ?_⟩
        rintro next ⟨⟩ noError
        rw [error] at noError
        cases noError
      · rw [if_neg error, if_neg error]
        have bound : state.wordIndex < (before ++ second).length := by
          rw [length_append]
          omega
        obtain ⟨moved, new, grown⟩ := matchToken_advances fits oneHere
          bound step (Bool.not_eq_true _ ▸ error)
        have fitsNext := fits_grow (some list) new
        rw [grow, Option.map_some] at grown fitsNext
        rw [grown]
        exact ih fitsNext oneRest (by omega)

end

/-! ## Two orders of the same parts -/

section

variable {env : MatchEnv} {init : List CmdToken} {parts : List KeywordPart} {before : List Word}
  {szToken : CStr} {rv : MatcherRv}

/-- The status after a group that adds `new` to the arguments. -/
def fillStatus (list new : List Arg) : CmdStatus :=
  if list.length + new.length ≤ cmdArgcMax then .success
  else .errExeedArgcMax

theorem fillStatus_ne_ambiguous {new : List Arg} : fillStatus list new ≠ .errAmbiguous := by
  unfold fillStatus
  split
  · nofun
  · nofun

/-- What `cmd_parse` says about a line that lists keyword parts after the
words before the group. -/
inductive ParsedAs (env : MatchEnv) (init : List CmdToken) (parts : List KeywordPart)
    (before : List Word) (szToken : CStr)
    (listings : List Listing) (status : CmdStatus) (argv : List Arg) :
    Prop where
  | refusedBefore {next : Outcome} (first : matchFirst ⟨env, .relaxed, before, none⟩ init
        (cmdMatcherInit szToken) (some []) = some next)
      (error : next.rv.isError) (same : status = parseStatus next.rv)
  | refused {next : Outcome} (first : matchFirst ⟨env, .relaxed, before, none⟩ init
        (cmdMatcherInit szToken) (some []) = some next)
      (fine : next.rv.isError = false)
      (error : (groupResult env parts [] listings).isError)
      (same : status = parseStatus (groupResult env parts [] listings))
  | read {next : Outcome} {list : List Arg} (first : matchFirst ⟨env, .relaxed, before, none⟩ init
        (cmdMatcherInit szToken) (some []) = some next)
      (fine : next.rv.isError = false)
      (collected : next.args = some list)
      (ok : (groupResult env parts [] listings).isError = false)
      (same : status = fillStatus list (groupArgs parts (listings.map (listingRow env parts))))
      (args : argv = (pushAll list (groupArgs parts (listings.map (listingRow env parts)))).2)

theorem parsedAs_of_cmdParse {command : CmdElement} {listings : List Listing} {status : CmdStatus}
    {argv : List Arg} {after : CStr} (shape : command.tokens = init ++ [.keyword parts])
    (one : ∀ token ∈ init, takesOneWord token)
    (count : before.length = init.length) (group : PlainGroup parts)
    (listed : Listed parts listings)
    (parsed : cmdParse env (before ++ spell parts listings) command szToken =
      some (status, argv, after)) :
    ParsedAs env init parts before szToken listings status argv := by
  rw [cmdParse, cmdElementMatch, shape, if_pos rfl, matchTokens_append rfl] at parsed
  obtain ⟨last, run, result⟩ := Option.map_eq_some_iff.mp parsed
  obtain ⟨next, first, tail⟩ := Option.bind_eq_some_iff.mp run
  cases result
  have start : (cmdMatcherInit szToken).wordIndex + init.length = before.length := by
    rw [count]
    exact Nat.zero_add _
  have fits : Fits (some []) := fits_emptied (some [])
  obtain ⟨same, advanced⟩ := matchFirst_shared env (spell parts listings) [] fits one start
  have shown := same ▸ first
  rw [append_nil] at shown
  by_cases error : next.rv.isError
  · rw [if_pos error] at tail
    cases tail
    exact .refusedBefore shown error rfl
  have fine : next.rv.isError = false := Bool.not_eq_true _ ▸ error
  obtain ⟨moved, list, collected⟩ := advanced next first fine
  have front : (before ++ spell parts listings).drop next.state.wordIndex =
      spell parts listings := by
    rw [moved, drop_left]
  rw [if_neg error, matchTokens, collected] at tail
  cases step : matchToken ⟨env, .relaxed, before ++ spell parts listings, none⟩ (.keyword parts)
      next.state (some list) with
  | none =>
    rw [step] at tail
    cases tail
  | some middle =>
    obtain ⟨refusal, success⟩ := matchKeyword_result group listed front step
    rw [step] at tail
    dsimp only at tail
    rw [beyondIndex_whole rfl, Bool.or_false] at tail
    cases ok : (groupResult env parts [] listings).isError with
    | true =>
      have rv := refusal ok
      rw [← rv] at ok
      rw [if_pos ok] at tail
      cases tail
      rw [rv] at ok ⊢
      exact .refused shown fine ok rfl
    | false =>
      obtain ⟨rv, args, finished⟩ := success ok
      by_cases short : list.length + (groupArgs parts
            (listings.map (listingRow env parts))).length ≤ cmdArgcMax
      · rw [pushAll, if_pos short] at rv
        have goesOn : middle.rv.isError ≠ true := by
          rw [rv]
          rintro ⟨⟩
        rw [if_neg goesOn, matchTokens, endOfTokens, if_pos (drop_eq_nil_iff.mp finished)] at tail
        cases tail
        refine .read shown fine collected ok (if_pos short).symm ?_
        rw [args, Option.getD_some]
      · rw [pushAll, if_neg short] at rv
        have stops : middle.rv.isError := by
          rw [rv]
          rfl
        rw [if_pos stops] at tail
        cases tail
        refine .read shown fine collected ok ?_ ?_
        · rw [rv, fillStatus, if_neg short]
          rfl
        · rw [args, Option.getD_some]

theorem accepted_before_iff (command : CmdElement) {next : Outcome}
    (one : ∀ token ∈ init, takesOneWord token) (count : before.length = init.length)
    (first : matchFirst ⟨env, .relaxed, before, none⟩ init
      (cmdMatcherInit szToken) (some []) = some next) :
    (∃ argv after, cmdParse env before { command with tokens := init }
      szToken = some (.success, argv, after)) ↔ next.rv.isError = false := by
  have start : (cmdMatcherInit szToken).wordIndex + init.length = before.length := by
    rw [count]
    exact Nat.zero_add _
  have fits : Fits (some []) := fits_emptied (some [])
  have advanced := (matchFirst_shared env [] [] fits one start).2
  rw [append_nil] at advanced
  have appended := matchTokens_append (m := ⟨env, .relaxed, before, none⟩) rfl init []
    (cmdMatcherInit szToken) (some [])
  rw [append_nil, first, Option.bind_some] at appended
  rw [cmdParse, cmdElementMatch, if_pos rfl, appended]
  by_cases error : next.rv.isError
  · rw [if_pos error, error]
    refine ⟨?_, nofun⟩
    rintro ⟨argv, after, accepted⟩
    cases rv : next.rv with
    | ok | complete =>
      rw [rv] at error
      cases error
    | _ =>
      rw [Option.map_some, rv] at accepted
      cases accepted
  · have fine : next.rv.isError = false := Bool.not_eq_true _ ▸ error
    obtain ⟨moved, _⟩ := advanced next first fine
    rw [if_neg error, matchTokens, endOfTokens, if_pos moved.ge]
    exact ⟨fun _ => fine, fun _ => ⟨_, _, rfl⟩⟩

theorem parseStatus_error {rv' : MatcherRv} (error : rv.isError)
    (error' : rv'.isError) (same : parseStatus rv = parseStatus rv') : rv = rv' := by
  cases rv <;> cases rv' <;> simp_all only [MatcherRv.isError, parseStatus, Bool.false_eq_true,
      reduceCtorEq]

theorem parseStatus_ne_success (error : rv.isError) : parseStatus rv ≠ .success := by
  cases rv with
  | ok | complete => cases error
  | _ => nofun

/-- Two lines that list the same parts in different orders are parsed alike
exactly when the words before the group are refused, or the first part that
is refused, if any, is refused for the same reason in both orders. -/
theorem keyword_order_iff {command : CmdElement} {first second : List Listing}
    {status status' : CmdStatus} {argv argv' : List Arg} {after after' : CStr}
    (shape : command.tokens = init ++ [.keyword parts]) (one : ∀ token ∈ init, takesOneWord token)
    (count : before.length = init.length) (group : PlainGroup parts)
    (listed : Listed parts first) (same : first.Perm second)
    (parsed : cmdParse env (before ++ spell parts first) command szToken =
      some (status, argv, after))
    (parsed' : cmdParse env (before ++ spell parts second) command szToken =
      some (status', argv', after')) :
    (status = status' ∧ (status = .success → argv = argv')) ↔
      (∀ argv after, cmdParse env before { command with tokens := init }
        szToken ≠ some (.success, argv, after)) ∨
      groupResult env parts [] first = groupResult env parts [] second := by
  have listed' : Listed parts second := ⟨(same.map Listing.index).nodup_iff.mp listed.once,
      fun listing member => listed.complete listing (same.mem_iff.mpr member)⟩
  have accepted {next : Outcome} (run : matchFirst ⟨env, .relaxed, before, none⟩ init
        (cmdMatcherInit szToken) (some []) = some next) :=
    accepted_before_iff command one count run
  have here := parsedAs_of_cmdParse shape one count group listed parsed
  have there := parsedAs_of_cmdParse shape one count group listed' parsed'
  have reaches {next : Outcome} (run : matchFirst ⟨env, .relaxed, before, none⟩ init
        (cmdMatcherInit szToken) (some []) = some next)
      (fine : next.rv.isError = false) :
      ¬ ∀ argv after, cmdParse env before { command with tokens := init }
        szToken ≠ some (.success, argv, after) := by
    obtain ⟨argv, after, success⟩ := (accepted run).mpr fine
    exact fun never => never argv after success
  cases here with
  | refusedBefore first error equal =>
    have refused := (accepted first).not.mpr (by rw [error]; nofun)
    have never : ∀ argv after, cmdParse env before { command with tokens := init } szToken ≠
          some (.success, argv, after) :=
      fun argv after success => refused ⟨argv, after, success⟩
    refine iff_of_true ?_ (.inl never)
    cases there with
    | refusedBefore first' _ equal' =>
      cases first.symm.trans first'
      refine ⟨equal.trans equal'.symm, fun success => ?_⟩
      exact absurd (equal.symm.trans success) (parseStatus_ne_success error)
    | refused first' fine _ _ | read first' fine _ _ _ _ =>
      exact absurd never (reaches first' fine)
  | refused first fine error equal =>
    cases there with
    | refusedBefore first' error' _ =>
      cases first.symm.trans first'
      rw [fine] at error'
      cases error'
    | refused _ _ error' equal' =>
      rw [or_iff_right (reaches first fine), equal, equal']
      constructor
      · rintro ⟨statuses, _⟩
        exact parseStatus_error error error' statuses
      · intro results
        exact ⟨congrArg parseStatus results, fun success =>
          absurd success (parseStatus_ne_success error)⟩
    | read _ _ _ ok equal' _ =>
      have tie := groupResult_tied same.symm ok error
      rw [or_iff_right (reaches first fine), equal, equal', tie, (groupResult_ok ok).1]
      refine iff_of_false ?_ nofun
      rintro ⟨statuses, _⟩
      exact fillStatus_ne_ambiguous statuses.symm
  | read first fine collected ok equal args =>
    cases there with
    | refusedBefore first' error' _ =>
      cases first.symm.trans first'
      rw [fine] at error'
      cases error'
    | refused _ _ error' equal' =>
      have tie := groupResult_tied same ok error'
      rw [or_iff_right (reaches first fine), equal, equal', tie, (groupResult_ok ok).1]
      refine iff_of_false ?_ nofun
      rintro ⟨statuses, _⟩
      exact fillStatus_ne_ambiguous statuses
    | read first' _ collected' ok' equal' args' =>
      cases first.symm.trans first'
      cases collected.symm.trans collected'
      rw [groupArgs_perm same listed.once] at equal args
      refine iff_of_true ⟨equal.trans equal'.symm, fun _ => args.trans args'.symm⟩ (.inr ?_)
      exact (groupResult_ok ok).1.trans (groupResult_ok ok').1.symm

end

def namedPart (keyword argument : CStr) : KeywordPart :=
  ⟨⟨keyword, none, none⟩, [.terminal ⟨argument, none, none⟩]⟩

def setCommand : CmdElement where
  string := []
  tokens := [.terminal ⟨"set", none, none⟩] ++ [.keyword parts]

def metricAndTag : List KeywordPart :=
  [namedPart "metric" "<0-100>", namedPart "tag" "<0-100>"]

def setWord : List Word :=
  [some "set"]

def listing (index : Nat) (word : CStr) : Listing :=
  ⟨index, [some word]⟩

def setLine (words : List String) : List Word :=
  setWord ++ words.map fun word => some word.toList

theorem metric_and_tag_in_either_order : cmdParse plainEnv (setLine ["metric", "5", "tag", "7"])
        (setCommand metricAndTag) [] =
      some (.success, [.text "5", .text "7"], []) ∧
    CmdStatus.success = .success ∧ (CmdStatus.success = .success →
        [Arg.text "5", .text "7"] = [.text "5", .text "7"]) := by
  have inOrder : cmdParse plainEnv (setWord ++ spell metricAndTag
        [listing 0 "5", listing 1 "7"])
      (setCommand metricAndTag) [] = some (.success, [.text "5", .text "7"], []) := by
    decide
  have swapped : cmdParse plainEnv (setWord ++ spell metricAndTag
        [listing 1 "7", listing 0 "5"])
      (setCommand metricAndTag) [] = some (.success, [.text "5", .text "7"], []) := by
    decide
  refine ⟨by decide, (keyword_order_iff rfl (by decide) rfl (by decide)
    (by decide) (.swap _ _ _) inOrder swapped).mpr (.inr ?_)⟩
  decide

def metricParts : List KeywordPart :=
  [namedPart "metric-type" "WORD", namedPart "metric-tag" "WORD", namedPart "metric" "WORD"]

/-- A keyword in full is ambiguous before one of the two longer keywords has
been read and not afterwards. -/
theorem metric_ambiguous_unless_last : PlainGroup metricParts ∧
      cmdParse plainEnv (setLine ["metric-type", "x", "metric", "5"]) (setCommand metricParts) [] =
        some (.success, [.text "x", .null, .text "5"], []) ∧
      (cmdParse plainEnv (setLine ["metric", "5", "metric-type", "x"])
          (setCommand metricParts) []).map Prod.fst = some .errAmbiguous := by
  decide

end OpsCli.Command.KeywordOrder
