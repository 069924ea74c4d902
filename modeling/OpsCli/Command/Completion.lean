import Mathlib.Data.List.Perm.Basic
import OpsCli.Command.Complete
import OpsCli.Command.ExactReading
import OpsCli.Command.Lockstep

/-!
# Completion against the words that may follow

The words that a line can be completed with are the fixed words at the stages
of the commands that the earlier words leave.  Completion answers for these
words where no option comes before them.  Behind an option the last round may
lose a command: the static buffer of the option tokens may refuse a word there
that it has accepted before.
-/

namespace OpsCli.Command.Completion

open CLib CString Qsort CommonPrefix Token WordMatch Matcher Reading Choice
  ExactReading Selection Survival Staging Agreement Lockstep Complete Execute
  List

/-! ## The sorted list -/

theorem consistent_cmdCompleteCmp (list : List (Option CStr)) : Consistent cmdCompleteCmp list where
  total first _ second _ := by
    match first, second with
    | none, none => exact .inl (Int.le_refl 0)
    | none, some _ => exact .inr (show (-1 : Int) ≤ 0 by decide)
    | some _, none => exact .inl (show (-1 : Int) ≤ 0 by decide)
    | some first, some second => exact strcmp_total first second
  trans first _ second _ third _ before after := by
    match first, second, third with
    | none, none, _ => exact after
    | none, some _, _ => exact absurd before (show ¬ (1 : Int) ≤ 0 by decide)
    | some _, none, none => exact before
    | some _, none, some _ =>
      exact absurd after (show ¬ (1 : Int) ≤ 0 by decide)
    | some _, some _, none => exact show (-1 : Int) ≤ 0 by decide
    | some first, some second, some third =>
      exact strcmp_trans before after

theorem null_last {list : List (Option CStr)} (sorted : list.Pairwise fun first second =>
      cmdCompleteCmp first second ≤ 0) (once : list.count none = 1) :
    ∃ strings : List CStr, list = strings.map some ++ [none] := by
  induction list with
  | nil => cases once
  | cons first rest ih =>
    obtain ⟨front, tail⟩ := pairwise_cons.mp sorted
    cases first with
    | none =>
      rw [count_cons_self, Nat.add_eq_right, count_eq_zero] at once
      cases rest with
      | nil => exact ⟨[], rfl⟩
      | cons second rest =>
        cases second with
        | none => exact absurd mem_cons_self once
        | some str =>
          exact absurd (front (some str) mem_cons_self) (show ¬ (1 : Int) ≤ 0 by decide)
    | some str =>
      rw [count_cons_of_ne (Option.some_ne_none str)] at once
      obtain ⟨strings, rfl⟩ := ih tail once
      exact ⟨str :: strings, rfl⟩

theorem readStrings_append (strings : List CStr) :
    readStrings (strings.map some ++ [none]) = strings := by
  induction strings with
  | nil => rfl
  | cons str strings ih => exact congrArg (str :: ·) ih

theorem readStrings_sort (qsort : Sorter (Option CStr)) (list : List CStr) :
    (readStrings (qsort.sort cmdCompleteCmp (list.map some ++ [none]))).Perm list ∧
      (readStrings (qsort.sort cmdCompleteCmp (list.map some ++ [none]))).Pairwise
          fun first second => strcmp first second ≤ 0 := by
  have perm := qsort.perm cmdCompleteCmp (list.map some ++ [none])
  have sorted := qsort.sorted cmdCompleteCmp (list.map some ++ [none]) (consistent_cmdCompleteCmp _)
  have once : (qsort.sort cmdCompleteCmp (list.map some ++ [none])).count none = 1 := by
    rw [perm.count_eq, count_append, count_eq_zero_of_not_mem]
    · rfl
    · simp
  obtain ⟨strings, same⟩ := null_last sorted once
  rw [same] at perm sorted ⊢
  rw [readStrings_append]
  constructor
  · have some_perm := (perm_append_right_iff [none]).mp perm
    exact (map_perm_map_iff (Option.some_injective CStr)).mp some_perm
  · exact pairwise_map.mp (pairwise_append.mp sorted).1

/-! ## The collected words -/

theorem cmdUniqueString_iff (matchvec : List CStr) (str : CStr) :
    cmdUniqueString matchvec str ↔ str ∉ matchvec := by
  simp only [cmdUniqueString, all_eq_true, decide_eq_true_eq]
  constructor
  · intro others member
    exact others str member rfl
  · rintro absent _ member rfl
    exact absent member

theorem foldl_collect (word : Word) (tokens : List Terminal) {matchvec : List CStr}
    (distinct : matchvec.Nodup) :
    (tokens.foldl (collect word) matchvec).Nodup ∧
      ∀ str, str ∈ tokens.foldl (collect word) matchvec ↔
        str ∈ matchvec ∨ ∃ token ∈ tokens, token.cmd = str ∧ cmdEntryFunction word str := by
  induction tokens generalizing matchvec with
  | nil => simpa using distinct
  | cons token rest ih =>
    have step : (collect word matchvec token).Nodup ∧ ∀ str, str ∈ collect word matchvec token ↔
          str ∈ matchvec ∨ token.cmd = str ∧ cmdEntryFunction word str := by
      rw [collect]
      by_cases added : (cmdEntryFunction word token.cmd &&
          cmdUniqueString matchvec token.cmd)
      · rw [if_pos added]
        rw [Bool.and_eq_true, cmdUniqueString_iff] at added
        constructor
        · rw [← concat_eq_append]
          exact distinct.concat added.2
        · intro str
          rw [mem_append, mem_singleton]
          refine or_congr_right ⟨?_, fun same => same.1.symm⟩
          rintro rfl
          exact ⟨rfl, added.1⟩
      · rw [if_neg added]
        refine ⟨distinct, fun str => ⟨.inl, ?_⟩⟩
        rintro (there | ⟨rfl, listed⟩)
        · exact there
        · rw [listed, Bool.true_and, cmdUniqueString_iff, not_not] at added
          exact added
    obtain ⟨nodup, members⟩ := ih step.1
    refine ⟨nodup, fun str => ?_⟩
    rw [foldl_cons, members, step.2, or_assoc]
    simp only [mem_cons, exists_eq_or_imp]

/-! ## The answer for a set of words -/

/-- The answer that completion is to give for the words that may follow. -/
structure CompletesTo (word : Word) (member : CStr → Prop) (result : Completed) : Prop where
  nothing : (result = .refused .errNoMatch ∨
    result = .refused .errNothingTodo) ↔ ∀ str, ¬ member str
  single : ∀ str, (∀ other, member other ↔ other = str) → result = .strings .completeFullMatch [str]
  several : ∀ str other, member str → member other → str ≠ other → ∃ part, IsLongest member part ∧
      ((∃ text, word = some text ∧ text.length < part.length) →
        result = .strings .completeMatch [part]) ∧
      ((¬ ∃ text, word = some text ∧ text.length < part.length) →
        ∃ list, result = .strings .completeListMatch list ∧ list.Nodup ∧
          (list.Pairwise fun first second => strcmp first second ≤ 0) ∧
          ∀ str, str ∈ list ↔ member str)

theorem completesTo_completeStrings (qsort : Sorter (Option CStr)) (word : Word) {list : List CStr}
    (distinct : list.Nodup) : CompletesTo word (· ∈ list) (completeStrings qsort word list) := by
  match list with
  | [] =>
    refine ⟨iff_of_true ?_ fun _ => nofun, fun str all => ?_, fun _ _ => nofun⟩
    · rw [completeStrings]
      split
      · exact .inr rfl
      · exact .inl rfl
    · cases (all str).mpr rfl
  | [single] =>
    refine ⟨iff_of_false ?_ fun none => none single mem_cons_self,
      fun str all => ?_, fun str other here there different => ?_⟩
    · rintro (impossible | impossible)
      · cases impossible
      · cases impossible
    · rw [← (all single).mp mem_cons_self]
      rfl
    · rw [mem_singleton] at here there
      exact absurd (here.trans there.symm) different
  | first :: second :: rest =>
    have longest := @isLongest_chain Char _ rest first second
    have size : (first.take (chainLength second rest (commonLength first second))).length =
        cmdLcd (first :: second :: rest) :=
      length_take_of_le ((chainLength_le _ _ _).trans (commonLength_le_left first second))
    have differ : first ≠ second := fun same => (nodup_cons.mp distinct).1 (same ▸ mem_cons_self)
    have several (str : CStr)
        (all : ∀ other, other ∈ first :: second :: rest ↔ other = str) : False :=
      differ (((all first).mp mem_cons_self).trans
        ((all second).mp (mem_cons_of_mem _ mem_cons_self)).symm)
    obtain ⟨perm, sorted⟩ := readStrings_sort qsort (first :: second :: rest)
    have longer : (word.any fun text =>
        cmdLcd (first :: second :: rest) ≠ 0 &&
          text.length < cmdLcd (first :: second :: rest)) ↔
        ∃ text, word = some text ∧ text.length < (first.take (chainLength second rest
            (commonLength first second))).length := by
      rw [size]
      cases word with
      | none => simp
      | some text =>
        simp only [Option.any_some, Bool.and_eq_true, decide_eq_true_eq, Option.some.injEq,
          exists_eq_left']
        omega
    rw [completeStrings]
    by_cases extends_ : (word.any fun text =>
        cmdLcd (first :: second :: rest) ≠ 0 &&
          text.length < cmdLcd (first :: second :: rest))
    · rw [if_pos extends_]
      refine ⟨iff_of_false (by simp) fun none => none first mem_cons_self,
        fun str all => (several str all).elim, fun _ _ _ _ _ => ⟨_, longest, fun _ => rfl,
          fun short => absurd (longer.mp extends_) short⟩⟩
    · rw [if_neg extends_]
      refine ⟨iff_of_false (by simp) fun none => none first mem_cons_self,
        fun str all => (several str all).elim, fun _ _ _ _ _ => ⟨_, longest,
          fun long => absurd (longer.mpr long) extends_,
          fun _ => ⟨_, rfl, perm.nodup_iff.mpr distinct, sorted, fun str => perm.mem_iff⟩⟩⟩

/-! ## The rounds before the last word -/

section

variable {env : MatchEnv} {words : List Word} {word other : Word} {index n : Nat} {type : MatchType}
  {slots : List Slot} {command : CmdElement} {vline : List Word} {left : List (Option CmdElement)}
  {next : FilterOutcome}

theorem agree_replaced (bound : index < words.length) :
    Agree (words ++ [word]) (words ++ [other]) index where
  words j le := by
    rw [getElem?_append_left (by omega), getElem?_append_left (by omega)]
  inFirst := by
    rw [length_append]
    exact Nat.lt_add_right _ bound
  inSecond := by
    rw [length_append]
    exact Nat.lt_add_right _ bound
  ends j le _ := by
    rw [length_append, length_append]
    simp only [length_singleton]
    omega

theorem parallel_replaced : Parallel (words ++ [word]) (words ++ [other]) words.length where
  words j before := by
    rw [getElem?_append_left before, getElem?_append_left before]
  length := by
    rw [length_append, length_append]
    rfl
  bound := by
    rw [length_append]
    exact Nat.lt_succ_self _

theorem mem_incompleteLeft {text : CStr} {matched : Option CStr}
    (member : some command ∈ incompleteLeft env type text slots matched) :
    some command ∈ slots.map Slot.command := by
  induction slots generalizing matched with
  | nil => exact member
  | cons slot rest ih =>
    rw [map_cons]
    rw [incompleteLeft] at member
    split at member
    · rcases mem_cons.mp member with here | later
      · exact here ▸ mem_cons_self
      · exact mem_cons_of_mem _ (ih later)
    split at member
    · rcases mem_cons.mp member with here | later
      · split at here
        · cases here
        · exact here ▸ mem_cons_self
      · exact mem_cons_of_mem _ (ih later)
    · exact member

variable {commands : List (Option CmdElement)} {szToken : CStr}

theorem mem_of_slots {m : CmdMatcher} (filtered : List.Forall₂ (FilterSlot m type) commands slots)
    (member : some command ∈ slots.map Slot.command) : some command ∈ commands := by
  obtain ⟨slot, inside, kept⟩ := mem_map.mp member
  obtain ⟨p, found⟩ := mem_iff_getElem?.mp inside
  obtain ⟨before, beforeFound, related⟩ := forall₂_getElem? filtered found
  rw [filterSlot_command related kept] at beforeFound
  exact mem_iff_getElem?.mpr ⟨p, beforeFound⟩

/-- The last round of completion. -/
def lastFinish (env : MatchEnv) (vline : List Word) (n : Nat) (left : List (Option CmdElement))
    (szToken : CStr) : Option Finish :=
  (cmdVectorFilter ⟨env, .relaxed, vline, some n⟩ left .noMatch szToken).map fun next =>
      if next.status ≠ .success then .stopped next.status next.szToken
      else .last left next

theorem completeRounds_single : completeRounds env vline n [word] commands szToken =
      lastFinish env vline n commands szToken := by
  rw [completeRounds, lastFinish]
  cases cmdVectorFilter ⟨env, .relaxed, vline, some n⟩ commands .noMatch szToken with
  | none => rfl
  | some next =>
    dsimp only [Option.map_some]
    by_cases stops : next.status ≠ .success
    · rw [if_pos stops, if_pos stops]
    · rw [if_neg stops, if_neg stops, if_pos rfl]

theorem lastFinish_left (finish : lastFinish env vline n commands szToken =
      some (.last left next)) :
    left = commands ∧ next.status = .success ∧
      cmdVectorFilter ⟨env, .relaxed, vline, some n⟩ commands .noMatch szToken = some next := by
  obtain ⟨result, filtered, same⟩ := Option.map_eq_some_iff.mp finish
  by_cases stops : result.status ≠ .success
  · rw [if_pos stops] at same
    cases same
  · rw [if_neg stops] at same
    cases same
    exact ⟨rfl, not_not.mp stops, filtered⟩

/-- The rounds that come to the last word do not depend on it. -/
theorem completeRounds_replaced {rest : List Word} (position : index + rest.length = words.length)
    (rounds : completeRounds env (words ++ [word]) index (rest ++ [word])
      commands szToken = some (.last left next)) :
    ∃ buffer, (∀ command, some command ∈ left → some command ∈ commands) ∧
      ∀ other, completeRounds env (words ++ [other]) index (rest ++ [other]) commands szToken =
          lastFinish env (words ++ [other]) words.length left buffer := by
  induction rest generalizing index commands szToken with
  | nil =>
    have atEnd : index = words.length := position
    rw [nil_append, completeRounds_single] at rounds
    cases (lastFinish_left rounds).1
    refine ⟨szToken, fun _ member => member, fun other => ?_⟩
    rw [nil_append, completeRounds_single, atEnd]
  | cons first rest ih =>
    rw [length_cons] at position
    have alike (other : Word) : cmdVectorFilter ⟨env, .relaxed, words ++ [other], some index⟩
            commands .noMatch szToken =
          cmdVectorFilter ⟨env, .relaxed, words ++ [word], some index⟩ commands .noMatch szToken :=
      cmdVectorFilter_agree (agree_replaced (by omega)) fun command _ => .inl (by simp)
    have goesOn (other : Word) : rest ++ [other] ≠ [] :=
      append_ne_nil_of_right_ne_nil _ (cons_ne_nil _ _)
    simp only [cons_append, completeRounds, alike, goesOn, if_false] at rounds ⊢
    cases filtered : cmdVectorFilter ⟨env, .relaxed, words ++ [word], some index⟩ commands .noMatch
        szToken with
    | none =>
      rw [filtered] at rounds
      cases rounds
    | some middle =>
      rw [filtered] at rounds
      dsimp only at rounds ⊢
      by_cases stops : middle.status ≠ .success
      · rw [if_pos stops] at rounds
        cases rounds
      simp only [if_neg stops] at rounds ⊢
      have slots := (cmdVectorFilter_slots filtered (not_not.mp stops)).2.2
      cases judged : isCmdAmbiguous env middle.matchType (first.getD []) middle.slots none with
      | none =>
        rw [judged] at rounds
        cases rounds
      | some answer =>
        rw [judged] at rounds
        cases answer with
        | ambiguous => cases rounds
        | incomplete =>
          obtain ⟨buffer, subset, same⟩ := ih (by omega) rounds
          exact ⟨buffer, fun command member => mem_of_slots slots
            (mem_incompleteLeft (subset command member)), same⟩
        | left others =>
          obtain ⟨buffer, subset, same⟩ := ih (by omega) rounds
          exact ⟨buffer, fun command member => round_subset slots
            (isCmdAmbiguous_judged judged) command
            (subset command member), same⟩

end

/-! ## The words that may follow -/

/-- A text that is matched as a fixed word. -/
def fixedText (str : CStr) : Bool :=
  !cmdOption str && !cmdVariable str && !cmdVararg str

/-- The word begins the text; a missing word begins every text. -/
def Begins (word : Word) (str : CStr) : Prop :=
  ∀ text, word = some text → text <+: str

/-- After the words, the command may have the text as its next word. -/
def HasNext (env : MatchEnv) (words : List Word) (command : CmdElement) (str : CStr) : Prop :=
  ∃ stage, stageTokens env .relaxed command.tokens words = some stage ∧
    ∃ token ∈ stageTerminals stage, token.cmd = str

/-- A fixed word that the last word may be completed to, for one of the
commands that are left. -/
def Candidate (env : MatchEnv) (words : List Word) (word : Word) (left : List (Option CmdElement))
    (str : CStr) : Prop :=
  fixedText str ∧ Begins word str ∧ ∃ command, some command ∈ left ∧ HasNext env words command str

/-- The round keeps a command that may have the text as its next word. -/
def KeepsFor (env : MatchEnv) (words : List Word) (left : List (Option CmdElement))
    (next : FilterOutcome) (str : CStr) : Prop :=
  ∃ (p : Nat) (command : CmdElement), left[p]? = some (some command) ∧
    HasNext env words command str ∧
    next.slots[p]?.bind Slot.command = some command

theorem cmdEntryFunction_iff (word : Word) (str : CStr) : cmdEntryFunction word str ↔
      fixedText str ∧ Begins word str := by
  have kinds : (cmdOption str || cmdVariable str || cmdVararg str ||
      cmdIpv4 str || cmdIpv4Prefix str || cmdRange str) =
        (cmdOption str || cmdVariable str || cmdVararg str) := by
    have ipv4 : cmdIpv4 str → cmdVariable str := by
      intro same
      rw [of_decide_eq_true same]
      rfl
    have ipv4Prefix : cmdIpv4Prefix str → cmdVariable str := by
      intro same
      rw [of_decide_eq_true same]
      rfl
    have range : cmdRange str → cmdVariable str := by
      intro head
      have angle : str.head? = some '<' := of_decide_eq_true head
      rw [cmdVariable, angle]
      rfl
    cases isVariable : cmdVariable str with
    | true => simp
    | false =>
      rw [isVariable] at ipv4 ipv4Prefix range
      simp [Bool.eq_false_iff.mpr (mt ipv4 nofun), Bool.eq_false_iff.mpr (mt ipv4Prefix nofun),
        Bool.eq_false_iff.mpr (mt range nofun)]
  have begins : word.all (·.isPrefixOf str) ↔ Begins word str := by
    cases word with
    | none => exact iff_of_true rfl nofun
    | some text => simp [Begins]
  rw [cmdEntryFunction, kinds, Bool.and_eq_true, begins, fixedText, Bool.not_or, Bool.not_or]

section

variable {env : MatchEnv} {words : List Word} {word : Word} {token : Terminal} {stage : Stage}

theorem matches_of_begins (fixed : fixedText token.cmd) (begins : Begins word token.cmd) :
    Matches env .relaxed token word := by
  match word, begins with
  | none, _ | some [], _ => exact ⟨.partlyMatch, rfl, by rintro ⟨⟩⟩
  | some (c :: text), begins =>
    have start : c :: text <+: token.cmd := begins _ rfl
    have isFixed : isFixed token.cmd := by
      have nonempty : token.cmd ≠ [] := by
        intro empty
        rw [empty] at start
        exact absurd (prefix_nil.mp start) (cons_ne_nil _ _)
      simp only [fixedText, Bool.and_eq_true] at fixed
      simp [ExactReading.isFixed, nonempty, fixed]
    have answer := @cmdWordMatchText_fixed env token.cmd isFixed .relaxed (c :: text)
    have begins := isPrefixOf_iff_prefix.mpr start
    rw [fixedWordMatch, if_pos begins] at answer
    refine ⟨_, answer, ?_⟩
    split
    · rintro ⟨⟩
    · rintro ⟨⟩

variable {vline : List Word} {n : Nat} {str szToken : CStr}

section

variable (member : token ∈ stageTerminals stage) (fixed : fixedText token.cmd)
include member fixed

theorem notOption_of_next :
    ∀ other, stage = .terminal other → cmdOption other.cmd = false := by
  rintro other rfl
  cases mem_singleton.mp member
  simp only [fixedText, Bool.and_eq_true, Bool.not_eq_true'] at fixed
  exact fixed.1.1

variable (begins : Begins word token.cmd)
include begins

theorem mem_stageOffers :
    token ∈ (stageOffers env .relaxed stage word).map Prod.fst := by
  obtain ⟨type, answer, matched⟩ := @matches_of_begins env word token fixed begins
  have offered {list : List Terminal} (inside : token ∈ list) :
      token ∈ (offers env .relaxed list word).map Prod.fst :=
    mem_map.mpr ⟨(token, type), mem_offers.mpr ⟨inside, answer, matched⟩, rfl⟩
  cases stage with
  | terminal other =>
    rw [stageOffers, if_neg]
    · exact offered member
    · rw [notOption_of_next member fixed other rfl]
      rintro ⟨⟩
  | choice list => exact offered member
  | swallowed => cases member
  | finished => cases member

theorem accepts_of_next : Accepts ⟨env, .relaxed, vline, some n⟩ n word stage := by
  obtain ⟨type, answer, matched⟩ := @matches_of_begins env word token fixed begins
  have offered {list : List Terminal} (inside : token ∈ list) :
      offers env .relaxed list word ≠ [] :=
    ne_nil_of_mem (mem_offers.mpr (show (token, type).1 ∈ list ∧ _ from ⟨inside, answer, matched⟩))
  cases stage with
  | terminal other => exact offered member
  | choice list => exact offered member
  | swallowed => cases member
  | finished => cases member

end

theorem mem_stageTerminals (member : token ∈ (stageOffers env .relaxed stage word).map Prod.fst) :
    token ∈ stageTerminals stage := by
  obtain ⟨offer, offered, rfl⟩ := mem_map.mp member
  cases stage with
  | terminal other =>
    rw [stageOffers] at offered
    split at offered
    · cases mem_singleton.mp offered
      exact mem_cons_self
    · exact (mem_offers.mp offered).1
  | choice list => exact (mem_offers.mp offered).1
  | swallowed => cases offered
  | finished => cases offered

/-- A slot records a fixed word that the last word begins exactly when it
keeps a command with this word at its stage. -/
theorem recorded_iff {type : MatchType} {command : CmdElement} {slot : Slot}
    (here : vline[n]? = some word) (visible : command.hidden = false)
    (filtered : FilterSlot ⟨env, .relaxed, vline, some n⟩ type
      (some command) slot) (fixed : fixedText str) (begins : Begins word str) :
    (∃ token ∈ slot.matched.getD [], token.cmd = str) ↔
      slot.command = some command ∧ HasNext env (vline.take n) command str := by
  rcases filterSlot_ends here visible filtered with ⟨rfl, _⟩ |
    ⟨stage, state, reached, _, rfl, _, recorded⟩
  · exact iff_of_false (fun ⟨_, member, _⟩ => nomatch member) nofun
  · rw [HasNext, reached, recorded.getD_matchVector]
    constructor
    · rintro ⟨token, member, rfl⟩
      exact ⟨rfl, stage, rfl, token, mem_stageTerminals member, rfl⟩
    · rintro ⟨_, _, ⟨⟩, token, member, rfl⟩
      exact ⟨token, mem_stageOffers member fixed begins, rfl⟩

variable {left : List (Option CmdElement)} {next : FilterOutcome}

section

variable (filtered : cmdVectorFilter ⟨env, .relaxed, words ++ [word], some words.length⟩ left
    .noMatch szToken = some next)
  (visible : ∀ command, some command ∈ left → command.hidden = false)
include filtered visible

theorem collected_iff (success : next.status = .success) (str : CStr) :
    str ∈ (next.slots.flatMap (·.matched.getD [])).foldl (collect word) [] ↔
      fixedText str ∧ Begins word str ∧ KeepsFor env words left next str := by
  have slots := (cmdVectorFilter_slots filtered success).2.2
  have here : (words ++ [word])[words.length]? = some word := getElem?_concat_length
  have front : (words ++ [word]).take words.length = words := take_left
  rw [(foldl_collect word _ nodup_nil).2 str, or_iff_right not_mem_nil]
  constructor
  · rintro ⟨token, member, same, listed⟩
    obtain ⟨fixed, begins⟩ := (cmdEntryFunction_iff word str).mp listed
    obtain ⟨slot, inside, recorded⟩ := mem_flatMap.mp member
    obtain ⟨p, found⟩ := mem_iff_getElem?.mp inside
    obtain ⟨before, beforeFound, related⟩ := forall₂_getElem? slots found
    refine ⟨fixed, begins, p, ?_⟩
    cases before with
    | none =>
      cases related
      cases recorded
    | some command =>
      obtain ⟨kept, reached⟩ := (recorded_iff here
        (visible command (mem_of_getElem? beforeFound)) related fixed
        begins).mp ⟨token, recorded, same⟩
      rw [front] at reached
      refine ⟨command, beforeFound, reached, ?_⟩
      rw [found]
      exact kept
  · rintro ⟨fixed, begins, p, command, beforeFound, reached, kept⟩
    obtain ⟨slot, found, occupied⟩ := Option.bind_eq_some_iff.mp kept
    obtain ⟨other, otherFound, related⟩ := forall₂_getElem? slots found
    cases beforeFound.symm.trans otherFound
    obtain ⟨token, recorded, same⟩ := (recorded_iff here
      (visible command (mem_of_getElem? beforeFound)) related fixed
      begins).mpr ⟨occupied, front.symm ▸ reached⟩
    exact ⟨token, mem_flatMap.mpr ⟨slot, mem_of_getElem? found, recorded⟩, same,
      (cmdEntryFunction_iff word str).mpr ⟨fixed, begins⟩⟩

/-- Without an option up to its stage, a command is kept for every word that
begins its next word. -/
theorem keepsFor_of_noOption {command : CmdElement} (success : next.status = .success)
    (fixed : fixedText str) (begins : Begins word str) (member : some command ∈ left)
    (reached : HasNext env words command str)
    (noOption : ¬ OptionUpTo env .relaxed command.tokens words) :
    KeepsFor env words left next str := by
  have slots := (cmdVectorFilter_slots filtered success).2.2
  have here : (words ++ [word])[words.length]? = some word := getElem?_concat_length
  have front : (words ++ [word]).take words.length = words := take_left
  obtain ⟨p, found⟩ := mem_iff_getElem?.mp member
  obtain ⟨slot, slotFound, related⟩ := forall₂_getElem? slots.flip found
  refine ⟨p, command, found, reached, ?_⟩
  obtain ⟨stage, staged, token, inside, rfl⟩ := reached
  have ends := filterSlot_ends here (visible command member) related
  rw [front] at ends
  rcases ends with ⟨_, option | rejects⟩ | ⟨_, _, _, _, rfl, _⟩
  · exact absurd option noOption
  · exact absurd (accepts_of_next inside fixed begins) (rejects stage staged)
  · rw [slotFound]
    rfl

/-- Each word that may follow does so for a command without an option up to
that word. -/
def NextWithoutOption (env : MatchEnv) (words : List Word) (word : Word)
    (left : List (Option CmdElement)) : Prop :=
  ∀ str, Candidate env words word left str →
    ∃ command, some command ∈ left ∧ HasNext env words command str ∧
      ¬ OptionUpTo env .relaxed command.tokens words

theorem collected_eq_candidate (success : next.status = .success)
    (noOption : NextWithoutOption env words word left) :
    (· ∈ (next.slots.flatMap (·.matched.getD [])).foldl (collect word) []) =
      Candidate env words word left := by
  ext str
  rw [collected_iff filtered visible success]
  constructor
  · rintro ⟨fixed, begins, p, command, found, reached, _⟩
    exact ⟨fixed, begins, command, mem_of_getElem? found, reached⟩
  · intro candidate
    obtain ⟨command, member, reached, free⟩ := noOption str candidate
    exact ⟨candidate.1, candidate.2.1, keepsFor_of_noOption filtered visible success
      candidate.1 candidate.2.1 member reached free⟩

end

end

def showCommand (argument : String) : CmdElement where
  string := []
  tokens := [.terminal ⟨"show", none, none⟩, .terminal ⟨argument.toList, none, none⟩]

def showTable : List CmdElement :=
  [showCommand "interface", showCommand "ip"]

def showOutcome : FilterOutcome where
  status := .success
  slots :=
    [⟨some (showCommand "interface"), some [⟨"interface", none, none⟩]⟩,
      ⟨some (showCommand "ip"), some [⟨"ip", none, none⟩]⟩]
  matchType := .partlyMatch
  szToken := []

def optionCommand (option argument : String) : CmdElement where
  string := []
  tokens :=
    [.terminal ⟨"x", none, none⟩, .terminal ⟨option.toList, none, none⟩,
      .terminal ⟨argument.toList, none, none⟩]

def optionTable : List CmdElement :=
  [optionCommand "[wxyd]" "one", optionCommand "[abc]" "two", optionCommand "[qrsz]" "three"]

def optionLine : List Word :=
  [some "x", some "abcd"]

end OpsCli.Command.Completion
