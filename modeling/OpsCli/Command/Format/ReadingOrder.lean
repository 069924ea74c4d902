import OpsCli.Command.Format.Misplacement

/-!
# Help strings in reading order

The parser hands the lines of the help text to the terminals in the order in
which it reads them, wherever it then puts them.  The one thing that keeps it
from handing out all lines is a vector saved inside an earlier keyword group:
a multiple at the top level makes it current again, the next keyword group is
put into it, and the bar between two parts of that group finds no keyword
group at the top level.
-/

namespace OpsCli.Command.Format.ReadingOrder

open CLib CString Token Format.Parser Grammar Effects
  OpsCli.Command.Format.Derivation Misplacement HelpText List

variable {state last next : FormatParserState} {armed stale : Bool}

/-! ## Keyword groups that cannot be read -/

/-- The next keyword group has more than one part. -/
def SplitGroup (tokens : List Token) : Prop :=
  ∃ before first second parts after, tokens = before ++ .keyword first (second :: parts) :: after ∧
      ∀ token ∈ before, ∀ head tail, token ≠ .keyword head tail

/-- After some multiple the next keyword group has more than one part. -/
def AfterMultiple (tokens : List Token) : Prop :=
  ∃ before group after, tokens = before ++ .multiple group :: after ∧ SplitGroup after

/-- After a keyword group that contains a multiple, some multiple at the top
level is followed by a keyword group with more than one part, and there is no
other keyword group between the two. -/
def BreaksGroup (tokens : List Token) : Prop :=
  ∃ before first parts after, tokens = before ++ .keyword first parts :: after ∧
      groupHasMultiple (first :: parts) ∧ AfterMultiple after

/-- The same, where a vector may be saved in `intvect` (`armed`), and may be
current at the top level (`stale`). -/
def BreaksFrom (armed stale : Bool) (tokens : List Token) : Prop :=
  (stale ∧ SplitGroup tokens) ∨ (armed ∧ AfterMultiple tokens) ∨ BreaksGroup tokens

theorem splitGroup_keyword (first : Part) (parts : List Part) (rest : List Token) :
    SplitGroup (.keyword first parts :: rest) ↔ parts ≠ [] := by
  constructor
  · rintro ⟨before, head, second, tail, after, equal, free⟩
    cases before with
    | nil =>
      cases equal
      exact cons_ne_nil _ _
    | cons token others =>
      cases equal
      exact absurd rfl (free _ mem_cons_self first parts)
  · intro nonempty
    obtain ⟨second, tail, rfl⟩ := exists_cons_of_ne_nil nonempty
    exact ⟨[], first, second, tail, rest, rfl, nofun⟩

theorem splitGroup_other {token : Token} (other : ∀ head tail, token ≠ .keyword head tail)
    (rest : List Token) : SplitGroup (token :: rest) ↔ SplitGroup rest := by
  constructor
  · rintro ⟨before, first, second, parts, after, equal, free⟩
    cases before with
    | nil =>
      cases equal
      exact absurd rfl (other _ _)
    | cons head tail =>
      cases equal
      exact ⟨tail, first, second, parts, after, rfl,
        fun token member => free token (mem_cons_of_mem _ member)⟩
  · rintro ⟨before, first, second, parts, after, rfl, free⟩
    refine ⟨token :: before, first, second, parts, after, rfl, ?_⟩
    intro head member
    rcases mem_cons.mp member with rfl | later
    · exact other
    · exact free head later

theorem afterMultiple_cons (token : Token) (rest : List Token) : AfterMultiple (token :: rest) ↔
      ((∃ group, token = .multiple group) ∧ SplitGroup rest) ∨ AfterMultiple rest := by
  constructor
  · rintro ⟨before, group, after, equal, split⟩
    cases before with
    | nil =>
      cases equal
      exact .inl ⟨⟨group, rfl⟩, split⟩
    | cons head tail =>
      cases equal
      exact .inr ⟨tail, group, after, rfl, split⟩
  · rintro (⟨⟨group, rfl⟩, split⟩ | ⟨before, group, after, rfl, split⟩)
    · exact ⟨[], group, rest, rfl, split⟩
    · exact ⟨token :: before, group, after, rfl, split⟩

theorem breaksGroup_cons (token : Token) (rest : List Token) :
    BreaksGroup (token :: rest) ↔ (∃ first parts, token = .keyword first parts ∧
        groupHasMultiple (first :: parts) ∧ AfterMultiple rest) ∨
        BreaksGroup rest :=
  keywordMultiple_cons AfterMultiple token rest

theorem breaksFrom_nil (armed stale : Bool) : ¬ BreaksFrom armed stale [] := by
  simp [BreaksFrom, SplitGroup, AfterMultiple, BreaksGroup]

theorem breaksFrom_terminal (armed stale : Bool) (word : Grammar.Terminal) (rest : List Token) :
    BreaksFrom armed stale (.terminal word :: rest) ↔ BreaksFrom armed stale rest := by
  simp [BreaksFrom, splitGroup_other, afterMultiple_cons, breaksGroup_cons]

theorem breaksFrom_multiple (armed stale : Bool) (group : Multiple) (rest : List Token) :
    BreaksFrom armed stale (.multiple group :: rest) ↔ BreaksFrom armed (stale || armed) rest := by
  simp [BreaksFrom, splitGroup_other, afterMultiple_cons, breaksGroup_cons, and_or_left,
    or_and_right, or_assoc]

theorem breaksFrom_keyword (armed stale : Bool) (first : Part) (parts : List Part)
    (rest : List Token) :
    BreaksFrom armed stale (.keyword first parts :: rest) ↔ (stale ∧ parts ≠ []) ∨
        BreaksFrom (armed || groupHasMultiple (first :: parts)) false
          rest := by
  simp [BreaksFrom, splitGroup_keyword, afterMultiple_cons, breaksGroup_cons, or_and_right,
    or_assoc]

/-- A state between tokens; when the vector of an old keyword part is
current, the last token at the top level is a multiple. -/
structure Between (state : FormatParserState) (armed stale : Bool) : Prop where
  sane : Sane state
  saved : state.intvect.isSome = armed
  current : state.curvect ≠ 0 ↔ stale
  last : stale → armed ∧ ∃ vector, (topCells state).getLast? = some (.multiple vector)

section

variable (between : Between state armed stale)
include between

theorem Between.terminal (word : CStr) : Between (wordEffect state word) armed stale := by
  have grows := topGrows_terminal between.sane word
  refine ⟨grows.sane between.sane between.sane.intvect nofun, between.saved,
    between.current, fun isStale => ?_⟩
  obtain ⟨isArmed, vector, last⟩ := between.last isStale
  have cells := topCells_of_found grows.topvect grows.found
  rw [if_neg (between.current.mpr isStale)] at cells
  refine ⟨isArmed, vector, ?_⟩
  rw [cells]
  exact last

theorem Between.multiple (group : Multiple) :
    Between (multipleEffect state group) armed (stale || armed) := by
  have sane := sane_multiple between.sane group
  have grows := topGrows_multiple between.sane group
  have cells := topCells_of_found grows.topvect grows.found
  cases stale with
  | true =>
    obtain ⟨_, _, _, intvect, curvect⟩ := multipleEffect_eq state group
    have below := between.current.mpr rfl
    obtain ⟨isArmed, vector, last⟩ := between.last rfl
    have saved : savedVector state = some state.curvect := by
      rw [savedVector, between.sane.topvect, if_pos below]
    rw [saved] at intvect curvect
    rw [if_neg below] at cells
    refine ⟨sane, ?_, ?_, fun _ => ⟨isArmed, vector, ?_⟩⟩
    · rw [intvect, isArmed]
      rfl
    · rw [curvect]
      exact ⟨fun _ => rfl, fun _ => below⟩
    · rw [cells]
      exact last
  | false =>
    have top : state.curvect = 0 := by
      by_contra below
      exact Bool.false_ne_true (between.current.mp below)
    obtain ⟨intvect, curvect⟩ :=
      (⟨between.sane, top, between.saved⟩ : AtTop state armed).multiple group
    rw [if_pos top] at cells
    refine ⟨sane, intvect ▸ between.saved, ?_, fun isArmed => ⟨isArmed, state.heap.length, ?_⟩⟩
    · rw [Ne, curvect, Bool.false_or, Bool.not_eq_false]
    · rw [cells]
      exact getLast?_concat

/-- A keyword group leads back to the top level, or the bar in it finds no
keyword group there. -/
theorem Between.keyword (first : Part) (parts : List Part) :
    (∃ next, tokenEffect state (.keyword first parts) = .ok next ∧
      Between next (armed || groupHasMultiple (first :: parts)) false ∧
      ¬ (stale ∧ parts ≠ [])) ∨
    (tokenEffect state (.keyword first parts) = .error .nullDereference ∧
      stale ∧ parts ≠ []) := by
  have closed {next : FormatParserState}
      (step : tokenEffect state (.keyword first parts) = .ok next) :
      Between next (armed || groupHasMultiple (first :: parts)) false := by
    obtain ⟨_, sane, curvect, isSome⟩ := sane_keyword between.sane step
    rw [between.saved] at isSome
    exact ⟨sane, isSome, ⟨fun below => absurd curvect below, by rintro ⟨⟩⟩, by rintro ⟨⟩⟩
  cases stale with
  | false =>
    have top : state.curvect = 0 := by
      by_contra below
      exact Bool.false_ne_true (between.current.mp below)
    obtain ⟨last, read, _⟩ := partsEffect_ok parts (inGroup_firstPart between.sane top first)
    have step : tokenEffect state (.keyword first parts) = .ok (closeKeyword last) := by
      rw [tokenEffect, read]
      rfl
    exact .inl ⟨_, step, closed step, fun both => Bool.false_ne_true both.1⟩
  | true =>
    cases parts with
    | nil => exact .inl ⟨_, rfl, closed rfl, fun both => both.2 rfl⟩
    | cons second others =>
      refine .inr ⟨?_, rfl, cons_ne_nil _ _⟩
      obtain ⟨_, vector, last⟩ := between.last rfl
      obtain ⟨grows, _, _⟩ := sane_firstPart between.sane first
      have cells := topCells_of_found grows.topvect grows.found
      rw [if_neg (between.current.mpr rfl)] at cells
      have fails : nextPart (partEffect (openKeyword state) first) = .error .nullDereference := by
        unfold topCells at cells last
        rw [nextPart, cells, last]
      rw [tokenEffect, partsEffect, fails]
      rfl

/-- The parser gets through exactly the formats that break no group. -/
theorem tokensEffect_ok_iff {tokens : List Token} :
    (∃ last, tokensEffect state tokens = .ok last) ↔ ¬ BreaksFrom armed stale tokens := by
  induction tokens generalizing state armed stale with
  | nil => exact ⟨fun _ => breaksFrom_nil armed stale, fun _ => ⟨state, rfl⟩⟩
  | cons token rest ih =>
    cases token with
    | terminal word =>
      rw [breaksFrom_terminal]
      exact ih (between.terminal word.text)
    | multiple group =>
      rw [breaksFrom_multiple]
      exact ih (between.multiple group)
    | keyword first parts =>
      rw [breaksFrom_keyword, not_or]
      rcases between.keyword first parts with
        ⟨next, step, after, fine⟩ | ⟨step, broken⟩
      · rw [tokensEffect, step, and_iff_right fine]
        exact ih after
      · rw [tokensEffect, step]
        constructor
        · rintro ⟨_, run⟩
          cases run
        · exact fun fine => absurd broken fine.1

end

/-! ## The lines of the help text -/

/-- `cmd_parse_format` returns, and the `k`-th terminal that it makes has the
line that stands at its place: line `k` plus the number of `(x|)` closed
before it.  The vectors hold these terminals and no others. -/
def HelpAligned (cmdstr : CmdStr) (descstr : CStr) (dynCbStr : Option CStr) : Prop :=
  ∃ made last, Rounds (formatParserInit cmdstr.text (some descstr) dynCbStr) made last ∧
      last.cp = [] ∧
      cmdParseFormat cmdstr.text (some descstr) dynCbStr = .ok ⟨last.heap, last.topvect⟩ ∧
      (heapTerminals last).Perm made ∧
      made.map Token.Terminal.cmd = (places cmdstr).filterMap id ∧
      ∀ k terminal, made[k]? = some terminal →
        ∃ line, (helpLines descstr)[k + closedBefore (places cmdstr) k]? = some line ∧
          terminal.desc = some line

section

variable (cmdstr : CmdStr) (descstr : CStr) (dynCbStr : Option CStr)

theorem between_init : Between (formatParserInit cmdstr.text (some descstr) dynCbStr) false
      false :=
  ⟨sane_init cmdstr (some descstr) dynCbStr, rfl, ⟨nofun, nofun⟩, nofun⟩

theorem hands_cmdstr {last : FormatParserState} (run : tokensEffect
      (formatParserInit cmdstr.text (some descstr) dynCbStr) cmdstr.all = .ok last) :
    Hands (formatParserInit cmdstr.text (some descstr) dynCbStr) last
      cmdstr.text (places cmdstr) [] := by
  obtain ⟨next, step, later⟩ := tokensEffect_cons run
  have allocated := allocated_init cmdstr (some descstr) dynCbStr
  have outside : Outside (formatParserInit cmdstr.text (some descstr) dynCbStr) := ⟨rfl, rfl⟩
  have ends : EndsWord (tokensText cmdstr.rest ++ []) := by
    rw [append_nil]
    exact endsWord_tokensText cmdstr.rest
  have head := hands_token allocated cmdstr.first outside ends step
  exact head.append (hands_tokens head.allocated cmdstr.rest (outside.tokenEffect step) later)

/-- With one line for each place, the lines are given out as they stand
exactly when the format breaks no keyword group. -/
theorem help_aligned_iff (lines : (helpLines descstr).length = (places cmdstr).length) :
    HelpAligned cmdstr descstr dynCbStr ↔ ¬ BreaksGroup cmdstr.all := by
  have from_init : BreaksFrom false false cmdstr.all ↔ BreaksGroup cmdstr.all := by
    simp [BreaksFrom]
  have parses : _ ↔ ¬ BreaksFrom false false cmdstr.all :=
    tokensEffect_ok_iff (between_init cmdstr descstr dynCbStr)
  have text := cmdParseFormat_text cmdstr (some descstr) dynCbStr
  rw [← from_init, ← parses]
  constructor
  · rintro ⟨made, last, _, _, parsed, _⟩
    cases run : tokensEffect (formatParserInit cmdstr.text (some descstr) dynCbStr) cmdstr.all with
    | error error =>
      rw [text, run] at parsed
      cases parsed
    | ok final => exact ⟨final, rfl⟩
  · rintro ⟨last, run⟩
    have hands := hands_cmdstr cmdstr descstr dynCbStr run
    refine ⟨_, atText last [], ?_, rfl, ?_, hands.kept, allot_words _ _, ?_⟩
    · have rounds := hands.rounds
      rw [append_nil] at rounds
      exact rounds
    · rw [text, run]
      rfl
    · intro k terminal found
      have bound := place_lt found
      rw [← lines] at bound
      refine ⟨_, getElem?_eq_getElem bound, ?_⟩
      rw [allot_desc found, ← getElem?_eq_getElem bound]
      rfl

end

def optionalFormat : CmdStr where
  first := fixedToken "a" rfl
  rest := [.multiple (.trailing (.fixedString ⟨"b", rfl⟩)), fixedToken "c" rfl]

/-- The third terminal takes the fourth line. -/
theorem optionalFormat_aligned : optionalFormat.text = "a (b|) c" ∧
      HelpAligned optionalFormat "one\ntwo\nthree\nfour\n" none := by
  refine ⟨by decide, ?_⟩
  refine (help_aligned_iff optionalFormat _ none (by decide)).mpr ?_
  rintro ⟨before, first, parts, after, equal, _⟩
  have member : Token.keyword first parts ∈ optionalFormat.all := by
    rw [equal]
    exact mem_append_right _ mem_cons_self
  simp [optionalFormat, CmdStr.all, fixedToken] at member

def breakingFormat : CmdStr where
  first := .keyword ⟨⟨"k", rfl⟩, [.multiple (choice "x" "y" rfl rfl)]⟩ []
  rest := [.multiple (choice "c" "d" rfl rfl), .keyword ⟨⟨"m", rfl⟩, []⟩ [⟨⟨"n", rfl⟩, []⟩]]

/-- The bar between `m` and `n` dereferences a null pointer. -/
theorem breakingFormat_not_aligned :
    breakingFormat.text = "\x7bk (x|y)\x7d (c|d) \x7bm|n\x7d" ∧
      (helpLines "1\n2\n3\n4\n5\n6\n7\n").length = (places breakingFormat).length ∧
      cmdParseFormat breakingFormat.text (some "1\n2\n3\n4\n5\n6\n7\n") none =
        .error .nullDereference ∧
      ¬ HelpAligned breakingFormat "1\n2\n3\n4\n5\n6\n7\n"
        none := by
  have crash : cmdParseFormat breakingFormat.text
      (some "1\n2\n3\n4\n5\n6\n7\n") none = .error .nullDereference := by
    decide
  refine ⟨by decide, by decide, crash, ?_⟩
  rintro ⟨_, _, _, _, parsed, _⟩
  rw [crash] at parsed
  cases parsed

end OpsCli.Command.Format.ReadingOrder
