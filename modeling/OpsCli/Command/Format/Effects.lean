import OpsCli.Command.Format.Grammar

/-!
# Running the format parser on derived text

The parser is driven by characters.  This module turns it into a function on
derivations: running it on the text of a token followed by more text is
running it on the rest, from the state the token leads to.  The states are
given by `tokenEffect`, which no longer mentions characters.
-/

namespace OpsCli.Command.Format.Effects

open CLib CString VectorHeap Token Format.Parser Grammar List

/-! ## The loop without fuel -/

/-- The state with the rest of the format replaced. -/
def atText (state : FormatParserState) (cp : CStr) : FormatParserState :=
  { state with cp := cp }

@[simp]
theorem atText_cp (state : FormatParserState) (cp : CStr) : (atText state cp).cp = cp :=
  rfl

def runFormat (state : FormatParserState) : Except FormatError FormatParserState :=
  cmdParseFormatLoop (state.cp.length + 1) state

variable {c : Char} {state next : FormatParserState} {rest word : CStr} {p : Char → Bool}
  {tail : CStr}

theorem isWordChar_of_ordinary (noSpace : isspace c = false) (noOpenBrace : c ≠ '\x7b')
    (noOpen : c ≠ '(')
    (noCloseBrace : c ≠ '\x7d') (noClose : c ≠ ')') (noBar : c ≠ '|') : isWordChar c := by
  have noReturn : c ≠ '\r' := by
    rintro rfl
    exact absurd noSpace (by decide)
  have noNewline : c ≠ '\n' := by
    rintro rfl
    exact absurd noSpace (by decide)
  simp [isWordChar, noSpace, noOpenBrace, noOpen, noCloseBrace, noClose, noBar, noReturn, noNewline]

theorem tail_length_lt (text : state.cp = c :: rest) : state.cp.tail.length < state.cp.length := by
  simp [text]

/-- Every round of the loop consumes at least one character. -/
theorem formatParserDispatch_shrinks (state : FormatParserState) (text : state.cp = c :: rest)
    (noSpace : isspace c = false) (step : formatParserDispatch c state = .ok next) :
    next.cp.length < state.cp.length := by
  have shorter := tail_length_lt text
  revert step
  fun_cases formatParserDispatch c state with
  | case1 =>
    fun_cases formatParserBeginKeyword state with
    | case1 => rintro ⟨⟩
    | case2 =>
      rintro ⟨⟩
      exact shorter
  | case2 =>
    fun_cases formatParserBeginMultiple state with
    | case1 | case2 => rintro ⟨⟩
    | case3 =>
      rintro ⟨⟩
      exact shorter
  | case3 =>
    fun_cases formatParserEndKeyword state with
    | case1 | case2 => rintro ⟨⟩
    | case3 =>
      rintro ⟨⟩
      exact shorter
  | case4 =>
    fun_cases formatParserEndMultiple state with
    | case1 | case2 => rintro ⟨⟩
    | case3 =>
      rintro ⟨⟩
      exact shorter
  | case5 =>
    fun_cases formatParserHandlePipe state with
    | case1 | case2 =>
      rintro ⟨⟩
      exact shorter
    | case3 | case4 => rintro ⟨⟩
  | case6 =>
    have wordChar : isWordChar c := isWordChar_of_ordinary noSpace ‹_› ‹_› ‹_› ‹_› ‹_›
    rintro ⟨⟩
    have bound := (dropWhile_sublist isWordChar (l := rest)).length_le
    simp only [formatParserReadWord, text, dropWhile_cons, wordChar, if_true, length_cons]
    omega
theorem cmdParseFormatLoop_fuel (fuel other : Nat) (state : FormatParserState)
    (enough : state.cp.length < fuel) (otherEnough : state.cp.length < other) :
    cmdParseFormatLoop fuel state = cmdParseFormatLoop other state := by
  induction fuel generalizing other state with
  | zero => omega
  | succ fuel ih =>
    cases other with
    | zero => omega
    | succ other =>
      have bound := (dropWhile_sublist isspace (l := state.cp)).length_le
      unfold cmdParseFormatLoop
      cases text : state.cp.dropWhile isspace with
      | nil => rfl
      | cons c rest =>
        have noSpace : isspace c = false := by
          have first := head?_dropWhile_not isspace state.cp
          simpa [text] using first
        rw [text, length_cons] at bound
        simp only
        cases step : formatParserDispatch c { state with cp := c :: rest } with
        | error error => rfl
        | ok next =>
          have shrinks : next.cp.length < rest.length + 1 := by
            simpa using formatParserDispatch_shrinks { state with cp := c :: rest } rfl noSpace step
          exact ih other next (by omega) (by omega)

theorem cmdParseFormatLoop_eq_runFormat (fuel : Nat) (state : FormatParserState)
    (enough : state.cp.length < fuel) : cmdParseFormatLoop fuel state = runFormat state :=
  cmdParseFormatLoop_fuel fuel _ state enough (by omega)

variable (state)

theorem runFormat_cons (rest : CStr) (noSpace : isspace c = false) :
    runFormat (atText state (c :: rest)) =
      formatParserDispatch c (atText state (c :: rest)) >>= runFormat := by
  rw [runFormat, cmdParseFormatLoop]
  simp only [atText_cp, dropWhile_cons, noSpace, Bool.false_eq_true, if_false]
  have same : ({ atText state (c :: rest) with cp := c :: rest } : FormatParserState) =
        atText state (c :: rest) :=
    rfl
  rw [same]
  cases step : formatParserDispatch c (atText state (c :: rest)) with
  | error error => rfl
  | ok next =>
    exact cmdParseFormatLoop_eq_runFormat _ next
      (by simpa using formatParserDispatch_shrinks _ rfl noSpace step)

theorem runFormat_space (rest : CStr) (space : isspace c) :
    runFormat (atText state (c :: rest)) = runFormat (atText state rest) := by
  rw [← cmdParseFormatLoop_eq_runFormat (rest.length + 2) (atText state rest) (by simp)]
  rw [runFormat]
  conv_lhs => rw [cmdParseFormatLoop]
  conv_rhs => rw [cmdParseFormatLoop]
  simp only [atText_cp, dropWhile_cons, space, if_true, length_cons]
  rfl

theorem runFormat_nil (noKeyword : state.inKeyword = 0) (noMultiple : state.inMultiple = false) :
    runFormat (atText state []) = .ok (atText state []) := by
  simp [runFormat, cmdParseFormatLoop, atText, noKeyword, noMultiple]

/-! ## Words -/

/-- A word that the parser reads in one piece. -/
def IsWord (word : CStr) : Prop :=
  word ≠ [] ∧ ∀ c ∈ word, isWordChar c

/-- Text at which a word ends. -/
def EndsWord (rest : CStr) : Prop :=
  ∀ c, rest.head? = some c → isWordChar c = false

/-- The help strings the parser has not handed out yet. -/
def help : Help :=
  ⟨state.dp, state.dynCbp⟩

def withHelp (help : Help) : FormatParserState :=
  { state with dp := help.desc, dynCbp := help.dynCb }

/-- What reading a word does. -/
def wordEffect (word : CStr) : FormatParserState :=
  { withHelp state (help state).next with
    heap := push state.heap state.curvect (.terminal ((help state).terminal word))
    inKeyword := if state.inKeyword = 1 then 2 else state.inKeyword
    justReadWord := true }

theorem ordinary_of_isWordChar (wordChar : isWordChar c) :
    isspace c = false ∧ c ≠ '\x7b' ∧ c ≠ '(' ∧ c ≠ '\x7d' ∧ c ≠ ')' ∧ c ≠ '|' := by
  refine ⟨?_, ?_, ?_, ?_, ?_, ?_⟩
  · simp only [isWordChar, Bool.and_eq_true, Bool.not_eq_true'] at wordChar
    exact wordChar.2
  all_goals
    rintro rfl
    exact absurd wordChar (by decide)

theorem takeWhile_word (chars : ∀ c ∈ word, isWordChar c) (ends : EndsWord rest) :
    (word ++ rest).takeWhile isWordChar = word ∧ (word ++ rest).dropWhile isWordChar = rest := by
  have restTake : rest.takeWhile isWordChar = [] := by
    cases rest with
    | nil => rfl
    | cons c tail => simp [ends c rfl]
  have restDrop : rest.dropWhile isWordChar = rest := by
    cases rest with
    | nil => rfl
    | cons c tail => simp [ends c rfl]
  constructor
  · rw [takeWhile_append_of_pos chars, restTake, append_nil]
  · rw [dropWhile_append_of_pos chars, restDrop]

theorem dispatch_word (chars : ∀ d ∈ c :: tail, isWordChar d) (ends : EndsWord rest) :
    formatParserDispatch c (atText state (c :: (tail ++ rest))) =
      .ok (atText (wordEffect state (c :: tail)) rest) := by
  obtain ⟨taken, dropped⟩ := takeWhile_word chars ends
  obtain ⟨_, noOpenBrace, noOpen, noCloseBrace, noClose, noBar⟩ :=
    ordinary_of_isWordChar (chars c mem_cons_self)
  rw [cons_append] at taken dropped
  simp only [formatParserDispatch, noOpenBrace, noOpen, noCloseBrace, noClose, noBar, if_false,
    formatParserReadWord, atText_cp, taken, dropped]
  rfl

/-! ## Multiples -/

def openMultiple : FormatParserState :=
  { state with
    inMultiple := true
    justReadWord := false
    heap := push (alloc state.heap) state.curvect (.multiple state.heap.length)
    intvect :=
      if state.curvect ≠ state.topvect then some state.curvect
      else state.intvect
    curvect := state.heap.length }

def nextAlternative : FormatParserState :=
  { state with justReadWord := false }

def closeMultiple : FormatParserState :=
  { state with
    dp :=
      if state.justReadWord then state.dp
      else (formatParserDescStr state.dp).2
    inMultiple := false
    curvect := state.intvect.getD state.topvect }

def alternativesEffect (words : List CStr) : FormatParserState :=
  words.foldl (fun state word => wordEffect (nextAlternative state) word) state

def multipleEffect : Multiple → FormatParserState
  | .trailing alternative =>
    closeMultiple (nextAlternative (wordEffect (openMultiple state) alternative.text))
  | .alternatives first rest =>
    closeMultiple (alternativesEffect (wordEffect (openMultiple state) first.text)
        (rest.map TerminalFixed.text))

theorem dispatch_openMultiple (rest : CStr)
    (notFirst : state.inKeyword ≠ 1) (outside : state.inMultiple = false) :
    formatParserDispatch '(' (atText state ('(' :: rest)) =
      .ok (atText (openMultiple state) rest) := by
  change formatParserBeginMultiple _ = _
  unfold formatParserBeginMultiple
  rw [if_neg (show ¬ (atText state ('(' :: rest)).inKeyword = 1 from notFirst),
    if_neg (show ¬ (atText state ('(' :: rest)).inMultiple
      from Bool.not_eq_true _ ▸ outside)]
  rfl

theorem dispatch_nextAlternative (rest : CStr) (inside : state.inMultiple) :
    formatParserDispatch '|' (atText state ('|' :: rest)) =
      .ok (atText (nextAlternative state) rest) := by
  change formatParserHandlePipe _ = _
  unfold formatParserHandlePipe
  rw [if_pos (show (atText state ('|' :: rest)).inMultiple from inside)]
  rfl

theorem dispatch_closeMultiple (rest : CStr)
    (inside : state.inMultiple) (nonempty : state.heap.getD state.curvect [] ≠ []) :
    formatParserDispatch ')' (atText state (')' :: rest)) =
      .ok (atText (closeMultiple state) rest) := by
  change formatParserEndMultiple _ = _
  unfold formatParserEndMultiple
  rw [if_neg (show ¬ (!(atText state (')' :: rest)).inMultiple)
      from by simpa [atText] using inside),
    if_neg (show ¬ ((atText state (')' :: rest)).heap.getD
        (atText state (')' :: rest)).curvect []).isEmpty
      from fun empty => nonempty (List.isEmpty_iff.mp empty))]
  rfl

theorem endsWord_cons (stop : isWordChar c = false) (rest : CStr) : EndsWord (c :: rest) := by
  intro d found
  simp only [head?_cons, Option.some.injEq] at found
  exact found ▸ stop

theorem endsWord_barred (words : List CStr) (ends : EndsWord rest) :
    EndsWord (barred words ++ rest) := by
  cases words with
  | nil => exact ends
  | cons word tail => exact endsWord_cons (by decide) _

structure InMultiple : Prop where
  inside : state.inMultiple
  bound : state.curvect < state.heap.length
  nonempty : state.heap.getD state.curvect [] ≠ []

theorem inMultiple_wordEffect (inside : state.inMultiple)
    (bound : state.curvect < state.heap.length) (word : CStr) :
    InMultiple (wordEffect state word) where
  inside := inside
  bound := by
    change state.curvect < (push state.heap state.curvect _).length
    simpa using bound
  nonempty := by
    have found : state.heap[state.curvect]? = some state.heap[state.curvect] :=
      getElem?_eq_getElem bound
    have pushed := getElem?_push_self found (.terminal ((help state).terminal word))
    change (push state.heap state.curvect _).getD state.curvect [] ≠ []
    simp [getD_eq_getElem?_getD, pushed]

/-! ## The words of the grammar are words of the parser -/

def wordStops : CStr :=
  "\r\n()\x7b\x7d| \t\x0b\x0c"

theorem isWordChar_of_class (member : p c) (stops : wordStops.all (!p ·)) :
    isWordChar c := by
  by_contra stop
  have found : c ∈ wordStops := by
    simp only [isWordChar, isspace, Bool.and_eq_true, Bool.not_eq_true', not_and_or,
      Bool.not_eq_false, Bool.or_eq_true, decide_eq_true_eq,
      contains_eq_mem] at stop
    rcases stop with special | ((((rfl | rfl) | rfl) | rfl) | rfl) | rfl
    · exact mem_append_left " \t\x0b\x0c" special
    all_goals decide
  have excluded := all_eq_true.mp stops c found
  simp [member] at excluded

theorem isWord_of_class (nonempty : word ≠ []) (members : ∀ c ∈ word, p c)
    (stops : wordStops.all (!p ·)) : IsWord word :=
  ⟨nonempty, fun c member => isWordChar_of_class (members c member) stops⟩

theorem FixedString.isWord (string : FixedString) : IsWord string.text := by
  have valid := string.valid
  cases text : string.text with
  | nil => simp [text, isFixedString] at valid
  | cons head tail =>
    rw [text] at valid
    simp only [isFixedString, Bool.and_eq_true, all_eq_true] at valid
    refine isWord_of_class (p := fun c =>
      isLowercase c || isdigit c || isUppercase c || c = '-' || c = '_')
      (by simp) ?_ (by decide)
    intro c member
    rcases mem_cons.mp member with rfl | later
    · have first := valid.1
      simp only [Bool.or_eq_true] at first ⊢
      exact .inl (.inl (.inl first))
    · exact valid.2 c later

theorem VariableName.isWord (name : VariableName) : IsWord name.text := by
  have valid := name.valid
  cases text : name.text with
  | nil => simp [text, isVariable] at valid
  | cons head tail =>
    rw [text] at valid
    simp only [isVariable, Bool.and_eq_true, all_eq_true] at valid
    refine isWord_of_class (p := fun c => isUppercase c || c = '_') (by simp) ?_ (by decide)
    intro c member
    rcases mem_cons.mp member with rfl | later
    · simp [valid.1]
    · exact valid.2 c later

theorem Number.isWord (number : Number) : IsWord number.text := by
  have valid := number.valid
  simp only [isNumeral, Bool.and_eq_true, Bool.not_eq_true', isEmpty_eq_false_iff,
    all_eq_true] at valid
  exact isWord_of_class valid.1 valid.2 (by decide)

theorem IsWord.append {left right : CStr} (first : IsWord left)
    (second : ∀ c ∈ right, isWordChar c) : IsWord (left ++ right) := by
  refine ⟨by simp [first.1], ?_⟩
  intro c member
  rcases mem_append.mp member with inLeft | inRight
  · exact first.2 c inLeft
  · exact second c inRight

theorem isWord_cons {head : Char} (first : isWordChar head)
    (rest : ∀ c ∈ tail, isWordChar c) : IsWord (head :: tail) := by
  refine ⟨by simp, ?_⟩
  intro c member
  rcases mem_cons.mp member with rfl | later
  · exact first
  · exact rest c later

theorem TerminalFixed.isWord (terminal : TerminalFixed) : IsWord terminal.text := by
  cases terminal with
  | fixedString string => exact FixedString.isWord string
  | variableName name => exact VariableName.isWord name
  | range min max =>
    have lower : IsWord ('<' :: min.text) := isWord_cons (by decide) (Number.isWord min).2
    have upper : IsWord ('-' :: max.text) := isWord_cons (by decide) (Number.isWord max).2
    have close : ∀ c ∈ ['>'], isWordChar c := all_eq_true.mp (by decide)
    exact (lower.append upper.2).append close
  | ipv4 | ipv4Prefix | ipv4Netmask | ipv6 | ipv6Prefix =>
    exact ⟨by decide, all_eq_true.mp (by decide)⟩

theorem Terminal.isWord (terminal : Grammar.Terminal) : IsWord terminal.text := by
  cases terminal with
  | fixed word => exact TerminalFixed.isWord word
  | option name =>
    exact (isWord_cons (by decide) (VariableName.isWord name).2).append (all_eq_true.mp (by decide))
  | vararg name =>
    exact isWord_cons (by decide) (VariableName.isWord name).2

/-! ## Keyword groups -/

def openKeyword : FormatParserState :=
  { state with
    inKeyword := 1
    heap :=
      push
        (push (alloc (alloc state.heap)) state.heap.length
          (.part (state.heap.length + 1)))
        state.curvect (.keyword state.heap.length)
    curvect := state.heap.length + 1 }

def nextPart : Except FormatError FormatParserState :=
  match (state.heap.getD state.topvect []).getLast? with
  | some (.keyword keyword) =>
    .ok
      { state with
        inKeyword := 1
        heap := push (alloc state.heap) keyword (.part state.heap.length)
        curvect := state.heap.length }
  | _ => .error .nullDereference

def closeKeyword : FormatParserState :=
  { state with inKeyword := 0, curvect := state.topvect }

def itemEffect : PartItem → FormatParserState
  | .terminal word => wordEffect state word.text
  | .multiple group => multipleEffect state group

def itemsEffect (items : List PartItem) : FormatParserState :=
  items.foldl itemEffect state

def partEffect (part : Part) : FormatParserState :=
  itemsEffect (wordEffect state part.keyword.text) part.items

def partsEffect : FormatParserState → List Part → Except FormatError FormatParserState
  | state, [] => .ok state
  | state, part :: rest =>
    nextPart state >>= fun next => partsEffect (partEffect next part) rest

def tokenEffect : Token → Except FormatError FormatParserState
  | .terminal word => .ok (wordEffect state word.text)
  | .multiple group => .ok (multipleEffect state group)
  | .keyword first rest =>
    partsEffect (partEffect (openKeyword state) first) rest >>= fun last => .ok (closeKeyword last)

def tokensEffect : FormatParserState → List Token → Except FormatError FormatParserState
  | state, [] => .ok state
  | state, token :: rest =>
    tokenEffect state token >>= fun next => tokensEffect next rest

structure InPart : Prop where
  keyword : state.inKeyword = 2
  outside : state.inMultiple = false

/-- The parser is outside every group. -/
structure Outside : Prop where
  keyword : state.inKeyword = 0
  outside : state.inMultiple = false

theorem wordEffect_inKeyword (notFirst : state.inKeyword ≠ 1) (word : CStr) :
    (wordEffect state word).inKeyword = state.inKeyword := by
  simp [wordEffect, notFirst]

theorem alternativesEffect_inKeyword (notFirst : state.inKeyword ≠ 1) (words : List CStr) :
    (alternativesEffect state words).inKeyword = state.inKeyword := by
  induction words generalizing state with
  | nil => rfl
  | cons word rest ih =>
    have step : (wordEffect (nextAlternative state) word).inKeyword = state.inKeyword :=
      wordEffect_inKeyword (nextAlternative state) notFirst word
    have tail := ih (wordEffect (nextAlternative state) word) (step ▸ notFirst)
    exact tail.trans step

variable {state}

theorem multipleEffect_inKeyword (notFirst : state.inKeyword ≠ 1) (multiple : Multiple) :
    (multipleEffect state multiple).inKeyword = state.inKeyword := by
  have entered (word : CStr) : (wordEffect (openMultiple state) word).inKeyword = state.inKeyword :=
    wordEffect_inKeyword (openMultiple state) notFirst word
  cases multiple with
  | trailing alternative => exact entered alternative.text
  | alternatives first rest =>
    exact (alternativesEffect_inKeyword (wordEffect (openMultiple state) first.text)
      ((entered first.text).symm ▸ notFirst) _).trans (entered first.text)

theorem multipleEffect_inMultiple (state : FormatParserState) (multiple : Multiple) :
    (multipleEffect state multiple).inMultiple = false := by
  cases multiple <;> rfl

theorem InPart.itemEffect (inPart : InPart state) (item : PartItem) :
    InPart (itemEffect state item) := by
  have notFirst : state.inKeyword ≠ 1 := by
    rw [inPart.keyword]
    decide
  cases item with
  | terminal word =>
    exact ⟨(wordEffect_inKeyword state notFirst word.text).trans inPart.keyword, inPart.outside⟩
  | multiple group =>
    exact ⟨(multipleEffect_inKeyword notFirst group).trans inPart.keyword,
      multipleEffect_inMultiple state group⟩

theorem InPart.itemsEffect (inPart : InPart state) (items : List PartItem) :
    InPart (itemsEffect state items) := by
  induction items generalizing state with
  | nil => exact inPart
  | cons item rest ih => exact ih (inPart.itemEffect item)

theorem inPart_partEffect (state : FormatParserState) (first : state.inKeyword = 1)
    (outside : state.inMultiple = false) (part : Part) : InPart (partEffect state part) := by
  have entered : InPart (wordEffect state part.keyword.text) :=
    ⟨by simp [wordEffect, first], outside⟩
  exact entered.itemsEffect part.items

theorem endsWord_itemsText (items : List PartItem) (ends : EndsWord rest) :
    EndsWord (itemsText items ++ rest) := by
  cases items with
  | nil => exact ends
  | cons item tail => exact endsWord_cons (by decide) _

theorem dispatch_nextPart (state : FormatParserState) (rest : CStr) (inPart : InPart state) :
    formatParserDispatch '|' (atText state ('|' :: rest)) =
      nextPart state >>= fun next => .ok (atText next rest) := by
  have notInside : ¬ (atText state ('|' :: rest)).inMultiple := by
    simp [atText, inPart.outside]
  have inKeyword : (atText state ('|' :: rest)).inKeyword ≠ 0 := by
    simp [atText, inPart.keyword]
  change formatParserHandlePipe _ = _
  unfold formatParserHandlePipe nextPart
  rw [if_neg notInside, if_pos inKeyword]
  change (match (state.heap.getD state.topvect []).getLast? with
      | some (.keyword keyword) => _
      | _ => _) = _
  split <;> rfl

theorem nextPart_inKeyword (step : nextPart state = .ok next) :
    next.inKeyword = 1 ∧ next.inMultiple = state.inMultiple := by
  unfold nextPart at step
  split at step
  · cases step
    exact ⟨rfl, rfl⟩
  · cases step

theorem endsWord_partsText (parts : List Part) (ends : EndsWord rest) :
    EndsWord (partsText parts ++ rest) := by
  cases parts with
  | nil => exact ends
  | cons part tail => exact endsWord_cons (by decide) _

theorem dispatch_closeKeyword (state : FormatParserState) (rest : CStr) (inPart : InPart state) :
    formatParserDispatch '\x7d' (atText state ('\x7d' :: rest)) =
      .ok (atText (closeKeyword state) rest) := by
  have closes : ¬ ((atText state ('\x7d' :: rest)).inMultiple ||
      (atText state ('\x7d' :: rest)).inKeyword = 0) := by
    simp [atText, inPart.outside, inPart.keyword]
  have notFirst : ¬ (atText state ('\x7d' :: rest)).inKeyword = 1 := by
    simp [atText, inPart.keyword]
  change formatParserEndKeyword _ = _
  unfold formatParserEndKeyword
  rw [if_neg closes, if_neg notFirst]
  rfl

/-! ## Command strings -/

theorem dispatch_openKeyword (state : FormatParserState) (rest : CStr) (outside : Outside state) :
    formatParserDispatch '\x7b' (atText state ('\x7b' :: rest)) =
      .ok (atText (openKeyword state) rest) := by
  have opens : ¬ ((atText state ('\x7b' :: rest)).inKeyword ≠ 0 ||
      (atText state ('\x7b' :: rest)).inMultiple) := by
    simp [atText, outside.keyword, outside.outside]
  change formatParserBeginKeyword _ = _
  unfold formatParserBeginKeyword
  rw [if_neg opens]
  rfl

theorem partsEffect_outside {parts : List Part} {last : FormatParserState}
    (outside : state.inMultiple = false) (step : partsEffect state parts = .ok last) :
    last.inMultiple = false := by
  induction parts generalizing state with
  | nil =>
    cases step
    exact outside
  | cons part tail ih =>
    rw [partsEffect] at step
    cases next : nextPart state with
    | error error =>
      rw [next] at step
      cases step
    | ok entered =>
      rw [next] at step
      obtain ⟨first, sameOutside⟩ := nextPart_inKeyword next
      exact ih (inPart_partEffect _ first (sameOutside.trans outside) part).outside step

theorem Outside.tokenEffect (outside : Outside state) {token : Token}
    (step : tokenEffect state token = .ok next) : Outside next := by
  have notFirst : state.inKeyword ≠ 1 := by
    rw [outside.keyword]
    decide
  cases token with
  | terminal word =>
    cases step
    exact ⟨(wordEffect_inKeyword state notFirst word.text).trans outside.keyword, outside.outside⟩
  | multiple group =>
    cases step
    exact ⟨(multipleEffect_inKeyword notFirst group).trans outside.keyword,
      multipleEffect_inMultiple state group⟩
  | keyword first others =>
    rw [Effects.tokenEffect] at step
    cases parts : partsEffect (partEffect (openKeyword state) first) others with
    | error error =>
      rw [parts] at step
      cases step
    | ok last =>
      rw [parts] at step
      cases step
      have entered := inPart_partEffect (openKeyword state) rfl outside.outside first
      have left := partsEffect_outside entered.outside parts
      exact ⟨rfl, left⟩

theorem length_openKeyword (state : FormatParserState) :
    (openKeyword state).heap.length = state.heap.length + 2 := by
  change (push (push (alloc (alloc state.heap)) _ _) _ _).length = _
  simp

theorem tokensEffect_cons {token : Token} {rest : List Token}
    {last : FormatParserState} (run : tokensEffect state (token :: rest) = .ok last) :
    ∃ next, tokenEffect state token = .ok next ∧ tokensEffect next rest = .ok last := by
  cases step : tokenEffect state token with
  | error error =>
    rw [tokensEffect, step] at run
    cases run
  | ok next =>
    rw [tokensEffect, step] at run
    exact ⟨next, rfl, run⟩

theorem endsWord_tokensText (tokens : List Token) : EndsWord (tokensText tokens) := by
  cases tokens with
  | nil =>
    intro c found
    simp [tokensText] at found
  | cons token rest => exact endsWord_cons (by decide) _

end OpsCli.Command.Format.Effects
