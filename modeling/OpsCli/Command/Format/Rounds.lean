import OpsCli.Command.Format.Effects
import OpsCli.Command.Format.HelpText

/-!
# The rounds of the format parser

Reading the text of a token takes some rounds of the loop in
`cmd_parse_format`, and leads from the state before it to the state that
`tokenEffect` gives, with one terminal made for each word.  The function that
is left of the loop on derived text is therefore `tokensEffect`.
-/

namespace OpsCli.Command.Format.ReadingOrder

open CLib CString VectorHeap Token Format.Parser Grammar Effects HelpText List

/-! ## Rounds of the parser -/

/-- The terminal that a round has made: after a word, the last one of the
current vector. -/
def madeBy (c : Char) (next : FormatParserState) : List Token.Terminal :=
  if isWordChar c then
    ((next.heap.getD next.curvect []).getLast?.bind Cell.terminal?).toList
  else []

/-- Rounds of the loop in `cmd_parse_format`, with the terminals that are made
in them, in order. -/
inductive Rounds : FormatParserState → List Token.Terminal → FormatParserState → Prop where
  | done {state : FormatParserState} : Rounds state [] state
  | space {state last : FormatParserState} {c : Char} {rest : CStr}
      {made : List Token.Terminal} (space : isspace c)
      (later : Rounds (atText state rest) made last) :
      Rounds (atText state (c :: rest)) made last
  | round {state next last : FormatParserState} {c : Char} {rest : CStr}
      {made : List Token.Terminal} (noSpace : isspace c = false)
      (step : formatParserDispatch c (atText state (c :: rest)) = .ok next)
      (later : Rounds next made last) :
      Rounds (atText state (c :: rest)) (madeBy c next ++ made) last

variable {state last next : FormatParserState} {rest : CStr} {list : List Place}

theorem Rounds.trans {first second third : FormatParserState} {made more : List Token.Terminal}
    (rounds : Rounds first made second) (later : Rounds second more third) :
    Rounds first (made ++ more) third := by
  induction rounds with
  | done => exact later
  | space space _ ih => exact .space space (ih later)
  | round noSpace step _ ih =>
    rw [append_assoc]
    exact .round noSpace step (ih later)

theorem Rounds.runFormat {made : List Token.Terminal} (rounds : Rounds state made last) :
    runFormat state = runFormat last := by
  induction rounds with
  | done => rfl
  | space space _ ih => rw [runFormat_space _ _ space, ih]
  | round noSpace step _ ih =>
    rw [runFormat_cons _ _ noSpace, step]
    exact ih

/-! ## Words and multiples -/

def heapTerminals (state : FormatParserState) : List Token.Terminal :=
  contents Cell.terminal? state.heap

structure Allocated (state : FormatParserState) : Prop where
  topvect : state.topvect < state.heap.length
  intvect : ∀ vector ∈ state.intvect, vector < state.heap.length
  curvect : state.curvect < state.heap.length

/-- Reading `text` makes the terminals of the places, with their help
strings, and leads to the state `next`. -/
structure Hands (state next : FormatParserState) (text : CStr)
    (list : List Place) (rest : CStr) : Prop where
  rounds : Rounds (atText state (text ++ rest)) (allot list (help state)).1 (atText next rest)
  helped : help next = (allot list (help state)).2
  kept : (heapTerminals next).Perm (heapTerminals state ++ (allot list (help state)).1)
  allocated : Allocated next

theorem hands_nothing (allocated : Allocated state) (rest : CStr) :
    Hands state state [] [] rest := by
  refine ⟨.done, rfl, ?_, allocated⟩
  change (heapTerminals state).Perm (heapTerminals state ++ [])
  rw [append_nil]

theorem Hands.append {first second third : FormatParserState} {text more : CStr}
    {others : List Place} (head : Hands first second text list (more ++ rest))
    (tail : Hands second third more others rest) :
    Hands first third (text ++ more) (list ++ others) rest := by
  refine ⟨?_, ?_, ?_, tail.allocated⟩
  · rw [allot_append, append_assoc, ← head.helped]
    exact head.rounds.trans tail.rounds
  · rw [allot_append, ← head.helped]
    exact tail.helped
  · rw [allot_append, ← head.helped, ← append_assoc]
    exact tail.kept.trans (head.kept.append_right _)

theorem Hands.afterSpace {text : CStr} (hands : Hands state next text list rest) :
    Hands state next (' ' :: text) list rest :=
  ⟨.space (by decide) hands.rounds, hands.helped, hands.kept, hands.allocated⟩

/-- Reading `text` has the effect `result`. -/
def Reads (state : FormatParserState) (result : Except FormatError FormatParserState)
    (text : CStr) (list : List Place) (rest : CStr) : Prop :=
  match result with
  | .ok next => Hands state next text list rest
  | .error error => runFormat (atText state (text ++ rest)) = .error error

theorem Hands.reads {result : Except FormatError FormatParserState} {text more : CStr}
    {others : List Place} (head : Hands state next text list (more ++ rest))
    (tail : Reads next result more others rest) :
    Reads state result (text ++ more) (list ++ others) rest := by
  cases result with
  | ok last => exact head.append tail
  | error error =>
    change runFormat _ = _
    rw [append_assoc, head.rounds.runFormat]
    exact tail

theorem hands_mark {c : Char} (noSpace : isspace c = false) (noWord : isWordChar c = false)
    (step : formatParserDispatch c (atText state (c :: rest)) =
      .ok (atText next rest)) (nothing : (allot list (help state)).1 = [])
    (helped : help next = (allot list (help state)).2)
    (kept : heapTerminals next = heapTerminals state) (allocated : Allocated next) :
    Hands state next [c] list rest := by
  refine ⟨?_, helped, ?_, allocated⟩
  · have none : madeBy c (atText next rest) = [] := by
      rw [madeBy, noWord]
      rfl
    have rounds := Rounds.round noSpace step Rounds.done
    rw [none] at rounds
    rw [nothing]
    exact rounds
  · rw [nothing, append_nil, kept]

section

variable (allocated : Allocated state)
include allocated

theorem hands_word {word : CStr} (isWord : IsWord word) (ends : EndsWord rest) :
    Hands state (wordEffect state word) word [some word] rest := by
  have length : (wordEffect state word).heap.length = state.heap.length := length_push _ _ _
  have read : Cell.terminal? (.terminal ((help state).terminal word)) =
      some ((help state).terminal word) :=
    rfl
  refine ⟨?_, rfl, contents_push_some _ read allocated.curvect, ?_⟩
  · obtain ⟨nonempty, chars⟩ := isWord
    cases word with
    | nil => exact absurd rfl nonempty
    | cons c tail =>
      have wordChar := chars c mem_cons_self
      have made : madeBy c (atText (wordEffect state (c :: tail)) rest) =
          [(help state).terminal (c :: tail)] := by
        have pushed := getElem?_push_self (getElem?_eq_getElem allocated.curvect)
          (.terminal ((help state).terminal (c :: tail)))
        rw [madeBy, wordChar, if_pos rfl]
        change (((push state.heap state.curvect _).getD state.curvect
          []).getLast?.bind _).toList = _
        rw [getD_eq_getElem?_getD, pushed, Option.getD_some, getLast?_concat]
        rfl
      have rounds := Rounds.round (ordinary_of_isWordChar wordChar).1
        (dispatch_word state chars ends) .done
      rw [made] at rounds
      exact rounds
  · refine ⟨?_, fun vector found => ?_, ?_⟩
    · rw [length]
      exact allocated.topvect
    · rw [length]
      exact allocated.intvect vector found
    · rw [length]
      exact allocated.curvect

theorem hands_openMultiple (rest : CStr)
    (notFirst : state.inKeyword ≠ 1) (outside : state.inMultiple = false) :
    Hands state (openMultiple state) ['('] [] rest := by
  have length : (openMultiple state).heap.length = state.heap.length + 1 := by
    change (push (alloc state.heap) _ _).length = _
    rw [length_push, length_alloc]
  refine hands_mark (by decide) (by decide)
    (dispatch_openMultiple state rest notFirst outside) rfl rfl ?_ ?_
  · change contents _ (push (alloc state.heap) _ _) = _
    rw [contents_push_none _ rfl, contents_alloc]
    rfl
  · refine ⟨?_, fun vector found => ?_, ?_⟩
    · rw [length]
      exact Nat.lt_succ_of_lt allocated.topvect
    · rw [length]
      apply Nat.lt_succ_of_lt
      change vector ∈ ite _ _ _ at found
      split at found
      · cases found
        exact allocated.curvect
      · exact allocated.intvect vector found
    · rw [length]
      exact Nat.lt_succ_self _

theorem hands_nextAlternative (rest : CStr) (inside : state.inMultiple) :
    Hands state (nextAlternative state) ['|'] [] rest :=
  hands_mark (by decide) (by decide) (dispatch_nextAlternative state rest inside) rfl rfl rfl
    ⟨allocated.topvect, allocated.intvect, allocated.curvect⟩

theorem allocated_closeMultiple : Allocated (closeMultiple state) := by
  refine ⟨allocated.topvect, allocated.intvect, ?_⟩
  change state.intvect.getD state.topvect < state.heap.length
  cases saved : state.intvect with
  | none => exact allocated.topvect
  | some vector => exact allocated.intvect vector saved

theorem hands_closeMultiple (rest : CStr) (entered : InMultiple state) (read : state.justReadWord) :
    Hands state (closeMultiple state) [')'] [] rest := by
  refine hands_mark (by decide) (by decide)
    (dispatch_closeMultiple state rest entered.inside entered.nonempty) rfl
    ?_ rfl (allocated_closeMultiple allocated)
  rw [help, closeMultiple, read]
  rfl

theorem hands_closeTrailing (rest : CStr) (entered : InMultiple state)
    (bar : state.justReadWord = false) : Hands state (closeMultiple state) [')'] [none] rest := by
  refine hands_mark (by decide) (by decide)
    (dispatch_closeMultiple state rest entered.inside entered.nonempty) rfl
    ?_ rfl (allocated_closeMultiple allocated)
  rw [help, closeMultiple, bar]
  rfl

end

section

variable (allocated : Allocated state)
include allocated

theorem hands_alternatives (words : List CStr) (rest : CStr)
    (areWords : ∀ word ∈ words, IsWord word)
    (entered : InMultiple state) (read : state.justReadWord) :
    Hands state (closeMultiple (alternativesEffect state words))
      (barred words ++ [')']) (words.map some) rest := by
  induction words generalizing state with
  | nil => exact hands_closeMultiple allocated rest entered read
  | cons word tail ih =>
    have ends : EndsWord ((barred tail ++ [')']) ++ rest) := by
      rw [append_assoc]
      exact endsWord_barred tail (endsWord_cons (by decide) rest)
    have bar := hands_nextAlternative allocated
      ((word ++ (barred tail ++ [')'])) ++ rest) entered.inside
    have head := hands_word bar.allocated (areWords word mem_cons_self) ends
    have others := ih head.allocated
      (fun other member => areWords other (mem_cons_of_mem _ member))
      (inMultiple_wordEffect (nextAlternative state) entered.inside entered.bound word) rfl
    have hands := bar.append (head.append others)
    simp only [singleton_append, nil_append] at hands
    simp only [barred, cons_append, append_assoc, map_cons]
    exact hands

theorem hands_multiple (multiple : Multiple) (rest : CStr)
    (notFirst : state.inKeyword ≠ 1) (outside : state.inMultiple = false) :
    Hands state (multipleEffect state multiple) multiple.text (multiplePlaces multiple) rest := by
  cases multiple with
  | trailing alternative =>
    have opens := hands_openMultiple allocated
      ((alternative.text ++ ['|', ')']) ++ rest) notFirst outside
    have entered := inMultiple_wordEffect (openMultiple state) rfl
      opens.allocated.curvect alternative.text
    have head := hands_word opens.allocated (TerminalFixed.isWord alternative)
      (show EndsWord (['|', ')'] ++ rest) from endsWord_cons (by decide) _)
    have bar := hands_nextAlternative head.allocated (')' :: rest) rfl
    have close := hands_closeTrailing bar.allocated rest
      ⟨entered.inside, entered.bound, entered.nonempty⟩ rfl
    exact opens.append (head.append (bar.append close))
  | alternatives first others =>
    have areWords : ∀ word ∈ others.map TerminalFixed.text, IsWord word := by
      intro word member
      obtain ⟨terminal, _, rfl⟩ := mem_map.mp member
      exact TerminalFixed.isWord terminal
    have ends : EndsWord ((barred (others.map TerminalFixed.text) ++ [')']) ++ rest) := by
      rw [append_assoc]
      exact endsWord_barred _ (endsWord_cons (by decide) rest)
    have opens := hands_openMultiple allocated
      ((first.text ++ (barred (others.map TerminalFixed.text) ++ [')'])) ++ rest) notFirst outside
    have head := hands_word opens.allocated (TerminalFixed.isWord first) ends
    have tail := hands_alternatives head.allocated (others.map TerminalFixed.text) rest areWords
      (inMultiple_wordEffect (openMultiple state) rfl opens.allocated.curvect first.text) rfl
    have hands := opens.append (head.append tail)
    rw [map_map] at hands
    simp only [Multiple.text, cons_append, append_assoc]
    exact hands

/-! ## Keyword groups -/

theorem hands_item (item : PartItem) (inPart : InPart state) (ends : EndsWord rest) :
    Hands state (itemEffect state item) item.text (itemPlaces item)
      rest := by
  cases item with
  | terminal word =>
    exact hands_word allocated (TerminalFixed.isWord word) ends
  | multiple group =>
    refine hands_multiple allocated group rest ?_ inPart.outside
    rw [inPart.keyword]
    decide

theorem hands_items (items : List PartItem) (inPart : InPart state) (ends : EndsWord rest) :
    Hands state (itemsEffect state items) (itemsText items) (items.flatMap itemPlaces) rest := by
  induction items generalizing state with
  | nil => exact hands_nothing allocated rest
  | cons item tail ih =>
    have head := hands_item allocated item inPart (endsWord_itemsText tail ends)
    have others := ih head.allocated (inPart.itemEffect item)
    exact (head.append others).afterSpace

theorem hands_part (part : Part) (first : state.inKeyword = 1)
    (outside : state.inMultiple = false) (ends : EndsWord rest) :
    Hands state (partEffect state part) part.text (partPlaces part)
      rest := by
  have entered : InPart (wordEffect state part.keyword.text) :=
    ⟨by simp [wordEffect, first], outside⟩
  have keyword := hands_word allocated (FixedString.isWord part.keyword)
    (endsWord_itemsText part.items ends)
  exact keyword.append (hands_items keyword.allocated part.items entered ends)

theorem hands_nextPart (rest : CStr) (inPart : InPart state)
    (step : nextPart state = .ok next) : Hands state next ['|'] [] rest := by
  have dispatch := dispatch_nextPart state rest inPart
  rw [step] at dispatch
  unfold nextPart at step
  split at step
  · rename_i keyword _
    cases step
    have length : (push (alloc state.heap) keyword
        (.part state.heap.length)).length = state.heap.length + 1 := by
      rw [length_push, length_alloc]
    refine hands_mark (by decide) (by decide) dispatch rfl rfl ?_ ⟨?_, fun vector found => ?_, ?_⟩
    · change contents _ (push (alloc state.heap) _ _) = _
      rw [contents_push_none _ rfl, contents_alloc]
      rfl
    · rw [length]
      exact Nat.lt_succ_of_lt allocated.topvect
    · rw [length]
      exact Nat.lt_succ_of_lt (allocated.intvect vector found)
    · rw [length]
      exact Nat.lt_succ_self _
  · cases step

theorem reads_parts (parts : List Part) (rest : CStr) (inPart : InPart state) :
    Reads state (partsEffect state parts >>= fun last => .ok (closeKeyword last))
      (partsText parts ++ ['\x7d']) (parts.flatMap partPlaces) rest := by
  induction parts generalizing state with
  | nil =>
    exact hands_mark (by decide) (by decide) (dispatch_closeKeyword state rest inPart) rfl rfl rfl
      ⟨allocated.topvect, allocated.intvect, allocated.topvect⟩
  | cons part tail ih =>
    have ends : EndsWord ((partsText tail ++ ['\x7d']) ++ rest) := by
      rw [append_assoc]
      exact endsWord_partsText tail (endsWord_cons (by decide) rest)
    rw [partsEffect]
    simp only [partsText, cons_append, append_assoc]
    cases enters : nextPart state with
    | error error =>
      change runFormat _ = _
      rw [cons_append, runFormat_cons state _ (by decide), dispatch_nextPart state _ inPart, enters]
      rfl
    | ok next =>
      obtain ⟨first, same⟩ := nextPart_inKeyword enters
      have outside := same.trans inPart.outside
      have bar := hands_nextPart allocated
        ((part.text ++ (partsText tail ++ ['\x7d'])) ++ rest) inPart
        enters
      have head := hands_part bar.allocated part first outside ends
      exact bar.reads (head.reads (ih head.allocated (inPart_partEffect next first outside part)))

theorem allocated_openKeyword : Allocated (openKeyword state) := by
  refine ⟨?_, fun vector found => ?_, ?_⟩
  · rw [length_openKeyword]
    exact Nat.lt_add_right 2 allocated.topvect
  · rw [length_openKeyword]
    exact Nat.lt_add_right 2 (allocated.intvect vector found)
  · rw [length_openKeyword]
    exact Nat.lt_succ_self _

theorem hands_openKeyword (rest : CStr) (outside : Outside state) :
    Hands state (openKeyword state) ['\x7b'] [] rest := by
  refine hands_mark (by decide) (by decide) (dispatch_openKeyword state rest outside) rfl rfl ?_
    (allocated_openKeyword allocated)
  change contents _ (push (push (alloc (alloc state.heap)) _ _) _ _) = _
  rw [contents_push_none _ rfl, contents_push_none _ rfl, contents_alloc, contents_alloc]
  rfl

/-! ## Command strings -/

theorem reads_token (token : Token) (outside : Outside state) (ends : EndsWord rest) :
    Reads state (tokenEffect state token) token.text (tokenPlaces token) rest := by
  cases token with
  | terminal word => exact hands_word allocated (Terminal.isWord word) ends
  | multiple group =>
    refine hands_multiple allocated group rest ?_ outside.outside
    rw [outside.keyword]
    decide
  | keyword first others =>
    have partEnds : EndsWord ((partsText others ++ ['\x7d']) ++ rest) := by
      rw [append_assoc]
      exact endsWord_partsText others (endsWord_cons (by decide) rest)
    have opens := hands_openKeyword allocated
      ((first.text ++ (partsText others ++ ['\x7d'])) ++ rest) outside
    have head := hands_part opens.allocated first rfl outside.outside partEnds
    have tail := reads_parts head.allocated others rest
      (inPart_partEffect (openKeyword state) rfl outside.outside first)
    simp only [Token.text, cons_append, append_assoc]
    exact opens.reads (head.reads tail)

theorem hands_token (token : Token) (outside : Outside state)
    (ends : EndsWord rest) (step : tokenEffect state token = .ok next) :
    Hands state next token.text (tokenPlaces token) rest := by
  have reads := reads_token allocated token outside ends
  rw [step] at reads
  exact reads

theorem hands_tokens (tokens : List Token) (outside : Outside state)
    (run : tokensEffect state tokens = .ok last) :
    Hands state last (tokensText tokens) (tokens.flatMap tokenPlaces) [] := by
  induction tokens generalizing state with
  | nil =>
    cases run
    exact hands_nothing allocated []
  | cons token rest ih =>
    obtain ⟨next, step, later⟩ := tokensEffect_cons run
    have ends : EndsWord (tokensText rest ++ []) := by
      rw [append_nil]
      exact endsWord_tokensText rest
    have head := hands_token allocated token outside ends step
    have tail := ih head.allocated (outside.tokenEffect step) later
    exact (head.append tail).afterSpace

end

/-! ## The loop on derived text -/

theorem runFormat_token (token : Token) (allocated : Allocated state) (outside : Outside state)
    (ends : EndsWord rest) :
    runFormat (atText state (token.text ++ rest)) = tokenEffect state token >>= fun next =>
        runFormat (atText next rest) := by
  have reads := reads_token allocated token outside ends
  cases step : tokenEffect state token with
  | ok next => exact (hands_token allocated token outside ends step).rounds.runFormat
  | error error =>
    rw [step] at reads
    exact reads

theorem runFormat_tokens (tokens : List Token) (allocated : Allocated state)
    (outside : Outside state) :
    runFormat (atText state (tokensText tokens)) =
      tokensEffect state tokens >>= fun last => .ok (atText last []) := by
  induction tokens generalizing state with
  | nil => exact runFormat_nil state outside.keyword outside.outside
  | cons token rest ih =>
    simp only [tokensText, cons_append, tokensEffect]
    rw [runFormat_space state _ (by decide),
      runFormat_token token allocated outside (endsWord_tokensText rest)]
    cases step : tokenEffect state token with
    | error error => rfl
    | ok next =>
      have head := hands_token allocated token outside (endsWord_tokensText rest) step
      exact ih head.allocated (outside.tokenEffect step)

theorem allocated_init (cmdstr : CmdStr) (descstr dynCbStr : Option CStr) :
    Allocated (formatParserInit cmdstr.text descstr dynCbStr) :=
  ⟨Nat.zero_lt_one, nofun, Nat.zero_lt_one⟩

/-- Parsing a derived format is applying the effects of its tokens. -/
theorem cmdParseFormat_text (cmdstr : CmdStr) (descstr dynCbStr : Option CStr) :
    cmdParseFormat cmdstr.text descstr dynCbStr =
      tokensEffect (formatParserInit cmdstr.text descstr dynCbStr) cmdstr.all >>= fun last =>
        .ok ⟨last.heap, last.topvect⟩ := by
  have outside : Outside (formatParserInit cmdstr.text descstr dynCbStr) := ⟨rfl, rfl⟩
  have allocated := allocated_init cmdstr descstr dynCbStr
  have ends := endsWord_tokensText cmdstr.rest
  have run : cmdParseFormatLoop (cmdstr.text.length + 1)
          (formatParserInit cmdstr.text descstr dynCbStr) =
        tokensEffect (formatParserInit cmdstr.text descstr dynCbStr) cmdstr.all >>= fun last =>
          .ok (atText last []) := by
    change runFormat (atText (formatParserInit cmdstr.text descstr dynCbStr)
        (cmdstr.first.text ++ tokensText cmdstr.rest)) = _
    rw [runFormat_token cmdstr.first allocated outside ends, CmdStr.all, tokensEffect]
    cases step : tokenEffect (formatParserInit cmdstr.text descstr dynCbStr) cmdstr.first with
    | error error => rfl
    | ok next =>
      have head := hands_token allocated cmdstr.first outside ends step
      exact runFormat_tokens cmdstr.rest head.allocated (outside.tokenEffect step)
  rw [cmdParseFormat, run]
  cases tokensEffect (formatParserInit cmdstr.text descstr dynCbStr) cmdstr.all <;> rfl

end OpsCli.Command.Format.ReadingOrder
