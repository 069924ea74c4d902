import OpsCli.Command.Format.Derivation
import OpsCli.Command.Format.Rounds

/-!
# Which formats are parsed as derived

At the top level the parser is right until a multiple is closed while a
vector saved inside an earlier keyword group is still in `intvect`.  From
then on the current vector is that of the old keyword part, and the next
token is lost for the top level.  The two halves are two invariants:
`Clean`, under which the vectors represent the tokens read so far, and
`Sane`, under which the top level grows by at most one cell for each token.
-/

namespace OpsCli.Command.Format.Misplacement

open CLib CString VectorHeap Token Format.Parser Grammar Effects
  OpsCli.Command.Format.Derivation ReadingOrder List

/-! ## The length of the top level -/

/-- The cells at the top level. -/
def topCells (state : FormatParserState) : List Cell :=
  state.heap.getD state.topvect []

/-- What holds between any two tokens. -/
structure Sane (state : FormatParserState) : Prop where
  topvect : state.topvect = 0
  allocated : 0 < state.heap.length
  intvect : state.intvect ≠ some 0
  groups : ∀ group, .keyword group ∈ topCells state → group ≠ 0 ∧ group < state.heap.length

variable {state next last : FormatParserState} {cell : Cell} {tokens : List Token} {armed : Bool}
  {done : List CmdToken} {cells : List Cell} {rest : List Token}

theorem Sane.found (sane : Sane state) : state.heap[0]? = some (topCells state) := by
  rw [topCells, sane.topvect, getD_eq_getElem?_getD, getElem?_eq_getElem sane.allocated]
  rfl

theorem topCells_of_found (topvect : state.topvect = 0) (found : state.heap[0]? = some cells) :
    topCells state = cells := by
  rw [topCells, topvect, getD_eq_getElem?_getD, found]
  rfl

/-- A token at the top level adds `cell` there, elsewhere it adds nothing. -/
structure TopGrows (state next : FormatParserState) (cell : Cell) : Prop where
  topvect : next.topvect = 0
  size : state.heap.length ≤ next.heap.length
  found : next.heap[0]? = some (if state.curvect = 0 then topCells state ++ [cell]
        else topCells state)

theorem push_top {heap : Heap Cell} (found : heap[0]? = some cells) (vector : Nat) (cell : Cell) :
    (push heap vector cell)[0]? = some (if vector = 0 then cells ++ [cell] else cells) := by
  by_cases top : vector = 0
  · subst top
    rw [if_pos rfl]
    exact getElem?_push_self found cell
  · rw [if_neg top, getElem?_push_of_ne heap top, found]

theorem TopGrows.sane (grows : TopGrows state next cell) (sane : Sane state)
    (intvect : next.intvect ≠ some 0) (valid : ∀ group, cell = .keyword group →
      group ≠ 0 ∧ group < next.heap.length) : Sane next where
  topvect := grows.topvect
  allocated := Nat.lt_of_lt_of_le sane.allocated grows.size
  intvect := intvect
  groups := by
    intro group member
    rw [topCells_of_found grows.topvect grows.found] at member
    have old (present : .keyword group ∈ topCells state) : group ≠ 0 ∧ group < next.heap.length :=
      ⟨(sane.groups group present).1, Nat.lt_of_lt_of_le (sane.groups group present).2 grows.size⟩
    split at member
    · rcases mem_append.mp member with present | new
      · exact old present
      · exact valid group (mem_singleton.mp new).symm
    · exact old member

theorem TopGrows.length (grows : TopGrows state next cell) : (topCells next).length =
      (topCells state).length + if state.curvect = 0 then 1 else 0 := by
  rw [topCells_of_found grows.topvect grows.found]
  split <;> simp

section

variable (sane : Sane state)
include sane

theorem topGrows_terminal (word : CStr) : TopGrows state (wordEffect state word)
      (.terminal ((help state).terminal word)) where
  topvect := sane.topvect
  size := by
    change _ ≤ (push state.heap state.curvect _).length
    simp
  found := push_top sane.found _ _

theorem topGrows_multiple (multiple : Multiple) :
    TopGrows state (multipleEffect state multiple) (.multiple state.heap.length) := by
  obtain ⟨heap, _, topvect, _, _⟩ := multipleEffect_eq state multiple
  refine ⟨topvect.trans sane.topvect, ?_, ?_⟩
  · rw [heap, length_multipleHeap]
    omega
  · have old : (alloc state.heap)[0]? = some (topCells state) := by
      rw [getElem?_alloc_of_lt _ sane.allocated, sane.found]
    have distinct : state.heap.length ≠ 0 := Nat.ne_of_gt sane.allocated
    rw [heap, multipleHeap, getElem?_pushAll_of_ne _ distinct]
    exact push_top old _ _

theorem partsEffect_top {parts : List Part} (step : partsEffect state parts = .ok next) :
    next.heap[0]? = some (topCells state) ∧
      state.heap.length ≤ next.heap.length ∧ next.topvect = 0 ∧
      next.intvect ≠ some 0 ∧
      next.intvect.isSome = (state.intvect.isSome || groupHasMultiple parts) := by
  cases parts with
  | nil =>
    cases step
    exact ⟨sane.found, le_rfl, sane.topvect, sane.intvect, (Bool.or_false _).symm⟩
  | cons part rest =>
    have first := step
    rw [partsEffect, nextPart] at first
    split at first
    · rename_i group last
      have valid := sane.groups group (mem_of_getLast? last)
      have inGroup : InGroup state group := ⟨sane.topvect.symm ▸ valid.1, valid.2, last⟩
      obtain ⟨same, ok, frame⟩ := partsEffect_ok (part :: rest) inGroup
      cases ok.symm.trans step
      refine ⟨frame.extend _ _ (Ne.symm valid.1) sane.found, frame.size,
        frame.topvect.trans sane.topvect, ?_⟩
      cases present : groupHasMultiple (part :: rest) with
      | true =>
        obtain ⟨saved, found, distinct⟩ := frame.saved present
        rw [sane.topvect] at distinct
        rw [found, Bool.or_true]
        exact ⟨fun same => distinct (Option.some.inj same), rfl⟩
      | false =>
        rw [frame.kept present, Bool.or_false]
        exact ⟨sane.intvect, rfl⟩
    · cases first

theorem sane_firstPart (first : Part) :
    TopGrows state (partEffect (openKeyword state) first) (.keyword state.heap.length) ∧
      Sane (partEffect (openKeyword state) first) ∧
      (partEffect (openKeyword state) first).intvect.isSome =
        (state.intvect.isSome || first.items.any isMultiple) := by
  have below : (openKeyword state).curvect ≠ (openKeyword state).topvect := by
    change state.heap.length + 1 ≠ state.topvect
    rw [sane.topvect]
    exact Nat.succ_ne_zero _
  have frame := partEffect_frame first (openKeyword state) below
  have size := frame.size
  rw [length_openKeyword] at size
  have opened : (openKeyword state).heap[0]? = some (if state.curvect = 0 then
          topCells state ++ [.keyword state.heap.length]
          else topCells state) := by
    have distinct : state.heap.length ≠ 0 := Nat.ne_of_gt sane.allocated
    refine push_top ?_ _ _
    rw [getElem?_push_of_ne _ distinct, getElem?_alloc_of_lt _ (by simp),
      getElem?_alloc_of_lt _ sane.allocated, sane.found]
  have grows : TopGrows state (partEffect (openKeyword state) first) (.keyword state.heap.length) :=
    { topvect := frame.topvect.trans sane.topvect
      size := by omega
      found := frame.extend _ _ (Nat.succ_ne_zero _).symm opened }
  have intvect := frame.intvect
  change _ = if first.items.any isMultiple
    then some (state.heap.length + 1) else state.intvect at intvect
  refine ⟨grows, grows.sane sane ?_ ?_, ?_⟩
  · rw [intvect]
    split
    · exact fun same => Nat.succ_ne_zero _ (Option.some.inj same)
    · exact sane.intvect
  · intro group same
    cases same
    exact ⟨Nat.ne_of_gt sane.allocated, by omega⟩
  · rw [intvect]
    cases first.items.any isMultiple with
    | true => exact (Bool.or_true _).symm
    | false => exact (Bool.or_false _).symm

theorem sane_keyword {first : Part} {rest : List Part}
    (step : tokenEffect state (.keyword first rest) = .ok next) :
    TopGrows state next (.keyword state.heap.length) ∧ Sane next ∧ next.curvect = 0 ∧
      next.intvect.isSome = (state.intvect.isSome || groupHasMultiple (first :: rest)) := by
  obtain ⟨opened, entered, armed⟩ := sane_firstPart sane first
  cases parts : partsEffect (partEffect (openKeyword state) first) rest with
  | error error =>
    rw [tokenEffect, parts] at step
    cases step
  | ok last =>
    rw [tokenEffect, parts] at step
    cases step
    obtain ⟨found, size, topvect, intvect, armedLast⟩ := partsEffect_top entered parts
    have grows : TopGrows state (closeKeyword last) (.keyword state.heap.length) :=
      { topvect := topvect
        size := opened.size.trans size
        found := by
          rw [topCells_of_found opened.topvect opened.found] at found
          exact found }
    refine ⟨grows, ?_, topvect, ?_⟩
    · refine
        { topvect := topvect
          allocated := Nat.lt_of_lt_of_le entered.allocated size
          intvect := intvect
          groups := ?_ }
      intro group member
      have kept : topCells (closeKeyword last) = topCells (partEffect (openKeyword state) first) :=
        topCells_of_found topvect found
      rw [kept] at member
      exact ⟨(entered.groups group member).1,
        Nat.lt_of_lt_of_le (entered.groups group member).2 size⟩
    · change last.intvect.isSome = _
      rw [armedLast, armed, groupHasMultiple_cons, Bool.or_assoc]

theorem sane_multiple (multiple : Multiple) : Sane (multipleEffect state multiple) := by
  obtain ⟨_, _, _, intvect, _⟩ := multipleEffect_eq state multiple
  refine (topGrows_multiple sane multiple).sane sane ?_ nofun
  rw [intvect, savedVector, sane.topvect]
  split
  · rename_i below
    exact fun same => below (Option.some.inj same)
  · exact sane.intvect

/-- Between tokens the state stays sane; only at the top level does a token
add a cell to it. -/
theorem sane_token {token : Token} (step : tokenEffect state token = .ok next) :
    Sane next ∧ (topCells next).length =
        (topCells state).length + if state.curvect = 0 then 1 else 0 := by
  cases token with
  | terminal word =>
    cases step
    have grows := topGrows_terminal sane word.text
    exact ⟨grows.sane sane sane.intvect nofun, grows.length⟩
  | multiple group =>
    cases step
    exact ⟨sane_multiple sane group, (topGrows_multiple sane group).length⟩
  | keyword first rest =>
    obtain ⟨grows, after, _, _⟩ := sane_keyword sane step
    exact ⟨after, grows.length⟩

/-- Over a whole run the top level grows by at most one cell a token. -/
theorem topCells_length_le (run : tokensEffect state tokens = .ok last) :
    (topCells last).length ≤ (topCells state).length + tokens.length := by
  induction tokens generalizing state with
  | nil =>
    cases run
    exact le_rfl
  | cons token rest ih =>
    obtain ⟨next, step, tail⟩ := tokensEffect_cons run
    obtain ⟨after, length⟩ := sane_token sane step
    have bound := ih after tail
    rw [length_cons]
    split at length <;> omega

end

/-! ## The lost token -/

/-- Some multiple at the top level is not the last token. -/
def FollowedMultiple (tokens : List Token) : Prop :=
  ∃ before group next after, tokens = before ++ .multiple group :: next :: after

/-- After a keyword group that contains a multiple, some multiple at the top
level is not the last token. -/
def MisplacesToken (tokens : List Token) : Prop :=
  ∃ before first rest after, tokens = before ++ .keyword first rest :: after ∧
      groupHasMultiple (first :: rest) ∧ FollowedMultiple after

/-- The same, where a vector may already be saved in `intvect`. -/
def MisplacesFrom (armed : Bool) (tokens : List Token) : Prop :=
  (armed ∧ FollowedMultiple tokens) ∨ MisplacesToken tokens

theorem followedMultiple_cons (token : Token) (rest : List Token) :
    FollowedMultiple (token :: rest) ↔ ((∃ group, token = .multiple group) ∧ rest ≠ []) ∨
        FollowedMultiple rest := by
  constructor
  · rintro ⟨before, group, next, after, equal⟩
    cases before with
    | nil =>
      cases equal
      exact .inl ⟨⟨group, rfl⟩, cons_ne_nil _ _⟩
    | cons head tail =>
      cases equal
      exact .inr ⟨tail, group, next, after, rfl⟩
  · rintro (⟨⟨group, rfl⟩, nonempty⟩ | ⟨before, group, next, after, rfl⟩)
    · obtain ⟨next, after, rfl⟩ := exists_cons_of_ne_nil nonempty
      exact ⟨[], group, next, after, rfl⟩
    · exact ⟨token :: before, group, next, after, rfl⟩

theorem keywordMultiple_cons (later : List Token → Prop) (token : Token) (rest : List Token) :
    (∃ before first parts after, token :: rest = before ++ .keyword first parts :: after ∧
        groupHasMultiple (first :: parts) ∧ later after) ↔
      (∃ first parts, token = .keyword first parts ∧ groupHasMultiple (first :: parts) ∧
        later rest) ∨ ∃ before first parts after, rest = before ++ .keyword first parts :: after ∧
          groupHasMultiple (first :: parts) ∧ later after := by
  constructor
  · rintro ⟨before, first, parts, after, equal, found⟩
    cases before with
    | nil =>
      cases equal
      exact .inl ⟨first, parts, rfl, found⟩
    | cons head tail =>
      cases equal
      exact .inr ⟨tail, first, parts, after, rfl, found⟩
  · rintro (⟨first, parts, rfl, found⟩ | ⟨before, first, parts, after, rfl, found⟩)
    · exact ⟨[], first, parts, rest, rfl, found⟩
    · exact ⟨token :: before, first, parts, after, rfl, found⟩

theorem misplacesToken_cons (token : Token) (rest : List Token) : MisplacesToken (token :: rest) ↔
      (∃ first parts, token = .keyword first parts ∧ groupHasMultiple (first :: parts) ∧
        FollowedMultiple rest) ∨
        MisplacesToken rest :=
  keywordMultiple_cons FollowedMultiple token rest

theorem misplacesFrom_nil (armed : Bool) : ¬ MisplacesFrom armed [] := by
  simp [MisplacesFrom, FollowedMultiple, MisplacesToken]

theorem misplacesFrom_terminal (armed : Bool) (word : Grammar.Terminal) (rest : List Token) :
    MisplacesFrom armed (.terminal word :: rest) ↔ MisplacesFrom armed rest := by
  simp [MisplacesFrom, followedMultiple_cons, misplacesToken_cons]

theorem misplacesFrom_multiple (armed : Bool) (group : Multiple) (rest : List Token) :
    MisplacesFrom armed (.multiple group :: rest) ↔
      (armed ∧ rest ≠ []) ∨ MisplacesFrom armed rest := by
  simp [MisplacesFrom, followedMultiple_cons, misplacesToken_cons, and_or_left, or_assoc]

theorem misplacesFrom_keyword (armed : Bool) (first : Part)
    (parts : List Part) (rest : List Token) :
    MisplacesFrom armed (.keyword first parts :: rest) ↔
      MisplacesFrom (armed || groupHasMultiple (first :: parts)) rest := by
  simp [MisplacesFrom, followedMultiple_cons, misplacesToken_cons, or_and_right, or_assoc]

/-- A state at the top level, with `intvect` saved or not. -/
structure AtTop (state : FormatParserState) (armed : Bool) : Prop where
  sane : Sane state
  curvect : state.curvect = 0
  armed : state.intvect.isSome = armed

theorem AtTop.multiple {state : FormatParserState} {armed : Bool} (atTop : AtTop state armed)
    (group : Multiple) :
    (multipleEffect state group).intvect = state.intvect ∧
      ((multipleEffect state group).curvect = 0 ↔ armed = false) := by
  obtain ⟨_, _, _, intvect, curvect⟩ := multipleEffect_eq state group
  have saved : savedVector state = state.intvect := by
    simp [savedVector, atTop.curvect, atTop.sane.topvect]
  rw [saved] at intvect curvect
  refine ⟨intvect, ?_⟩
  rw [curvect, atTop.sane.topvect, ← atTop.armed]
  cases found : state.intvect with
  | none => simp
  | some vector =>
    have distinct : vector ≠ 0 := fun same => atTop.sane.intvect (found.trans (congrArg some same))
    simpa using distinct

theorem AtTop.token (atTop : AtTop state armed) {token : Token}
    (step : tokenEffect state token = .ok next) :
    (∃ after, AtTop next after ∧ (MisplacesFrom armed (token :: rest) ↔ MisplacesFrom after rest)) ∨
      (next.curvect ≠ 0 ∧ (MisplacesFrom armed (token :: rest) ↔ rest ≠ [])) := by
  have sane := (sane_token atTop.sane step).1
  cases token with
  | terminal word =>
    cases step
    exact .inl ⟨armed, ⟨sane, atTop.curvect, atTop.armed⟩, misplacesFrom_terminal armed word rest⟩
  | multiple group =>
    cases step
    obtain ⟨intvect, top⟩ := atTop.multiple group
    cases armed with
    | false =>
      refine .inl ⟨false, ⟨sane, top.mpr rfl, ?_⟩, ?_⟩
      · rw [intvect, atTop.armed]
      · simp [misplacesFrom_multiple]
    | true =>
      refine .inr ⟨fun curvect => Bool.noConfusion (top.mp curvect), ?_⟩
      rw [misplacesFrom_multiple]
      constructor
      · rintro (⟨_, nonempty⟩ | later) rfl
        · exact nonempty rfl
        · exact misplacesFrom_nil true later
      · exact fun nonempty => .inl ⟨rfl, nonempty⟩
  | keyword first parts =>
    obtain ⟨_, _, curvect, armedNext⟩ := sane_keyword atTop.sane step
    refine .inl ⟨_, ⟨sane, curvect, armedNext⟩, ?_⟩
    rw [atTop.armed]
    exact misplacesFrom_keyword armed first parts rest

theorem topCells_length_lt_of_stale (sane : Sane state) (stale : state.curvect ≠ 0)
    (nonempty : tokens ≠ []) (run : tokensEffect state tokens = .ok last) :
    (topCells last).length < (topCells state).length + tokens.length := by
  obtain ⟨token, rest, rfl⟩ := exists_cons_of_ne_nil nonempty
  obtain ⟨next, step, tail⟩ := tokensEffect_cons run
  obtain ⟨after, length⟩ := sane_token sane step
  rw [if_neg stale] at length
  have bound := topCells_length_le after tail
  rw [length_cons]
  omega

/-- A format that misplaces a token leaves the top level too short. -/
theorem topCells_length_lt (atTop : AtTop state armed) (misplaces : MisplacesFrom armed tokens)
    (run : tokensEffect state tokens = .ok last) :
    (topCells last).length < (topCells state).length + tokens.length := by
  induction tokens generalizing state armed with
  | nil => exact absurd misplaces (misplacesFrom_nil armed)
  | cons token rest ih =>
    obtain ⟨next, step, tail⟩ := tokensEffect_cons run
    obtain ⟨sane, length⟩ := sane_token atTop.sane step
    rw [if_pos atTop.curvect] at length
    rw [length_cons]
    rcases atTop.token step with ⟨after, top, same⟩ | ⟨stale, same⟩
    · have short := ih top (same.mp misplaces) tail
      omega
    · have short := topCells_length_lt_of_stale sane stale (same.mp misplaces) tail
      omega

/-! ## The faithful part -/

/-- The top level vector represents these tokens. -/
structure Represents (state : FormatParserState) (done : List CmdToken) : Prop where
  sane : Sane state
  reps : List.Forall₂ (RepToken state.heap 1) (topCells state) done

theorem Represents.grow {token : CmdToken} (represents : Represents state done)
    (top : state.curvect = 0) (sane : Sane next) (grows : TopGrows state next cell)
    (extend : ExtendsExcept state.curvect state.heap next.heap)
    (rep : RepToken next.heap 1 cell token) : Represents next (done ++ [token]) where
  sane := sane
  reps := by
    have cells := topCells_of_found grows.topvect grows.found
    rw [if_pos top] at cells
    rw [top] at extend
    rw [cells]
    refine rel_append ?_ (.cons rep .nil)
    exact represents.reps.imp fun _ _ rep => rep.extend extend Nat.zero_lt_one

theorem openKeyword_extends : ExtendsExcept state.curvect state.heap (openKeyword state).heap := by
  have allocated := (extendsExcept_alloc state.curvect state.heap).trans
      (extendsExcept_alloc state.curvect (alloc state.heap))
  have part := allocated.trans_fresh (extendsExcept_push _ state.heap.length
      (.part (state.heap.length + 1))) le_rfl
  exact part.trans (extendsExcept_push _ _ _)

section

variable (sane : Sane state) (top : state.curvect = 0)
include sane top

theorem openKeyword_group :
    (openKeyword state).heap[state.heap.length]? = some [.part (state.heap.length + 1)] := by
  have distinct : state.curvect ≠ state.heap.length := by
    rw [top]
    exact Nat.ne_of_lt sane.allocated
  have fresh : (alloc (alloc state.heap))[state.heap.length]? = some [] := by
    rw [getElem?_alloc_of_lt _ (by simp), getElem?_alloc_self]
  change (push (push _ _ _) _ _)[state.heap.length]? = _
  rw [getElem?_push_of_ne _ distinct]
  exact getElem?_push_self fresh _

theorem openKeyword_partStart :
    PartStart (openKeyword state) where
  fresh := by
    have distinct : state.curvect ≠ state.heap.length + 1 := by
      rw [top]
      exact (Nat.succ_ne_zero _).symm
    have second : state.heap.length ≠ state.heap.length + 1 := Nat.ne_of_lt (Nat.lt_succ_self _)
    change (push (push _ _ _) _ _)[state.heap.length + 1]? = _
    rw [getElem?_push_of_ne _ distinct, getElem?_push_of_ne _ second]
    have fresh := getElem?_alloc_self (alloc state.heap)
    rw [length_alloc] at fresh
    exact fresh
  below := by
    change state.heap.length + 1 ≠ state.topvect
    rw [sane.topvect]
    exact Nat.succ_ne_zero _

theorem inGroup_firstPart (first : Part) :
    InGroup (partEffect (openKeyword state) first) state.heap.length := by
  obtain ⟨grows, entered, _⟩ := sane_firstPart sane first
  have cells := topCells_of_found grows.topvect grows.found
  rw [if_pos top] at cells
  have last : .keyword state.heap.length ∈ topCells (partEffect (openKeyword state) first) := by
    rw [cells]
    exact mem_append_right _ (mem_singleton_self _)
  have valid := entered.groups _ last
  refine ⟨entered.topvect.symm ▸ valid.1, valid.2, ?_⟩
  change (topCells _).getLast? = _
  rw [cells]
  exact getLast?_concat

end

theorem Represents.keyword {done : List CmdToken} (represents : Represents state done)
    (top : state.curvect = 0) (first : Part) (rest : List Part) :
    ∃ next, tokenEffect state (.keyword first rest) = .ok next ∧ Represents next
        (done ++ [((Token.keyword first rest).cmdToken (help state)).1]) ∧
      help next = ((Token.keyword first rest).cmdToken (help state)).2 := by
  have sane := represents.sane
  have start := openKeyword_partStart sane top
  have inGroup := inGroup_firstPart sane top first
  have firstFrame := partEffect_frame first (openKeyword state) start.below
  obtain ⟨firstHelp, firstRep⟩ := partEffect_rep first (openKeyword state) start
      (le_refl (state.heap.length + 1))
  have group : (partEffect (openKeyword state) first).heap[state.heap.length]? =
        some [.part (state.heap.length + 1)] :=
    firstFrame.extend _ _ (Nat.ne_of_lt (Nat.lt_succ_self _)) (openKeyword_group sane top)
  obtain ⟨last, parts, frame⟩ := partsEffect_ok rest inGroup
  obtain ⟨lastHelp, new, found, reps⟩ := partsEffect_reps rest inGroup parts group
  rw [firstHelp] at lastHelp reps
  have step : tokenEffect state (.keyword first rest) = .ok (closeKeyword last) := by
    rw [tokenEffect, parts]
    rfl
  obtain ⟨grows, after, _, _⟩ := sane_keyword sane step
  have extend : ExtendsExcept state.curvect state.heap last.heap :=
    (openKeyword_extends.trans_fresh firstFrame.extend
      (Nat.le_succ _)).trans_fresh frame.extend le_rfl
  have allReps : List.Forall₂ (RepPart last.heap (state.heap.length + 1))
        (.part (state.heap.length + 1) :: new)
        (tokenParts (first :: rest) (help state)).1 :=
    .cons (firstRep.extend frame.extend (Nat.lt_succ_self _)) reps
  refine ⟨closeKeyword last, step, ?_, lastHelp⟩
  refine represents.grow top after grows extend ?_
  exact .keyword sane.allocated found
    (allReps.imp fun _ _ rep => rep.lower (Nat.succ_le_succ (Nat.zero_le _)))

theorem Represents.token (represents : Represents state done) (top : state.curvect = 0)
    (token : Token) :
    ∃ next, tokenEffect state token = .ok next ∧
      Represents next (done ++ [(token.cmdToken (help state)).1]) ∧
      help next = (token.cmdToken (help state)).2 := by
  have sane := represents.sane
  cases token with
  | terminal word =>
    have grows := topGrows_terminal sane word.text
    refine ⟨wordEffect state word.text, rfl, ?_, rfl⟩
    exact represents.grow top (grows.sane sane sane.intvect nofun) grows
      (extendsExcept_push _ _ _) (.terminal _)
  | multiple group =>
    obtain ⟨heap, helped, _, _, _⟩ := multipleEffect_eq state group
    have old : state.curvect < state.heap.length := by
      rw [top]
      exact sane.allocated
    have extend := multipleHeap_extends state.heap state.curvect (group.terminals (help state)).1
    rw [← heap] at extend
    have rep := multipleHeap_rep (group.terminals (help state)).1 old
      (Nat.succ_le_of_lt sane.allocated)
    rw [← heap] at rep
    exact ⟨multipleEffect state group, rfl, represents.grow top (sane_multiple sane group)
        (topGrows_multiple sane group) extend (.multiple rep), helped⟩
  | keyword first rest => exact represents.keyword top first rest

/-- A format that misplaces no token is represented at the top level. -/
theorem represents_tokens (represents : Represents state done) (atTop : AtTop state armed)
    (places : ¬ MisplacesFrom armed tokens) :
    ∃ last, tokensEffect state tokens = .ok last ∧
      Represents last (done ++ (cmdTokens tokens (help state)).1) := by
  induction tokens generalizing state done armed with
  | nil =>
    refine ⟨state, rfl, ?_⟩
    rw [cmdTokens, append_nil]
    exact represents
  | cons token rest ih =>
    obtain ⟨next, step, after, helped⟩ := represents.token atTop.curvect token
    rw [cmdTokens, ← helped, append_cons]
    have run (last : FormatParserState) (tail : tokensEffect next rest = .ok last) :
        tokensEffect state (token :: rest) = .ok last := by
      rw [tokensEffect, step]
      exact tail
    rcases atTop.token step with ⟨armedNext, top, same⟩ | ⟨_, same⟩
    · obtain ⟨last, tail, final⟩ := ih after top (fun misplaces => places (same.mpr misplaces))
      exact ⟨last, run last tail, final⟩
    · have nothing : rest = [] := by
        by_contra nonempty
        exact places (same.mpr nonempty)
      subst nothing
      refine ⟨next, run next rfl, ?_⟩
      rw [cmdTokens, append_nil]
      exact after

/-! ## Command strings -/

/-- `cmd_parse_format` returns the token tree of the derivation. -/
def ParsesAsDerived (cmdstr : CmdStr) (descstr dynCbStr : Option CStr) : Prop :=
  ∃ vector, cmdParseFormat cmdstr.text descstr dynCbStr = .ok vector ∧
    vector.tokens = some (cmdstr.tokens descstr dynCbStr)

theorem length_cmdTokens (tokens : List Token) (help : Help) :
    (cmdTokens tokens help).1.length = tokens.length := by
  induction tokens generalizing help with
  | nil => rfl
  | cons token rest ih =>
    exact congrArg Nat.succ (ih (token.cmdToken help).2)

theorem length_of_tokens {vector : TokenVector} {tokens : List CmdToken}
    (read : vector.tokens = some tokens) :
    tokens.length = (vector.heap.getD vector.vector []).length := by
  obtain ⟨cells, found, values⟩ := Option.bind_eq_some_iff.mp read
  rw [getD_eq_getElem?_getD, found]
  exact mapM_length values

section

variable (cmdstr : CmdStr) (descstr dynCbStr : Option CStr)

theorem sane_init : Sane (formatParserInit cmdstr.text descstr dynCbStr) where
  topvect := rfl
  allocated := Nat.zero_lt_one
  intvect := nofun
  groups := fun _ member => nomatch member

theorem atTop_init : AtTop (formatParserInit cmdstr.text descstr dynCbStr) false :=
  ⟨sane_init cmdstr descstr dynCbStr, rfl, rfl⟩

/-- A format is parsed as derived exactly when no multiple at the top level
stands between a keyword group that contains a multiple and a later token. -/
theorem cmdParseFormat_derivation_iff :
    ParsesAsDerived cmdstr descstr dynCbStr ↔ ¬ MisplacesToken cmdstr.all := by
  have atTop := atTop_init cmdstr descstr dynCbStr
  have text := cmdParseFormat_text cmdstr descstr dynCbStr
  constructor
  · rintro ⟨vector, parsed, tokens⟩ misplaces
    cases run : tokensEffect (formatParserInit cmdstr.text descstr dynCbStr) cmdstr.all with
    | error error =>
      rw [text, run] at parsed
      cases parsed
    | ok last =>
      rw [text, run] at parsed
      cases parsed
      have short := topCells_length_lt atTop (.inr misplaces) run
      have long := length_of_tokens tokens
      rw [CmdStr.tokens, length_cmdTokens] at long
      change (topCells last).length < 0 + cmdstr.all.length at short
      change cmdstr.all.length = (topCells last).length at long
      omega
  · intro places
    have placesFrom : ¬ MisplacesFrom false cmdstr.all := by
      simpa [MisplacesFrom] using places
    have represents : Represents (formatParserInit cmdstr.text descstr dynCbStr) [] :=
      ⟨atTop.sane, .nil⟩
    obtain ⟨last, run, final⟩ := represents_tokens represents atTop placesFrom
    refine ⟨⟨last.heap, last.topvect⟩, ?_, ?_⟩
    · rw [text, run]
      rfl
    · rw [TokenVector.tokens, final.sane.topvect, final.sane.found]
      exact mapM_of_forall₂ (fun _ _ rep => RepToken.read rep) final.reps

end

def fixedToken (text : CStr) (valid : isFixedString text) : Token :=
  .terminal (.fixed (.fixedString ⟨text, valid⟩))

def choice (left right : CStr) (validLeft : isFixedString left)
    (validRight : isFixedString right) : Multiple :=
  .alternatives (.fixedString ⟨left, validLeft⟩) [.fixedString ⟨right, validRight⟩]

/-- The format `a {k (x|y)} (c|d) e`, whose last word is misplaced. -/
def misplacingFormat : CmdStr where
  first := fixedToken "a" (Eq.refl true)
  rest :=
    [.keyword ⟨⟨"k", Eq.refl true⟩, [.multiple (choice "x" "y" (Eq.refl true) (Eq.refl true))]⟩ [],
      .multiple (choice "c" "d" (Eq.refl true) (Eq.refl true)),
      fixedToken "e" (Eq.refl true)]

/-- The word `e` is an argument of `k` instead of the fourth token. -/
theorem misplacingFormat_not_derived : misplacingFormat.text = "a \x7bk (x|y)\x7d (c|d) e" ∧
      ¬ ParsesAsDerived misplacingFormat none none := by
  refine ⟨by decide, ?_⟩
  rintro ⟨vector, parsed, tokens⟩
  have evaluated : (cmdParseFormat misplacingFormat.text none none).toOption.bind
          TokenVector.tokens ≠
        some (misplacingFormat.tokens none none) := by
    decide
  rw [parsed] at evaluated
  exact evaluated tokens

end OpsCli.Command.Format.Misplacement
