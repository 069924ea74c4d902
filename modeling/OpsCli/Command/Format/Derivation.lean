import Mathlib.Data.List.Forall2
import OpsCli.Command.Format.Effects

/-!
# Parsed formats and their derivations

The vectors built for a command string are compared with the token tree of
its derivation.  As long as the saved vector `intvect` is not used at the top
level, every token ends up where the derivation has it.  The parser never
clears `intvect`, so a multiple at the top level, after a keyword group that
contains a multiple, sends the next token into that group.
-/

namespace OpsCli.Command.Format.Derivation

open CLib CString VectorHeap Token Format.Parser Grammar Effects List

/-! ## Vectors that represent a token tree -/

/-- A vector, not before `low`, holds exactly these terminals. -/
structure RepTerminals (heap : Heap Cell) (low vector : Nat)
    (tokens : List Token.Terminal) : Prop where
  bound : low ≤ vector
  found : heap[vector]? = some (tokens.map Cell.terminal)

/-- A cell represents an argument of a keyword part. -/
inductive RepArg (heap : Heap Cell) (low : Nat) : Cell → KeywordArg → Prop where
  | terminal (token : Token.Terminal) : RepArg heap low (.terminal token) (.terminal token)
  | multiple {vector : Nat} {tokens : List Token.Terminal}
      (rep : RepTerminals heap low vector tokens) :
      RepArg heap low (.multiple vector) (.multiple tokens)

inductive RepPart (heap : Heap Cell) (low : Nat) : Cell → KeywordPart → Prop where
  | part {vector : Nat} {cells : List Cell} {keyword : Token.Terminal}
      {args : List KeywordArg} (bound : low ≤ vector)
      (found : heap[vector]? = some (.terminal keyword :: cells))
      (reps : List.Forall₂ (RepArg heap low) cells args) :
      RepPart heap low (.part vector) ⟨keyword, args⟩

inductive RepToken (heap : Heap Cell) (low : Nat) : Cell → CmdToken → Prop where
  | terminal (token : Token.Terminal) : RepToken heap low (.terminal token) (.terminal token)
  | multiple {vector : Nat} {tokens : List Token.Terminal}
      (rep : RepTerminals heap low vector tokens) :
      RepToken heap low (.multiple vector) (.multiple tokens)
  | keyword {vector : Nat} {cells : List Cell} {parts : List KeywordPart}
      (bound : low ≤ vector) (found : heap[vector]? = some cells)
      (reps : List.Forall₂ (RepPart heap low) cells parts) :
      RepToken heap low (.keyword vector) (.keyword parts)

section

variable {heap later : Heap Cell} {low changed : Nat} {tokens : List Token.Terminal}
  {next : FormatParserState} {token : CmdToken} {vector : Nat}

variable {cell : Cell} {arg : KeywordArg} {part : KeywordPart}

section

variable (grows : ExtendsExcept changed heap later) (below : changed < low)
include grows below

theorem RepTerminals.extend (rep : RepTerminals heap low vector tokens) :
    RepTerminals later low vector tokens where
  bound := rep.bound
  found := by
    have bound := rep.bound
    exact grows vector _ (by omega) rep.found

theorem RepArg.extend (rep : RepArg heap low cell arg) : RepArg later low cell arg := by
  cases rep with
  | terminal token => exact .terminal token
  | multiple rep => exact .multiple (rep.extend grows below)

theorem RepPart.extend (rep : RepPart heap low cell part) : RepPart later low cell part := by
  cases rep with
  | part bound found reps =>
    refine .part bound (grows _ _ (by omega) found) ?_
    exact reps.imp fun _ _ rep => rep.extend grows below

theorem RepToken.extend (rep : RepToken heap low cell token) : RepToken later low cell token := by
  cases rep with
  | terminal token => exact .terminal token
  | multiple rep => exact .multiple (rep.extend grows below)
  | keyword bound found reps =>
    refine .keyword bound (grows _ _ (by omega) found) ?_
    exact reps.imp fun _ _ rep => rep.extend grows below

end

theorem RepArg.lower {lower : Nat} (rep : RepArg heap low cell arg) (below : lower ≤ low) :
    RepArg heap lower cell arg := by
  cases rep with
  | terminal token => exact .terminal token
  | multiple rep => exact .multiple ⟨below.trans rep.bound, rep.found⟩

theorem RepPart.lower {lower : Nat} (rep : RepPart heap low cell part) (below : lower ≤ low) :
    RepPart heap lower cell part := by
  cases rep with
  | part bound found reps =>
    exact .part (below.trans bound) found (reps.imp fun _ _ rep => rep.lower below)

end

/-! ## Reading a representation back -/

variable {α β : Type} {cells : List α} {values : List β} {heap : Heap Cell} {low group : Nat}
  {cell : Cell} {state next : FormatParserState} {vector : Nat} {tokens : List Token.Terminal}

theorem mapM_of_forall₂ {relation : α → β → Prop} {read : α → Option β}
    (reads : ∀ cell value, relation cell value → read cell = some value)
    (reps : List.Forall₂ relation cells values) : cells.mapM read = some values := by
  induction reps with
  | nil => rfl
  | cons rep _ ih => simp [reads _ _ rep, ih]

theorem mapM_length {read : α → Option β} (result : cells.mapM read = some values) :
    values.length = cells.length := by
  induction cells generalizing values with
  | nil =>
    simp only [mapM_nil, Option.pure_def, Option.some.injEq] at result
    simp [← result]
  | cons cell rest ih =>
    simp only [mapM_cons, Option.pure_def, Option.bind_eq_bind, Option.bind_eq_some_iff,
      Option.some.injEq] at result
    obtain ⟨value, _, tail, tailResult, rfl⟩ := result
    simp [ih tailResult]

theorem RepTerminals.read (rep : RepTerminals heap low vector tokens) :
    readTerminals heap vector = some tokens := by
  rw [readTerminals, rep.found]
  have cells : List.Forall₂ (fun cell token => Cell.terminal? cell = some token)
        (tokens.map Cell.terminal) tokens :=
    List.forall₂_map_left_iff.mpr (List.forall₂_same.mpr fun _ _ => rfl)
  exact mapM_of_forall₂ (fun _ _ read => read) cells

theorem RepArg.read {arg : KeywordArg} (rep : RepArg heap low cell arg) :
    readKeywordArg heap cell = some arg := by
  cases rep with
  | terminal token => rfl
  | multiple rep => simp [readKeywordArg, rep.read]

theorem RepPart.read {part : KeywordPart} (rep : RepPart heap low cell part) :
    readKeywordPart heap cell = some part := by
  cases rep with
  | part bound found reps =>
    have args := mapM_of_forall₂ (fun _ _ rep => RepArg.read rep) reps
    simp [readKeywordPart, found, args]

theorem RepToken.read (rep : RepToken heap low cell token) : readToken heap cell = some token := by
  cases rep with
  | terminal token => rfl
  | multiple rep => simp [readToken, rep.read]
  | keyword bound found reps =>
    have parts := mapM_of_forall₂ (fun _ _ rep => RepPart.read rep) reps
    simp [readToken, found, parts]

/-! ## What the effects do to the heap -/

theorem alternativesEffect_eq (state : FormatParserState) (words : List CStr)
    (read : state.justReadWord) :
    let next := alternativesEffect state words
    let tokens := terminals words (help state)
    next.heap = pushAll state.heap state.curvect (tokens.1.map Cell.terminal) ∧
      help next = tokens.2 ∧ next.justReadWord ∧
      next.topvect = state.topvect ∧ next.intvect = state.intvect := by
  induction words generalizing state with
  | nil => exact ⟨rfl, rfl, read, rfl, rfl⟩
  | cons word rest ih =>
    exact ih (wordEffect (nextAlternative state) word) rfl

def savedVector (state : FormatParserState) : Option Nat :=
  if state.curvect ≠ state.topvect then some state.curvect
  else state.intvect

def multipleHeap (heap : Heap Cell) (vector : Nat) (tokens : List Token.Terminal) : Heap Cell :=
  pushAll (push (alloc heap) vector (.multiple heap.length)) heap.length (tokens.map Cell.terminal)

theorem multipleEffect_eq (state : FormatParserState) (multiple : Multiple) :
    let next := multipleEffect state multiple
    let tokens := multiple.terminals (help state)
    next.heap = multipleHeap state.heap state.curvect tokens.1 ∧ help next = tokens.2 ∧
      next.topvect = state.topvect ∧
      next.intvect = savedVector state ∧
      next.curvect = (savedVector state).getD state.topvect := by
  cases multiple with
  | trailing alternative => exact ⟨rfl, rfl, rfl, rfl, rfl⟩
  | alternatives first rest =>
    obtain ⟨heap, help', read, topvect, intvect⟩ :=
      alternativesEffect_eq (wordEffect (openMultiple state) first.text)
        (rest.map TerminalFixed.text) rfl
    refine ⟨heap, ?_, topvect, intvect, ?_⟩
    · refine Eq.trans ?_ help'
      simp [multipleEffect, closeMultiple, help, read]
    · change (alternativesEffect _ _).intvect.getD (alternativesEffect _ _).topvect = _
      rw [intvect, topvect]
      rfl

section

variable (heap : Heap Cell) (vector : Nat) (tokens : List Token.Terminal)

@[simp]
theorem length_multipleHeap : (multipleHeap heap vector tokens).length = heap.length + 1 := by
  simp [multipleHeap]

theorem multipleHeap_extends : ExtendsExcept vector heap (multipleHeap heap vector tokens) := by
  have allocated := extendsExcept_alloc vector heap
  have pushed := extendsExcept_push (alloc heap) vector (.multiple heap.length)
  exact (allocated.trans pushed).trans_fresh (extendsExcept_pushAll _ heap.length _) le_rfl

variable {heap vector}

theorem multipleHeap_self {cells : List Cell} (found : heap[vector]? = some cells) :
    (multipleHeap heap vector tokens)[vector]? = some (cells ++ [.multiple heap.length]) := by
  have old : vector < heap.length := (List.getElem?_eq_some_iff.mp found).choose
  have pushed : (push (alloc heap) vector (.multiple heap.length))[vector]? =
        some (cells ++ [.multiple heap.length]) :=
    getElem?_push_self (by rw [getElem?_alloc_of_lt heap old, found]) _
  rw [multipleHeap, getElem?_pushAll_of_ne _ (by omega), pushed]

theorem multipleHeap_rep {low : Nat} (old : vector < heap.length) (below : low ≤ heap.length) :
    RepTerminals (multipleHeap heap vector tokens) low heap.length tokens where
  bound := below
  found := by
    have fresh : (push (alloc heap) vector (.multiple heap.length))[heap.length]? = some [] := by
      rw [getElem?_push_of_ne _ (by omega), getElem?_alloc_self]
    simpa [multipleHeap] using getElem?_pushAll_self fresh (tokens.map Cell.terminal)

end

/-! ## Keyword parts -/

/-- Whether an item of a keyword part is a multiple. -/
def isMultiple : PartItem → Bool
  | .terminal _ => false
  | .multiple _ => true

/-- What reading items leaves alone, in any vector but the top level one. -/
structure ItemsFrame (state next : FormatParserState) (items : List PartItem) : Prop where
  topvect : next.topvect = state.topvect
  curvect : next.curvect = state.curvect
  intvect : next.intvect = if items.any isMultiple then some state.curvect else state.intvect
  extend : ExtendsExcept state.curvect state.heap next.heap
  size : state.heap.length ≤ next.heap.length

theorem itemEffect_frame (state : FormatParserState) (item : PartItem)
    (below : state.curvect ≠ state.topvect) : ItemsFrame state (itemEffect state item) [item] := by
  cases item with
  | terminal word =>
    exact
      { topvect := rfl
        curvect := rfl
        intvect := rfl
        extend := extendsExcept_push _ _ _
        size := by
          change _ ≤ (push state.heap state.curvect _).length
          simp }
  | multiple group =>
    obtain ⟨heap, _, topvect, intvect, curvect⟩ := multipleEffect_eq state group
    have saved : savedVector state = some state.curvect := by
      simp [savedVector, below]
    refine
      { topvect := topvect
        curvect := by
          rw [saved] at curvect
          exact curvect
        intvect := by
          rw [saved] at intvect
          exact intvect
        extend := ?_
        size := ?_ }
    · change ExtendsExcept _ _ (multipleEffect state group).heap
      rw [heap]
      exact multipleHeap_extends _ _ _
    · change _ ≤ (multipleEffect state group).heap.length
      rw [heap, length_multipleHeap]
      omega

theorem itemsEffect_frame (items : List PartItem) (state : FormatParserState)
    (below : state.curvect ≠ state.topvect) : ItemsFrame state (itemsEffect state items) items := by
  induction items generalizing state with
  | nil =>
    exact
      { topvect := rfl
        curvect := rfl
        intvect := rfl
        extend := ExtendsExcept.refl _ _
        size := le_rfl }
  | cons item rest ih =>
    have head := itemEffect_frame state item below
    have tail := ih (itemEffect state item) (by rw [head.curvect, head.topvect]; exact below)
    refine
      { topvect := tail.topvect.trans head.topvect
        curvect := tail.curvect.trans head.curvect
        intvect := ?_
        extend := ?_
        size := head.size.trans tail.size }
    · change (itemsEffect (itemEffect state item) rest).intvect = _
      rw [tail.intvect, head.intvect, head.curvect]
      cases item with
      | terminal word => rfl
      | multiple group => exact ite_self _
    · have after := tail.extend
      rw [head.curvect] at after
      exact head.extend.trans after

theorem itemsEffect_reps (items : List PartItem) (state : FormatParserState)
    (below : state.curvect ≠ state.topvect) {cells : List Cell}
    (found : state.heap[state.curvect]? = some cells) :
    help (itemsEffect state items) = (itemArgs items (help state)).2 ∧ ∃ new,
        (itemsEffect state items).heap[state.curvect]? = some (cells ++ new) ∧ List.Forall₂
            (RepArg (itemsEffect state items).heap state.heap.length) new
            (itemArgs items (help state)).1 := by
  induction items generalizing state cells with
  | nil => exact ⟨rfl, [], by rw [append_nil]; exact found, .nil⟩
  | cons item rest ih =>
    have old : state.curvect < state.heap.length := (List.getElem?_eq_some_iff.mp found).choose
    have head := itemEffect_frame state item below
    have below' : (itemEffect state item).curvect ≠ (itemEffect state item).topvect := by
      rw [head.curvect, head.topvect]
      exact below
    have tailExtend := (itemsEffect_frame rest (itemEffect state item) below').extend
    rw [head.curvect] at tailExtend
    cases item with
    | terminal word =>
      have pushed : (itemEffect state (.terminal word)).heap[state.curvect]? =
            some (cells ++ [.terminal ((help state).terminal word.text)]) :=
        getElem?_push_self found _
      obtain ⟨helped, new, grown, reps⟩ := ih _ below' pushed
      refine ⟨helped, .terminal ((help state).terminal word.text) :: new, ?_, ?_⟩
      · rw [append_assoc] at grown
        exact grown
      · refine .cons (.terminal _) (reps.imp fun _ _ rep => ?_)
        exact rep.lower head.size
    | multiple group =>
      obtain ⟨heap, helped', _, _, _⟩ := multipleEffect_eq state group
      have pushed : (itemEffect state (.multiple group)).heap[state.curvect]? =
            some (cells ++ [.multiple state.heap.length]) := by
        change (multipleEffect state group).heap[state.curvect]? = _
        rw [heap]
        exact multipleHeap_self _ found
      have alternatives : RepTerminals (itemEffect state (.multiple group)).heap
            state.heap.length state.heap.length
            (group.terminals (help state)).1 := by
        change RepTerminals (multipleEffect state group).heap _ _ _
        rw [heap]
        exact multipleHeap_rep _ old le_rfl
      have grownFrom := ih (itemEffect state (.multiple group))
        below' (by rw [head.curvect]; exact pushed)
      rw [head.curvect] at grownFrom
      obtain ⟨helped, new, grown, reps⟩ := grownFrom
      have nextHelp : help (itemEffect state (.multiple group)) =
            (group.terminals (help state)).2 :=
        helped'
      rw [nextHelp] at helped reps
      refine ⟨helped, .multiple state.heap.length :: new, ?_, ?_⟩
      · rw [append_assoc] at grown
        exact grown
      · refine .cons (.multiple (alternatives.extend tailExtend old)) ?_
        exact reps.imp fun _ _ rep => rep.lower head.size

/-- The parser is at the start of a new part, in a vector of its own. -/
structure PartStart (state : FormatParserState) : Prop where
  fresh : state.heap[state.curvect]? = some []
  below : state.curvect ≠ state.topvect

theorem partEffect_rep (part : Part) (state : FormatParserState) (start : PartStart state)
    (bound : low ≤ state.curvect) :
    help (partEffect state part) = (part.tokenPart (help state)).2 ∧
      RepPart (partEffect state part).heap low (.part state.curvect)
        (part.tokenPart (help state)).1 := by
  have old : state.curvect < state.heap.length := (List.getElem?_eq_some_iff.mp start.fresh).choose
  have keyword : (wordEffect state part.keyword.text).heap[state.curvect]? =
        some [.terminal ((help state).terminal part.keyword.text)] :=
    getElem?_push_self start.fresh _
  obtain ⟨helped, new, grown, reps⟩ :=
    itemsEffect_reps part.items (wordEffect state part.keyword.text) start.below keyword
  refine ⟨helped, .part bound grown (reps.imp fun _ _ rep => ?_)⟩
  refine rep.lower ?_
  change low ≤ (push state.heap state.curvect _).length
  rw [length_push]
  omega

theorem partEffect_frame (part : Part) (state : FormatParserState)
    (below : state.curvect ≠ state.topvect) :
    ItemsFrame state (partEffect state part) part.items := by
  have frame := itemsEffect_frame part.items (wordEffect state part.keyword.text) below
  have pushed := extendsExcept_push state.heap state.curvect
    (.terminal ((help state).terminal part.keyword.text))
  have size := frame.size
  change (push state.heap state.curvect _).length ≤ _ at size
  rw [length_push] at size
  exact
    { topvect := frame.topvect
      curvect := frame.curvect
      intvect := frame.intvect
      extend := pushed.trans frame.extend
      size := size }

/-! ## Keyword groups -/

def groupHasMultiple (parts : List Part) : Bool :=
  parts.any fun part => part.items.any isMultiple

theorem groupHasMultiple_cons (part : Part) (rest : List Part) : groupHasMultiple (part :: rest) =
      (part.items.any isMultiple || groupHasMultiple rest) :=
  rfl

theorem groupHasMultiple_singleton (part : Part) :
    groupHasMultiple [part] = part.items.any isMultiple :=
  Bool.or_false _

/-- The last token at the top level is the keyword group `group`. -/
structure InGroup (state : FormatParserState) (group : Nat) : Prop where
  distinct : group ≠ state.topvect
  allocated : group < state.heap.length
  last : (state.heap.getD state.topvect []).getLast? = some (.keyword group)

structure PartsFrame (state next : FormatParserState) (group : Nat) (parts : List Part) : Prop where
  topvect : next.topvect = state.topvect
  saved : groupHasMultiple parts → ∃ saved, next.intvect = some saved ∧ saved ≠ state.topvect
  kept : groupHasMultiple parts = false → next.intvect = state.intvect
  extend : ExtendsExcept group state.heap next.heap
  size : state.heap.length ≤ next.heap.length

/-- The state after the bar that begins a new part of `group`. -/
def enterPart (state : FormatParserState) (group : Nat) : FormatParserState :=
  { state with
    inKeyword := 1
    heap := push (alloc state.heap) group (.part state.heap.length)
    curvect := state.heap.length }

theorem InGroup.topAllocated (inGroup : InGroup state group) :
    state.topvect < state.heap.length := by
  by_contra outside
  have last := inGroup.last
  rw [getD_eq_getElem?_getD, getElem?_eq_none (Nat.le_of_not_lt outside)] at last
  cases last

theorem InGroup.nextPart (inGroup : InGroup state group) :
    nextPart state = .ok (enterPart state group) := by
  rw [Effects.nextPart, inGroup.last]
  rfl

theorem InGroup.partStart (inGroup : InGroup state group) : PartStart (enterPart state group) where
  fresh := by
    have distinct : group ≠ state.heap.length := Nat.ne_of_lt inGroup.allocated
    change (push (alloc state.heap) group _)[state.heap.length]? = some []
    rw [getElem?_push_of_ne _ distinct, getElem?_alloc_self]
  below := Nat.ne_of_gt inGroup.topAllocated

theorem enterPart_extends : ExtendsExcept group state.heap (enterPart state group).heap :=
  (extendsExcept_alloc group state.heap).trans (extendsExcept_push _ group _)

theorem length_enterPart : (enterPart state group).heap.length = state.heap.length + 1 := by
  change (push (alloc state.heap) group _).length = _
  simp

theorem InGroup.partFrame (inGroup : InGroup state group) (part : Part) :
    PartsFrame state (partEffect (enterPart state group) part) group [part] := by
  have frame := partEffect_frame part (enterPart state group) inGroup.partStart.below
  have size := frame.size
  rw [length_enterPart] at size
  refine
    { topvect := frame.topvect
      saved := ?_
      kept := ?_
      extend := enterPart_extends.trans_fresh frame.extend le_rfl
      size := by omega }
  · intro present
    rw [groupHasMultiple_singleton] at present
    have intvect := frame.intvect
    rw [if_pos present] at intvect
    exact ⟨_, intvect, Nat.ne_of_gt inGroup.topAllocated⟩
  · intro absent
    rw [groupHasMultiple_singleton] at absent
    have intvect := frame.intvect
    rw [absent] at intvect
    exact intvect

theorem InGroup.of_frame {parts : List Part} (inGroup : InGroup state group)
    (frame : PartsFrame state next group parts) : InGroup next group where
  distinct := by
    rw [frame.topvect]
    exact inGroup.distinct
  allocated := Nat.lt_of_lt_of_le inGroup.allocated frame.size
  last := by
    have found : state.heap[state.topvect]? = some (state.heap.getD state.topvect []) := by
      rw [getD_eq_getElem?_getD, getElem?_eq_getElem inGroup.topAllocated]
      rfl
    have kept := frame.extend _ _ (Ne.symm inGroup.distinct) found
    rw [frame.topvect, getD_eq_getElem?_getD, kept]
    exact inGroup.last

theorem PartsFrame.cons {middle last : FormatParserState} {part : Part} {rest : List Part}
    (head : PartsFrame state middle group [part]) (tail : PartsFrame middle last group rest) :
    PartsFrame state last group (part :: rest) where
  topvect := tail.topvect.trans head.topvect
  saved := by
    intro present
    cases later : groupHasMultiple rest with
    | true =>
      have saved := tail.saved later
      rwa [head.topvect] at saved
    | false =>
      rw [groupHasMultiple_cons, later, Bool.or_false, ← groupHasMultiple_singleton] at present
      rw [tail.kept later]
      exact head.saved present
  kept := by
    intro absent
    rw [groupHasMultiple_cons, Bool.or_eq_false_iff, ← groupHasMultiple_singleton] at absent
    rw [tail.kept absent.2, head.kept absent.1]
  extend := head.extend.trans tail.extend
  size := head.size.trans tail.size

/-- Further parts are read into the group that is last at the top level. -/
theorem partsEffect_ok (parts : List Part) (inGroup : InGroup state group) :
    ∃ next, partsEffect state parts = .ok next ∧ PartsFrame state next group parts := by
  induction parts generalizing state with
  | nil =>
    exact ⟨state, rfl,
      { topvect := rfl
        saved := fun present => nomatch present
        kept := fun _ => rfl
        extend := ExtendsExcept.refl _ _
        size := le_rfl }⟩
  | cons part rest ih =>
    have head := inGroup.partFrame part
    obtain ⟨next, step, tail⟩ := ih (inGroup.of_frame head)
    refine ⟨next, ?_, head.cons tail⟩
    rw [partsEffect, inGroup.nextPart]
    exact step

theorem partsEffect_reps (parts : List Part)
    (inGroup : InGroup state group) (step : partsEffect state parts = .ok next)
    {cells : List Cell} (found : state.heap[group]? = some cells) :
    help next = (tokenParts parts (help state)).2 ∧ ∃ new, next.heap[group]? = some (cells ++ new) ∧
        List.Forall₂ (RepPart next.heap (group + 1)) new (tokenParts parts (help state)).1 := by
  induction parts generalizing state cells with
  | nil =>
    cases step
    exact ⟨rfl, [], by rw [append_nil]; exact found, .nil⟩
  | cons part rest ih =>
    have head := inGroup.partFrame part
    have after := inGroup.of_frame head
    have allocated := inGroup.allocated
    rw [partsEffect, inGroup.nextPart] at step
    obtain ⟨helped, rep⟩ := partEffect_rep part (enterPart state group) inGroup.partStart
        (show group + 1 ≤ state.heap.length by omega)
    have pushed : (partEffect (enterPart state group) part).heap[group]? =
          some (cells ++ [.part state.heap.length]) := by
      have old : (alloc state.heap)[group]? = some cells := by
        rw [getElem?_alloc_of_lt _ allocated, found]
      have entered : (enterPart state group).heap[group]? =
            some (cells ++ [.part state.heap.length]) :=
        getElem?_push_self old _
      exact (partEffect_frame part _ inGroup.partStart.below).extend
        _ _ (Nat.ne_of_lt allocated) entered
    obtain ⟨tailHelp, new, grown, reps⟩ := ih after step pushed
    obtain ⟨last, tailStep, tail⟩ := partsEffect_ok rest after
    cases tailStep.symm.trans step
    rw [helped] at tailHelp reps
    refine ⟨tailHelp, .part state.heap.length :: new, ?_, ?_⟩
    · rw [append_assoc] at grown
      exact grown
    · exact .cons (rep.extend tail.extend (Nat.lt_succ_self group)) reps

end OpsCli.Command.Format.Derivation
