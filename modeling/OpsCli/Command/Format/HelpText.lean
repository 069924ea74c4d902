import OpsCli.Command.Format.Grammar

/-!
# Help texts of command formats

The help text of a command has one line for each terminal, and one more for
the empty alternative of each `(x|)`.  This module gives the lines of a help
text, the places of a command string that take a line, and the line that
stands at the place of each terminal.
-/

namespace OpsCli.Command.Format.HelpText

open CLib.CString Token Format.Parser Grammar List

/-! ## Lines -/

def helpLines (text : CStr) : List CStr :=
  ((text.splitOnP isLineEnd).map (·.dropWhile isspace)).filter (!·.isEmpty)

theorem helpLines_space {c : Char} (space : isspace c) (rest : CStr) :
    helpLines (c :: rest) = helpLines rest := by
  rw [helpLines, splitOnP_cons_eq_if_modifyHead]
  split
  · rfl
  · rw [helpLines]
    cases List.splitOnP isLineEnd rest with
    | nil => rfl
    | cons head tail =>
      rw [modifyHead_cons, map_cons, map_cons, dropWhile_cons_of_pos space]

theorem helpLines_dropWhile (text : CStr) :
    helpLines (text.dropWhile isspace) = helpLines text := by
  induction text with
  | nil => rfl
  | cons c rest ih =>
    rw [dropWhile_cons]
    split
    · rename_i space
      rw [helpLines_space space]
      exact ih
    · rfl

theorem isspace_of_isLineEnd {c : Char} (lineEnd : isLineEnd c) : isspace c := by
  simp only [isLineEnd, Bool.or_eq_true, decide_eq_true_eq] at lineEnd
  rcases lineEnd with rfl | rfl <;> rfl

theorem helpLines_line {line rest : CStr} (starts : line.dropWhile isspace = line)
    (nonempty : line ≠ []) (inLine : ∀ c ∈ line, isLineEnd c = false)
    (ends : ∀ c, rest.head? = some c → isLineEnd c) :
    helpLines (line ++ rest) = line :: helpLines rest := by
  have kept (others : List CStr) : (line :: others).filter (!·.isEmpty) =
        line :: others.filter (!·.isEmpty) :=
    filter_cons_of_pos (by simpa using nonempty)
  cases rest with
  | nil =>
    rw [append_nil, helpLines, splitOnP_eq_singleton inLine, map_singleton, starts, kept]
    rfl
  | cons c after =>
    have lineEnd := ends c rfl
    rw [helpLines_space (isspace_of_isLineEnd lineEnd), helpLines,
      splitOnP_append_cons_of_forall_mem inLine c lineEnd,
      map_cons, starts, kept]
    rfl

theorem formatParserDescStr_lines (dp : CStr) :
    (formatParserDescStr (some dp)).1 = (helpLines dp).head? ∧
      ∃ after, (formatParserDescStr (some dp)).2 = some after ∧
        helpLines after = (helpLines dp).tail := by
  rw [formatParserDescStr, ← helpLines_dropWhile dp]
  cases start : dp.dropWhile isspace with
  | nil =>
    refine ⟨rfl, dp, rfl, ?_⟩
    rw [← helpLines_dropWhile dp, start]
    rfl
  | cons c rest =>
    have noSpace : isspace c = false := by
      have head := head?_dropWhile_not isspace dp
      rw [start] at head
      exact head
    have notEnd : isLineEnd c = false := by
      rw [← Bool.not_eq_true]
      intro lineEnd
      rw [isspace_of_isLineEnd lineEnd] at noSpace
      cases noSpace
    have taken : (c :: rest).takeWhile (!isLineEnd ·) = c :: rest.takeWhile (!isLineEnd ·) := by
      rw [takeWhile_cons, notEnd]
      rfl
    have lines : helpLines (c :: rest) = (c :: rest).takeWhile (!isLineEnd ·) ::
          helpLines ((c :: rest).dropWhile (!isLineEnd ·)) := by
      have ends : ∀ d, ((c :: rest).dropWhile (!isLineEnd ·)).head? =
          some d → isLineEnd d := by
        intro d found
        have head := head?_dropWhile_not (!isLineEnd ·) (c :: rest)
        rw [found] at head
        simpa using head
      rw [← helpLines_line (by rw [taken, dropWhile_cons, noSpace]; rfl)
        (by rw [taken]; exact cons_ne_nil _ _)
        (fun d member => by simpa using mem_takeWhile_imp member) ends,
        takeWhile_append_dropWhile]
    rw [lines]
    exact ⟨rfl, _, rfl, rfl⟩

/-! ## Handing out lines -/

/-- The lines that have not been handed out. -/
def linesLeft (help : Help) : List CStr :=
  (help.desc.map helpLines).getD []

theorem desc_terminal (help : Help) (cmd : CStr) :
    (help.terminal cmd).desc = (linesLeft help).head? := by
  obtain ⟨desc, dynCb⟩ := help
  cases desc with
  | none => rfl
  | some dp => exact (formatParserDescStr_lines dp).1

theorem linesLeft_descStr (desc dynCb other : Option CStr) :
    linesLeft ⟨(formatParserDescStr desc).2, other⟩ = (linesLeft ⟨desc, dynCb⟩).tail := by
  cases desc with
  | none => rfl
  | some dp =>
    obtain ⟨_, after, found, tail⟩ := formatParserDescStr_lines dp
    rw [linesLeft, found]
    exact tail

theorem linesLeft_next (help : Help) : linesLeft help.next = (linesLeft help).tail :=
  linesLeft_descStr _ _ _

theorem linesLeft_dropDesc (help : Help) : linesLeft help.dropDesc = (linesLeft help).tail :=
  linesLeft_descStr _ _ _

/-! ## The places of a command string -/

/-- A place that takes a line: the word of a terminal, or the empty
alternative of `(x|)`. -/
abbrev Place := Option CStr

def multiplePlaces : Multiple → List Place
  | .trailing alternative => [some alternative.text, none]
  | .alternatives first rest =>
    some first.text :: rest.map fun word => some word.text

def itemPlaces : PartItem → List Place
  | .terminal word => [some word.text]
  | .multiple group => multiplePlaces group

def partPlaces (part : Part) : List Place :=
  some part.keyword.text :: part.items.flatMap itemPlaces

def tokenPlaces : Token → List Place
  | .terminal word => [some word.text]
  | .multiple group => multiplePlaces group
  | .keyword first rest => (first :: rest).flatMap partPlaces

def places (cmdstr : CmdStr) : List Place :=
  cmdstr.all.flatMap tokenPlaces

/-- How many `(x|)` are closed before the terminal with this number. -/
def closedBefore : List Place → Nat → Nat
  | [], _ => 0
  | none :: rest, k => closedBefore rest k + 1
  | some _ :: _, 0 => 0
  | some _ :: rest, k + 1 => closedBefore rest k

/-- The terminals of the places, and the help strings that are left. -/
def allot : List Place → Help → List Token.Terminal × Help
  | [], help => ([], help)
  | none :: rest, help => allot rest help.dropDesc
  | some word :: rest, help =>
    (help.terminal word :: (allot rest help.next).1, (allot rest help.next).2)

theorem allot_append (first second : List Place) (help : Help) : allot (first ++ second) help =
      ((allot first help).1 ++ (allot second (allot first help).2).1,
        (allot second (allot first help).2).2) := by
  induction first generalizing help with
  | nil => rfl
  | cons place rest ih =>
    cases place with
    | none => exact ih _
    | some word =>
      rw [cons_append, allot, ih]
      rfl

theorem allot_words (list : List Place) (help : Help) :
    (allot list help).1.map Token.Terminal.cmd = list.filterMap id := by
  induction list generalizing help with
  | nil => rfl
  | cons place rest ih =>
    cases place with
    | none => exact ih _
    | some word => exact congrArg (List.cons word) (ih _)

variable {terminal : Token.Terminal} {list : List Place} {help : Help}

theorem allot_desc {k : Nat} (found : (allot list help).1[k]? = some terminal) :
    terminal.desc = (linesLeft help)[k + closedBefore list k]? := by
  induction list generalizing help k with
  | nil => cases found
  | cons place rest ih =>
    cases place with
    | none =>
      rw [ih found, linesLeft_dropDesc, getElem?_tail]
      rfl
    | some word =>
      cases k with
      | zero =>
        cases found
        rw [desc_terminal, head?_eq_getElem?]
        rfl
      | succ k =>
        rw [allot, getElem?_cons_succ] at found
        rw [ih found, linesLeft_next, getElem?_tail, closedBefore, Nat.add_right_comm]

theorem place_lt {k : Nat} (found : (allot list help).1[k]? = some terminal) :
    k + closedBefore list k < list.length := by
  induction list generalizing help k with
  | nil => cases found
  | cons place rest ih =>
    cases place with
    | none => exact Nat.succ_lt_succ (ih found)
    | some word =>
      cases k with
      | zero => exact Nat.succ_pos _
      | succ k =>
        rw [allot, getElem?_cons_succ] at found
        rw [closedBefore, Nat.add_right_comm]
        exact Nat.succ_lt_succ (ih found)

end OpsCli.Command.Format.HelpText
