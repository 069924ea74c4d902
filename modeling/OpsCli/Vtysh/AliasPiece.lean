import OpsCli.Command.Line

/-!
# One command of an alias

A command in the definition of an alias consists of characters and references
to arguments.  It is meant to be executed with every reference replaced by its
argument.  The text that the shell assembles differs: a blank follows every
argument, the digits that leading zeros leave over follow the reference that
opens the command, and behind any other reference all characters are lost.
This module says when the words are the same nevertheless.
-/

namespace OpsCli.Vtysh.AliasPiece

open CLib CString Words Command.Line List

/-! ## Texts -/

/-- A part of a command: a character, or a reference with its number, its
argument and its numeral. -/
inductive Item where
  | char (c : Char)
  | reference (k : Nat) (arg numeral : CStr)
deriving DecidableEq, Repr

def Item.text : Item → CStr
  | .char c => [c]
  | .reference _ arg _ => arg

def expand (items : List Item) : CStr :=
  items.flatMap Item.text

/-- The digits that leading zeros leave over: the significant digits are
counted, and as many are skipped from the left. -/
def surplus (numeral : CStr) : CStr :=
  numeral.drop (numeral.dropWhile (· = '0')).length

def argumentsOnly : List Item → CStr
  | [] => []
  | .char _ :: rest => argumentsOnly rest
  | .reference _ arg _ :: rest => arg ++ ' ' :: argumentsOnly rest

/-- The characters up to the next reference, and behind it the arguments
only. -/
def kept : List Item → CStr
  | [] => []
  | .char c :: rest => c :: kept rest
  | .reference _ arg _ :: rest => arg ++ ' ' :: argumentsOnly rest

/-- The command as it is assembled. -/
def assembled : List Item → CStr
  | [] => []
  | .char c :: rest => c :: kept rest
  | .reference _ arg numeral :: rest =>
    arg ++ ' ' :: (surplus numeral ++ kept rest)

/-! ## Conditions -/

/-- The command goes on with a word. -/
def solidFirst : List Item → Bool
  | [] => false
  | .char c :: _ => !isspace c
  | .reference _ _ _ :: _ => true

/-- Every reference is at the end of a word. -/
def Separated : List Item → Prop
  | [] => True
  | .char _ :: rest => Separated rest
  | .reference _ _ _ :: rest => solidFirst rest = false ∧ Separated rest

def OnlyBlanks (items : List Item) : Prop :=
  ∀ c, .char c ∈ items → isspace c

/-- Only blanks and references follow the first reference. -/
def BlankBehind : List Item → Prop
  | [] => True
  | .char _ :: rest => BlankBehind rest
  | .reference _ _ _ :: rest => OnlyBlanks rest

/-- The digits that are left over behind the reference that opens the
command. -/
def openingSurplus : List Item → CStr
  | [] => []
  | .char _ :: _ => []
  | .reference _ _ numeral :: _ => surplus numeral

/-- The words that are executed are those that are meant, if these arguments
are to be added.  Unless digits are left over, every reference is at the end of
a word, only blanks and references follow a reference that does not open the
command, and no argument is to be added.  Digits that are left over are right
only if they happen to make up for what is lost. -/
def Right (items : List Item) (skipped : List CStr) : Prop :=
  if openingSurplus items = [] then
    Separated items ∧ BlankBehind items.tail ∧ skipped = []
  else
    solidFirst items.tail = false ∧ words isspace (openingSurplus items ++ kept items.tail) =
        words isspace (expand items.tail) ++ skipped

def Proper (items : List Item) : Prop :=
  ∀ k arg numeral, .reference k arg numeral ∈ items → IsWord arg

variable {arg : CStr}

namespace Proper

variable {items : List Item} {item : Item}

theorem tail (proper : Proper (item :: items)) : Proper items :=
  fun k arg numeral member => proper k arg numeral (mem_cons_of_mem item member)

theorem head {k : Nat} {numeral : CStr} (proper : Proper (.reference k arg numeral :: items)) :
    IsWord arg :=
  proper k arg numeral mem_cons_self

end Proper

/-! ## Blanks behind arguments -/

/-- The command with a blank behind every argument. -/
def spaced : List Item → CStr
  | [] => []
  | .char c :: rest => c :: spaced rest
  | .reference _ arg _ :: rest => arg ++ ' ' :: spaced rest

theorem expand_char (c : Char) (rest : List Item) : expand (.char c :: rest) = c :: expand rest :=
  rfl

theorem expand_reference (k : Nat) (arg numeral : CStr) (rest : List Item) :
    expand (.reference k arg numeral :: rest) = arg ++ expand rest :=
  rfl

theorem startsSolid_append (word : IsWord arg) (rest : CStr) :
    startsSolid isspace (arg ++ rest) := by
  obtain ⟨nonempty, solid⟩ := word
  cases arg with
  | nil => exact absurd rfl nonempty
  | cons c arg =>
    rw [cons_append, startsSolid_cons, solid c mem_cons_self]
    rfl

theorem words_cons_congr (c : Char) {text other : CStr}
    (starts : startsSolid isspace text = startsSolid isspace other)
    (same : words isspace text = words isspace other) :
    words isspace (c :: text) = words isspace (c :: other) := by
  cases sort : isspace c with
  | true => rw [words_cons_blank sort, words_cons_blank sort, same]
  | false =>
    rw [words_cons_solid sort, words_cons_solid sort, starts, same]

theorem startsSolid_expand (proper : Proper items) :
    startsSolid isspace (expand items) = solidFirst items := by
  cases items with
  | nil => rfl
  | cons item rest =>
    cases item with
    | char c => rfl
    | reference k arg numeral => exact startsSolid_append proper.head _

theorem startsSolid_spaced (proper : Proper items) :
    startsSolid isspace (spaced items) = solidFirst items := by
  cases items with
  | nil => rfl
  | cons item rest =>
    cases item with
    | char c => rfl
    | reference k arg numeral => exact startsSolid_append proper.head _

/-- The number of references that are not at the end of a word. -/
def glued : List Item → Nat
  | [] => 0
  | .char _ :: rest => glued rest
  | .reference _ _ _ :: rest =>
    if solidFirst rest then glued rest + 1 else glued rest

theorem separated_iff_glued (items : List Item) : Separated items ↔ glued items = 0 := by
  induction items with
  | nil => exact ⟨fun _ => rfl, fun _ => trivial⟩
  | cons item rest ih =>
    cases item with
    | char c => exact ih
    | reference k arg numeral =>
      rw [Separated, glued, ih]
      cases solidFirst rest with
      | true => exact ⟨nofun, nofun⟩
      | false => exact ⟨fun both => both.2, fun none => ⟨rfl, none⟩⟩

/-- Every blank that cuts a word makes one word more. -/
theorem length_words_spaced (proper : Proper items) :
    (words isspace (spaced items)).length =
      (words isspace (expand items)).length + glued items := by
  induction items with
  | nil => rfl
  | cons item rest ih =>
    have later := ih proper.tail
    have meant := startsSolid_expand proper.tail
    cases item with
    | char c =>
      have assembled := startsSolid_spaced proper.tail
      rw [spaced, expand_char, glued]
      cases sort : isspace c with
      | true =>
        rw [words_cons_blank sort, words_cons_blank sort]
        exact later
      | false =>
        rw [words_cons_solid sort, words_cons_solid sort, meant, assembled]
        split
        · rw [length_modifyHead, length_modifyHead]
          exact later
        · rw [length_cons, length_cons, later]
          omega
    | reference k arg numeral =>
      have word := proper.head
      rw [spaced, words_argument word, expand_reference, glued, length_cons, later,
        words_append_solid word.2 word.1, meant]
      split
      · rw [length_modifyHead]
        omega
      · rw [length_cons]
        omega

theorem words_spaced_of_separated (proper : Proper items) (separated : Separated items) :
    words isspace (spaced items) = words isspace (expand items) := by
  induction items with
  | nil => rfl
  | cons item rest ih =>
    have meant := startsSolid_expand proper.tail
    cases item with
    | char c =>
      exact words_cons_congr c ((startsSolid_spaced proper.tail).trans meant.symm)
        (ih proper.tail separated)
    | reference k arg numeral =>
      have later := ih proper.tail separated.2
      have word := proper.head
      rw [spaced, words_argument word, expand_reference, later, words_append_solid word.2 word.1,
        meant, separated.1,
        if_neg Bool.false_ne_true]

/-! ## Lost characters -/

/-- The number of characters other than blanks. -/
def solidCount (text : CStr) : Nat :=
  (text.filter (!isspace ·)).length

theorem solidCount_append (text rest : CStr) :
    solidCount (text ++ rest) = solidCount text + solidCount rest := by
  unfold solidCount
  rw [filter_append, length_append]

theorem solidCount_cons (c : Char) (rest : CStr) :
    solidCount (c :: rest) = (if isspace c then 0 else 1) + solidCount rest := by
  unfold solidCount
  rw [filter_cons]
  cases isspace c with
  | true => exact (Nat.zero_add _).symm
  | false => exact Nat.add_comm _ 1

theorem solidCount_eq_of_words (text : CStr) :
    solidCount text = (words isspace text).flatten.length := by
  rw [flatten_words]
  rfl

def solidChars : List Item → Nat
  | [] => 0
  | .char c :: rest => (if isspace c then 0 else 1) + solidChars rest
  | .reference _ _ _ :: rest => solidChars rest

def lost : List Item → Nat
  | [] => 0
  | .char _ :: rest => lost rest
  | .reference _ _ _ :: rest => solidChars rest

theorem onlyBlanks_cons_char (c : Char) (rest : List Item) :
    OnlyBlanks (.char c :: rest) ↔ isspace c ∧ OnlyBlanks rest := by
  constructor
  · intro blanks
    exact ⟨blanks c mem_cons_self, fun d member => blanks d (mem_cons_of_mem _ member)⟩
  · rintro ⟨first, others⟩ d member
    rcases mem_cons.mp member with same | later
    · cases same
      exact first
    · exact others d later

theorem onlyBlanks_cons_reference (k : Nat) (arg numeral : CStr) (rest : List Item) :
    OnlyBlanks (.reference k arg numeral :: rest) ↔ OnlyBlanks rest := by
  constructor
  · intro blanks d member
    exact blanks d (mem_cons_of_mem _ member)
  · intro blanks d member
    rcases mem_cons.mp member with same | later
    · cases same
    · exact blanks d later

theorem onlyBlanks_iff_solidChars (items : List Item) :
    OnlyBlanks items ↔ solidChars items = 0 := by
  induction items with
  | nil => exact ⟨fun _ => rfl, fun _ => nofun⟩
  | cons item rest ih =>
    cases item with
    | char c =>
      rw [onlyBlanks_cons_char, ih, solidChars]
      cases isspace c with
      | true => simp
      | false => simp
    | reference k arg numeral =>
      rw [onlyBlanks_cons_reference, ih, solidChars]

theorem blankBehind_iff_lost (items : List Item) : BlankBehind items ↔ lost items = 0 := by
  induction items with
  | nil => exact ⟨fun _ => rfl, fun _ => trivial⟩
  | cons item rest ih =>
    cases item with
    | char c => exact ih
    | reference k arg numeral => exact onlyBlanks_iff_solidChars rest

theorem solidCount_argumentsOnly (items : List Item) :
    solidCount (argumentsOnly items) + solidChars items = solidCount (expand items) := by
  induction items with
  | nil => rfl
  | cons item rest ih =>
    cases item with
    | char c =>
      rw [argumentsOnly, solidChars, expand_char, solidCount_cons, ← ih]
      omega
    | reference k arg numeral =>
      rw [argumentsOnly, solidChars, expand_reference, solidCount_append, solidCount_cons,
        solidCount_append,
        ← ih, isspace_blank, if_pos rfl]
      omega

theorem solidCount_kept (items : List Item) :
    solidCount (kept items) + lost items = solidCount (expand items) := by
  induction items with
  | nil => rfl
  | cons item rest ih =>
    cases item with
    | char c =>
      rw [kept, lost, expand_char, solidCount_cons, solidCount_cons, ← ih]
      omega
    | reference k arg numeral =>
      rw [kept, lost, expand_reference, solidCount_append, solidCount_cons, solidCount_append,
        ← solidCount_argumentsOnly rest, isspace_blank, if_pos rfl]
      omega

theorem words_argumentsOnly (proper : Proper items) (blanks : OnlyBlanks items) :
    words isspace (argumentsOnly items) = words isspace (spaced items) := by
  induction items with
  | nil => rfl
  | cons item rest ih =>
    cases item with
    | char c =>
      obtain ⟨first, others⟩ := (onlyBlanks_cons_char c rest).mp blanks
      rw [argumentsOnly, spaced, words_cons_blank first]
      exact ih proper.tail others
    | reference k arg numeral =>
      have others := (onlyBlanks_cons_reference k arg numeral rest).mp blanks
      rw [argumentsOnly, spaced, words_argument proper.head, words_argument proper.head,
        ih proper.tail others]

theorem starts_kept_spaced (proper : Proper items) :
    startsSolid isspace (kept items) = startsSolid isspace (spaced items) := by
  cases items with
  | nil => rfl
  | cons item rest =>
    cases item with
    | char c => rfl
    | reference k arg numeral =>
      exact (startsSolid_append proper.head _).trans (startsSolid_append proper.head _).symm

theorem words_kept (proper : Proper items) (blanks : BlankBehind items) :
    words isspace (kept items) = words isspace (spaced items) := by
  induction items with
  | nil => rfl
  | cons item rest ih =>
    cases item with
    | char c =>
      exact words_cons_congr c (starts_kept_spaced proper.tail) (ih proper.tail blanks)
    | reference k arg numeral =>
      rw [kept, spaced, words_argument proper.head, words_argument proper.head,
        words_argumentsOnly proper.tail blanks]

/-! ## When the words are right -/

section

variable {items : List Item} {skipped : List CStr}

section

variable (clean : openingSurplus items = [])
include clean

theorem solidCount_assembled :
    solidCount (assembled items) + lost items.tail = solidCount (expand items) := by
  cases items with
  | nil => rfl
  | cons item rest =>
    have later := solidCount_kept rest
    cases item with
    | char c =>
      rw [assembled, expand_char, solidCount_cons, solidCount_cons, ← later, tail_cons]
      omega
    | reference k arg numeral =>
      have none : surplus numeral = [] := clean
      rw [assembled, none, nil_append, expand_reference, solidCount_append, solidCount_cons,
        solidCount_append, ← later,
        isspace_blank, if_pos rfl, tail_cons]
      omega

theorem words_assembled (proper : Proper items) (blanks : BlankBehind items.tail) :
    words isspace (assembled items) = words isspace (spaced items) := by
  cases items with
  | nil => rfl
  | cons item rest =>
    have later := words_kept proper.tail blanks
    cases item with
    | char c =>
      exact words_cons_congr c (starts_kept_spaced proper.tail) later
    | reference k arg numeral =>
      have none : surplus numeral = [] := clean
      rw [assembled, spaced, none, nil_append, words_argument proper.head,
        words_argument proper.head, later]

theorem words_eq_of_clean (proper : Proper items) (solid : ∀ arg ∈ skipped, arg ≠ []) :
    words isspace (assembled items) = words isspace (expand items) ++ skipped ↔
      Separated items ∧ BlankBehind items.tail ∧ skipped = [] := by
  constructor
  · intro same
    have count := solidCount_assembled clean
    rw [solidCount_eq_of_words, same, flatten_append, length_append,
      ← solidCount_eq_of_words] at count
    have blanks : BlankBehind items.tail := (blankBehind_iff_lost _).mpr (by omega)
    have empty : skipped.flatten = [] := length_eq_zero_iff.mp (by omega)
    have none : skipped = [] := by
      cases skipped with
      | nil => rfl
      | cons arg rest =>
        rw [flatten_cons] at empty
        exact absurd (append_eq_nil_iff.mp empty).1 (solid arg mem_cons_self)
    refine ⟨?_, blanks, none⟩
    rw [none, append_nil, words_assembled clean proper blanks] at same
    have lengths := length_words_spaced proper
    rw [same] at lengths
    exact (separated_iff_glued items).mpr (by omega)
  · rintro ⟨separated, blanks, rfl⟩
    rw [append_nil, words_assembled clean proper blanks]
    exact words_spaced_of_separated proper separated

end

/-- With digits left over, the argument has to be a word of its own, and the
rest has to be right by chance. -/
theorem words_eq_of_surplus (proper : Proper items) (left : openingSurplus items ≠ []) :
    words isspace (assembled items) = words isspace (expand items) ++ skipped ↔
      solidFirst items.tail = false ∧ words isspace (openingSurplus items ++ kept items.tail) =
          words isspace (expand items.tail) ++ skipped := by
  cases items with
  | nil => exact absurd rfl left
  | cons item rest =>
    cases item with
    | char c => exact absurd rfl left
    | reference k arg numeral =>
      have word := proper.head
      rw [assembled, words_argument word, expand_reference, words_append_solid word.2 word.1,
        startsSolid_expand proper.tail,
        tail_cons, openingSurplus]
      cases solid : solidFirst rest with
      | false =>
        rw [if_neg Bool.false_ne_true, cons_append, List.cons.injEq]
        exact ⟨fun both => ⟨rfl, both.2⟩, fun both => ⟨rfl, both.2⟩⟩
      | true =>
        rw [if_pos rfl]
        refine ⟨fun same => ?_, nofun⟩
        have starts : startsSolid isspace (expand rest) := by
          rw [startsSolid_expand proper.tail, solid]
        obtain ⟨head, tail, equal⟩ := exists_cons_of_ne_nil (words_ne_nil starts)
        rw [equal] at same
        have longer : arg = arg ++ head := (List.cons.inj same).1
        have nonempty : head ≠ [] := ne_nil_of_mem_words (equal ▸ mem_cons_self)
        exact absurd (self_eq_append_right.mp longer) nonempty

/-- The words that are executed are those that are meant exactly if the
command is of the right form. -/
theorem words_assembled_eq_iff (proper : Proper items) (solid : ∀ arg ∈ skipped, arg ≠ []) :
    words isspace (assembled items) =
        words isspace (expand items) ++ skipped ↔ Right items skipped := by
  unfold Right
  split
  · rename_i clean
    exact words_eq_of_clean clean proper solid
  · rename_i left
    exact words_eq_of_surplus proper left

end

end OpsCli.Vtysh.AliasPiece
