import Mathlib.Data.List.Basic

/-!
# The words of a text

The words of a text are its maximal parts without blanks.  How many blanks
there are between them, and at the ends, does not matter.
-/

namespace OpsCli.CLib.Words

open List

variable {α : Type} {blank : α → Bool} {c : α} {word text : List α}

def words (blank : α → Bool) (text : List α) : List (List α) :=
  (text.splitOnP blank).filter (!·.isEmpty)

/-- The text begins with something other than a blank. -/
def startsSolid (blank : α → Bool) (text : List α) : Bool :=
  text.head?.any (!blank ·)

/-- The text has no blank in it. -/
def Solid (blank : α → Bool) (text : List α) : Prop :=
  ∀ c ∈ text, blank c = false

@[simp]
theorem words_nil : words blank [] = [] := by
  unfold words
  rw [splitOnP_nil]
  rfl

theorem words_append_blank (isBlank : blank c) (text rest : List α) :
    words blank (text ++ c :: rest) = words blank text ++ words blank rest := by
  unfold words
  rw [splitOnP_append_cons text rest isBlank, filter_append]

theorem words_cons_blank (isBlank : blank c) (rest : List α) :
    words blank (c :: rest) = words blank rest := by
  have split := words_append_blank isBlank [] rest
  rw [words_nil] at split
  exact split

theorem startsSolid_cons (c : α) (rest : List α) : startsSolid blank (c :: rest) = !blank c :=
  rfl

theorem words_cons_solid (solid : blank c = false) (rest : List α) :
    words blank (c :: rest) = if startsSolid blank rest then
        (words blank rest).modifyHead (c :: ·)
      else [c] :: words blank rest := by
  have split := splitOnP_cons_eq_if_modifyHead (p := blank) c rest
  rw [solid, if_neg Bool.false_ne_true] at split
  unfold words
  rw [split]
  cases rest with
  | nil =>
    rw [splitOnP_nil]
    rfl
  | cons d rest =>
    have next := splitOnP_cons_eq_if_modifyHead (p := blank) d rest
    obtain ⟨first, others, equal⟩ := exists_cons_of_ne_nil (splitOnP_ne_nil blank rest)
    rw [next, startsSolid_cons]
    cases sort : blank d with
    | true => rfl
    | false =>
      rw [if_neg Bool.false_ne_true, equal]
      rfl

/-- What is behind a word either is separate from it or makes it longer. -/
theorem words_append_solid (solid : Solid blank word) (nonempty : word ≠ []) (rest : List α) :
    words blank (word ++ rest) = if startsSolid blank rest then
        (words blank rest).modifyHead (word ++ ·)
      else word :: words blank rest := by
  induction word with
  | nil => exact absurd rfl nonempty
  | cons c word ih =>
    have first : blank c = false := solid c mem_cons_self
    rw [cons_append, words_cons_solid first]
    cases word with
    | nil => rfl
    | cons d word =>
      have others : Solid blank (d :: word) := fun e member => solid e (mem_cons_of_mem c member)
      have second : blank d = false := others d mem_cons_self
      have starts : startsSolid blank (d :: word ++ rest) := by
        rw [cons_append, startsSolid_cons, second]
        rfl
      rw [if_pos starts, ih others (cons_ne_nil d word)]
      split
      · cases words blank rest with
        | nil => rfl
        | cons head tail => rfl
      · rfl

theorem words_ne_nil (starts : startsSolid blank text) : words blank text ≠ [] := by
  induction text with
  | nil => cases starts
  | cons c rest ih =>
    have solid : blank c = false := by
      rw [startsSolid_cons, Bool.not_eq_true'] at starts
      exact starts
    rw [words_cons_solid solid]
    split
    · rename_i next
      intro empty
      exact ih next (modifyHead_eq_nil_iff.mp empty)
    · exact cons_ne_nil _ _

theorem ne_nil_of_mem_words (member : word ∈ words blank text) : word ≠ [] := by
  have kept := (mem_filter.mp member).2
  rintro rfl
  cases kept

theorem flatten_words (text : List α) : (words blank text).flatten = text.filter (!blank ·) := by
  induction text with
  | nil =>
    rw [words_nil]
    rfl
  | cons c rest ih =>
    cases sort : blank c with
    | true =>
      rw [words_cons_blank sort, ih, filter_cons_of_neg (by rw [sort]; exact nofun)]
    | false =>
      rw [words_cons_solid sort, filter_cons_of_pos (by rw [sort]; rfl), ← ih]
      split
      · rename_i starts
        obtain ⟨head, tail, equal⟩ := exists_cons_of_ne_nil (words_ne_nil starts)
        rw [equal]
        rfl
      · rfl

end OpsCli.CLib.Words
