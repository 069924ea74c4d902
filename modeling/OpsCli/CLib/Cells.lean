import Mathlib.Data.List.TakeWhile

/-!
# Texts cut into cells

A text is cut at every character that is not solid: it is a field of solid
characters, followed by cells of one such character and the field behind it.
-/

namespace OpsCli.CLib.Cells

open List

variable {α : Type}

/-- A character that is not solid, and the field behind it. -/
abbrev Cell (α : Type) := α × List α

variable (field : List α) (cells : List (Cell α))

def text : List α :=
  field ++ cells.flatMap fun cell => cell.1 :: cell.2

theorem text_nil : text field [] = field :=
  append_nil field

theorem text_cons (c : α) (next : List α) (cells : List (Cell α)) :
    text field ((c, next) :: cells) = field ++ c :: text next cells :=
  rfl

theorem text_eq_nil_iff :
    text field cells = [] ↔ field = [] ∧ cells = [] := by
  cases cells with
  | nil =>
    rw [text_nil]
    exact (and_iff_left rfl).symm
  | cons cell cells =>
    refine iff_of_false ?_ (nomatch ·.2)
    exact append_ne_nil_of_right_ne_nil _ (cons_ne_nil _ _)

theorem length_cells_lt : cells.length < (text field cells).length + 1 := by
  induction cells generalizing field with
  | nil => exact Nat.zero_lt_succ _
  | cons cell cells ih =>
    obtain ⟨c, next⟩ := cell
    have later := ih next
    rw [text_cons, length_append, length_cons, length_cons]
    omega

/-- The field and the cells of a text with another one behind it. -/
def extend (field : List α) (cells : List (Cell α)) (first : List α)
    (more : List (Cell α)) : List α × List (Cell α) :=
  match cells with
  | [] => (field ++ first, more)
  | (c, next) :: cells =>
    (field, (c, (extend next cells first more).1) :: (extend next cells first more).2)

theorem extend_cons (c : α) (field : List α) (cells : List (Cell α)) (first : List α)
    (more : List (Cell α)) :
    extend (c :: field) cells first more = (c :: (extend field cells first more).1,
        (extend field cells first more).2) := by
  cases cells with
  | nil => rfl
  | cons cell cells => rfl

theorem text_extend (first : List α) (more : List (Cell α)) :
    text (extend field cells first more).1 (extend field cells first more).2 =
      text field cells ++ text first more := by
  induction cells generalizing field with
  | nil =>
    rw [extend, text_nil]
    exact append_assoc _ _ _
  | cons cell cells ih =>
    obtain ⟨c, next⟩ := cell
    rw [extend, text_cons, text_cons, ih, append_assoc, cons_append]

section

variable {solid : α → Bool} {cells : List (Cell α)} {field : List α}

/-- The field is solid. -/
def Filled (solid : α → Bool) (field : List α) : Prop :=
  ∀ c ∈ field, solid c

/-- The cells are cut at all characters that are not solid. -/
def Cut (solid : α → Bool) (cells : List (Cell α)) : Prop :=
  ∀ cell ∈ cells, solid cell.1 = false ∧ Filled solid cell.2

theorem filled_nil : Filled solid [] :=
  fun _ member => nomatch member

theorem cut_nil : Cut solid [] :=
  fun _ member => nomatch member

theorem exists_cut (solid : α → Bool) (str : List α) :
    ∃ field cells, Filled solid field ∧ Cut solid cells ∧ str = text field cells := by
  induction str with
  | nil => exact ⟨[], [], filled_nil, cut_nil, rfl⟩
  | cons c rest ih =>
    obtain ⟨field, cells, filled, cut, rfl⟩ := ih
    cases kind : solid c with
    | true =>
      exact ⟨c :: field, cells, forall_mem_cons.mpr ⟨kind, filled⟩, cut, rfl⟩
    | false =>
      exact ⟨[], (c, field) :: cells, filled_nil, forall_mem_cons.mpr ⟨⟨kind, filled⟩, cut⟩, rfl⟩

theorem cut_extend {first : List α} {more : List (Cell α)} (filled : Filled solid field)
    (cut : Cut solid cells) (filled' : Filled solid first) (cut' : Cut solid more) :
    Filled solid (extend field cells first more).1 ∧
      Cut solid (extend field cells first more).2 := by
  induction cells generalizing field with
  | nil => exact ⟨forall_mem_append.mpr ⟨filled, filled'⟩, cut'⟩
  | cons cell cells ih =>
    obtain ⟨⟨notSolid, solid⟩, later⟩ := forall_mem_cons.mp cut
    have rest := ih solid later
    exact ⟨filled, forall_mem_cons.mpr ⟨⟨notSolid, rest.1⟩, rest.2⟩⟩

theorem induction_cut {motive : List α → List (Cell α) → Prop}
    (step : ∀ field cells, Filled solid field → Cut solid cells →
      (∀ other others, others.length < cells.length → Filled solid other →
        Cut solid others → motive other others) → motive field cells) (filled : Filled solid field)
    (cut : Cut solid cells) : motive field cells := by
  induction size : cells.length using Nat.strong_induction_on generalizing field cells with
  | _ bound ih =>
    subst size
    refine step field cells filled cut ?_
    intro other others less filled cut
    exact ih others.length less filled cut rfl

section

variable (filled : Filled solid field)
  (cut : Cut solid cells)

include filled cut

theorem takeWhile_text : (text field cells).takeWhile solid = field := by
  cases cells with
  | nil =>
    rw [text_nil]
    exact takeWhile_eq_self_iff.mpr filled
  | cons cell cells =>
    obtain ⟨c, next⟩ := cell
    have stop := (cut (c, next) mem_cons_self).1
    rw [text_cons, takeWhile_append_of_pos filled,
      takeWhile_cons_of_neg (by rw [stop]; exact Bool.false_ne_true),
      append_nil]

theorem text_inj {other : List α} {others : List (Cell α)} (filled' : Filled solid other)
    (cut' : Cut solid others) (same : text field cells = text other others) :
    field = other ∧ cells = others := by
  induction cells generalizing field other others with
  | nil =>
    have fields : field = other := by
      rw [← takeWhile_text filled cut, same, takeWhile_text filled' cut']
    subst fields
    refine ⟨rfl, ?_⟩
    cases others with
    | nil => rfl
    | cons cell others =>
      have tails := append_cancel_left same
      cases tails
  | cons cell cells ih =>
    have fields : field = other := by
      rw [← takeWhile_text filled cut, same, takeWhile_text filled' cut']
    subst fields
    refine ⟨rfl, ?_⟩
    obtain ⟨c, next⟩ := cell
    cases others with
    | nil =>
      have tails := append_cancel_left same
      cases tails
    | cons cell others =>
      obtain ⟨d, following⟩ := cell
      obtain ⟨first, later⟩ := forall_mem_cons.mp cut
      obtain ⟨first', later'⟩ := forall_mem_cons.mp cut'
      rw [text_cons, text_cons] at same
      obtain ⟨heads, tails⟩ := cons.inj (append_cancel_left same)
      obtain ⟨nexts, rests⟩ := ih first.2 later first'.2 later' tails
      cases heads
      cases (nexts : next = following)
      cases rests
      rfl

omit cut

theorem head_text {c : α} (notSolid : solid c = false)
    (starts : (text field cells).head? = some c) : field = [] := by
  cases field with
  | nil => rfl
  | cons d field =>
    cases starts
    rw [filled c mem_cons_self] at notSolid
    cases notSolid

end

end

end OpsCli.CLib.Cells
