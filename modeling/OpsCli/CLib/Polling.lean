import Mathlib.Data.List.Infix

/-!
# Asking one after the other

The members of a list are asked in turn until one of them answers.
-/

namespace OpsCli.CLib.Polling

open List

variable {α β : Type} (answer : α → Option β)

/-- The members that are asked: all up to the first that answers. -/
def asked : List α → List α
  | [] => []
  | head :: tail =>
    if (answer head).isSome then [head] else head :: asked tail

variable {answer} {list : List α} {value : β} {head : α}

theorem asked_cons_of_some (answers : answer head = some value) (tail : List α) :
    asked answer (head :: tail) = [head] := by
  rw [asked, answers]
  rfl

theorem asked_cons_of_none (silent : answer head = none) (tail : List α) :
    asked answer (head :: tail) = head :: asked answer tail := by
  rw [asked, silent]
  rfl

theorem asked_isPrefix (list : List α) : asked answer list <+: list := by
  induction list with
  | nil => exact prefix_rfl
  | cons head tail ih =>
    cases answers : answer head with
    | some value =>
      rw [asked_cons_of_some answers]
      exact prefix_append [head] tail
    | none =>
      rw [asked_cons_of_none answers]
      exact cons_prefix_cons.mpr ⟨rfl, ih⟩

theorem asked_of_silent (silent : list.findSome? answer = none) : asked answer list = list := by
  induction list with
  | nil => rfl
  | cons head tail ih =>
    rw [findSome?_cons] at silent
    cases answers : answer head with
    | some value =>
      rw [answers] at silent
      cases silent
    | none =>
      rw [answers] at silent
      rw [asked_cons_of_none answers, ih silent]

theorem asked_ne_nil (found : list.findSome? answer = some value) : asked answer list ≠ [] := by
  cases list with
  | nil => cases found
  | cons head tail =>
    unfold asked
    split <;> exact cons_ne_nil _ _

/-- The answer is given by the last one asked, so that a list which starts
with those asked gets the same answer. -/
theorem findSome?_of_asked_isPrefix {other : List α} (found : list.findSome? answer = some value)
    (first : asked answer list <+: other) :
    other.findSome? answer = some value ∧ asked answer other = asked answer list := by
  induction list generalizing other with
  | nil => cases found
  | cons head tail ih =>
    rw [findSome?_cons] at found
    cases answers : answer head with
    | some reply =>
      rw [answers] at found
      rw [asked_cons_of_some answers] at first ⊢
      obtain ⟨rest, rfl⟩ := first
      rw [singleton_append, findSome?_cons, answers, asked_cons_of_some answers]
      exact ⟨found, rfl⟩
    | none =>
      rw [answers] at found
      rw [asked_cons_of_none answers] at first ⊢
      cases other with
      | nil => cases prefix_nil.mp first
      | cons next rest =>
        obtain ⟨rfl, later⟩ := cons_prefix_cons.mp first
        obtain ⟨same, asks⟩ := ih found later
        rw [findSome?_cons, answers, asked_cons_of_none answers, asks]
        exact ⟨same, rfl⟩

end OpsCli.CLib.Polling
