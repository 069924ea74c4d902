import Mathlib.Data.List.Nodup

/-!
# Tables of rows

A table of a database is a list of rows, which other rows refer to.
-/

namespace OpsCli.CLib.RowTable

open List

variable {α : Type}

abbrev Ref := Nat

def rowOf (ref : Ref) (table : List (Ref × α)) : Option α :=
  (table.find? (·.1 = ref)).map Prod.snd

def mapRows (change : Ref → α → α) (table : List (Ref × α)) : List (Ref × α) :=
  table.map fun pair => (pair.1, change pair.1 pair.2)

def changeRow (ref : Ref) (change : α → α) (table : List (Ref × α)) : List (Ref × α) :=
  mapRows (fun other row => if other = ref then change row else row) table

def deleteRow (ref : Ref) (table : List (Ref × α)) : List (Ref × α) :=
  table.filter (·.1 ≠ ref)

/-- A reference that is not used in the table. -/
def freshRef (table : List (Ref × α)) : Ref :=
  (table.map Prod.fst).foldr max 0 + 1

def insertRow (row : α) (table : List (Ref × α)) : List (Ref × α) :=
  table ++ [(freshRef table, row)]

theorem rowOf_cons (ref : Ref) (pair : Ref × α) (rest : List (Ref × α)) : rowOf ref (pair :: rest) =
      if pair.1 = ref then some pair.2 else rowOf ref rest := by
  unfold rowOf
  by_cases same : pair.1 = ref
  · rw [find?_cons_of_pos (by simpa using same), if_pos same]
    rfl
  · rw [find?_cons_of_neg (by simpa using same), if_neg same]

theorem mem_of_rowOf {ref : Ref} {row : α} {table : List (Ref × α)}
    (found : rowOf ref table = some row) : (ref, row) ∈ table := by
  obtain ⟨⟨other, _⟩, first, rfl⟩ := Option.map_eq_some_iff.mp found
  have same := find?_some first
  have equal : other = ref := of_decide_eq_true same
  rw [← equal]
  exact mem_of_find?_eq_some first

@[simp]
theorem rowOf_mapRows (change : Ref → α → α) (ref : Ref) (table : List (Ref × α)) :
    rowOf ref (mapRows change table) = (rowOf ref table).map (change ref) := by
  induction table with
  | nil => rfl
  | cons pair rest ih =>
    unfold mapRows at ih ⊢
    rw [map_cons, rowOf_cons, rowOf_cons, ih]
    by_cases same : pair.1 = ref
    · rw [if_pos same, if_pos same, same]
      rfl
    · rw [if_neg same, if_neg same]

theorem rowOf_changeRow (ref : Ref) (change : α → α) (table : List (Ref × α)) :
    rowOf ref (changeRow ref change table) = (rowOf ref table).map change := by
  unfold changeRow
  rw [rowOf_mapRows]
  cases rowOf ref table with
  | none => rfl
  | some row => simp

theorem rowOf_changeRow_of_ne {ref other : Ref} (differs : other ≠ ref) (change : α → α)
    (table : List (Ref × α)) : rowOf other (changeRow ref change table) = rowOf other table := by
  unfold changeRow
  rw [rowOf_mapRows]
  cases rowOf other table with
  | none => rfl
  | some row => simp [differs]

theorem lt_freshRef {pair : Ref × α} {table : List (Ref × α)} (member : pair ∈ table) :
    pair.1 < freshRef table := by
  unfold freshRef
  induction table with
  | nil => exact absurd member not_mem_nil
  | cons head rest ih =>
    rw [map_cons, foldr_cons, Nat.lt_succ_iff]
    rcases mem_cons.mp member with rfl | later
    · exact Nat.le_max_left _ _
    · exact Nat.le_trans (Nat.lt_succ_iff.mp (ih later)) (Nat.le_max_right _ _)

theorem rowOf_freshRef (table : List (Ref × α)) : rowOf (freshRef table) table = none := by
  cases found : rowOf (freshRef table) table with
  | none => rfl
  | some row =>
    exact absurd (lt_freshRef (mem_of_rowOf found)) (Nat.lt_irrefl _)

theorem rowOf_insertRow (row : α) (ref : Ref) (table : List (Ref × α)) :
    rowOf ref (insertRow row table) =
      if ref = freshRef table then some row else rowOf ref table := by
  have append : rowOf ref (insertRow row table) =
      (rowOf ref table).or (rowOf ref [(freshRef table, row)]) := by
    unfold rowOf insertRow
    rw [find?_append, Option.map_or]
  rw [append, rowOf_cons]
  by_cases new : ref = freshRef table
  · rw [if_pos new, new, rowOf_freshRef, if_pos rfl, Option.none_or]
  · rw [if_neg new, if_neg (Ne.symm new)]
    exact Option.or_none

theorem rowOf_deleteRow (ref other : Ref) (table : List (Ref × α)) :
    rowOf other (deleteRow ref table) = if other = ref then none else rowOf other table := by
  unfold deleteRow
  induction table with
  | nil => exact (ite_self _).symm
  | cons pair rest ih =>
    by_cases gone : pair.1 = ref
    · rw [filter_cons_of_neg (by simpa using gone), ih, rowOf_cons]
      by_cases here : other = ref
      · rw [if_pos here, if_pos here]
      · rw [if_neg here, if_neg here, if_neg fun same => here (same.symm.trans gone)]
    · rw [filter_cons_of_pos (by simpa using gone), rowOf_cons, rowOf_cons, ih]
      by_cases here : pair.1 = other
      · rw [if_pos here, if_pos here, if_neg fun same => gone (here.trans same)]
      · rw [if_neg here, if_neg here]

end OpsCli.CLib.RowTable
