import Mathlib.Data.List.Basic

/-!
# A heap of growing vectors

A program that builds a tree out of pointer vectors allocates empty vectors,
appends cells to a vector it holds a reference to, and never frees one while
it builds.  The heap is the list of all vectors; a reference is a position in
it.  The lemmas say what one allocation and one append leave alone.
-/

namespace OpsCli.CLib.VectorHeap

open List

/-- All vectors allocated so far, with their cells; a position is a pointer. -/
abbrev Heap (Cell : Type) := List (List Cell)

variable {Cell : Type} {vector other changed : Nat} {heap second first third : Heap Cell}

def alloc (heap : Heap Cell) : Heap Cell :=
  heap ++ [[]]

def push (heap : Heap Cell) (vector : Nat) (cell : Cell) : Heap Cell :=
  heap.modify vector (· ++ [cell])

def pushAll (heap : Heap Cell) (vector : Nat) (cells : List Cell) : Heap Cell :=
  cells.foldl (fun heap cell => push heap vector cell) heap

@[simp]
theorem length_alloc (heap : Heap Cell) : (alloc heap).length = heap.length + 1 := by
  simp [alloc]

@[simp]
theorem length_push (heap : Heap Cell) (vector : Nat) (cell : Cell) :
    (push heap vector cell).length = heap.length := by
  simp [push]

@[simp]
theorem getElem?_alloc_self (heap : Heap Cell) : (alloc heap)[heap.length]? = some [] := by
  simp [alloc]

theorem getElem?_alloc_of_lt (heap : Heap Cell) (old : other < heap.length) :
    (alloc heap)[other]? = heap[other]? := by
  simp [alloc, getElem?_append_left old]

theorem getElem?_push_self {cells : List Cell} (found : heap[vector]? = some cells) (cell : Cell) :
    (push heap vector cell)[vector]? = some (cells ++ [cell]) := by
  simp [push, found]

theorem getElem?_push_of_ne (heap : Heap Cell) (distinct : vector ≠ other) (cell : Cell) :
    (push heap vector cell)[other]? = heap[other]? := by
  simp [push, distinct]

@[simp]
theorem length_pushAll (heap : Heap Cell) (vector : Nat) (cells : List Cell) :
    (pushAll heap vector cells).length = heap.length := by
  induction cells generalizing heap with
  | nil => rfl
  | cons cell rest ih =>
    simpa [pushAll] using ih (push heap vector cell)

theorem getElem?_pushAll_self {old : List Cell} (found : heap[vector]? = some old)
    (cells : List Cell) : (pushAll heap vector cells)[vector]? = some (old ++ cells) := by
  induction cells generalizing heap old with
  | nil => simpa [pushAll] using found
  | cons cell rest ih =>
    have pushed := getElem?_push_self found cell
    simpa [pushAll] using ih pushed

theorem getElem?_pushAll_of_ne (heap : Heap Cell) (distinct : vector ≠ other) (cells : List Cell) :
    (pushAll heap vector cells)[other]? = heap[other]? := by
  induction cells generalizing heap with
  | nil => rfl
  | cons cell rest ih =>
    have step := ih (push heap vector cell)
    rw [getElem?_push_of_ne heap distinct] at step
    simpa [pushAll] using step

/-- The second heap has every vector of the first, except perhaps one, as it was. -/
def ExtendsExcept (changed : Nat) (heap later : Heap Cell) : Prop :=
  ∀ vector cells, vector ≠ changed → heap[vector]? = some cells → later[vector]? = some cells

theorem ExtendsExcept.refl (changed : Nat) (heap : Heap Cell) : ExtendsExcept changed heap heap :=
  fun _ _ _ found => found

theorem ExtendsExcept.trans (before : ExtendsExcept changed first second)
    (after : ExtendsExcept changed second third) : ExtendsExcept changed first third :=
  fun vector cells distinct found =>
    after vector cells distinct (before vector cells distinct found)

theorem ExtendsExcept.trans_fresh {fresh : Nat} (before : ExtendsExcept changed first second)
    (after : ExtendsExcept fresh second third) (new : first.length ≤ fresh) :
    ExtendsExcept changed first third := by
  intro vector cells distinct found
  have old : vector < first.length := (List.getElem?_eq_some_iff.mp found).choose
  have notFresh : vector ≠ fresh := Nat.ne_of_lt (Nat.lt_of_lt_of_le old new)
  exact after vector cells notFresh (before vector cells distinct found)

theorem extendsExcept_alloc (changed : Nat) (heap : Heap Cell) :
    ExtendsExcept changed heap (alloc heap) := by
  intro vector cells _ found
  have old : vector < heap.length := (List.getElem?_eq_some_iff.mp found).choose
  rw [getElem?_alloc_of_lt heap old, found]

theorem extendsExcept_push (heap : Heap Cell) (vector : Nat) (cell : Cell) :
    ExtendsExcept vector heap (push heap vector cell) := by
  intro other cells distinct found
  rw [getElem?_push_of_ne heap (Ne.symm distinct), found]

theorem extendsExcept_pushAll (heap : Heap Cell) (vector : Nat) (cells : List Cell) :
    ExtendsExcept vector heap (pushAll heap vector cells) := by
  intro other old distinct found
  rw [getElem?_pushAll_of_ne heap (Ne.symm distinct), found]

/-! ## What the vectors hold together -/

section

variable {Value : Type} (read : Cell → Option Value) {cell : Cell}

/-- What can be read from the cells of all vectors. -/
def contents (heap : Heap Cell) : List Value :=
  heap.flatten.filterMap read

theorem contents_cons (cells : List Cell) (rest : Heap Cell) : contents read (cells :: rest) =
      cells.filterMap read ++ contents read rest := by
  rw [contents, flatten_cons, filterMap_append]
  rfl

@[simp]
theorem contents_alloc (heap : Heap Cell) : contents read (alloc heap) = contents read heap := by
  simp [contents, alloc]

theorem contents_push_none (nothing : read cell = none) (heap : Heap Cell) (vector : Nat) :
    contents read (push heap vector cell) = contents read heap := by
  induction heap generalizing vector with
  | nil => cases vector <;> rfl
  | cons cells rest ih =>
    cases vector with
    | zero =>
      change contents read ((cells ++ [cell]) :: rest) = _
      simp [contents_cons, nothing]
    | succ vector =>
      change contents read (cells :: push rest vector cell) = _
      rw [contents_cons, contents_cons, ih]

theorem contents_push_some {value : Value} (found : read cell = some value)
    (allocated : vector < heap.length) :
    (contents read (push heap vector cell)).Perm (contents read heap ++ [value]) := by
  induction heap generalizing vector with
  | nil => cases allocated
  | cons cells rest ih =>
    cases vector with
    | zero =>
      change (contents read ((cells ++ [cell]) :: rest)).Perm _
      rw [contents_cons, contents_cons, filterMap_append, append_assoc, append_assoc,
        filterMap_cons_some found]
      exact (perm_append_singleton value _).symm.append_left _
    | succ vector =>
      change (contents read (cells :: push rest vector cell)).Perm _
      rw [contents_cons, contents_cons, append_assoc]
      exact (ih (Nat.lt_of_succ_lt_succ allocated)).append_left _

end

end OpsCli.CLib.VectorHeap
