import Mathlib.Data.List.Sort

/-!
# The sorting function of the C library

`qsort` promises an ordered permutation if the comparison function orders the
elements of the array.  Nothing is promised about the order of equal elements.
-/

namespace OpsCli.CLib.Qsort

variable {α : Type}

/-- A comparison function orders the elements of a list. -/
structure Consistent (compare : α → α → Int) (list : List α) : Prop where
  total : ∀ a ∈ list, ∀ b ∈ list, compare a b ≤ 0 ∨ compare b a ≤ 0
  trans : ∀ a ∈ list, ∀ b ∈ list, ∀ c ∈ list, compare a b ≤ 0 → compare b c ≤ 0 → compare a c ≤ 0

/-- A sorting function that keeps the promise. -/
structure Sorter (α : Type) where
  sort : (α → α → Int) → List α → List α
  perm : ∀ compare list, (sort compare list).Perm list
  sorted : ∀ compare list, Consistent compare list →
    (sort compare list).Pairwise (fun a b => compare a b ≤ 0)

/-- The elements of a list, with ascending keys. -/
structure Ordered {κ : Type} [LE κ] (key : α → κ) (list nodes : List α) : Prop where
  perm : nodes.Perm list
  ascending : nodes.Pairwise fun a b => key a ≤ key b

theorem Sorter.ordered {κ : Type} [LinearOrder κ] {key : α → κ} {compare : α → α → Int}
    {list : List α} (qsort : Sorter α)
    (compares : ∀ a ∈ list, ∀ b ∈ list, compare a b ≤ 0 ↔ key a ≤ key b) :
    Ordered key list (qsort.sort compare list) := by
  have consistent : Consistent compare list := by
    constructor
    · intro a first b second
      rw [compares a first b second, compares b second a first]
      exact le_total _ _
    · intro a first b second c third
      rw [compares a first b second, compares b second c third, compares a first c third]
      exact le_trans
  refine ⟨qsort.perm compare list, ?_⟩
  refine (qsort.sorted compare list consistent).imp_of_mem fun {a b} first second below => ?_
  rw [(qsort.perm compare list).mem_iff] at first second
  exact (compares a first b second).mp below

theorem pairwise_insertionSort {compare : α → α → Int} {list : List α}
    (consistent : Consistent compare list) :
    (list.insertionSort (fun a b => compare a b ≤ 0)).Pairwise (fun a b => compare a b ≤ 0) := by
  let below (a b : {a // a ∈ list}) : Prop := compare a.1 b.1 ≤ 0
  have total : Std.Total below := ⟨fun a b => consistent.total a.1 a.2 b.1 b.2⟩
  have trans : IsTrans {a // a ∈ list} below :=
    ⟨fun a b c => consistent.trans a.1 a.2 b.1 b.2 c.1 c.2⟩
  have decidable : DecidableRel below :=
    fun a b => inferInstanceAs (Decidable (compare a.1 b.1 ≤ 0))
  have sorted := List.pairwise_insertionSort below list.attach
  have same := List.map_insertionSort below (fun a b => compare a b ≤ 0) Subtype.val list.attach
    (fun _ _ _ _ => Iff.rfl)
  rw [List.attach_map_subtype_val] at same
  rw [← same, List.pairwise_map]
  exact sorted

def Sorter.insertion : Sorter α where
  sort compare list := list.insertionSort (fun a b => compare a b ≤ 0)
  perm _ list := List.perm_insertionSort _ list
  sorted _ _ consistent := pairwise_insertionSort consistent

/-! ## Every sorting function -/

/-- Any permutation may come out that is in order where the elements are. -/
theorem Sorter.exists_sort_eq {compare : α → α → Int} {list result : List α}
    (perm : result.Perm list)
    (sorted : Consistent compare list → result.Pairwise (fun a b => compare a b ≤ 0)) :
    ∃ qsort : Sorter α, qsort.sort compare list = result := by
  classical
  refine ⟨⟨fun other nodes => if other = compare ∧ nodes = list then result
    else Sorter.insertion.sort other nodes, fun other nodes => ?_,
    fun other nodes consistent => ?_⟩, if_pos ⟨rfl, rfl⟩⟩
  · split
    · rename_i same
      rw [same.2]
      exact perm
    · exact Sorter.insertion.perm other nodes
  · split
    · rename_i same
      obtain ⟨rfl, rfl⟩ := same
      exact sorted consistent
    · exact Sorter.insertion.sorted other nodes consistent

theorem sublist_orderedInsert (below : α → α → Prop) [DecidableRel below] {a b : α}
    {list : List α} (member : a ∈ list) (precedes : below b a) :
    [b, a].Sublist (list.orderedInsert below b) := by
  induction list with
  | nil => cases member
  | cons first rest ih =>
    rw [List.orderedInsert]
    split
    · exact (List.singleton_sublist.mpr member).cons_cons b
    · rename_i behind
      rcases List.mem_cons.mp member with rfl | later
      · exact absurd precedes behind
      · exact (ih later).cons first

/-- Every sorting function orders a list by its keys exactly if the comparison
function has the right sign for elements with different keys. -/
theorem forall_ordered_iff {κ : Type} [LinearOrder κ] {key : α → κ} {compare : α → α → Int}
    {list : List α} (equal : ∀ a ∈ list, ∀ b ∈ list, key a = key b → compare a b ≤ 0) :
    (∀ qsort : Sorter α, Ordered key list (qsort.sort compare list)) ↔
      ∀ a ∈ list, ∀ b ∈ list, key a < key b → compare a b ≤ 0 ∧ 0 < compare b a := by
  classical
  constructor
  · intro ordered a first b second less
    -- No sorting function may bring `b` before `a`.
    have never {result : List α} (perm : result.Perm list)
        (sorted : Consistent compare list → result.Pairwise (fun a b => compare a b ≤ 0)) :
        ¬ [b, a].Sublist result := by
      obtain ⟨qsort, same⟩ := Sorter.exists_sort_eq perm sorted
      intro before
      have wrong := (same ▸ ordered qsort).ascending.sublist before
      exact less.not_ge (List.rel_of_pairwise_cons wrong List.mem_cons_self)
    have other : a ∈ list.erase b := (List.mem_erase_of_ne (ne_of_apply_ne key less.ne)).mpr first
    have front : (b :: list.erase b).Perm list := (List.perm_cons_erase second).symm
    have after : 0 < compare b a := by
      by_contra precedes
      refine never ((List.perm_insertionSort _ _).trans front) (fun consistent => ?_)
        (sublist_orderedInsert (fun a b => compare a b ≤ 0)
          ((List.perm_insertionSort _ _).mem_iff.mpr other) (not_lt.mp precedes))
      exact pairwise_insertionSort
        ⟨fun a first b second => consistent.total a (front.subset first) b (front.subset second),
          fun a first b second c third => consistent.trans a (front.subset first) b
            (front.subset second) c (front.subset third)⟩
    refine ⟨?_, after⟩
    by_contra behind
    refine never front (fun consistent => ?_) ((List.singleton_sublist.mpr other).cons_cons b)
    rcases consistent.total a first b second with before | before
    · exact absurd before behind
    · exact absurd before after.not_ge
  · intro right qsort
    refine qsort.ordered fun a first b second => ⟨fun below => ?_, fun below => ?_⟩
    · by_contra above
      exact (right b second a first (not_le.mp above)).2.not_ge below
    · rcases below.lt_or_eq with less | same
      · exact (right a first b second less).1
      · exact equal a first b second same

end OpsCli.CLib.Qsort
