import Mathlib.Data.List.Infix

/-!
# Common prefixes of lists

The number of leading elements that two lists share bounds the length of a
common prefix.  For a set of lists the longest common prefix is determined by
the lists that it is compared with in a chain.
-/

namespace OpsCli.CLib.CommonPrefix

open List

variable {α : Type} [DecidableEq α] {rest : List (List α)} {part list : List α}

/-- The number of leading elements that two lists share. -/
def commonLength : List α → List α → Nat
  | [], _ => 0
  | _ :: _, [] => 0
  | a :: first, b :: second =>
    if a = b then commonLength first second + 1 else 0

/-- A prefix of the first list is one of the second list exactly when it is
not longer than the part that they share. -/
theorem length_le_commonLength_iff {first second : List α} (start : part <+: first) :
    part.length ≤ commonLength first second ↔ part <+: second := by
  induction part generalizing first second with
  | nil => exact iff_of_true (Nat.zero_le _) nil_prefix
  | cons a part ih =>
    obtain ⟨rest, rfl⟩ := start
    cases second with
    | nil => simp [commonLength]
    | cons b second =>
      rw [cons_append, commonLength, cons_prefix_cons]
      by_cases same : a = b
      · rw [if_pos same, length_cons, Nat.add_le_add_iff_right, ih (prefix_append part rest)]
        simp [same]
      · rw [if_neg same]
        simp [same]

theorem commonLength_le_left (first second : List α) :
    commonLength first second ≤ first.length := by
  induction first generalizing second with
  | nil => exact Nat.zero_le _
  | cons a first ih =>
    cases second with
    | nil => exact Nat.zero_le _
    | cons b second =>
      rw [commonLength]
      split
      · exact Nat.succ_le_succ (ih second)
      · exact Nat.zero_le _

/-- The longest list that every member of a set of lists begins with. -/
structure IsLongest (member : List α → Prop) (part : List α) : Prop where
  common : ∀ list, member list → part <+: list
  longest : ∀ other, (∀ list, member list → other <+: list) → other.length ≤ part.length

/-- The shared length along a chain of lists that starts with `list`, but at
most `bound`. -/
def chainLength (list : List α) : List (List α) → Nat → Nat
  | [], bound => bound
  | next :: rest, bound =>
    chainLength next rest (if commonLength list next < bound then commonLength list next
        else bound)

theorem chainLength_le (list : List α) (rest : List (List α)) (bound : Nat) :
    chainLength list rest bound ≤ bound := by
  induction rest generalizing list bound with
  | nil => exact le_refl _
  | cons next rest ih =>
    rw [chainLength]
    refine (ih next _).trans ?_
    split
    · rename_i shorter
      exact shorter.le
    · exact le_refl _

theorem length_le_chainLength_iff {bound : Nat} (start : part <+: list) :
    part.length ≤ chainLength list rest bound ↔
      part.length ≤ bound ∧ ∀ next ∈ rest, part <+: next := by
  induction rest generalizing list bound with
  | nil => simp [chainLength]
  | cons next rest ih =>
    have smaller : part.length ≤ (if commonLength list next < bound then
        commonLength list next else bound) ↔
        part.length ≤ bound ∧ part <+: next := by
      rw [← length_le_commonLength_iff start]
      split
      · rename_i shorter
        exact ⟨fun le => ⟨le.trans shorter.le, le⟩, And.right⟩
      · rename_i notShorter
        exact ⟨fun le => ⟨le, le.trans (Nat.le_of_not_lt notShorter)⟩, And.left⟩
    rw [chainLength]
    constructor
    · intro le
      obtain ⟨short, common⟩ := smaller.mp (le.trans (chainLength_le next rest _))
      obtain ⟨_, others⟩ := (ih common).mp le
      exact ⟨short, forall_mem_cons.mpr ⟨common, others⟩⟩
    · rintro ⟨short, common⟩
      obtain ⟨here, others⟩ := forall_mem_cons.mp common
      exact (ih here).mpr ⟨smaller.mpr ⟨short, here⟩, others⟩

/-- Comparing neighbours finds the longest common prefix. -/
theorem isLongest_chain {next : List α} :
    IsLongest (· ∈ list :: next :: rest)
      (list.take (chainLength next rest (commonLength list next))) := by
  have bounded : chainLength next rest (commonLength list next) ≤ list.length :=
    (chainLength_le _ _ _).trans (commonLength_le_left list next)
  have size := length_take_of_le bounded
  have start : list.take (chainLength next rest
      (commonLength list next)) <+: list := take_prefix _ _
  have second := (length_le_commonLength_iff start).mp (size.le.trans (chainLength_le _ _ _))
  have others := ((length_le_chainLength_iff second).mp size.le).2
  constructor
  · intro member inside
    rcases mem_cons.mp inside with rfl | inside
    · exact start
    rcases mem_cons.mp inside with rfl | inside
    · exact second
    · exact others member inside
  · intro other common
    have first := common list mem_cons_self
    have after := common next (mem_cons_of_mem _ mem_cons_self)
    rw [size, length_le_chainLength_iff after]
    refine ⟨(length_le_commonLength_iff first).mpr after, ?_⟩
    intro member inside
    exact common member (mem_cons_of_mem _ (mem_cons_of_mem _ inside))

end OpsCli.CLib.CommonPrefix
