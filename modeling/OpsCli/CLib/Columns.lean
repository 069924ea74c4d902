import Mathlib.Data.List.Induction
import Mathlib.Data.List.Nodup
import Mathlib.Data.List.Perm.Basic

/-!
# Columns of a database

A handler changes a column by copying what it keeps into an array of a size
that it computes beforehand, and hands the whole array to a setter.  A map
column is an array of pairs of a key and a value; the database may arrange the
pairs in an order of its own.
-/

namespace OpsCli.CLib.Columns

open List

variable {α κ ν : Type} {pairs : List (κ × ν)} {pair : κ × ν} {capacity : Int} {kept : List α}

/-! ## Arrays of a computed size -/

/--
An array of `size` slots that is filled from the front and handed over as a
whole.

There is no defined result if a slot is left unset or if more than the slots of
the array are written.
-/
def filled (size : Int) (kept : List α) : Option (List α) :=
  if (kept.length : Int) = size then some kept else none

/-- An array with one slot less than there are elements is filled exactly if
one element is left out. -/
theorem filled_filter (keep : α → Bool) (list : List α) :
    filled ((list.length : Int) - 1) (list.filter keep) =
      if list.countP (fun a => !keep a) = 1 then some (list.filter keep)
      else none := by
  have split := length_eq_countP_add_countP keep (l := list)
  have others : list.countP (fun a => decide ¬ keep a) = list.countP fun a => !keep a := by
    refine countP_congr fun a _ => ?_
    simp
  rw [others, countP_eq_length_filter] at split
  unfold filled
  refine if_congr ?_ rfl rfl
  constructor
  · intro fits
    omega
  · intro one
    omega

/--
An array with room for `capacity` elements, of which the first `size` are
handed over.

There is no defined result if more is written than there is room for, or if an
element is handed over that was not set.
-/
def handOver (capacity size : Int) (kept : List α) : Option (List α) :=
  if (kept.length : Int) ≤ capacity ∧ 0 ≤ size ∧ size ≤ kept.length then
    some (kept.take size.toNat)
  else none

theorem length_of_handOver {size : Int} {result : List α}
    (handed : handOver capacity size kept = some result) : (result.length : Int) = size := by
  unfold handOver at handed
  split at handed
  · cases handed
    rw [length_take]
    omega
  · cases handed

theorem handOver_length (room : (kept.length : Int) ≤ capacity) :
    handOver capacity kept.length kept = some kept := by
  unfold handOver
  rw [if_pos ⟨room, by omega, by omega⟩, Int.toNat_natCast, take_length]

/-- How a database keeps a set column: distinct elements are kept in some
order. -/
structure SetColumn (α : Type) where
  arrange : List α → List α
  arrange_perm : ∀ {elements : List α}, elements.Nodup → (arrange elements).Perm elements

def SetColumn.plain : SetColumn α where
  arrange elements := elements
  arrange_perm _ := List.Perm.refl _

/-! ## Maps -/

def keys (pairs : List (κ × ν)) : List κ :=
  pairs.map Prod.fst

@[simp]
theorem keys_nil : keys ([] : List (κ × ν)) = [] :=
  rfl

theorem keys_append (first second : List (κ × ν)) :
    keys (first ++ second) = keys first ++ keys second :=
  map_append

variable {key : κ}

theorem mem_keys_of_mem {value : ν} (member : (key, value) ∈ pairs) : key ∈ keys pairs :=
  mem_map_of_mem member

theorem exists_mem_of_mem_keys (member : key ∈ keys pairs) : ∃ value, (key, value) ∈ pairs := by
  obtain ⟨⟨_, value⟩, inside, rfl⟩ := mem_map.mp member
  exact ⟨value, inside⟩

theorem value_unique (distinct : (keys pairs).Nodup) {first second : ν} (one : (key, first) ∈ pairs)
    (two : (key, second) ∈ pairs) : first = second :=
  congrArg Prod.snd (inj_on_of_nodup_map distinct one two rfl)

theorem keys_nodup_append (distinct : (keys pairs).Nodup) (new : key ∉ keys pairs) (value : ν) :
    (keys (pairs ++ [(key, value)])).Nodup := by
  rw [keys_append]
  refine nodup_append.mpr ⟨distinct, nodup_singleton key, ?_⟩
  rintro old member last isLast rfl
  cases mem_singleton.mp isLast
  exact new member

/-- How a database keeps a map column: pairs with distinct keys are kept in
some order.  Of pairs with one key it may keep any, but every key stays. -/
structure MapColumn (κ ν : Type) where
  arrange : List (κ × ν) → List (κ × ν)
  arrange_perm : ∀ {pairs : List (κ × ν)}, (keys pairs).Nodup → (arrange pairs).Perm pairs
  arrange_subset : ∀ pairs : List (κ × ν), arrange pairs ⊆ pairs
  keys_subset : ∀ pairs : List (κ × ν), keys pairs ⊆ keys (arrange pairs)

def MapColumn.plain : MapColumn κ ν where
  arrange pairs := pairs
  arrange_perm _ := List.Perm.refl _
  arrange_subset _ := List.Subset.refl _
  keys_subset _ := List.Subset.refl _

namespace MapColumn

variable (column : MapColumn κ ν) (distinct : (keys pairs).Nodup)
include distinct

theorem mem_arrange : pair ∈ column.arrange pairs ↔ pair ∈ pairs :=
  (column.arrange_perm distinct).mem_iff

theorem keys_arrange_nodup : (keys (column.arrange pairs)).Nodup :=
  ((column.arrange_perm distinct).map Prod.fst).nodup_iff.mpr distinct

theorem mem_arrange_append {key : κ} (new : key ∉ keys pairs) (value : ν) :
    (key, value) ∈ column.arrange (pairs ++ [(key, value)]) :=
  (column.mem_arrange (keys_nodup_append distinct new value)).mpr
    (mem_append_right _ mem_cons_self)

end MapColumn

/-! ## Removing a key -/

section

variable [DecidableEq κ]

/-- The pairs of other keys are copied into an array with one slot less. -/
def without (key : κ) (pairs : List (κ × ν)) : Option (List (κ × ν)) :=
  filled ((pairs.length : Int) - 1) (pairs.filter (·.1 ≠ key))

theorem filter_of_not_mem (absent : key ∉ keys pairs) : pairs.filter (·.1 ≠ key) = pairs := by
  refine filter_eq_self.mpr ?_
  rintro ⟨other, value⟩ member
  refine decide_eq_true ?_
  rintro rfl
  exact absent (mem_keys_of_mem member)

theorem without_of_not_mem (absent : key ∉ keys pairs) : without key pairs = none := by
  unfold without filled
  rw [filter_of_not_mem absent]
  refine if_neg ?_
  omega

theorem without_of_mem (distinct : (keys pairs).Nodup) (member : key ∈ keys pairs) :
    without key pairs = some (pairs.filter (·.1 ≠ key)) := by
  have once : pairs.countP (fun pair => !decide (pair.1 ≠ key)) = 1 := by
    have count := count_eq_one_of_mem distinct member
    unfold keys at count
    rw [List.count, countP_map] at count
    rw [← count]
    refine countP_congr fun pair _ => ?_
    simp
  unfold without
  rw [filled_filter, if_pos once]

theorem without_arrange_append (column : MapColumn κ ν) (distinct : (keys pairs).Nodup)
    (new : key ∉ keys pairs) (value : ν) :
    ∃ kept, without key (column.arrange (pairs ++ [(key, value)])) = some kept ∧
      kept.Perm pairs := by
  have kept : (pairs ++ [(key, value)]).filter (·.1 ≠ key) = pairs := by
    rw [filter_append, filter_of_not_mem new]
    simp
  have stored := column.arrange_perm (keys_nodup_append distinct new value)
  have perm := stored.filter (·.1 ≠ key)
  rw [kept] at perm
  refine ⟨_, if_pos ?_, perm⟩
  rw [perm.length_eq, stored.length_eq, length_append]
  simp

end

/-! ## Values of keys -/

section

variable [DecidableEq κ]

def valueOf (key : κ) (pairs : List (κ × ν)) : Option ν :=
  (pairs.find? (·.1 = key)).map Prod.snd

/-- The value of a key is replaced, or the key is appended. -/
def assign (key : κ) (value : ν) : List (κ × ν) → List (κ × ν)
  | [] => [(key, value)]
  | pair :: rest =>
    if pair.1 = key then (key, value) :: rest
    else pair :: assign key value rest

theorem valueOf_cons (key : κ) (pair : κ × ν) (rest : List (κ × ν)) : valueOf key (pair :: rest) =
      if pair.1 = key then some pair.2 else valueOf key rest := by
  unfold valueOf
  by_cases same : pair.1 = key <;> simp [same]

@[simp]
theorem valueOf_assign (key other : κ) (value : ν) (pairs : List (κ × ν)) :
    valueOf other (assign key value pairs) =
      if key = other then some value else valueOf other pairs := by
  induction pairs with
  | nil => rw [assign, valueOf_cons]
  | cons pair rest ih =>
    rw [assign]
    by_cases here : pair.1 = key
    · rw [if_pos here, valueOf_cons, valueOf_cons, here]
      by_cases same : key = other <;> simp [same]
    · rw [if_neg here, valueOf_cons, valueOf_cons, ih]
      by_cases same : key = other
      · rw [same] at here
        simp [same, here]
      · simp [same]

theorem valueOf_append (key : κ) (first second : List (κ × ν)) : valueOf key (first ++ second) =
      (valueOf key first).or (valueOf key second) := by
  unfold valueOf
  rw [find?_append, Option.map_or]

theorem valueOf_eq_none {key : κ} (absent : key ∉ keys pairs) : valueOf key pairs = none := by
  simp only [keys, mem_map, not_exists, not_and] at absent
  simpa [valueOf] using fun other value member same => absent (other, value) member same

theorem valueOf_filter (key other : κ) (pairs : List (κ × ν)) :
    valueOf other (pairs.filter (·.1 ≠ key)) =
      if key = other then none else valueOf other pairs := by
  induction pairs with
  | nil => exact (ite_self _).symm
  | cons pair rest ih =>
    by_cases here : pair.1 = key
    · rw [filter_cons_of_neg (by simp [here]), ih, valueOf_cons, here]
      split <;> rfl
    · rw [filter_cons_of_pos (by simp [here]), valueOf_cons, ih, valueOf_cons]
      by_cases same : key = other
      · simp [same, same ▸ here]
      · simp [same]

end

/-! ## Setting entries one after the other -/

/-- An entry that is to be set: the key and the value to be stored, and the key
under which an entry of this value is looked for. -/
structure Update (κ ν : Type) where
  key : κ
  probe : κ
  value : ν

/-- The entries of a map, and all the arrays that were handed to its
setter. -/
structure Entries (κ ν : Type) where
  pairs : List (κ × ν)
  handed : List (List (κ × ν))

def Entries.empty : Entries κ ν :=
  ⟨[], []⟩

/-- The pairs are a map, and hold exactly what was set. -/
structure Entries.Holds (entries : Entries κ ν) (updates : List (Update κ ν)) : Prop where
  distinct : (keys entries.pairs).Nodup
  mem_iff : ∀ key value, (key, value) ∈ entries.pairs ↔
    ∃ update ∈ updates, update.key = key ∧ update.value = value

theorem Entries.holds_empty : (Entries.empty : Entries κ ν).Holds [] where
  distinct := nodup_nil
  mem_iff key value := by
    refine iff_of_false not_mem_nil ?_
    rintro ⟨update, member, _⟩
    exact not_mem_nil member

section

variable [DecidableEq κ] (column : MapColumn κ ν) (agree : ν → ν → Bool)

/-- An entry that agrees with the value is found under the key that is looked
for. -/
def Update.isPresent (update : Update κ ν) (pairs : List (κ × ν)) : Bool :=
  pairs.any fun pair => pair.1 = update.probe && agree pair.2 update.value

/-- An entry that is not found is appended. -/
def Entries.update (entries : Entries κ ν) (update : Update κ ν) : Entries κ ν :=
  if update.isPresent agree entries.pairs then entries
  else
    let pairs := entries.pairs ++ [(update.key, update.value)]
    ⟨column.arrange pairs, entries.handed ++ [pairs]⟩

def Entries.run (updates : List (Update κ ν)) : Entries κ ν :=
  updates.foldl (Entries.update column agree) Entries.empty

/-- Nothing behind the update is for its key. -/
def LastFor (updates : List (Update κ ν)) (update : Update κ ν) : Prop :=
  ∃ before after, updates = before ++ update :: after ∧ ∀ later ∈ after, later.key ≠ update.key

/-- All arrays were maps, and the last update for a key is what is stored
under it. -/
structure Entries.Keyed (entries : Entries κ ν) (updates : List (Update κ ν)) : Prop where
  distinct : ∀ pairs ∈ entries.handed, (keys pairs).Nodup
  stored : ∀ update, LastFor updates update →
    ∀ value, (update.key, value) ∈ entries.pairs ↔ value = update.value

/-- An update for a key that was used before is found under it. -/
def Repeated (updates : List (Update κ ν)) : Prop :=
  updates.Pairwise fun earlier later => earlier.key = later.key →
    later.probe = later.key ∧ agree earlier.value later.value

theorem Entries.run_append (updates : List (Update κ ν)) (update : Update κ ν) :
    Entries.run column agree (updates ++ [update]) =
      (Entries.run column agree updates).update column agree update := by
  unfold Entries.run
  rw [foldl_append]
  rfl

variable {update : Update κ ν} {entries : Entries κ ν} {updates : List (Update κ ν)}

theorem isPresent_iff : update.isPresent agree pairs ↔
      ∃ value, (update.probe, value) ∈ pairs ∧ agree value update.value := by
  unfold Update.isPresent
  rw [any_eq_true]
  constructor
  · rintro ⟨⟨key, value⟩, member, found⟩
    rw [Bool.and_eq_true, decide_eq_true_eq] at found
    obtain ⟨rfl, agrees⟩ := found
    exact ⟨value, member, agrees⟩
  · rintro ⟨value, member, agrees⟩
    refine ⟨(update.probe, value), member, ?_⟩
    rw [agrees, Bool.and_true]
    exact decide_eq_true rfl

theorem Entries.mem_update (member : pair ∈ (entries.update column agree update).pairs) :
    pair ∈ entries.pairs ∨ pair = (update.key, update.value) := by
  unfold Entries.update at member
  split at member
  · exact .inl member
  · rcases mem_append.mp (column.arrange_subset _ member) with old | new
    · exact .inl old
    · exact .inr (mem_singleton.mp new)

theorem Entries.update_ne_nil (entries : Entries κ ν) (update : Update κ ν) :
    (entries.update column agree update).pairs ≠ [] := by
  unfold Entries.update
  split
  · rename_i present
    obtain ⟨value, stored, _⟩ := (isPresent_iff agree).mp present
    exact ne_nil_of_mem stored
  · intro empty
    have stored : update.key ∈ keys (entries.pairs ++ [(update.key, update.value)]) := by
      rw [keys_append]
      exact mem_append_right _ mem_cons_self
    have kept := column.keys_subset _ stored
    dsimp only at empty
    rw [empty] at kept
    exact not_mem_nil kept

theorem Entries.Holds.append (holds : entries.Holds updates) (new : update.key ∉ keys entries.pairs)
    (absent : update.isPresent agree entries.pairs = false) :
    (entries.update column agree update).Holds (updates ++ [update]) := by
  have distinct := keys_nodup_append holds.distinct new update.value
  unfold Entries.update
  rw [absent, if_neg Bool.false_ne_true]
  refine ⟨column.keys_arrange_nodup distinct, fun key value => ?_⟩
  rw [column.mem_arrange distinct, mem_append, holds.mem_iff]
  constructor
  · rintro (⟨earlier, member, same⟩ | last)
    · exact ⟨earlier, mem_append_left _ member, same⟩
    · have equal := mem_singleton.mp last
      exact ⟨update, mem_append_right _ mem_cons_self,
        (congrArg Prod.fst equal).symm, (congrArg Prod.snd equal).symm⟩
  · rintro ⟨earlier, member, rfl, rfl⟩
    rcases mem_append.mp member with old | last
    · exact .inl ⟨earlier, old, rfl, rfl⟩
    · rw [mem_singleton.mp last]
      exact .inr mem_cons_self

theorem Entries.Holds.repeat (holds : entries.Holds updates)
    (stored : (update.key, update.value) ∈ entries.pairs)
    (present : update.isPresent agree entries.pairs) :
    (entries.update column agree update).Holds (updates ++ [update]) := by
  unfold Entries.update
  rw [if_pos present]
  refine ⟨holds.distinct, fun key value => ?_⟩
  rw [holds.mem_iff]
  constructor
  · rintro ⟨earlier, member, same⟩
    exact ⟨earlier, mem_append_left _ member, same⟩
  · rintro ⟨earlier, member, rfl, rfl⟩
    rcases mem_append.mp member with old | last
    · exact ⟨earlier, old, rfl, rfl⟩
    · rw [mem_singleton.mp last]
      exact (holds.mem_iff _ _).mp stored

/-- The values that agree are equal, and no key is looked for in place of
another one. -/
structure Legible (updates : List (Update κ ν)) : Prop where
  agree_iff : ∀ earlier ∈ updates, ∀ later ∈ updates,
    agree earlier.value later.value ↔ earlier.value = later.value
  apart : ∀ earlier ∈ updates, ∀ later ∈ updates,
    later.probe = earlier.key → later.key = earlier.key

section

variable {agree} {before : List (Update κ ν)}
  (legible : Legible agree (before ++ [update]))
include legible

omit [DecidableEq κ] in
theorem Legible.init : Legible agree before where
  agree_iff earlier one later two :=
    legible.agree_iff earlier (mem_append_left _ one) later (mem_append_left _ two)
  apart earlier one later two :=
    legible.apart earlier (mem_append_left _ one) later (mem_append_left _ two)

theorem Legible.isPresent_iff {entries : Entries κ ν} (holds : entries.Holds before) :
    update.isPresent agree entries.pairs ↔
      ∃ earlier ∈ before, earlier.key = update.key ∧ update.probe = update.key ∧
        agree earlier.value update.value := by
  have last : update ∈ before ++ [update] := mem_append_right _ mem_cons_self
  rw [Columns.isPresent_iff]
  constructor
  · rintro ⟨value, stored, agrees⟩
    obtain ⟨earlier, member, sameKey, rfl⟩ := (holds.mem_iff _ _).mp stored
    have keyEqual := legible.apart earlier (mem_append_left _ member) update last sameKey.symm
    exact ⟨earlier, member, keyEqual.symm, sameKey.symm.trans keyEqual.symm, agrees⟩
  · rintro ⟨earlier, member, sameKey, probed, agrees⟩
    refine ⟨earlier.value, (holds.mem_iff _ _).mpr ⟨earlier, member, ?_, rfl⟩, agrees⟩
    rw [sameKey, probed]

end

/-- As long as updates are repeated, all arrays are maps and what was set is
stored. -/
theorem holds_run (legible : Legible agree updates) (repeated : Repeated agree updates) :
    (Entries.run column agree updates).Holds updates ∧
      ∀ pairs ∈ (Entries.run column agree updates).handed, (keys pairs).Nodup := by
  induction updates using reverseRecOn with
  | nil =>
    refine ⟨Entries.holds_empty, ?_⟩
    intro pairs member
    exact absurd member not_mem_nil
  | append_singleton before update ih =>
    obtain ⟨repeatedBefore, _, repeats⟩ := pairwise_append.mp repeated
    obtain ⟨holds, distinct⟩ := ih legible.init repeatedBefore
    rw [Entries.run_append]
    generalize Entries.run column agree before = entries at holds distinct ⊢
    by_cases used : ∃ earlier ∈ before, earlier.key = update.key
    · obtain ⟨earlier, member, sameKey⟩ := used
      obtain ⟨probed, agrees⟩ := repeats earlier member update mem_cons_self sameKey
      have present := (legible.isPresent_iff holds).mpr ⟨earlier, member, sameKey, probed, agrees⟩
      have equal := (legible.agree_iff earlier (mem_append_left _ member) update
        (mem_append_right _ mem_cons_self)).mp agrees
      have stored : (update.key, update.value) ∈ entries.pairs :=
        (holds.mem_iff _ _).mpr ⟨earlier, member, sameKey, equal⟩
      refine ⟨holds.repeat column agree stored present, ?_⟩
      unfold Entries.update
      rw [if_pos present]
      exact distinct
    · have new : update.key ∉ keys entries.pairs := by
        intro member
        obtain ⟨value, stored⟩ := exists_mem_of_mem_keys member
        obtain ⟨earlier, inside, sameKey, _⟩ := (holds.mem_iff _ _).mp stored
        exact used ⟨earlier, inside, sameKey⟩
      have absent : update.isPresent agree entries.pairs = false := by
        rw [Bool.eq_false_iff]
        intro present
        obtain ⟨earlier, member, sameKey, _⟩ := (legible.isPresent_iff holds).mp present
        exact used ⟨earlier, member, sameKey⟩
      refine ⟨holds.append column agree new absent, ?_⟩
      unfold Entries.update
      rw [absent, if_neg Bool.false_ne_true]
      intro pairs member
      rcases mem_append.mp member with old | last
      · exact distinct pairs old
      · rw [mem_singleton.mp last]
        exact keys_nodup_append holds.distinct new update.value

theorem mem_handed_update (member : pairs ∈ entries.handed) (update : Update κ ν) :
    pairs ∈ (entries.update column agree update).handed := by
  unfold Entries.update
  split
  · exact member
  · exact mem_append_left _ member

/-- An update that is not repeated makes an array with a key twice. -/
theorem exists_not_nodup (legible : Legible agree updates) (changed : ¬ Repeated agree updates) :
    ∃ pairs ∈ (Entries.run column agree updates).handed, ¬ (keys pairs).Nodup := by
  induction updates using reverseRecOn with
  | nil => exact absurd List.Pairwise.nil changed
  | append_singleton before update ih =>
    rw [Entries.run_append]
    by_cases repeatedBefore : Repeated agree before
    · obtain ⟨holds, _⟩ := holds_run column agree legible.init repeatedBefore
      generalize Entries.run column agree before = entries at holds ⊢
      have culprit : ∃ earlier ∈ before, earlier.key = update.key ∧ ¬ (update.probe = update.key ∧
            agree earlier.value update.value) := by
        by_contra none
        refine changed (pairwise_append.mpr ⟨repeatedBefore, pairwise_singleton _ _, ?_⟩)
        intro earlier member later isLast sameKey
        cases mem_singleton.mp isLast
        by_contra differs
        exact none ⟨earlier, member, sameKey, differs⟩
      obtain ⟨earlier, member, sameKey, differs⟩ := culprit
      have stored : (update.key, earlier.value) ∈ entries.pairs :=
        (holds.mem_iff _ _).mpr ⟨earlier, member, sameKey, rfl⟩
      have absent : update.isPresent agree entries.pairs = false := by
        rw [Bool.eq_false_iff]
        intro present
        obtain ⟨other, inside, sameOther, probed, agrees⟩ :=
          (legible.isPresent_iff holds).mp present
        have other_stored : (update.key, other.value) ∈ entries.pairs :=
          (holds.mem_iff _ _).mpr ⟨other, inside, sameOther, rfl⟩
        rw [value_unique holds.distinct other_stored stored] at agrees
        exact differs ⟨probed, agrees⟩
      unfold Entries.update
      rw [absent, if_neg Bool.false_ne_true]
      refine ⟨_, mem_append_right _ mem_cons_self, ?_⟩
      intro distinct
      rw [keys_append] at distinct
      exact (nodup_append.mp distinct).2.2 update.key
        (mem_keys_of_mem stored) update.key mem_cons_self rfl
    · obtain ⟨pairs, member, twice⟩ := ih legible.init repeatedBefore
      exact ⟨pairs, mem_handed_update column agree member update, twice⟩

/-- **Entries stay keyed exactly as long as updates for a key are
repeated.** -/
theorem run_keyed_iff (legible : Legible agree updates) :
    (Entries.run column agree updates).Keyed updates ↔ Repeated agree updates := by
  constructor
  · intro keyed
    by_contra changed
    obtain ⟨pairs, member, twice⟩ := exists_not_nodup column agree legible changed
    exact twice (keyed.distinct pairs member)
  · intro repeated
    obtain ⟨holds, distinct⟩ := holds_run column agree legible repeated
    refine ⟨distinct, ?_⟩
    rintro update ⟨before, after, rfl, _⟩ value
    have stored := (holds.mem_iff update.key update.value).mpr
      ⟨update, mem_append_right _ mem_cons_self, rfl, rfl⟩
    constructor
    · intro member
      exact value_unique holds.distinct member stored
    · rintro rfl
      exact stored

end

end OpsCli.CLib.Columns
