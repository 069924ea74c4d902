import OpsCli.CLib.Columns

/-!
# Tables of named maps

A table whose rows have a name and a map column.  A handler works on the first
row of a name, which it inserts if there is none, but looks for an entry in all
rows of the name.  As long as names are not repeated, the table is one map for
every name.
-/

namespace OpsCli.CLib.NamedMaps

open Columns List

variable {ι κ ν δ : Type}

/-- A row: its name, its map column and its other columns. -/
structure NamedMap (ι κ ν δ : Type) where
  name : ι
  info : δ
  entries : List (κ × ν)
deriving DecidableEq, Repr

/-- A table, and the arrays that were handed to the setter of the map column,
with the names of the rows. -/
structure MapTable (ι κ ν δ : Type) where
  rows : List (NamedMap ι κ ν δ)
  handed : List (ι × List (κ × ν))
deriving DecidableEq, Repr

def NamedMap.withEntries (pairs : List (κ × ν)) (row : NamedMap ι κ ν δ) : NamedMap ι κ ν δ :=
  { row with entries := pairs }

theorem NamedMap.name_withEntries (pairs : List (κ × ν)) (row : NamedMap ι κ ν δ) :
    (row.withEntries pairs).name = row.name :=
  rfl

def NamedMap.withInfo (info : δ) (row : NamedMap ι κ ν δ) : NamedMap ι κ ν δ :=
  { row with info := info }

theorem NamedMap.name_withInfo (info : δ) (row : NamedMap ι κ ν δ) :
    (row.withInfo info).name = row.name :=
  rfl

def MapTable.empty : MapTable ι κ ν δ :=
  ⟨[], []⟩

variable [DecidableEq ι]

/-! ## Rows -/

def firstNamed (name : ι) (rows : List (NamedMap ι κ ν δ)) : Option (NamedMap ι κ ν δ) :=
  rows.find? (·.name = name)

def entriesOf (name : ι) (rows : List (NamedMap ι κ ν δ)) : List (κ × ν) :=
  ((firstNamed name rows).map (·.entries)).getD []

def changeFirst (name : ι) (change : NamedMap ι κ ν δ → NamedMap ι κ ν δ) :
    List (NamedMap ι κ ν δ) → List (NamedMap ι κ ν δ)
  | [] => []
  | row :: rest =>
    if row.name = name then change row :: rest
    else row :: changeFirst name change rest

def ensureNamed (blank : δ) (name : ι) (rows : List (NamedMap ι κ ν δ)) : List (NamedMap ι κ ν δ) :=
  if (firstNamed name rows).isSome then rows else rows ++ [⟨name, blank, []⟩]

variable {name other : ι} {rows : List (NamedMap ι κ ν δ)} {row : NamedMap ι κ ν δ}

section

variable (found : firstNamed name rows = some row)
include found

theorem name_of_firstNamed : row.name = name := by
  have named := find?_some found
  exact of_decide_eq_true named

theorem mem_of_firstNamed : row ∈ rows :=
  mem_of_find?_eq_some found

theorem entriesOf_eq : entriesOf name rows = row.entries := by
  unfold entriesOf
  rw [found]
  rfl

end

theorem mem_changeFirst {change : NamedMap ι κ ν δ → NamedMap ι κ ν δ}
    (member : row ∈ changeFirst name change rows) :
    row ∈ rows ∨ ∃ first ∈ rows, row = change first := by
  induction rows with
  | nil => exact .inl member
  | cons first rest ih =>
    unfold changeFirst at member
    split at member
    · rcases mem_cons.mp member with rfl | old
      · exact .inr ⟨first, mem_cons_self, rfl⟩
      · exact .inl (mem_cons_of_mem _ old)
    · rcases mem_cons.mp member with rfl | later
      · exact .inl mem_cons_self
      · rcases ih later with old | ⟨changed, inside, equal⟩
        · exact .inl (mem_cons_of_mem _ old)
        · exact .inr ⟨changed, mem_cons_of_mem _ inside, equal⟩

section

variable {change : NamedMap ι κ ν δ → NamedMap ι κ ν δ}
  (keepsName : ∀ row, (change row).name = row.name)
include keepsName

theorem names_changeFirst (rows : List (NamedMap ι κ ν δ)) :
    (changeFirst name change rows).map (·.name) = rows.map (·.name) := by
  induction rows with
  | nil => rfl
  | cons row rest ih =>
    unfold changeFirst
    split
    · rw [map_cons, map_cons, keepsName]
    · rw [map_cons, map_cons, ih]

theorem firstNamed_changeFirst (rows : List (NamedMap ι κ ν δ)) :
    firstNamed name (changeFirst name change rows) = (firstNamed name rows).map change := by
  induction rows with
  | nil => rfl
  | cons row rest ih =>
    unfold changeFirst
    by_cases named : row.name = name
    · have changed : (change row).name = name := (keepsName row).trans named
      simp [firstNamed, named, changed]
    · rw [if_neg named]
      unfold firstNamed at ih ⊢
      rw [find?_cons_of_neg (by simpa using named), find?_cons_of_neg (by simpa using named)]
      exact ih

theorem firstNamed_changeFirst_of_ne (differs : other ≠ name) (rows : List (NamedMap ι κ ν δ)) :
    firstNamed other (changeFirst name change rows) = firstNamed other rows := by
  induction rows with
  | nil => rfl
  | cons row rest ih =>
    unfold changeFirst
    by_cases named : row.name = name
    · have here : row.name ≠ other := fun same => differs (same.symm.trans named)
      have there : (change row).name ≠ other := by
        rw [keepsName]
        exact here
      rw [if_pos named]
      unfold firstNamed
      rw [find?_cons_of_neg (by simpa using there), find?_cons_of_neg (by simpa using here)]
    · rw [if_neg named]
      unfold firstNamed at ih ⊢
      rw [find?_cons, find?_cons, ih]

end

def eraseFirst (name : ι) (rows : List (NamedMap ι κ ν δ)) : List (NamedMap ι κ ν δ) :=
  rows.eraseP (·.name = name)

theorem firstNamed_eraseFirst (unique : (rows.map (·.name)).Nodup) :
    firstNamed name (eraseFirst name rows) = none := by
  unfold firstNamed eraseFirst
  induction rows with
  | nil => rfl
  | cons row rest ih =>
    obtain ⟨new, distinct⟩ := nodup_cons.mp unique
    by_cases named : row.name = name
    · rw [eraseP_cons_of_pos (by simpa using named), find?_eq_none]
      intro other member same
      exact new (mem_map.mpr ⟨other, member, (of_decide_eq_true same).trans named.symm⟩)
    · rw [eraseP_cons_of_neg (by simpa using named), find?_cons_of_neg (by simpa using named)]
      exact ih distinct

theorem firstNamed_ensureNamed (blank : δ) (name : ι) (rows : List (NamedMap ι κ ν δ)) :
    firstNamed name (ensureNamed blank name rows) =
      some ((firstNamed name rows).getD ⟨name, blank, []⟩) := by
  unfold ensureNamed
  cases found : firstNamed name rows with
  | some row => exact found
  | none =>
    change (rows ++ [_]).find? _ = _
    rw [find?_append]
    change (firstNamed name rows).or _ = _
    rw [found]
    simp

theorem firstNamed_ensureNamed_of_ne (differs : other ≠ name) (blank : δ)
    (rows : List (NamedMap ι κ ν δ)) :
    firstNamed other (ensureNamed blank name rows) = firstNamed other rows := by
  unfold ensureNamed
  split
  · rfl
  · unfold firstNamed
    rw [find?_append]
    simp [Ne.symm differs]

theorem entriesOf_ensureNamed (blank : δ) (name other : ι) (rows : List (NamedMap ι κ ν δ)) :
    entriesOf other (ensureNamed blank name rows) = entriesOf other rows := by
  by_cases same : other = name
  · subst same
    unfold entriesOf
    rw [firstNamed_ensureNamed]
    cases firstNamed other rows with
    | none => rfl
    | some row => rfl
  · unfold entriesOf
    rw [firstNamed_ensureNamed_of_ne same]

theorem mem_ensureNamed {blank : δ} : row ∈ ensureNamed blank name rows →
      row ∈ rows ∨ row = ⟨name, blank, []⟩ := by
  unfold ensureNamed
  split
  · exact .inl
  · intro member
    rcases mem_append.mp member with old | new
    · exact .inl old
    · exact .inr (mem_singleton.mp new)

theorem names_ensureNamed_nodup (blank : δ) (name : ι) (unique : (rows.map (·.name)).Nodup) :
    ((ensureNamed blank name rows).map (·.name)).Nodup := by
  unfold ensureNamed
  split
  · exact unique
  · rename_i absent
    rw [map_append]
    refine nodup_append.mpr ⟨unique, nodup_singleton _, ?_⟩
    rintro old member last isLast rfl
    obtain ⟨row, inside, named⟩ := mem_map.mp member
    apply absent
    unfold firstNamed
    rw [find?_isSome]
    refine ⟨row, inside, ?_⟩
    rw [decide_eq_true_eq, named]
    exact mem_singleton.mp isLast

theorem eq_of_firstNamed (unique : (rows.map (·.name)).Nodup) {other : NamedMap ι κ ν δ}
    (found : firstNamed name rows = some row) (member : other ∈ rows) (named : other.name = name) :
    other = row :=
  inj_on_of_nodup_map unique member (mem_of_firstNamed found)
    (named.trans (name_of_firstNamed found).symm)

/-! ## Entries -/

section

variable (column : MapColumn κ ν)

def MapTable.setEntries (table : MapTable ι κ ν δ) (name : ι)
    (pairs : List (κ × ν)) : MapTable ι κ ν δ where
  rows := changeFirst name (NamedMap.withEntries (column.arrange pairs)) table.rows
  handed := table.handed ++ [(name, pairs)]

variable {update : Update κ ν}
  {table : MapTable ι κ ν δ} {pairs : List (κ × ν)}

theorem MapTable.entriesOf_setEntries (found : firstNamed name table.rows = some row) :
    entriesOf name (table.setEntries column name pairs).rows = column.arrange pairs := by
  have changed : firstNamed name (table.setEntries column name pairs).rows =
      some (row.withEntries (column.arrange pairs)) := by
    unfold MapTable.setEntries
    rw [firstNamed_changeFirst (NamedMap.name_withEntries _), found]
    rfl
  exact entriesOf_eq changed

def MapTable.append (row : NamedMap ι κ ν δ) (key : κ) (value : ν)
    (table : MapTable ι κ ν δ) : MapTable ι κ ν δ :=
  table.setEntries column row.name (row.entries ++ [(key, value)])

variable [DecidableEq κ]

def MapTable.remove (row : NamedMap ι κ ν δ) (key : κ)
    (table : MapTable ι κ ν δ) : Option (MapTable ι κ ν δ) :=
  (without key row.entries).map (table.setEntries column row.name)

variable (agree : ν → ν → Bool)

def isFound (name : ι) (update : Update κ ν) (rows : List (NamedMap ι κ ν δ)) : Bool :=
  rows.any fun row => row.name = name && update.isPresent agree row.entries

def MapTable.store (blank : δ) (name : ι) (update : Update κ ν)
    (table : MapTable ι κ ν δ) : MapTable ι κ ν δ :=
  let table := { table with rows := ensureNamed blank name table.rows }
  if isFound agree name update table.rows then table
  else
    match firstNamed name table.rows with
    | none => table
    | some row => table.append column row update.key update.value

theorem isFound_iff : isFound agree name update rows ↔ ∃ row ∈ rows, row.name = name ∧
        update.isPresent agree row.entries := by
  unfold isFound
  rw [any_eq_true]
  constructor
  · rintro ⟨row, member, both⟩
    rw [Bool.and_eq_true, decide_eq_true_eq] at both
    exact ⟨row, member, both⟩
  · rintro ⟨row, member, named, present⟩
    refine ⟨row, member, ?_⟩
    rw [Bool.and_eq_true, decide_eq_true_eq]
    exact ⟨named, present⟩

/-- Where names are not repeated, the first row of the name is searched. -/
theorem isFound_eq_isPresent (unique : (rows.map (·.name)).Nodup) : isFound agree name update rows =
      update.isPresent agree (entriesOf name rows) := by
  rw [Bool.eq_iff_iff, isFound_iff]
  cases found : firstNamed name rows with
  | none =>
    have noEntries : entriesOf name rows = [] := by
      unfold entriesOf
      rw [found]
      rfl
    rw [noEntries]
    refine iff_of_false ?_ Bool.false_ne_true
    rintro ⟨row, member, named, _⟩
    have absent := find?_eq_none.mp found row member
    exact absent (decide_eq_true named)
  | some row =>
    rw [entriesOf_eq found]
    constructor
    · rintro ⟨other, member, named, present⟩
      rw [← eq_of_firstNamed unique found member named]
      exact present
    · intro present
      exact ⟨row, mem_of_firstNamed found, name_of_firstNamed found, present⟩

theorem isFound_of_isPresent (found : firstNamed name rows = some row)
    (present : update.isPresent agree row.entries) : isFound agree name update rows :=
  (isFound_iff agree).mpr ⟨row, mem_of_firstNamed found, name_of_firstNamed found, present⟩

theorem isFound_setEntries
    (found : isFound agree name update (table.setEntries column name pairs).rows) :
    isFound agree name update table.rows ∨
      update.isPresent agree (column.arrange pairs) := by
  obtain ⟨row, member, named, present⟩ := (isFound_iff agree).mp found
  rcases mem_changeFirst member with old | ⟨first, _, rfl⟩
  · exact .inl ((isFound_iff agree).mpr ⟨row, old, named, present⟩)
  · exact .inr present

section

variable {column agree} {blank : δ}

theorem MapTable.store_of_found (found : isFound agree name update
      (ensureNamed blank name table.rows)) :
    table.store column agree blank name update =
      { table with rows := ensureNamed blank name table.rows } := by
  unfold MapTable.store
  exact if_pos found

theorem MapTable.store_of_not_found (absent : isFound agree name update
      (ensureNamed blank name table.rows) = false) :
    table.store column agree blank name update = MapTable.setEntries column
        { table with rows := ensureNamed blank name table.rows } name
        (entriesOf name table.rows ++ [(update.key, update.value)]) := by
  have found := firstNamed_ensureNamed blank name table.rows
  have entries := entriesOf_eq found
  rw [entriesOf_ensureNamed] at entries
  unfold MapTable.store
  dsimp only
  rw [absent, if_neg Bool.false_ne_true, found]
  dsimp only
  unfold MapTable.append
  rw [name_of_firstNamed found, ← entries]

end

/-! ## One map for every name -/

/-- The map of a name, with the arrays that were handed over for it. -/
def MapTable.mapOf (name : ι) (table : MapTable ι κ ν δ) : Entries κ ν where
  pairs := entriesOf name table.rows
  handed := (table.handed.filter (·.1 = name)).map Prod.snd

def MapTable.Unique (table : MapTable ι κ ν δ) : Prop :=
  (table.rows.map (·.name)).Nodup

section

variable (blank : δ) (name : ι) (update : Update κ ν)

theorem MapTable.Unique.store (unique : table.Unique) :
    (table.store column agree blank name update).Unique := by
  have ensured := names_ensureNamed_nodup blank name unique
  cases found : isFound agree name update (ensureNamed blank name table.rows) with
  | true =>
    rw [MapTable.store_of_found found]
    exact ensured
  | false =>
    rw [MapTable.store_of_not_found found]
    unfold MapTable.Unique MapTable.setEntries
    rw [names_changeFirst (NamedMap.name_withEntries _)]
    exact ensured

theorem MapTable.mapOf_store (unique : table.Unique) :
    (table.store column agree blank name update).mapOf name =
      (table.mapOf name).update column agree update := by
  have search : isFound agree name update (ensureNamed blank name table.rows) =
      update.isPresent agree (entriesOf name (ensureNamed blank name table.rows)) :=
    isFound_eq_isPresent agree (names_ensureNamed_nodup blank name unique)
  rw [entriesOf_ensureNamed] at search
  unfold Entries.update
  cases found : update.isPresent agree (entriesOf name table.rows) with
  | true =>
    have present : update.isPresent agree (table.mapOf name).pairs := found
    rw [MapTable.store_of_found (search.trans found), if_pos present]
    unfold MapTable.mapOf
    rw [entriesOf_ensureNamed]
  | false =>
    have absent : ¬ update.isPresent agree (table.mapOf name).pairs := ne_true_of_eq_false found
    rw [MapTable.store_of_not_found (search.trans found), if_neg absent]
    have stored : ∀ pairs, entriesOf name (MapTable.setEntries column
          { table with rows := ensureNamed blank name table.rows } name
          pairs).rows = column.arrange pairs := by
      intro pairs
      exact MapTable.entriesOf_setEntries column (firstNamed_ensureNamed blank name table.rows)
    unfold MapTable.mapOf
    rw [stored]
    simp [MapTable.setEntries]

theorem MapTable.firstNamed_store_of_ne (differs : other ≠ name) :
    firstNamed other (table.store column agree blank name update).rows =
      firstNamed other table.rows := by
  cases found : isFound agree name update (ensureNamed blank name table.rows) with
  | true =>
    rw [MapTable.store_of_found found]
    exact firstNamed_ensureNamed_of_ne differs blank table.rows
  | false =>
    rw [MapTable.store_of_not_found found]
    unfold MapTable.setEntries
    rw [firstNamed_changeFirst_of_ne (NamedMap.name_withEntries _) differs,
      firstNamed_ensureNamed_of_ne differs]

theorem MapTable.mapOf_store_of_ne (differs : other ≠ name) :
    (table.store column agree blank name update).mapOf other = table.mapOf other := by
  unfold MapTable.mapOf entriesOf
  rw [MapTable.firstNamed_store_of_ne column agree blank name update differs]
  cases found : isFound agree name update (ensureNamed blank name table.rows) with
  | true => rw [MapTable.store_of_found found]
  | false =>
    rw [MapTable.store_of_not_found found]
    simp [MapTable.setEntries, Ne.symm differs]

end

def MapTable.run (blank : δ) (updates : List (ι × Update κ ν)) : MapTable ι κ ν δ :=
  updates.foldl (fun table entry => table.store column agree blank entry.1 entry.2) MapTable.empty

def updatesFor (name : ι) (updates : List (ι × Update κ ν)) : List (Update κ ν) :=
  (updates.filter (·.1 = name)).map Prod.snd

theorem MapTable.mapOf_run (blank : δ) (name : ι) (updates : List (ι × Update κ ν)) :
    (MapTable.run column agree blank updates).Unique ∧
      (MapTable.run column agree blank updates).mapOf name =
        Entries.run column agree (updatesFor name updates) := by
  induction updates using List.reverseRecOn with
  | nil => exact ⟨nodup_nil, rfl⟩
  | append_singleton before entry ih =>
    obtain ⟨unique, same⟩ := ih
    obtain ⟨target, update⟩ := entry
    have step : MapTable.run column agree blank (before ++ [(target, update)]) =
        (MapTable.run column agree blank before).store column agree blank target update := by
      unfold MapTable.run
      rw [foldl_append]
      rfl
    rw [step]
    refine ⟨unique.store column agree blank target update, ?_⟩
    by_cases here : name = target
    · subst here
      have last : updatesFor name (before ++ [(name, update)]) =
          updatesFor name before ++ [update] := by
        simp [updatesFor]
      rw [MapTable.mapOf_store column agree blank name update unique, same, last,
        Entries.run_append]
    · have last : updatesFor name (before ++ [(target, update)]) = updatesFor name before := by
        simp [updatesFor, Ne.symm here]
      rw [MapTable.mapOf_store_of_ne column agree blank target update here, same, last]

end

end OpsCli.CLib.NamedMaps
