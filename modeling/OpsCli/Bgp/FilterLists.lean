import OpsCli.Bgp.PrefixList
import OpsCli.CLib.Runs

/-!
# AS path and community lists

A list is a row with a name and the columns `permit` and `deny`; a row of a community list also
has a type.  An entry is looked for under its name and type, but it is added to the rows of its
name whatever their type.
-/

namespace OpsCli.Bgp.FilterLists

open CLib CString Columns Runs PrefixList List

inductive Action where
  | permit
  | deny
deriving DecidableEq, Repr

@[ext, grind ext]
structure Entry (τ : Type) where
  type : τ
  name : CStr
  action : Action
  description : CStr
deriving DecidableEq, Repr

structure FilterRow (τ : Type) where
  type : τ
  name : CStr
  entries : Action → List CStr

section

variable {τ : Type} [DecidableEq τ]

def FilterRow.set (action : Action) (entries : List CStr) (row : FilterRow τ) : FilterRow τ :=
  { row with entries := Function.update row.entries action entries }

def Entry.Names (entry : Entry τ) (row : FilterRow τ) : Prop :=
  row.name = entry.name ∧ row.type = entry.type

def Entry.In (entry : Entry τ) (row : FilterRow τ) : Prop :=
  entry.Names row ∧ entry.description ∈ row.entries entry.action

instance (entry : Entry τ) (row : FilterRow τ) : Decidable (entry.Names row) :=
  inferInstanceAs (Decidable (_ ∧ _))

instance (entry : Entry τ) (row : FilterRow τ) : Decidable (entry.In row) :=
  inferInstanceAs (Decidable (_ ∧ _))

def addEntry (entry : Entry τ) (rows : List (FilterRow τ)) : List (FilterRow τ) :=
  if rows.any fun row => entry.In row then rows
  else if rows.any fun row => row.name = entry.name then
    rows.map fun row => if row.name = entry.name then
      row.set entry.action (row.entries entry.action ++ [entry.description]) else row
  else rows ++
    [FilterRow.set entry.action [entry.description] ⟨entry.type, entry.name, fun _ => []⟩]

/-- `policy_set_aspath_filter_in_ovsdb`. -/
def policySetAspathFilterInOvsdb (entry : Entry Unit) (rows : List (FilterRow Unit)) :
    Reply × List (FilterRow Unit) :=
  (.committed, addEntry entry rows)

/-- `policy_no_aspath_filter_in_ovsdb`: the row that is found is deleted. -/
def policyNoAspathFilterInOvsdb (entry : Entry Unit) (rows : List (FilterRow Unit)) :
    Reply × List (FilterRow Unit) :=
  if rows.any fun row => entry.In row then (.committed, rows.eraseP fun row => entry.In row)
  else (.erroneous "filter-list not found", rows)

inductive ListType where
  | community
  | extcommunity
deriving DecidableEq, Repr

/-- `policy_set_community_filter_list_in_ovsdb`. -/
def policySetCommunityFilterListInOvsdb (entry : Entry ListType)
    (rows : List (FilterRow ListType)) : Reply × List (FilterRow ListType) :=
  (.committed, addEntry entry rows)

/-- The entry is left out of an array with one slot less. -/
def Entry.removeFrom (entry : Entry τ) (row : FilterRow τ) : Option (FilterRow τ) :=
  (filled (((row.entries entry.action).length : Int) - 1)
    ((row.entries entry.action).filter (· ≠ entry.description))).map (row.set entry.action)

/-- `policy_no_community_filter_list_in_ovsdb`. -/
def policyNoCommunityFilterListInOvsdb (entry : Entry ListType)
    (rows : List (FilterRow ListType)) : Option (Reply × List (FilterRow ListType)) :=
  if rows.any fun row => entry.In row then
    (rows.mapM fun row => if entry.Names row then entry.removeFrom row else some row).map
      (Reply.committed, ·)
  else some (.erroneous "Community filter list not found", rows)

/-! ## The entries of a table -/

def Holds (rows : List (FilterRow τ)) (entry : Entry τ) : Prop :=
  ∃ row ∈ rows, entry.In row

/-- Rows have different names, and columns no entry twice. -/
structure Tidy (rows : List (FilterRow τ)) : Prop where
  names : (rows.map FilterRow.name).Nodup
  entries : ∀ row ∈ rows, ∀ action, (row.entries action).Nodup

variable {rows : List (FilterRow τ)} {entry : Entry τ}

theorem any_in_iff : (rows.any fun row => entry.In row) ↔ Holds rows entry := by
  simp [Holds]

def others (entry : Entry τ) (rows : List (FilterRow τ)) : List (FilterRow τ) :=
  rows.filter fun row => ¬ entry.Names row

/-- The rows of the name have the type of the entry. -/
def Single (entry : Entry τ) (rows : List (FilterRow τ)) : Prop :=
  ∀ row ∈ rows, row.name = entry.name → row.type = entry.type

omit [DecidableEq τ] in
theorem mem_set {row : FilterRow τ} {action other : Action} {list : List CStr} {text : CStr} :
    text ∈ (row.set action list).entries other ↔
      if other = action then text ∈ list else text ∈ row.entries other := by
  unfold FilterRow.set
  by_cases same : other = action
  · subst same
    simp
  · simp [same]

def alter (entry : Entry τ) (list : FilterRow τ → List CStr) (rows : List (FilterRow τ)) :
    List (FilterRow τ) :=
  rows.map fun row => if entry.Names row then row.set entry.action (list row) else row

theorem holds_alter (list : FilterRow τ → List CStr) (other : Entry τ) :
    Holds (alter entry list rows) other ↔ ∃ row ∈ rows, other.Names row ∧
      if entry.Names row ∧ other.action = entry.action then other.description ∈ list row
      else other.description ∈ row.entries other.action := by
  unfold Holds alter
  simp only [mem_map, exists_exists_and_eq_and]
  refine exists_congr fun row => and_congr_right fun _ => ?_
  by_cases names : entry.Names row
  · rw [if_pos names]
    unfold Entry.In
    rw [mem_set]
    refine and_congr_right fun _ => ?_
    simp only [names, true_and]
  · rw [if_neg names]
    simp [Entry.In, names]

theorem others_alter (list : FilterRow τ → List CStr) :
    others entry (alter entry list rows) = others entry rows := by
  unfold others alter
  induction rows with
  | nil => rfl
  | cons row rest ih => grind [Entry.Names, FilterRow.set]

theorem tidy_alter {list : FilterRow τ → List CStr} (tidy : Tidy rows)
    (distinct : ∀ row ∈ rows, entry.Names row → (list row).Nodup) :
    Tidy (alter entry list rows) := by
  constructor
  · have same : (alter entry list rows).map FilterRow.name = rows.map FilterRow.name := by
      unfold alter
      rw [map_map]
      refine map_congr_left fun row _ => ?_
      dsimp only [Function.comp_apply]
      split <;> rfl
    rw [same]
    exact tidy.names
  · intro changed member action
    obtain ⟨row, inside, rfl⟩ := mem_map.mp member
    split
    · rename_i names
      by_cases same : action = entry.action
      · subst same
        simpa [FilterRow.set] using distinct row inside names
      · simpa [FilterRow.set, same] using tidy.entries row inside action
    · exact tidy.entries row inside action

theorem addEntry_spec (tidy : Tidy rows) (single : Single entry rows) :
    Tidy (addEntry entry rows) ∧
      (∀ other, Holds (addEntry entry rows) other ↔ Holds rows other ∨ other = entry) ∧
      others entry (addEntry entry rows) = others entry rows := by
  unfold addEntry
  by_cases held : Holds rows entry
  · rw [if_pos (any_in_iff.mpr held)]
    refine ⟨tidy, fun other => ⟨.inl, ?_⟩, rfl⟩
    rintro (before | rfl)
    · exact before
    · exact held
  rw [if_neg (any_in_iff.not.mpr held)]
  by_cases named : ∃ row ∈ rows, row.name = entry.name
  · have altered : (rows.map fun row => if row.name = entry.name then
        row.set entry.action (row.entries entry.action ++ [entry.description]) else row) =
        alter entry (fun row => row.entries entry.action ++ [entry.description]) rows := by
      refine map_congr_left fun row member => if_congr ?_ rfl rfl
      exact ⟨fun same => ⟨same, single row member same⟩, And.left⟩
    rw [if_pos (by simpa using named), altered]
    refine ⟨?_, fun other => ?_, others_alter _⟩
    · refine tidy_alter tidy fun row member names => ?_
      refine nodup_append.mpr ⟨tidy.entries row member _, nodup_singleton _, ?_⟩
      rintro text inside _ last rfl
      rw [mem_singleton.mp last] at inside
      exact held ⟨row, member, names, inside⟩
    · rw [holds_alter]
      obtain ⟨own, inside, same⟩ := named
      have names := single own inside same
      grind [Holds, Entry.In, Entry.Names]
  · rw [if_neg (by simpa using named)]
    have inNew (other : Entry τ) :
        other.In (FilterRow.set entry.action [entry.description]
          ⟨entry.type, entry.name, fun _ => []⟩) ↔ other = entry := by
      rw [Entry.In, mem_set]
      grind [Entry.Names, FilterRow.set]
    refine ⟨⟨?_, ?_⟩, fun other => ?_, ?_⟩
    · rw [map_append]
      refine nodup_append.mpr ⟨tidy.names, nodup_singleton _, ?_⟩
      grind [FilterRow.set]
    · intro row member action
      rcases mem_append.mp member with old | new
      · exact tidy.entries row old action
      · rw [mem_singleton.mp new, FilterRow.set]
        by_cases same : action = entry.action <;> simp [same]
    · simp [Holds, or_and_right, exists_or, inNew]
    · simp [others, Entry.Names, FilterRow.set]

/-! ## AS path lists -/

/-- The tables that set commands make. -/
def aspathTable (entries : List (Entry Unit)) : List (FilterRow Unit) :=
  entries.foldl (fun rows entry => (policySetAspathFilterInOvsdb entry rows).2) []

theorem tidy_aspathTable (entries : List (Entry Unit)) : Tidy (aspathTable entries) := by
  have keeps (rows : List (FilterRow Unit)) (tidy : Tidy rows) :
    Tidy (entries.foldl (fun rows entry => (policySetAspathFilterInOvsdb entry rows).2) rows) := by
    induction entries generalizing rows with
    | nil => exact tidy
    | cons entry rest ih =>
      exact ih _ (addEntry_spec tidy fun _ _ _ => rfl).1
  exact keeps [] ⟨nodup_nil, nofun⟩

theorem holds_eraseP {rows : List (FilterRow Unit)} {entry : Entry Unit} (tidy : Tidy rows)
    (held : Holds rows entry) :
    (∀ other, Holds (rows.eraseP fun row => entry.In row) other ↔
      Holds rows other ∧ other.name ≠ entry.name) ∧
    others entry (rows.eraseP fun row => entry.In row) = others entry rows := by
  obtain ⟨row, member, inside⟩ := held
  obtain ⟨found, before, after, _, isIn, split, erased⟩ :=
    exists_of_eraseP (p := fun row => decide (entry.In row)) member (decide_eq_true inside)
  have own := (of_decide_eq_true isIn).1
  have names := tidy.names
  rw [split, map_append, map_cons, nodup_append, nodup_cons] at names
  have apart : ∀ row ∈ before ++ after, row.name ≠ found.name := by
    intro row member same
    rcases mem_append.mp member with earlier | later
    · exact names.2.2 _ (mem_map_of_mem earlier) _ mem_cons_self same
    · exact names.2.1.1 (same ▸ mem_map_of_mem later)
  rw [erased, split]
  constructor
  · intro other
    grind [Holds, Entry.In, Entry.Names]
  · simp [others, own]

/-- The command takes the entry out of its list, and changes no other list. -/
def Undone (entry : Entry Unit) (rows : List (FilterRow Unit)) : Prop :=
  (∀ other, Holds (policyNoAspathFilterInOvsdb entry rows).2 other ↔
    Holds rows other ∧ other ≠ entry) ∧
  others entry (policyNoAspathFilterInOvsdb entry rows).2 = others entry rows

/-- **An entry is taken out of its AS path list exactly if it is not in the list, or the only one
there.** -/
theorem aspath_undone_iff (entries : List (Entry Unit)) (entry : Entry Unit) :
    Undone entry (aspathTable entries) ↔ (Holds (aspathTable entries) entry →
      ∀ other, other.name = entry.name → Holds (aspathTable entries) other → other = entry) := by
  have tidy := tidy_aspathTable entries
  generalize aspathTable entries = rows at tidy ⊢
  unfold Undone policyNoAspathFilterInOvsdb
  by_cases held : Holds rows entry
  · obtain ⟨holds, rest⟩ := holds_eraseP tidy held
    simp only [if_pos (any_in_iff.mpr held), holds, rest]
    grind
  · rw [if_neg (any_in_iff.not.mpr held)]
    grind

def onePath : Entry Unit := ⟨(), "N", .permit, "^1$"⟩

def twoPath : Entry Unit := ⟨(), "N", .deny, "^2$"⟩

/-- With the one entry the other is deleted. -/
theorem aspath_list_lost : ¬ Undone onePath (aspathTable [onePath, twoPath]) := by
  intro undone
  have kept : Holds (aspathTable [onePath, twoPath]) twoPath := any_in_iff.mp (by decide)
  have lost := any_in_iff.mpr ((undone.1 twoPath).mpr ⟨kept, by decide⟩)
  revert lost
  decide

/-! ## Community lists -/

structure CommunityCommand where
  noFlag : Bool
  entry : Entry ListType

variable (command : CommunityCommand)

def CommunityCommand.execute (rows : List (FilterRow ListType)) :
    Option (Reply × List (FilterRow ListType)) :=
  if command.noFlag then policyNoCommunityFilterListInOvsdb command.entry rows
  else some (policySetCommunityFilterListInOvsdb command.entry rows)

def CommunityCommand.step (rows : List (FilterRow ListType)) : Option (List (FilterRow ListType)) :=
  (command.execute rows).map Prod.snd

/-- A set command adds its entry to the list of its name and type, and an unset command takes it
out; no other entry is added or taken out, and no other row is changed. -/
def CommunityCommand.Lawful
    (rows next : List (FilterRow ListType)) : Prop :=
  (∀ other, Holds next other ↔
    if other = command.entry then command.noFlag = false else Holds rows other) ∧
  others command.entry next = others command.entry rows

/-- A name is not used for lists of both types. -/
def CommunityCommand.Allowed
    (rows : List (FilterRow ListType)) : Prop :=
  command.noFlag = false → Single command.entry rows

theorem mapM_eq_some_map {α β : Type} {f : α → Option β} {g : α → β} {list : List α}
    (each : ∀ a ∈ list, f a = some (g a)) : list.mapM f = some (list.map g) := by
  induction list with
  | nil => rfl
  | cons a rest ih =>
    obtain ⟨here, later⟩ := forall_mem_cons.mp each
    simp [mapM_cons, here, ih later]

theorem removed_eq {rows : List (FilterRow τ)} {entry : Entry τ} (tidy : Tidy rows)
    (held : Holds rows entry) :
    (rows.mapM fun row => if entry.Names row then entry.removeFrom row else some row) =
      some (alter entry (fun row => (row.entries entry.action).filter (· ≠ entry.description))
        rows) := by
  obtain ⟨own, inside, names, listed⟩ := held
  refine mapM_eq_some_map fun row member => ?_
  by_cases named : entry.Names row
  · obtain rfl : row = own := inj_on_of_nodup_map tidy.names member inside
      (named.1.trans names.1.symm)
    have once := count_eq_one_of_mem (tidy.entries row member entry.action) listed
    replace once : (row.entries entry.action).countP (fun text =>
        !decide (text ≠ entry.description)) = 1 := by
      rw [← once, count]
      refine countP_congr fun text _ => ?_
      simp
    rw [if_pos named, if_pos named, Entry.removeFrom, filled_filter, if_pos once, Option.map_some]
  · rw [if_neg named, if_neg named]

theorem CommunityCommand.keeps (rows : List (FilterRow ListType))
    (tidy : Tidy rows) (allowed : command.Allowed rows) :
    ∃ next, command.step rows = some next ∧ command.Lawful rows next ∧ Tidy next := by
  obtain ⟨noFlag, entry⟩ := command
  cases noFlag with
  | false =>
    obtain ⟨after, holds, rest⟩ := addEntry_spec tidy (allowed rfl)
    refine ⟨_, rfl, ⟨fun other => (holds other).trans ?_, rest⟩, after⟩
    grind
  | true =>
    unfold step execute policyNoCommunityFilterListInOvsdb
    by_cases held : Holds rows entry
    · simp only [if_true, if_pos (any_in_iff.mpr held), removed_eq tidy held]
      refine ⟨_, rfl, ⟨fun other => ?_, others_alter _⟩, tidy_alter tidy fun row member _ => ?_⟩
      · rw [holds_alter]
        grind [Holds, Entry.In, Entry.Names]
      · exact (tidy.entries row member _).filter _
    · simp only [if_true, if_neg (any_in_iff.not.mpr held)]
      refine ⟨_, rfl, ⟨fun other => ?_, rfl⟩, tidy⟩
      grind

theorem CommunityCommand.exact (rows next : List (FilterRow ListType)) (tidy : Tidy rows)
    (ran : command.step rows = some next) (lawful : command.Lawful rows next) :
    command.Allowed rows := by
  obtain ⟨noFlag, entry⟩ := command
  rintro rfl row member same
  cases ran
  obtain ⟨own, inside, names, _⟩ := (lawful.1 entry).mpr (by simp)
  obtain ⟨old, before, sameName, sameType⟩ : ∃ old ∈ rows, old.name = own.name ∧
      old.type = own.type := by
    grind [policySetCommunityFilterListInOvsdb, addEntry, FilterRow.set]
  obtain rfl : row = old :=
    inj_on_of_nodup_map tidy.names member before (same.trans (names.1.symm.trans sameName.symm))
  exact sameType.trans names.2

/-- **Community lists are lawful throughout a run exactly if no name is set for a list of the one
type while there is a list of the other type.** -/
theorem community_lists_lawful_iff (commands : List CommunityCommand) :
    Throughout CommunityCommand.step CommunityCommand.Lawful commands [] ↔
      Admitted CommunityCommand.step CommunityCommand.Allowed commands [] :=
  throughout_iff_admitted CommunityCommand.keeps CommunityCommand.exact ⟨nodup_nil, nofun⟩

/-- An entry for an extended list is added to the list of communities of its name. -/
theorem community_lists_mixed :
    ¬ Throughout CommunityCommand.step CommunityCommand.Lawful
      [⟨false, .community, "N", .permit, "65000:1"⟩,
        ⟨false, .extcommunity, "N", .permit, "rt 65000:1"⟩] [] := by
  rintro ⟨_, ⟨⟩, _, _, ⟨⟩, lawful, _⟩
  have lost := any_in_iff.mpr ((lawful.1 _).mpr (by rw [if_pos rfl]))
  revert lost
  decide

end

end OpsCli.Bgp.FilterLists
