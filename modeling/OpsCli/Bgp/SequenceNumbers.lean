import OpsCli.Bgp.RouteMapConfig
import OpsCli.Command.NumberRange

/-!
# Sequence numbers as keys

The entries of a prefix list and of a route map are kept under sequence
numbers.  Both setters look for an entry with the number and all that the
command says, and append one that is not found.  So an entry can be repeated,
but not changed: a second entry is appended under its number.
-/

namespace OpsCli.Bgp.SequenceNumbers

open CLib CString Columns Conversion NamedMaps
  Command.NumberRange Command.WordMatch PrefixText PrefixList RouteMapConfig
  List

/-! ## Prefix lists -/

section

variable (column : MapColumn Int PrefixEntry) (functions : AddressFunctions)
  {commands : List EntryArgs} {word : CStr}

def prefixRun (commands : List EntryArgs) : PrefixTable :=
  commands.foldl (fun table args => (policySetPrefixListInOvsdb column functions args table).2)
    .empty

def prefixUpdate (args : EntryArgs) : Option (CStr × Update Int PrefixEntry) :=
  match normalise functions args with
  | .error _ => none
  | .ok entry => some (args.name, entryUpdate (strtoll args.seq) entry)

def prefixUpdates (name : CStr) (commands : List EntryArgs) : List (Update Int PrefixEntry) :=
  updatesFor name (commands.filterMap (prefixUpdate functions))

/-- The token `<1-4294967295>`. -/
def seqToken : RangeToken where
  min := "1"
  max := "4294967295"
  minNumeral := Eq.refl true
  maxNumeral := Eq.refl true
  minLength := (by decide : 0 < Command.RangeList.decimalStrlenMax)
  maxLength := by decide
  ordered := by decide

theorem prefixRun_eq (commands : List EntryArgs) :
    prefixRun column functions commands = MapTable.run column sameEntry []
        (commands.filterMap (prefixUpdate functions)) := by
  unfold prefixRun MapTable.run
  generalize (MapTable.empty : PrefixTable) = table
  induction commands generalizing table with
  | nil => rfl
  | cons args rest ih =>
    rw [foldl_cons, ih]
    unfold policySetPrefixListInOvsdb
    cases normal : normalise functions args with
    | error refusal =>
      have skipped : prefixUpdate functions args = none := by
        unfold prefixUpdate
        rw [normal]
      rw [filterMap_cons_none skipped]
    | ok entry =>
      have stored : prefixUpdate functions args =
          some (args.name, entryUpdate (strtoll args.seq) entry) := by
        unfold prefixUpdate
        rw [normal]
      rw [filterMap_cons_some stored, foldl_cons]
      dsimp only
      rw [storeEntry_eq]

/-- The number of a word that the token admits; a word with a minus sign may be
read as the smallest number. -/
theorem strtoll_of_admitted (admitted : cmdRangeMatch seqToken.text word) :
    1 ≤ strtoll word ∧ strtoll word ≤ 4294967295 ∨ strtoll word = -2 ^ 63 := by
  obtain ⟨complete, lower, upper⟩ := (cmdRangeMatch_text seqToken word).mp admitted
  have one : digitsValue seqToken.min = 1 := by decide
  have largest : digitsValue seqToken.max = 4294967295 := by decide
  rw [one] at lower
  rw [largest] at upper
  rcases strtoll_eq_or complete (by omega) with same | smallest
  · left
    omega
  · exact .inr smallest

theorem eq_of_toInt_eq {other : CStr} (admitted : cmdRangeMatch seqToken.text word)
    (otherAdmitted : cmdRangeMatch seqToken.text other)
    (same : toInt (strtoll word) = strtoll other) : strtoll word = strtoll other := by
  unfold toInt at same
  rcases strtoll_of_admitted otherAdmitted with ⟨lower, _⟩ | smallest
  · rcases strtoll_of_admitted admitted with ⟨_, _⟩ | low
    · rw [Int.bmod_def] at same
      split at same
      · omega
      · omega
    · rw [low] at same
      have zero : ((-2 ^ 63 : Int)).bmod (2 ^ 32) = 0 := by decide
      omega
  · have bound := Int.le_bmod (x := strtoll word) (m := 2 ^ 32) (by decide)
    omega

variable {name : CStr}

theorem exists_of_mem_prefixUpdates {update : Update Int PrefixEntry}
    (member : update ∈ prefixUpdates functions name commands) :
    ∃ args ∈ commands, ∃ entry, update = entryUpdate (strtoll args.seq) entry := by
  unfold prefixUpdates updatesFor at member
  obtain ⟨⟨target, _⟩, inside, rfl⟩ := mem_map.mp member
  obtain ⟨args, command, stored⟩ := mem_filterMap.mp (mem_of_mem_filter inside)
  refine ⟨args, command, ?_⟩
  unfold prefixUpdate at stored
  split at stored
  · cases stored
  · rename_i entry _
    cases stored
    exact ⟨entry, rfl⟩

theorem legible_prefixUpdates (admitted : ∀ args ∈ commands, cmdRangeMatch seqToken.text args.seq) :
    Legible sameEntry (prefixUpdates functions name commands) where
  agree_iff _ _ _ _ := sameEntry_iff
  apart earlier one later two same := by
    obtain ⟨first, firstIn, _, rfl⟩ := exists_of_mem_prefixUpdates functions one
    obtain ⟨second, secondIn, _, rfl⟩ := exists_of_mem_prefixUpdates functions two
    exact eq_of_toInt_eq (admitted second secondIn) (admitted first firstIn) same

end

/-! ## Route maps -/

section

variable (column : MapColumn Int RouteMapEntry) {name : CStr}

def routeMapRun (commands : List RouteMapArgs) : RouteMapState :=
  commands.foldl (fun state args => (policySetRouteMapInOvsdb column args state).2) .empty

/-- What an accepted command stores, with the name of its route map. -/
def routeMapUpdate (args : RouteMapArgs) : Option (CStr × Update Int RouteMapEntry) :=
  if isAction args.typestr then
    (policyRouteMapGetSeq args.seq).map fun pref => (args.name, actionUpdate pref args.typestr)
  else none

def routeMapUpdates (name : CStr) (commands : List RouteMapArgs) :
    List (Update Int RouteMapEntry) :=
  updatesFor name (commands.filterMap routeMapUpdate)

theorem table_policySetRouteMap (args : RouteMapArgs) (state : RouteMapState) :
    (policySetRouteMapInOvsdb column args state).2.table = match routeMapUpdate args with
      | none => state.table
      | some (name, update) =>
        state.table.store column sameAction () name update := by
  unfold policySetRouteMapInOvsdb routeMapUpdate
  cases isAction args.typestr with
  | false => rfl
  | true =>
    cases policyRouteMapGetSeq args.seq with
    | none => rfl
    | some pref => exact storeAction_eq column _ _ _ _

theorem routeMapRun_eq (commands : List RouteMapArgs) :
    (routeMapRun column commands).table = MapTable.run column sameAction ()
        (commands.filterMap routeMapUpdate) := by
  unfold routeMapRun MapTable.run
  change _ = List.foldl _ RouteMapState.empty.table _
  generalize RouteMapState.empty = state
  induction commands generalizing state with
  | nil => rfl
  | cons args rest ih =>
    rw [foldl_cons, ih, table_policySetRouteMap]
    cases stored : routeMapUpdate args with
    | none => rw [filterMap_cons_none stored]
    | some entry => rw [filterMap_cons_some stored, foldl_cons]

theorem exists_of_mem_routeMapUpdates {commands : List RouteMapArgs}
    {update : Update Int RouteMapEntry} (member : update ∈ routeMapUpdates name commands) :
    ∃ pref action, update = actionUpdate pref action := by
  unfold routeMapUpdates updatesFor at member
  obtain ⟨⟨target, _⟩, inside, rfl⟩ := mem_map.mp member
  obtain ⟨args, _, stored⟩ := mem_filterMap.mp (mem_of_mem_filter inside)
  unfold routeMapUpdate at stored
  split at stored
  · obtain ⟨pref, _, equal⟩ := Option.map_eq_some_iff.mp stored
    cases equal
    exact ⟨pref, args.typestr, rfl⟩
  · cases stored

theorem legible_routeMapUpdates (name : CStr) (commands : List RouteMapArgs) :
    Legible sameAction (routeMapUpdates name commands) where
  agree_iff earlier one later two := by
    obtain ⟨_, first, rfl⟩ := exists_of_mem_routeMapUpdates one
    obtain ⟨_, second, rfl⟩ := exists_of_mem_routeMapUpdates two
    rw [sameAction_iff]
    simp [actionUpdate, newEntry]
  apart earlier one later two same := by
    obtain ⟨_, _, rfl⟩ := exists_of_mem_routeMapUpdates two
    exact same

end

/-! ## Keys -/

/-- A number is used again only for the same entry, and is no larger than an
`int`. -/
def RepeatsEntries (updates : List (Update Int PrefixEntry)) : Prop :=
  updates.Pairwise fun earlier later => earlier.key = later.key →
    toInt later.key = later.key ∧ earlier.value = later.value

/-- A number is used again only for the same action. -/
def RepeatsActions (updates : List (Update Int RouteMapEntry)) : Prop :=
  updates.Pairwise fun earlier later => earlier.key = later.key →
    earlier.value.action = later.value.action

theorem repeated_prefixUpdates_iff (functions : AddressFunctions) (name : CStr)
    (commands : List EntryArgs) :
    Repeated sameEntry (prefixUpdates functions name commands) ↔
      RepeatsEntries (prefixUpdates functions name commands) := by
  unfold Repeated RepeatsEntries
  refine List.Pairwise.iff_of_mem ?_
  intro earlier later _ two
  obtain ⟨args, _, entry, rfl⟩ := exists_of_mem_prefixUpdates functions two
  rw [sameEntry_iff]
  rfl

theorem repeated_routeMapUpdates_iff (name : CStr) (commands : List RouteMapArgs) :
    Repeated sameAction (routeMapUpdates name commands) ↔
      RepeatsActions (routeMapUpdates name commands) := by
  unfold Repeated RepeatsActions
  refine List.Pairwise.iff_of_mem ?_
  intro earlier later _ two
  obtain ⟨pref, action, rfl⟩ := exists_of_mem_routeMapUpdates two
  simp [sameAction_iff, actionUpdate]

/-- **Prefix lists and route maps are keyed by their sequence numbers exactly
as long as a number is only used again for what it was used for.** -/
theorem keyed_iff_repeats (prefixColumn : MapColumn Int PrefixEntry)
    (routeMapColumn : MapColumn Int RouteMapEntry) (functions : AddressFunctions) (name : CStr)
    (prefixCommands : List EntryArgs) (routeMapCommands : List RouteMapArgs)
    (admitted : ∀ args ∈ prefixCommands, cmdRangeMatch seqToken.text args.seq) :
    (((prefixRun prefixColumn functions prefixCommands).mapOf name).Keyed
        (prefixUpdates functions name prefixCommands) ↔
      RepeatsEntries (prefixUpdates functions name prefixCommands)) ∧
    (((routeMapRun routeMapColumn routeMapCommands).table.mapOf name).Keyed
        (routeMapUpdates name routeMapCommands) ↔
      RepeatsActions (routeMapUpdates name routeMapCommands)) := by
  constructor
  · rw [prefixRun_eq, (MapTable.mapOf_run _ _ _ _ _).2, ← repeated_prefixUpdates_iff]
    exact run_keyed_iff _ _ (legible_prefixUpdates functions admitted)
  · rw [routeMapRun_eq, (MapTable.mapOf_run _ _ _ _ _).2, ← repeated_routeMapUpdates_iff]
    exact run_keyed_iff _ _ (legible_routeMapUpdates name routeMapCommands)

def tenEntry (seq typestr : CStr) : EntryArgs where
  afi := .ip
  name := "PL"
  seq := seq
  typestr := typestr
  pfx := "10.0.0.0/8"

/-- Two entries of a prefix list, one of them set twice, and an entry of a
route map. -/
theorem tenEntries_keyed : ((prefixRun .plain .sample [tenEntry "10" "permit",
          tenEntry "20" "deny", tenEntry "10" "permit"]).mapOf "PL".toList).Keyed
      (prefixUpdates .sample "PL" [tenEntry "10" "permit", tenEntry "20" "deny",
        tenEntry "10" "permit"]) ∧
    ((routeMapRun .plain [⟨"PL", "permit", "10"⟩]).table.mapOf "PL".toList).Keyed
      (routeMapUpdates "PL" [⟨"PL", "permit", "10"⟩]) := by
  have admitted : ∀ args ∈ [tenEntry "10" "permit", tenEntry "20" "deny", tenEntry "10" "permit"],
      cmdRangeMatch seqToken.text args.seq := by decide
  have both := keyed_iff_repeats .plain .plain .sample "PL" _
    [⟨"PL", "permit", "10"⟩] admitted
  refine ⟨both.1.mpr ?_, both.2.mpr ?_⟩
  · unfold RepeatsEntries
    decide
  · unfold RepeatsActions
    decide

/-- The action of an entry is changed: the list that is handed over has its
number twice. -/
theorem changed_entry_appended : ¬ ((prefixRun .plain .sample [tenEntry "10" "permit",
          tenEntry "10" "deny"]).mapOf "PL".toList).Keyed
      (prefixUpdates .sample "PL" [tenEntry "10" "permit", tenEntry "10" "deny"]) := by
  intro keyed
  have distinct := keyed.distinct [(10, ⟨"permit", "10.0.0.0/8", 0, 0⟩),
      (10, ⟨"deny", "10.0.0.0/8", 0, 0⟩)] (by decide)
  revert distinct
  decide

end OpsCli.Bgp.SequenceNumbers
