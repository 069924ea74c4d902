import OpsCli.Bgp.PeerGroup
import OpsCli.Bgp.PolicyBinding

/-!
# Members of peer groups

Neighbors and peer groups are rows of one table and are found under one kind of
name.  The handlers take a name that is an address for a neighbor and another
name for a peer group.
-/

namespace OpsCli.Bgp.Membership

open CLib CString Columns Conversion RowTable PrefixList
  Database PeerGroup List
open OpsCli.Bgp.PolicyBinding (aborted)

/-! ## The handlers -/

def notAddressed (noRouter : CStr) : Missing → Reply
  | .vrf => .erroneous "no vrf found"
  | .router => .erroneous noRouter

variable (isAddress : CStr → Bool) (column : MapColumn CStr Ref)

/-- A new row of `BGP_Neighbor`, and
`bgp_neighbor_peer_group_insert_to_bgp_router`. -/
def addNeighbor (ref : Ref) (router : RouterRow) (name : CStr)
    (row : NeighborRow) (db : BgpDb) : BgpDb :=
  setBgpNeighbors column ref (router.neighbors ++ [(name, freshRef db.neighbors)])
    { db with neighbors := insertRow row db.neighbors }

/-- Rows of `BGP_Neighbor` are changed. -/
def mapNeighbors (change : Ref → NeighborRow → NeighborRow) (db : BgpDb) : BgpDb :=
  { db with neighbors := mapRows change db.neighbors }

def dropNeighbor (ref : Ref) (router : RouterRow) (name : CStr)
    (neighbor : Ref) (db : BgpDb) : Option (Reply × BgpDb) :=
  (bgpNeighborPeerGroupRemoveFromBgpRouter column ref name router db).map
    fun db => (.committed, deleteNeighbor neighbor db)

/-- The `remote-as` of a group and of its members is set. -/
def setGroupAs (group : Ref) (remoteAs : Int) (ref : Ref) (row : NeighborRow) : NeighborRow :=
  if ref = group ∨ isMember group row then
    { row with remoteAs := some remoteAs }
  else row

/-- `cli_neighbor_remote_as_cmd_execute`.  For a neighbor that is bound to a
group, the handler frees a key of the router's own column. -/
def cliNeighborRemoteAsCmdExecute (peer asn : CStr) (ref : Ref)
    (router : RouterRow) (db : BgpDb) : Option (Reply × BgpDb) :=
  let remoteAs := strtoll asn
  match findMatchingNeighborOrPeerGroupObject router peer with
  | none =>
    if isAddress peer then
      some (.committed, addNeighbor column ref router peer
        { isPeerGroup := some false, remoteAs := some remoteAs } db)
    else some (aborted "%% Create the peer-group first\n", db)
  | some found =>
    if isAddress peer then do
      let row ← rowOf found db.neighbors
      if row.bgpPeerGroup.isSome then none
      else some (.committed, mapNeighbors (fun ref row =>
        if ref = found then { row with remoteAs := some remoteAs } else row)
        db)
    else some (.committed, mapNeighbors (setGroupAs found remoteAs) db)

/-- `cli_neighbor_peer_group_cmd_execute`. -/
def cliNeighborPeerGroupCmdExecute (groupName : CStr) (ref : Ref)
    (router : RouterRow) (db : BgpDb) : Option (Reply × BgpDb) :=
  match findMatchingNeighborOrPeerGroupObject router groupName with
  | some _ => some (aborted "peer group already exists", db)
  | none => some (.committed, addNeighbor column ref router groupName
      { isPeerGroup := some true } db)

/-- The answer if neither the neighbor nor the group has a `remote-as`. -/
def noRemoteAs : Reply :=
  .erroneous "Specify peer remote AS or peer-group remote AS first"

/-- `cli_neighbor_set_peer_group_cmd_execute`. -/
def cliNeighborSetPeerGroupCmdExecute (ipAddr peerGroup : CStr) (ref : Ref) (router : RouterRow)
    (db : BgpDb) : Option (Reply × BgpDb) :=
  match findMatchingNeighborOrPeerGroupObject router peerGroup with
  | none => some (aborted "Configure the peer-group first.", db)
  | some group => do
      let groupRow ← rowOf group db.neighbors
      match findMatchingNeighborOrPeerGroupObject router ipAddr with
      | none =>
        if groupRow.remoteAs.isSome then
          some (.committed, addNeighbor column ref router ipAddr
            { isPeerGroup := some false, bgpPeerGroup := some group,
              remoteAs := groupRow.remoteAs } db)
        else some (noRemoteAs, db)
      | some neighbor =>
        let row ← rowOf neighbor db.neighbors
        match row.bgpPeerGroup with
        | some old =>
          if old = group then
            some (aborted "Configuration already exists.", db)
          else some (.erroneous "Cannot change the peer-group. Deconfigure first", db)
        | none =>
          if (groupRow.remoteAs.or row.remoteAs).isSome then
            some (.committed, mapNeighbors (fun ref row =>
              if ref = neighbor then
                { row with
                  bgpPeerGroup := some group
                  remoteAs := groupRow.remoteAs.or row.remoteAs }
              else row) db)
          else some (noRemoteAs, db)

/-- What the handlers make of `delete_neighbor_peer_group`. -/
def deleteGroup (noMatch : CStr) (name : CStr) (ref : Ref)
    (router : RouterRow) (db : BgpDb) : Option (Reply × BgpDb) :=
  (deleteNeighborPeerGroup column ref router name db).map fun
    | (.errNoMatch, db) => (.erroneous noMatch, db)
    | (_, db) => (.committed, db)

/-- `cli_no_neighbor_cmd_execute`. -/
def cliNoNeighborCmdExecute (peer : CStr) (ref : Ref) (router : RouterRow)
    (db : BgpDb) : Option (Reply × BgpDb) :=
  if isAddress peer then
    match findMatchingNeighborOrPeerGroupObject router peer with
    | none => some (.committed, db)
    | some neighbor => dropNeighbor column ref router peer neighbor db
  else deleteGroup column "peer group does not exist." peer ref router db

/-- `cli_no_neighbor_set_peer_group_cmd_execute`; the name of the group is not
used. -/
def cliNoNeighborSetPeerGroupCmdExecute (ipAddr : CStr) (ref : Ref) (router : RouterRow)
    (db : BgpDb) : Option (Reply × BgpDb) :=
  match findMatchingNeighborOrPeerGroupObject router ipAddr with
  | none => some (.erroneous "neighbor does not exist", db)
  | some neighbor => do
      let row ← rowOf neighbor db.neighbors
      match row.bgpPeerGroup with
      | none => some (aborted "Neighbor is not in a peer group\n", db)
      | some group =>
        let groupRow ← rowOf group db.neighbors
        if groupRow.remoteAs.isSome then
          dropNeighbor column ref router ipAddr neighbor db
        else some (.committed, mapNeighbors (fun ref row =>
          if ref = neighbor then { row with bgpPeerGroup := none } else row)
          db)

inductive Command where
  | remoteAs (peer asn : CStr)
  | peerGroup (group : CStr)
  | setPeerGroup (peer group : CStr)
  | noNeighbor (peer : CStr)
  | noPeerGroup (group : CStr)
  | noSetPeerGroup (peer group : CStr)

def Command.handle : Command → Ref → RouterRow → BgpDb → Option (Reply × BgpDb)
  | .remoteAs peer asn =>
    cliNeighborRemoteAsCmdExecute isAddress column peer asn
  | .peerGroup group => cliNeighborPeerGroupCmdExecute column group
  | .setPeerGroup peer group =>
    cliNeighborSetPeerGroupCmdExecute column peer group
  | .noNeighbor peer => cliNoNeighborCmdExecute isAddress column peer
  | .noPeerGroup group =>
    deleteGroup column "peer-group does not exist." group
  | .noSetPeerGroup peer _ => cliNoNeighborSetPeerGroupCmdExecute column peer

def Command.noRouter : Command → CStr
  | .remoteAs _ _ => "Bgp router context not available"
  | _ => "bgp router context not available"

def execute (index : Int) (command : Command) (db : BgpDb) : Option (Reply × BgpDb) :=
  match db.addressed index with
  | .error missing => some (notAddressed command.noRouter missing, db)
  | .ok (ref, router) => command.handle isAddress column ref router db

/-! ## The invariant -/

def InRouter (db : BgpDb) (ref : Ref) (name : CStr) (neighbor : Ref) : Prop :=
  ∃ router, rowOf ref db.routers = some router ∧ (name, neighbor) ∈ router.neighbors

/-- The row is a peer group of the router, and its `remote-as`, if any, is that
of the member. -/
def Leads (db : BgpDb) (ref group : Ref) (row : NeighborRow) : Prop :=
  ∃ name groupRow, InRouter db ref name group ∧ rowOf group db.neighbors = some groupRow ∧
    groupRow.isPeerGroup = some true ∧
    ∀ asn, groupRow.remoteAs = some asn → row.remoteAs = some asn

/-- Members are bound to groups of their router and have their `remote-as`,
and groups are not bound. -/
structure Members (db : BgpDb) : Prop where
  bound : ∀ ref name neighbor row group, InRouter db ref name neighbor →
    rowOf neighbor db.neighbors = some row → row.bgpPeerGroup = some group →
    Leads db ref group row
  free : ∀ ref name neighbor row, InRouter db ref name neighbor →
    rowOf neighbor db.neighbors = some row → row.isPeerGroup = some true →
    row.bgpPeerGroup = none

/-- A row under this name: a neighbor exactly if the name is an address, and
then bound, if at all, to a group of the router. -/
structure Placed (isAddress : CStr → Bool) (db : BgpDb) (ref : Ref) (name : CStr)
    (row : NeighborRow) : Prop where
  kind : row.isPeerGroup = some (!isAddress name)
  bound : ∀ group, row.bgpPeerGroup = some group → isAddress name ∧ Leads db ref group row

/-- Every row is referred to once and is in its place. -/
structure Sound (db : BgpDb) : Prop where
  names : ∀ ref router, rowOf ref db.routers = some router → (keys router.neighbors).Nodup
  owned : ∀ {ref name other otherName neighbor},
    InRouter db ref name neighbor → InRouter db other otherName neighbor →
    ref = other ∧ name = otherName
  placed : ∀ {ref name neighbor}, InRouter db ref name neighbor →
    ∃ row, rowOf neighbor db.neighbors = some row ∧ Placed isAddress db ref name row

variable {isAddress column} {db : BgpDb} {ref : Ref} {router : RouterRow} {name : CStr}
  {neighbor value other : Ref} {row : NeighborRow} {key : CStr}

theorem Sound.at (sound : Sound isAddress db) (inside : InRouter db ref name neighbor)
    (isRow : rowOf neighbor db.neighbors = some row) : Placed isAddress db ref name row := by
  obtain ⟨other, same, placed⟩ := sound.placed inside
  cases isRow.symm.trans same
  exact placed

theorem Sound.members (sound : Sound isAddress db) : Members db where
  bound _ _ _ _ group inside isRow bound := ((sound.at inside isRow).bound group bound).2
  free ref name neighbor row inside isRow isGroup := by
    have placed := sound.at inside isRow
    by_contra bound
    obtain ⟨group, isBound⟩ := Option.ne_none_iff_exists'.mp bound
    rw [placed.kind, (placed.bound group isBound).1] at isGroup
    cases isGroup

/-! ## Changes -/

theorem Placed.mono {after : BgpDb} (placed : Placed isAddress db ref name row)
    (links : ∀ group groupName, row.bgpPeerGroup = some group →
      InRouter db ref groupName group → InRouter after ref groupName group)
    (rows : ∀ group groupRow, row.bgpPeerGroup = some group →
      rowOf group db.neighbors = some groupRow →
      rowOf group after.neighbors = some groupRow) : Placed isAddress after ref name row := by
  refine ⟨placed.kind, fun group bound => ?_⟩
  obtain ⟨address, groupName, groupRow, inside, isRow, leads⟩ := placed.bound group bound
  exact ⟨address, groupName, groupRow, links _ _ bound inside, rows _ _ bound isRow, leads⟩

section

variable (found : rowOf ref db.routers = some router) {pairs : List (CStr × Ref)}
  (distinct : (keys pairs).Nodup)
include found

theorem inRouter_iff : InRouter db ref key value ↔ (key, value) ∈ router.neighbors := by
  unfold InRouter
  rw [found]
  simp

include distinct

theorem inRouter_setBgpNeighbors :
    InRouter (setBgpNeighbors column ref pairs db) other key value ↔
      if other = ref then (key, value) ∈ pairs
      else InRouter db other key value := by
  by_cases here : other = ref
  · rw [if_pos here, here, inRouter_iff (rowOf_setBgpNeighbors found pairs)]
    exact column.mem_arrange distinct
  · rw [if_neg here]
    unfold InRouter setBgpNeighbors
    rw [rowOf_changeRow_of_ne here]

theorem names_setBgpNeighbors (names : ∀ ref router, rowOf ref db.routers = some router →
      (keys router.neighbors).Nodup) (other : Ref) (changed : RouterRow)
    (isRow : rowOf other (setBgpNeighbors column ref pairs db).routers =
      some changed) : (keys changed.neighbors).Nodup := by
  by_cases here : other = ref
  · rw [here, rowOf_setBgpNeighbors found] at isRow
    cases isRow
    exact column.keys_arrange_nodup distinct
  · unfold setBgpNeighbors at isRow
    rw [rowOf_changeRow_of_ne here] at isRow
    exact names other changed isRow

end

namespace Sound

variable (sound : Sound isAddress db)
include sound

theorem map {change : Ref → NeighborRow → NeighborRow}
    (placed : ∀ {ref name neighbor row}, InRouter db ref name neighbor →
      rowOf neighbor db.neighbors = some row →
      (change neighbor row).isPeerGroup = row.isPeerGroup ∧
        ∀ group, (change neighbor row).bgpPeerGroup = some group →
          isAddress name ∧ ∃ groupName groupRow, InRouter db ref groupName group ∧
            rowOf group db.neighbors = some groupRow ∧
            groupRow.isPeerGroup = some true ∧
            ∀ asn, (change group groupRow).remoteAs = some asn →
              (change neighbor row).remoteAs = some asn) :
    Sound isAddress (mapNeighbors change db) := by
  have rows : ∀ {neighbor row}, rowOf neighbor db.neighbors = some row →
      rowOf neighbor (mapNeighbors change db).neighbors = some (change neighbor row) := by
    intro neighbor row isRow
    exact (rowOf_mapRows _ _ _).trans (congrArg (Option.map _) isRow)
  refine ⟨sound.names, sound.owned, ?_⟩
  intro ref name neighbor inside
  obtain ⟨row, isRow, before⟩ := sound.placed inside
  obtain ⟨kind, bound⟩ := placed inside isRow
  refine ⟨_, rows isRow, kind.trans before.kind, fun group isBound => ?_⟩
  obtain ⟨address, groupName, groupRow, within, isGroupRow, isGroup, same⟩ := bound group isBound
  exact ⟨address, groupName, _, within, rows isGroupRow,
    (placed within isGroupRow).1.trans isGroup, same⟩

theorem change {update : NeighborRow → NeighborRow} (inside : InRouter db ref name neighbor)
    (isRow : rowOf neighbor db.neighbors = some row) (address : isAddress name)
    (kind : (update row).isPeerGroup = row.isPeerGroup)
    (bound : ∀ group, (update row).bgpPeerGroup = some group → Leads db ref group (update row)) :
    Sound isAddress (mapNeighbors
      (fun ref row => if ref = neighbor then update row else row) db) := by
  have notGroup : ∀ {group groupRow}, rowOf group db.neighbors = some groupRow →
      groupRow.isPeerGroup = some true → group ≠ neighbor := by
    rintro group groupRow isGroupRow isGroup rfl
    cases isRow.symm.trans isGroupRow
    rw [(sound.at inside isRow).kind, address] at isGroup
    cases isGroup
  refine sound.map ?_
  intro other key value old within isOld
  by_cases here : value = neighbor
  · subst here
    obtain ⟨rfl, rfl⟩ := sound.owned within inside
    cases isRow.symm.trans isOld
    rw [if_pos rfl]
    refine ⟨kind, fun group isBound => ⟨address, ?_⟩⟩
    obtain ⟨groupName, groupRow, there, isGroupRow, isGroup, same⟩ := bound group isBound
    refine ⟨groupName, groupRow, there, isGroupRow, isGroup, ?_⟩
    rw [if_neg (notGroup isGroupRow isGroup)]
    exact same
  · rw [if_neg here]
    refine ⟨rfl, fun group isBound => ?_⟩
    obtain ⟨isAddr, groupName, groupRow, there, isGroupRow, isGroup, same⟩ :=
      (sound.at within isOld).bound group isBound
    refine ⟨isAddr, groupName, groupRow, there, isGroupRow, isGroup, ?_⟩
    rw [if_neg (notGroup isGroupRow isGroup)]
    exact same

theorem setGroupAs (inside : InRouter db ref name neighbor) (isName : isAddress name = false)
    (remoteAs : Int) : Sound isAddress (mapNeighbors (setGroupAs neighbor remoteAs) db) := by
  refine sound.map ?_
  intro other key value old within isOld
  unfold Membership.setGroupAs
  refine ⟨by split <;> rfl, fun group isBound => ?_⟩
  have bound : old.bgpPeerGroup = some group := by
    split at isBound <;> exact isBound
  have placed := sound.at within isOld
  obtain ⟨isAddr, groupName, groupRow, there, isGroupRow, isGroup, same⟩ := placed.bound group bound
  refine ⟨isAddr, groupName, groupRow, there, isGroupRow, isGroup, ?_⟩
  have notGroup : value ≠ neighbor := by
    rintro rfl
    rw [(sound.owned within inside).2, isName] at isAddr
    cases isAddr
  have notMember : isMember neighbor groupRow = false := by
    unfold isMember objectIsBgpNeighbor
    rw [isGroup]
    rfl
  have member : isMember neighbor old ↔ group = neighbor := by
    unfold isMember objectIsBgpNeighbor
    rw [placed.kind, isAddr, bound]
    simp
  simp only [notGroup, notMember, member, false_or, or_false, Bool.false_eq_true]
  split
  · exact fun _ => id
  · exact same

theorem add (found : rowOf ref db.routers = some router)
    (new : findMatchingNeighborOrPeerGroupObject router name = none)
    (placed : Placed isAddress db ref name row) :
    Sound isAddress (addNeighbor column ref router name row db) := by
  have absent : name ∉ keys router.neighbors := by
    intro member
    obtain ⟨value, inside⟩ := exists_mem_of_mem_keys member
    exact absurd (find?_eq_none.mp (Option.map_eq_none_iff.mp new) _ inside) (by simp)
  have distinct := keys_nodup_append (sound.names ref router found) absent (freshRef db.neighbors)
  have links : ∀ {other key value},
      InRouter (addNeighbor column ref router name row db) other key value ↔
        InRouter db other key value ∨
          (other = ref ∧ key = name ∧ value = freshRef db.neighbors) := by
    intro other key value
    refine (inRouter_setBgpNeighbors (by exact found) distinct).trans ?_
    split
    · rename_i same
      rw [same, inRouter_iff found]
      simp
    · rename_i differs
      change InRouter db other key value ↔ _
      simp [differs]
  have rows : ∀ {other}, rowOf other (addNeighbor column ref router name row db).neighbors =
        if other = freshRef db.neighbors then some row
        else rowOf other db.neighbors := rowOf_insertRow row _ _
  have older : ∀ {other old}, rowOf other db.neighbors = some old →
      rowOf other (addNeighbor column ref router name row db).neighbors = some old := by
    intro other old isOld
    rw [rows, if_neg, isOld]
    rintro rfl
    cases (rowOf_freshRef _).symm.trans isOld
  have notNew : ∀ {other key}, ¬ InRouter db other key (freshRef db.neighbors) := by
    intro other key within
    obtain ⟨old, isOld, _⟩ := sound.placed within
    cases (rowOf_freshRef _).symm.trans isOld
  refine ⟨names_setBgpNeighbors (by exact found) distinct sound.names, ?_, ?_⟩
  · intro first firstName second secondName value one two
    rcases links.mp one with old | ⟨rfl, rfl, rfl⟩
    · rcases links.mp two with other | ⟨rfl, rfl, rfl⟩
      · exact sound.owned old other
      · exact absurd old notNew
    · rcases links.mp two with other | ⟨rfl, rfl, _⟩
      · exact absurd other notNew
      · exact ⟨rfl, rfl⟩
  · intro other key value within
    rcases links.mp within with old | ⟨rfl, rfl, rfl⟩
    · obtain ⟨oldRow, isOld, before⟩ := sound.placed old
      exact ⟨oldRow, older isOld, before.mono (fun _ _ _ => links.mpr ∘ Or.inl) fun _ _ _ => older⟩
    · exact ⟨row, rows.trans (if_pos rfl), placed.mono
        (fun _ _ _ => links.mpr ∘ Or.inl) fun _ _ _ => older⟩

theorem free_of_address (inside : InRouter db ref name neighbor) (address : isAddress name)
    (within : InRouter db other key value) (isRow : rowOf value db.neighbors = some row) :
    row.bgpPeerGroup ≠ some neighbor := by
  intro bound
  obtain ⟨_, groupName, groupRow, there, isGroupRow, isGroup, _⟩ :=
    (sound.at within isRow).bound neighbor bound
  rw [(sound.at inside isGroupRow).kind, address] at isGroup
  cases isGroup

theorem free_of_forall_not (noMember : ∀ pair ∈ db.neighbors, isMember neighbor pair.2 = false)
    (within : InRouter db other key value) (isRow : rowOf value db.neighbors = some row) :
    row.bgpPeerGroup ≠ some neighbor := by
  intro bound
  have placed := sound.at within isRow
  have member := noMember _ (mem_of_rowOf isRow)
  unfold isMember objectIsBgpNeighbor at member
  rw [placed.kind, (placed.bound neighbor bound).1, bound] at member
  simp at member

theorem drop (found : rowOf ref db.routers = some router)
    (named : (name, neighbor) ∈ router.neighbors)
    (free : ∀ {other key value row}, InRouter db other key value →
      rowOf value db.neighbors = some row →
      row.bgpPeerGroup ≠ some neighbor) :
    Sound isAddress (deleteNeighbor neighbor (setBgpNeighbors column ref
      (router.neighbors.filter (·.1 ≠ name)) db)) := by
  have unique := sound.names ref router found
  have distinct : (keys (router.neighbors.filter (·.1 ≠ name))).Nodup :=
    unique.sublist (filter_sublist.map Prod.fst)
  have here : ∀ {key value}, InRouter db ref key value ↔
      (key, value) ∈ router.neighbors := inRouter_iff found
  have links : ∀ {other key value}, InRouter (deleteNeighbor neighbor (setBgpNeighbors column ref
        (router.neighbors.filter (·.1 ≠ name)) db)) other key value ↔
        InRouter db other key value ∧ ¬ (other = ref ∧ key = name) := by
    intro other key value
    refine (inRouter_setBgpNeighbors found distinct).trans ?_
    split
    · rename_i same
      rw [same, here]
      simp
    · rename_i differs
      simp [differs]
  have kept : ∀ {other old}, other ≠ neighbor → rowOf other db.neighbors = some old →
      rowOf other (deleteRow neighbor db.neighbors) = some old := by
    intro other old differs isOld
    rw [rowOf_deleteRow, if_neg differs, isOld]
  refine ⟨names_setBgpNeighbors found distinct sound.names, ?_, ?_⟩
  · intro first firstName second secondName value one two
    exact sound.owned (links.mp one).1 (links.mp two).1
  · intro other key value within
    obtain ⟨old, differs⟩ := links.mp within
    obtain ⟨row, isRow, placed⟩ := sound.placed old
    have apart : value ≠ neighbor := by
      rintro rfl
      exact differs (sound.owned old (here.mpr named))
    have elsewhere : ∀ {group}, row.bgpPeerGroup = some group → group ≠ neighbor := by
      rintro group bound rfl
      exact free old isRow bound
    refine ⟨row, kept apart isRow, placed.mono ?_ fun _ _ bound => kept (elsewhere bound)⟩
    intro group groupName bound there
    refine links.mpr ⟨there, ?_⟩
    rintro ⟨rfl, rfl⟩
    exact elsewhere bound (value_unique unique (here.mp there) named)

end Sound

/-! ## The handlers keep the invariant -/

/-- There is a result, and the invariant holds for it. -/
def Keeps (isAddress : CStr → Bool) (result : Option (Reply × BgpDb)) : Prop :=
  ∃ reply after, result = some (reply, after) ∧ Sound isAddress after

section

variable (sound : Sound isAddress db) (found : rowOf ref db.routers = some router) {peer : CStr}
include sound found

theorem Sound.named (named : findMatchingNeighborOrPeerGroupObject router name = some neighbor) :
    InRouter db ref name neighbor ∧ ∃ row, rowOf neighbor db.neighbors = some row ∧
        Placed isAddress db ref name row := by
  have inside := (inRouter_iff found).mpr (mem_of_findMatching named)
  exact ⟨inside, sound.placed inside⟩

theorem keeps_dropNeighbor (named :
      findMatchingNeighborOrPeerGroupObject router name = some neighbor)
    (free : ∀ {other key value row}, InRouter db other key value →
      rowOf value db.neighbors = some row →
      row.bgpPeerGroup ≠ some neighbor) :
    Keeps isAddress (dropNeighbor column ref router name neighbor db) := by
  have inside := mem_of_findMatching named
  unfold dropNeighbor bgpNeighborPeerGroupRemoveFromBgpRouter
  rw [without_of_mem (sound.names ref router found) (mem_keys_of_mem inside)]
  exact ⟨_, _, rfl, sound.drop found inside free⟩

theorem keeps_deleteGroup (noMatch : CStr) (noMembers : ∀ group,
      findMatchingNeighborOrPeerGroupObject router name = some group →
      ∀ pair ∈ db.neighbors, isMember group pair.2 = false) :
    Keeps isAddress (deleteGroup column noMatch name ref router db) := by
  unfold deleteGroup
  cases named : findMatchingNeighborOrPeerGroupObject router name with
  | none =>
    unfold deleteNeighborPeerGroup
    rw [named]
    exact ⟨_, _, rfl, sound⟩
  | some group =>
    have noMember := noMembers group named
    rw [deleteNeighborPeerGroup_of_forall_not found named (sound.names ref router found) noMember]
    exact ⟨_, _, rfl, sound.drop found (mem_of_findMatching named)
      (sound.free_of_forall_not noMember)⟩

theorem keeps_remoteAs (unbound : isAddress peer → ∀ neighbor row,
      findMatchingNeighborOrPeerGroupObject router peer = some neighbor →
      rowOf neighbor db.neighbors = some row → row.bgpPeerGroup = none) (asn : CStr) :
    Keeps isAddress (cliNeighborRemoteAsCmdExecute isAddress column peer asn ref router db) := by
  unfold cliNeighborRemoteAsCmdExecute
  dsimp only
  cases named : findMatchingNeighborOrPeerGroupObject router peer with
  | none =>
    by_cases address : isAddress peer
    · rw [if_pos address]
      refine ⟨_, _, rfl, sound.add found named ⟨?_, nofun⟩⟩
      rw [address]
      rfl
    · rw [if_neg address]
      exact ⟨_, _, rfl, sound⟩
  | some neighbor =>
    obtain ⟨inside, row, isRow, _⟩ := sound.named found named
    dsimp only
    by_cases address : isAddress peer
    · have isUnbound := unbound address neighbor row named isRow
      rw [if_pos address, isRow, Option.bind_eq_bind, Option.bind_some, isUnbound]
      refine ⟨_, _, rfl, sound.change inside isRow address rfl ?_⟩
      intro group bound
      cases isUnbound.symm.trans bound
    · rw [if_neg address]
      exact ⟨_, _, rfl, sound.setGroupAs inside (eq_false_of_ne_true address) _⟩

theorem keeps_peerGroup {group : CStr} (isName : isAddress group = false) : Keeps isAddress
      (cliNeighborPeerGroupCmdExecute column group ref router db) := by
  unfold cliNeighborPeerGroupCmdExecute
  cases named : findMatchingNeighborOrPeerGroupObject router group with
  | some _ => exact ⟨_, _, rfl, sound⟩
  | none =>
    refine ⟨_, _, rfl, sound.add found named ⟨?_, nofun⟩⟩
    rw [isName]
    rfl

theorem keeps_setPeerGroup {groupName : CStr} (address : isAddress peer)
    (isName : isAddress groupName = false) :
    Keeps isAddress (cliNeighborSetPeerGroupCmdExecute column peer groupName ref router db) := by
  unfold cliNeighborSetPeerGroupCmdExecute
  cases groupNamed : findMatchingNeighborOrPeerGroupObject router groupName with
  | none => exact ⟨_, _, rfl, sound⟩
  | some group =>
    obtain ⟨groupInside, groupRow, isGroupRow, isGroup, _⟩ := sound.named found groupNamed
    rw [isName] at isGroup
    dsimp only
    rw [isGroupRow, Option.bind_eq_bind, Option.bind_some]
    cases named : findMatchingNeighborOrPeerGroupObject router peer with
    | none =>
      dsimp only
      split
      · refine ⟨_, _, rfl, sound.add found named ⟨?_, ?_⟩⟩
        · rw [address]
          rfl
        · intro other bound
          cases bound
          exact ⟨address, groupName, groupRow, groupInside, isGroupRow, isGroup, fun _ => id⟩
      · exact ⟨_, _, rfl, sound⟩
    | some neighbor =>
      obtain ⟨inside, row, isRow, _⟩ := sound.named found named
      dsimp only
      rw [isRow, Option.bind_some]
      cases row.bgpPeerGroup with
      | some old =>
        dsimp only
        split <;> exact ⟨_, _, rfl, sound⟩
      | none =>
        dsimp only
        split
        · refine ⟨_, _, rfl, sound.change inside isRow address rfl ?_⟩
          intro other bound
          cases bound
          refine ⟨groupName, groupRow, groupInside, isGroupRow, isGroup, ?_⟩
          intro asn isAs
          rw [isAs, Option.some_or]
        · exact ⟨_, _, rfl, sound⟩

theorem keeps_noNeighbor (noMembers : isAddress peer = false → ∀ group,
      findMatchingNeighborOrPeerGroupObject router peer = some group →
      ∀ pair ∈ db.neighbors, isMember group pair.2 = false) :
    Keeps isAddress (cliNoNeighborCmdExecute isAddress column peer ref router db) := by
  unfold cliNoNeighborCmdExecute
  by_cases address : isAddress peer
  · rw [if_pos address]
    cases named : findMatchingNeighborOrPeerGroupObject router peer with
    | none => exact ⟨_, _, rfl, sound⟩
    | some neighbor =>
      exact keeps_dropNeighbor sound found named
        (sound.free_of_address (sound.named found named).1 address)
  · rw [if_neg address]
    exact keeps_deleteGroup sound found _ (noMembers (eq_false_of_ne_true address))

theorem keeps_noSetPeerGroup (peer : CStr) : Keeps isAddress
      (cliNoNeighborSetPeerGroupCmdExecute column peer ref router db) := by
  unfold cliNoNeighborSetPeerGroupCmdExecute
  cases named : findMatchingNeighborOrPeerGroupObject router peer with
  | none => exact ⟨_, _, rfl, sound⟩
  | some neighbor =>
    obtain ⟨inside, row, isRow, placed⟩ := sound.named found named
    dsimp only
    rw [isRow, Option.bind_eq_bind, Option.bind_some]
    cases bound : row.bgpPeerGroup with
    | none => exact ⟨_, _, rfl, sound⟩
    | some group =>
      obtain ⟨address, _, groupRow, _, isGroupRow, _⟩ := placed.bound group bound
      dsimp only
      rw [isGroupRow, Option.bind_some]
      split
      · exact keeps_dropNeighbor sound found named (sound.free_of_address inside address)
      · exact ⟨_, _, rfl, sound.change inside isRow address rfl nofun⟩

end

/-! ## Runs -/

/-- The object that the command names has no members. -/
def NoMembers (db : BgpDb) (index : Int) (name : CStr) : Prop :=
  ∀ ref router group, db.addressed index = .ok (ref, router) →
    findMatchingNeighborOrPeerGroupObject router name = some group →
    ∀ pair ∈ db.neighbors, isMember group pair.2 = false

/-- Addresses name neighbors and other names peer groups; no `remote-as` is set
for a neighbor that is bound, and no group with members is deleted. -/
def Allowed (isAddress : CStr → Bool) (db : BgpDb) (index : Int) : Command → Prop
  | .remoteAs peer _ => isAddress peer →
      ∀ ref router neighbor row, db.addressed index = .ok (ref, router) →
        findMatchingNeighborOrPeerGroupObject router peer = some neighbor →
        rowOf neighbor db.neighbors = some row → row.bgpPeerGroup = none
  | .peerGroup group => isAddress group = false
  | .setPeerGroup peer group =>
    isAddress peer ∧ isAddress group = false
  | .noNeighbor peer => isAddress peer = false → NoMembers db index peer
  | .noPeerGroup group => NoMembers db index group
  | .noSetPeerGroup _ _ => True

theorem keeps_execute (sound : Sound isAddress db) {index : Int} {command : Command}
    (allowed : Allowed isAddress db index command) :
    Keeps isAddress (execute isAddress column index command db) := by
  unfold execute
  cases addressed : db.addressed index with
  | error missing => exact ⟨_, _, rfl, sound⟩
  | ok pair =>
    obtain ⟨ref, router⟩ := pair
    have found := rowOf_of_addressed addressed
    cases command with
    | remoteAs peer asn =>
      exact keeps_remoteAs sound found (fun address neighbor row =>
        allowed address ref router neighbor row addressed) asn
    | peerGroup group => exact keeps_peerGroup sound found allowed
    | setPeerGroup peer group =>
      exact keeps_setPeerGroup sound found allowed.1 allowed.2
    | noNeighbor peer =>
      exact keeps_noNeighbor sound found fun isName group =>
        allowed isName ref router group addressed
    | noPeerGroup group =>
      exact keeps_deleteGroup sound found _ fun ref => allowed _ router ref addressed
    | noSetPeerGroup peer _ => exact keeps_noSetPeerGroup sound found peer

def run (isAddress : CStr → Bool) (column : MapColumn CStr Ref) :
    List (Int × Command) → BgpDb → Option BgpDb
  | [], db => some db
  | (index, command) :: rest, db => do
      let (_, after) ← execute isAddress column index command db
      run isAddress column rest after

/-- All commands are allowed where they are executed. -/
def AllowedRun (isAddress : CStr → Bool) (column : MapColumn CStr Ref) :
    List (Int × Command) → BgpDb → Prop
  | [], _ => True
  | (index, command) :: rest, db =>
    Allowed isAddress db index command ∧ ∀ reply after,
        execute isAddress column index command db = some (reply, after) →
        AllowedRun isAddress column rest after

structure Unconfigured (db : BgpDb) : Prop where
  neighbors : db.neighbors = []
  routers : ∀ ref router, rowOf ref db.routers = some router → router.neighbors = []

theorem Unconfigured.sound (start : Unconfigured db) : Sound isAddress db := by
  have outside : ∀ {ref name neighbor}, ¬ InRouter db ref name neighbor := by
    rintro ref name neighbor ⟨router, found, inside⟩
    rw [start.routers ref router found] at inside
    exact absurd inside not_mem_nil
  refine ⟨?_, fun inside => absurd inside outside, fun inside => absurd inside outside⟩
  intro ref router found
  rw [start.routers ref router found]
  exact nodup_nil

theorem Sound.run {steps : List (Int × Command)} (sound : Sound isAddress db)
    (allowed : AllowedRun isAddress column steps db) :
    ∃ after, run isAddress column steps db = some after ∧ Sound isAddress after := by
  induction steps generalizing db with
  | nil => exact ⟨db, rfl, sound⟩
  | cons first rest ih =>
    have step : Keeps isAddress (execute isAddress column _ _ db) := keeps_execute sound allowed.1
    obtain ⟨reply, middle, executed, kept⟩ := step
    obtain ⟨after, later, final⟩ := ih kept (allowed.2 reply middle executed)
    refine ⟨after, ?_, final⟩
    unfold Membership.run
    rw [executed]
    exact later

/-- **Runs of allowed commands from routers without neighbors are defined, and
in the tables they reach the members are as they should be.** -/
theorem members_of_allowedRun (isAddress : CStr → Bool) (column : MapColumn CStr Ref)
    {steps : List (Int × Command)} {db : BgpDb} (start : Unconfigured db)
    (allowed : AllowedRun isAddress column steps db) :
    ∃ after, run isAddress column steps db = some after ∧ Members after := by
  obtain ⟨after, ran, sound⟩ := start.sound.run allowed
  exact ⟨after, ran, sound.members⟩

def emptyDb : BgpDb where
  bgpRouters := some [(1, 1)]
  routers := [(1, {})]

def peer : CStr :=
  "10.0.0.1"

theorem unconfigured_emptyDb : Unconfigured emptyDb := by
  refine ⟨rfl, ?_⟩
  intro ref router found
  obtain ⟨_, rfl⟩ := mem_singleton.mp (mem_of_rowOf found)
  rfl

theorem peer_bound_to_group : ∃ after, run (· = peer) .plain
      [(1, .peerGroup "G"), (1, .remoteAs "G" "65001"),
        (1, .setPeerGroup peer "G")] emptyDb = some after ∧
      Members after := by
  refine members_of_allowedRun _ _ unconfigured_emptyDb ?_
  have isName : decide ("G" = peer) = false := by
    decide
  refine ⟨isName, fun _ _ _ => ⟨?_, fun _ _ _ => ⟨⟨rfl, isName⟩, fun _ _ _ => trivial⟩⟩⟩
  intro address
  cases isName.symm.trans address

/-- The name of a neighbor is given for that of a group. -/
theorem peer_bound_to_neighbor : ∃ after, run (· = peer) .plain
      [(1, .remoteAs peer "65001"), (1, .setPeerGroup peer peer)]
      emptyDb = some after ∧ ¬ Members after := by
  refine ⟨_, rfl, ?_⟩
  intro members
  obtain ⟨_, groupRow, _, isGroupRow, isGroup, _⟩ :=
    members.bound 1 peer 1 _ 1 ⟨_, rfl, mem_singleton.mpr rfl⟩ rfl rfl
  cases isGroupRow
  cases isGroup

end OpsCli.Bgp.Membership
