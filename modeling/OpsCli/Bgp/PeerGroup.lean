import OpsCli.Bgp.Database

/-!
# Deleting a peer group

`delete_neighbor_peer_group` first takes the members of the group out of the
router, then the group itself.  The array for the first step is filled with the
member, where all the others are meant.
-/

namespace OpsCli.Bgp.PeerGroup

open CLib CString Columns RowTable Command.Selection Database List

variable (column : MapColumn CStr Ref)

/-! ## The neighbors of a router -/

def withNeighbors (pairs : List (CStr × Ref)) (router : RouterRow) : RouterRow :=
  { router with neighbors := pairs }

/-- `ovsrec_bgp_router_set_bgp_neighbors`. -/
def setBgpNeighbors (ref : Ref) (pairs : List (CStr × Ref)) (db : BgpDb) : BgpDb :=
  { db with
    routers := changeRow ref (withNeighbors (column.arrange pairs))
      db.routers }

/-- `bgp_neighbor_remove_for_matching_peer_group_from_bgp_router`: the pairs of
the neighbor are copied into an array with one slot less. -/
def bgpNeighborRemoveForMatchingPeerGroupFromBgpRouter (ref neighbor : Ref) (router : RouterRow)
    (db : BgpDb) : Option BgpDb :=
  (filled ((router.neighbors.length : Int) - 1) (router.neighbors.filter (·.2 = neighbor))).map
    fun pairs => setBgpNeighbors column ref pairs db

/-- `bgp_neighbor_peer_group_remove_from_bgp_router`. -/
def bgpNeighborPeerGroupRemoveFromBgpRouter (ref : Ref) (name : CStr) (router : RouterRow)
    (db : BgpDb) : Option BgpDb :=
  (without name router.neighbors).map fun pairs => setBgpNeighbors column ref pairs db

/-- `ovsrec_bgp_neighbor_delete`. -/
def deleteNeighbor (ref : Ref) (db : BgpDb) : BgpDb :=
  { db with neighbors := deleteRow ref db.neighbors }

def isMember (group : Ref) (row : NeighborRow) : Bool :=
  objectIsBgpNeighbor row && row.bgpPeerGroup = some group

/-- The loop of `delete_neighbor_peer_group` over the rows of
`BGP_Neighbor`. -/
def deleteMembers (ref group : Ref) : List (Ref × NeighborRow) → BgpDb → Option BgpDb
  | [], db => some db
  | (neighbor, row) :: rest, db =>
    if isMember group row then do
      let router ← rowOf ref db.routers
      let removed ← bgpNeighborRemoveForMatchingPeerGroupFromBgpRouter column ref neighbor router db
      deleteMembers ref group rest (deleteNeighbor neighbor removed)
    else deleteMembers ref group rest db

/-- `delete_neighbor_peer_group`. -/
def deleteNeighborPeerGroup (ref : Ref) (router : RouterRow) (name : CStr)
    (db : BgpDb) : Option (CmdStatus × BgpDb) :=
  match findMatchingNeighborOrPeerGroupObject router name with
  | none => some (.errNoMatch, db)
  | some group => do
      let db ← deleteMembers column ref group db.neighbors db
      let router ← rowOf ref db.routers
      let db ← bgpNeighborPeerGroupRemoveFromBgpRouter column ref name router db
      some (.success, deleteNeighbor group db)

section

variable {column} {ref : Ref} {router : RouterRow} {db : BgpDb}
  (found : rowOf ref db.routers = some router) (pairs : List (CStr × Ref))
include found

theorem rowOf_setBgpNeighbors : rowOf ref (setBgpNeighbors column ref pairs db).routers =
      some (withNeighbors (column.arrange pairs) router) := by
  unfold setBgpNeighbors
  rw [rowOf_changeRow, found]
  rfl

end

variable {router : RouterRow} {name : CStr} {ref group : Ref} {rows : List (Ref × NeighborRow)}
  {pair : Ref × NeighborRow}
  {db after : BgpDb}

theorem mem_of_findMatching (found : findMatchingNeighborOrPeerGroupObject router name = some ref) :
    (name, ref) ∈ router.neighbors := by
  obtain ⟨⟨key, _⟩, first, rfl⟩ := Option.map_eq_some_iff.mp found
  have same := find?_some first
  have equal : key = name := of_decide_eq_true same
  rw [← equal]
  exact mem_of_find?_eq_some first

/-! ## The loop -/

theorem deleteMembers_of_forall_not
    (none : ∀ pair ∈ rows, isMember group pair.2 = false) (db : BgpDb) :
    deleteMembers column ref group rows db = some db := by
  induction rows with
  | nil => rfl
  | cons pair rest ih =>
    unfold deleteMembers
    rw [none pair mem_cons_self, if_neg Bool.false_ne_true]
    exact ih fun later member => none later (mem_cons_of_mem _ member)

/-- The router has lost the name of the group. -/
def LostName (ref : Ref) (name : CStr) (db : BgpDb) : Prop :=
  ∃ router, rowOf ref db.routers = some router ∧
    (keys router.neighbors).Nodup ∧ name ∉ keys router.neighbors

section

variable {column} {neighbor : Ref}
  (found : rowOf ref db.routers = some router)
  (distinct : (keys router.neighbors).Nodup)
  (removed : bgpNeighborRemoveForMatchingPeerGroupFromBgpRouter column ref
    neighbor router db = some after)
include found distinct removed

theorem lostName_of_removed (other : (name, neighbor) ∉ router.neighbors) :
    LostName ref name (deleteNeighbor neighbor after) := by
  obtain ⟨pairs, copied, rfl⟩ := Option.map_eq_some_iff.mp removed
  have kept : pairs = router.neighbors.filter (·.2 = neighbor) := by
    unfold filled at copied
    split at copied
    · exact (Option.some.inj copied).symm
    · cases copied
  have still : (keys pairs).Nodup := by
    rw [kept]
    exact distinct.sublist (filter_sublist.map Prod.fst)
  refine ⟨_, rowOf_setBgpNeighbors found pairs, column.keys_arrange_nodup still, ?_⟩
  intro member
  obtain ⟨value, inside⟩ := exists_mem_of_mem_keys member
  have stored := (column.mem_arrange still).mp inside
  rw [kept, mem_filter, decide_eq_true_eq] at stored
  obtain ⟨old, rfl⟩ := stored
  exact other old

end

theorem deleteMembers_cons_member {rest : List (Ref × NeighborRow)}
    (found : rowOf ref db.routers = some router) (bound : isMember group pair.2)
    (ran : deleteMembers column ref group (pair :: rest) db = some after) :
    ∃ removed, bgpNeighborRemoveForMatchingPeerGroupFromBgpRouter column ref pair.1
        router db = some removed ∧
      deleteMembers column ref group rest (deleteNeighbor pair.1 removed) = some after := by
  unfold deleteMembers at ran
  rw [if_pos bound, found] at ran
  exact Option.bind_eq_some_iff.mp ran

theorem deleteMembers_cons_other (other : ¬ isMember group pair.2)
    (rest : List (Ref × NeighborRow)) (db : BgpDb) :
    deleteMembers column ref group (pair :: rest) db = deleteMembers column ref group rest db := by
  rw [deleteMembers, if_neg other]

theorem LostName.deleteMembers (lost : LostName ref name db)
    (ran : deleteMembers column ref group rows db = some after) : LostName ref name after := by
  induction rows generalizing db with
  | nil =>
    cases ran
    exact lost
  | cons pair rest ih =>
    by_cases bound : isMember group pair.2
    · obtain ⟨router, found, distinct, absent⟩ := lost
      obtain ⟨removed, step, later⟩ := deleteMembers_cons_member column found bound ran
      refine ih (lostName_of_removed found distinct step ?_) later
      intro member
      exact absent (mem_keys_of_mem member)
    · rw [deleteMembers_cons_other column bound] at ran
      exact ih lost ran

theorem lostName_of_member (found : rowOf ref db.routers = some router)
    (distinct : (keys router.neighbors).Nodup) (named : (name, group) ∈ router.neighbors)
    (isGroup : ∀ pair ∈ rows, pair.1 = group → objectIsBgpNeighbor pair.2 = false)
    (someMember : ∃ pair ∈ rows, isMember group pair.2)
    (ran : deleteMembers column ref group rows db = some after) : LostName ref name after := by
  induction rows with
  | nil =>
    obtain ⟨pair, member, _⟩ := someMember
    exact absurd member not_mem_nil
  | cons pair rest ih =>
    by_cases bound : isMember group pair.2
    · obtain ⟨removed, step, later⟩ := deleteMembers_cons_member column found bound ran
      refine LostName.deleteMembers column (lostName_of_removed found distinct step ?_) later
      intro member
      have same := value_unique distinct member named
      have notNeighbor := isGroup pair mem_cons_self same
      unfold isMember at bound
      rw [notNeighbor] at bound
      cases bound
    · rw [deleteMembers_cons_other column bound] at ran
      refine ih (fun later member => isGroup later (mem_cons_of_mem _ member)) ?_ ran
      obtain ⟨culprit, member, isBound⟩ := someMember
      rcases mem_cons.mp member with rfl | later
      · exact absurd isBound bound
      · exact ⟨culprit, later, isBound⟩

/-! ## The deletion -/

/-- The pairs that the router is meant to keep. -/
def remaining (group : Ref) (db : BgpDb) (router : RouterRow) : List (CStr × Ref) :=
  router.neighbors.filter fun pair =>
    pair.2 ≠ group && !(rowOf pair.2 db.neighbors).any (isMember group)

/-- The router keeps all pairs but those of the group and of its members, in
their order. -/
def DeletesGroup (ref group : Ref) (router : RouterRow) (name : CStr) (db : BgpDb) : Prop :=
  ∃ status after changed, deleteNeighborPeerGroup column ref router name db = some (status, after) ∧
    rowOf ref after.routers = some changed ∧
    changed.neighbors = column.arrange (remaining group db router)

/-- Without a member the router keeps what it is meant to keep exactly if the
group has one name. -/
theorem filter_eq_remaining (named : findMatchingNeighborOrPeerGroupObject router name = some group)
    (distinct : (keys router.neighbors).Nodup)
    (none : ∀ pair ∈ db.neighbors, isMember group pair.2 = false)
    (once : ∀ pair ∈ router.neighbors, pair.2 = group → pair.1 = name) :
    router.neighbors.filter (·.1 ≠ name) = remaining group db router := by
  refine filter_congr ?_
  rintro ⟨key, value⟩ member
  have noMember : (rowOf value db.neighbors).any (isMember group) = false := by
    cases row : rowOf value db.neighbors with
    | none => rfl
    | some neighbor => exact none _ (mem_of_rowOf row)
  rw [noMember, Bool.not_false, Bool.and_true, decide_eq_decide]
  refine not_congr ⟨?_, fun same => once (key, value) member same⟩
  rintro rfl
  exact value_unique distinct member (mem_of_findMatching named)

section

variable {column}
  (found : rowOf ref db.routers = some router)
  (named : findMatchingNeighborOrPeerGroupObject router name = some group)
  (distinct : (keys router.neighbors).Nodup)
include found named distinct

theorem deleteNeighborPeerGroup_of_member (isGroup : ∀ pair ∈ db.neighbors, pair.1 = group →
      objectIsBgpNeighbor pair.2 = false)
    (someMember : ∃ pair ∈ db.neighbors, isMember group pair.2) :
    deleteNeighborPeerGroup column ref router name db = none := by
  unfold deleteNeighborPeerGroup
  rw [named]
  dsimp only
  cases ran : deleteMembers column ref group db.neighbors db with
  | none => rfl
  | some after =>
    obtain ⟨changed, row, _, absent⟩ := lostName_of_member column found
      distinct (mem_of_findMatching named) isGroup someMember ran
    rw [Option.bind_eq_bind, Option.bind_some, row]
    change (bgpNeighborPeerGroupRemoveFromBgpRouter column ref name changed after).bind _ = none
    unfold bgpNeighborPeerGroupRemoveFromBgpRouter
    rw [without_of_not_mem absent]
    rfl

theorem deleteNeighborPeerGroup_of_forall_not
    (none : ∀ pair ∈ db.neighbors, isMember group pair.2 = false) :
    deleteNeighborPeerGroup column ref router name db =
      some (.success, deleteNeighbor group (setBgpNeighbors column ref
          (router.neighbors.filter (·.1 ≠ name)) db)) := by
  have removed := without_of_mem distinct (mem_keys_of_mem (mem_of_findMatching named))
  unfold deleteNeighborPeerGroup bgpNeighborPeerGroupRemoveFromBgpRouter
  rw [named]
  dsimp only
  rw [deleteMembers_of_forall_not column none, Option.bind_eq_bind, Option.bind_some, found]
  change ((without name router.neighbors).map _).bind _ = _
  rw [removed]
  rfl

end

/-- **A peer group is deleted as described exactly if it has no member and one
name.** -/
theorem deletesGroup_iff {ref group : Ref} {router : RouterRow} {name : CStr} {db : BgpDb}
    (found : rowOf ref db.routers = some router)
    (named : findMatchingNeighborOrPeerGroupObject router name = some group)
    (distinct : (keys router.neighbors).Nodup)
    (isGroup : ∀ pair ∈ db.neighbors, pair.1 = group → objectIsBgpNeighbor pair.2 = false) :
    DeletesGroup column ref group router name db ↔
      (∀ pair ∈ db.neighbors, isMember group pair.2 = false) ∧
        ∀ pair ∈ router.neighbors, pair.2 = group → pair.1 = name := by
  constructor
  · rintro ⟨status, after, changed, ran, row, kept⟩
    have none : ∀ pair ∈ db.neighbors, isMember group pair.2 = false := by
      intro pair member
      rw [Bool.eq_false_iff]
      intro bound
      rw [deleteNeighborPeerGroup_of_member found named distinct isGroup
        ⟨pair, member, bound⟩] at ran
      cases ran
    refine ⟨none, ?_⟩
    rintro ⟨key, value⟩ member same
    cases same
    by_contra otherName
    rw [deleteNeighborPeerGroup_of_forall_not found named distinct none] at ran
    cases ran
    change rowOf ref (setBgpNeighbors column ref _ db).routers = _ at row
    rw [rowOf_setBgpNeighbors found] at row
    cases row
    have without : (keys (router.neighbors.filter (·.1 ≠ name))).Nodup :=
      distinct.sublist (filter_sublist.map Prod.fst)
    have meant : (keys (remaining value db router)).Nodup :=
      distinct.sublist (filter_sublist.map Prod.fst)
    have inside := (column.mem_arrange without).mpr
      (mem_filter.mpr ⟨member, decide_eq_true otherName⟩)
    change column.arrange _ = column.arrange _ at kept
    rw [kept, column.mem_arrange meant] at inside
    have own := (mem_filter.mp inside).2
    simp at own
  · rintro ⟨none, once⟩
    refine ⟨_, _, _, deleteNeighborPeerGroup_of_forall_not found named distinct none,
      rowOf_setBgpNeighbors found _, ?_⟩
    rw [← filter_eq_remaining named distinct none once]
    rfl

def groupRouter : RouterRow where
  neighbors := [("G", 1), ("10.0.0.1", 2), ("10.0.0.2", 3)]

def groupDb (bound : Option Ref) : BgpDb where
  bgpRouters := some [(1, 1)]
  routers := [(1, groupRouter)]
  neighbors := [(1, { isPeerGroup := some true }),
    (2, { isPeerGroup := some false, bgpPeerGroup := bound }),
    (3, { isPeerGroup := some false })]

theorem empty_group_deleted : DeletesGroup .plain 1 1 groupRouter "G" (groupDb none) :=
  (deletesGroup_iff .plain (by decide) (by decide) (by decide) (by decide)).mpr (by decide)

/-- A group with a member is deleted: the arrays for the router are not
filled. -/
theorem group_with_member_not_deleted : deleteNeighborPeerGroup .plain 1 groupRouter "G"
        (groupDb (some 1)) = none ∧
      ¬ DeletesGroup .plain 1 1 groupRouter "G" (groupDb (some 1)) := by
  have undefined : deleteNeighborPeerGroup .plain 1 groupRouter "G"
      (groupDb (some 1)) = none := by
    decide
  refine ⟨undefined, ?_⟩
  rintro ⟨status, after, changed, ran, _⟩
  rw [undefined] at ran
  cases ran

end OpsCli.Bgp.PeerGroup
