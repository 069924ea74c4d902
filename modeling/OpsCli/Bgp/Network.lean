import OpsCli.Bgp.Database

/-!
# Announced networks

`network` and `no network` change the column `networks` of the router that the
session addresses.  Before a network is removed, all routers are searched for
it, but the array for the others has room for the case that the addressed
router has it.
-/

namespace OpsCli.Bgp.Network

open CLib CString Columns RowTable PrefixText PrefixList Database
  List

variable (functions : AddressFunctions) (column : SetColumn CStr)

/-! ## The handlers -/

/-- The text under which a network is kept: the prefix is masked and written
again. -/
def canonical (network : CStr) : Option CStr :=
  ( str2prefix functions network).map fun p => prefix2str functions (applyMask p)

/-- `NETWORK_MAX_LEN`: the bytes that are reserved for each network. -/
def networkMaxLen : Int := 49

def pointerSize : Int := 8

def malformedPrefix : Reply :=
  ⟨.warning, "% Malformed prefix\n"⟩

def notAddressed : Missing → Reply
  | .vrf => .erroneous "no vrf found"
  | .router => .erroneous "no bgp router found"

/-- `ovsrec_bgp_router_set_networks`. -/
def setNetworks (ref : Ref) (networks : List CStr) (db : BgpDb) : BgpDb :=
  { db with
    routers := changeRow ref
      (fun router => { router with networks := column.arrange networks })
      db.routers }

/-- `verify_network_in_bgp_router_table`; the router that it is given is
overwritten by the loop over all routers. -/
def verifyNetworkInBgpRouterTable (prefixStr : CStr) (db : BgpDb) : Bool :=
  db.routers.any fun pair => pair.2.networks.any (· = prefixStr)

/-- `cli_no_bgp_network_cmd_execute`. -/
def cliNoBgpNetworkCmdExecute (index : Int) (network : CStr) (db : BgpDb) :
    Option (Reply × BgpDb) :=
  match canonical functions network with
  | none => some (malformedPrefix, db)
  | some prefixStr =>
    match db.addressed index with
    | .error missing => some (notAddressed missing, db)
    | .ok (ref, router) =>
      if verifyNetworkInBgpRouterTable prefixStr db then
        let size : Int := (router.networks.length : Int) - 1
        (handOver (networkMaxLen * size / pointerSize) size
            (router.networks.filter (· ≠ prefixStr))).map
          fun networks => (.committed, setNetworks column ref networks db)
      else some (.committed, db)

/-! ## What is removed -/

/-- The addressed router loses exactly the network, and no other router
changes. -/
def RemovesExactly (index : Int) (network : CStr) (db : BgpDb) : Prop :=
  ∃ reply after, cliNoBgpNetworkCmdExecute functions column index network db = some (reply, after) ∧
    ∀ ref router prefixStr, db.addressed index = .ok (ref, router) →
      canonical functions network = some prefixStr →
      (∃ changed, rowOf ref after.routers = some changed ∧
        changed.networks.Perm (router.networks.filter (· ≠ prefixStr))) ∧
      ∀ other, other ≠ ref → rowOf other after.routers = rowOf other db.routers

theorem verify_iff (prefixStr : CStr) (db : BgpDb) :
    verifyNetworkInBgpRouterTable prefixStr db ↔
      ∃ pair ∈ db.routers, prefixStr ∈ pair.2.networks := by
  unfold verifyNetworkInBgpRouterTable
  simp

section

variable {column} {ref : Ref}

theorem rowOf_setNetworks {router : RouterRow} {db : BgpDb}
    (found : rowOf ref db.routers = some router) (networks : List CStr) :
    rowOf ref (setNetworks column ref networks db).routers =
      some { router with networks := column.arrange networks } := by
  unfold setNetworks
  rw [rowOf_changeRow, found]
  rfl

theorem rowOf_setNetworks_of_ne {other : Ref} (differs : other ≠ ref) (networks : List CStr)
    (db : BgpDb) :
    rowOf other (setNetworks column ref networks db).routers = rowOf other db.routers := by
  unfold setNetworks
  rw [rowOf_changeRow_of_ne differs]

end

theorem handOver_filter {networks : List CStr} (distinct : networks.Nodup) {prefixStr : CStr}
    (member : prefixStr ∈ networks) :
    handOver (networkMaxLen * ((networks.length : Int) - 1) / pointerSize)
        ((networks.length : Int) - 1) (networks.filter (· ≠ prefixStr)) =
      some (networks.filter (· ≠ prefixStr)) := by
  have erased : networks.filter (· ≠ prefixStr) = networks.erase prefixStr := by
    rw [distinct.erase_eq_filter]
    refine filter_congr fun element _ => ?_
    rw [Bool.eq_iff_iff, decide_eq_true_iff, bne_iff_ne]
  have positive := length_pos_of_mem member
  have length := length_erase_of_mem member
  rw [← erased] at length
  have size : ((networks.filter (· ≠ prefixStr)).length : Int) = (networks.length : Int) - 1 := by
    omega
  rw [← size]
  refine handOver_length ?_
  unfold networkMaxLen pointerSize
  omega

section

variable {functions column} {index : Int} {network prefixStr : CStr} {db : BgpDb} {ref : Ref}
  {router : RouterRow}
  (accepted : canonical functions network = some prefixStr)
  (found : db.addressed index = .ok (ref, router))
include accepted found

theorem cliNoBgpNetwork_eq : cliNoBgpNetworkCmdExecute functions column index network db =
      if verifyNetworkInBgpRouterTable prefixStr db then
        (handOver (networkMaxLen * ((router.networks.length : Int) - 1) / pointerSize)
            ((router.networks.length : Int) - 1)
            (router.networks.filter (· ≠ prefixStr))).map
          fun networks => (.committed, setNetworks column ref networks db)
      else some (.committed, db) := by
  unfold cliNoBgpNetworkCmdExecute
  rw [accepted, found]

theorem removesExactly_of_mem (distinct : router.networks.Nodup)
    (member : prefixStr ∈ router.networks) : RemovesExactly functions column index network db := by
  have row := rowOf_of_addressed found
  have seen : verifyNetworkInBgpRouterTable prefixStr db :=
    (verify_iff prefixStr db).mpr ⟨(ref, router), mem_of_rowOf row, member⟩
  refine ⟨.committed, setNetworks column ref (router.networks.filter (· ≠ prefixStr)) db, ?_, ?_⟩
  · rw [cliNoBgpNetwork_eq accepted found, if_pos seen, handOver_filter distinct member]
    rfl
  · intro ref' router' prefixStr' found' accepted'
    rw [found] at found'
    rw [accepted] at accepted'
    cases found'
    cases accepted'
    refine ⟨⟨_, rowOf_setNetworks row _, ?_⟩, ?_⟩
    · exact column.arrange_perm (distinct.filter _)
    · intro other differs
      exact rowOf_setNetworks_of_ne differs _ db

theorem removesExactly_of_forall_not_mem
    (absent : ∀ pair ∈ db.routers, prefixStr ∉ pair.2.networks) :
    RemovesExactly functions column index network db := by
  have row := rowOf_of_addressed found
  have unseen : ¬ verifyNetworkInBgpRouterTable prefixStr db := by
    rw [verify_iff]
    rintro ⟨pair, member, inside⟩
    exact absent pair member inside
  refine ⟨.committed, db, ?_, ?_⟩
  · rw [cliNoBgpNetwork_eq accepted found, if_neg unseen]
  · intro ref' router' prefixStr' found' accepted'
    rw [found] at found'
    rw [accepted] at accepted'
    cases found'
    cases accepted'
    refine ⟨⟨router, row, ?_⟩, fun _ _ => rfl⟩
    have all : ∀ element ∈ router.networks, decide (element ≠ prefixStr) := by
      intro element member
      refine decide_eq_true ?_
      rintro rfl
      exact absent (ref, router) (mem_of_rowOf row) member
    rw [filter_eq_self.mpr all]

/-- A network that only another router has costs the addressed router a
network, or the handler has no defined result. -/
theorem not_removesExactly (distinct : router.networks.Nodup) (absent : prefixStr ∉ router.networks)
    (elsewhere : ∃ pair ∈ db.routers, prefixStr ∈ pair.2.networks) :
    ¬ RemovesExactly functions column index network db := by
  rintro ⟨reply, after, ran, removes⟩
  have row := rowOf_of_addressed found
  have all : ∀ element ∈ router.networks, decide (element ≠ prefixStr) := by
    intro element member
    refine decide_eq_true ?_
    rintro rfl
    exact absent member
  have kept : router.networks.filter (· ≠ prefixStr) = router.networks := filter_eq_self.mpr all
  rw [cliNoBgpNetwork_eq accepted found, if_pos ((verify_iff prefixStr db).mpr elsewhere)] at ran
  obtain ⟨networks, handed, equal⟩ := Option.map_eq_some_iff.mp ran
  cases equal
  have short := length_of_handOver handed
  have shorter : networks.Nodup := by
    unfold handOver at handed
    split at handed
    · cases handed
      exact (distinct.filter _).sublist (take_sublist _ _)
    · cases handed
  obtain ⟨⟨changed, rowAfter, perm⟩, _⟩ := removes ref router prefixStr found accepted
  rw [rowOf_setNetworks row networks] at rowAfter
  cases rowAfter
  have same := ((column.arrange_perm shorter).symm.trans perm).length_eq
  rw [kept] at same
  omega

end

/-- **`no network` removes exactly the network if the addressed router has it,
or no router has it.** -/
theorem removesExactly_iff {index : Int} {network prefixStr : CStr} {db : BgpDb} {ref : Ref}
    {router : RouterRow} (accepted : canonical functions network = some prefixStr)
    (found : db.addressed index = .ok (ref, router)) (distinct : router.networks.Nodup) :
    RemovesExactly functions column index network db ↔ prefixStr ∈ router.networks ∨
        ∀ pair ∈ db.routers, prefixStr ∉ pair.2.networks := by
  constructor
  · intro removes
    by_contra neither
    rw [not_or] at neither
    obtain ⟨absent, some⟩ := neither
    have elsewhere : ∃ pair ∈ db.routers, prefixStr ∈ pair.2.networks := by
      by_contra none
      refine some fun pair member inside => ?_
      exact none ⟨pair, member, inside⟩
    exact not_removesExactly accepted found distinct absent elsewhere removes
  · rintro (member | absent)
    · exact removesExactly_of_mem accepted found distinct member
    · exact removesExactly_of_forall_not_mem accepted found absent

/-- The addressed router announces two networks, another one announces
`10.0.0.0/8`. -/
def twoRouters : BgpDb where
  bgpRouters := some [(1, 1), (2, 2)]
  routers :=
    [(1, { networks := ["20.0.0.0/8", "30.0.0.0/8"] }), (2, { networks := ["10.0.0.0/8"] })]

theorem canonical_ten : canonical .sample "10.0.0.0/8" = some "10.0.0.0/8".toList := by
  decide

theorem own_network_removed : RemovesExactly .sample .plain 2 "10.0.0.0/8" twoRouters := by
  have found : twoRouters.addressed 2 = .ok (2, { networks := ["10.0.0.0/8"] }) := by
    decide
  exact (removesExactly_iff .sample .plain canonical_ten found (by decide)).mpr (.inl mem_cons_self)

/-- The other router's network is named: the addressed router loses its last
network. -/
theorem last_network_lost :
    cliNoBgpNetworkCmdExecute .sample .plain 1 "10.0.0.0/8" twoRouters =
        some (.committed, setNetworks .plain 1 ["20.0.0.0/8"] twoRouters) ∧
      ¬ RemovesExactly .sample .plain 1 "10.0.0.0/8" twoRouters := by
  have found : twoRouters.addressed 1 = .ok (1,
        { networks := ["20.0.0.0/8", "30.0.0.0/8"] }) := by
    decide
  refine ⟨by decide, ?_⟩
  refine not_removesExactly canonical_ten found (by decide) (by decide) ?_
  exact ⟨_, mem_cons_of_mem _ mem_cons_self, mem_cons_self⟩

end OpsCli.Bgp.Network
