import OpsCli.CLib.RowTable
import OpsCli.Bgp.PrefixList

/-!
# The BGP tables

The rows that the handlers of the BGP context work on.  A session in this
context addresses a router by the autonomous system number in `vty->index`; all
commands are about the default VRF.
-/

namespace OpsCli.Bgp.Database

open CLib CString RowTable

/-- The columns of a row of `BGP_Router`. -/
structure RouterRow where
  networks : List CStr := []
  neighbors : List (CStr × Ref) := []
deriving DecidableEq, Repr

/-- The columns of a row of `BGP_Neighbor`, which may be a neighbor or a peer
group. -/
structure NeighborRow where
  isPeerGroup : Option Bool := none
  bgpPeerGroup : Option Ref := none
  remoteAs : Option Int := none
  prefixLists : List (CStr × Ref) := []
  aspathFilters : List (CStr × Ref) := []
  routeMaps : List (CStr × Ref) := []
deriving DecidableEq, Repr

/-- The tables.  `bgpRouters` is the column of the default VRF, if there is
one; of the policy objects only the names are read. -/
structure BgpDb where
  bgpRouters : Option (List (Int × Ref)) := none
  routers : List (Ref × RouterRow) := []
  neighbors : List (Ref × NeighborRow) := []
  prefixLists : List (Ref × CStr) := []
  aspathFilters : List (Ref × CStr) := []
  routeMaps : List (Ref × CStr) := []
deriving DecidableEq, Repr

/-- What is missing when no router is addressed. -/
inductive Missing where
  | vrf
  | router
deriving DecidableEq, Repr

/-- `get_ovsrec_vrf_with_name` and `get_ovsrec_bgp_router_with_asn`. -/
def BgpDb.addressed (db : BgpDb) (index : Int) : Except Missing (Ref × RouterRow) :=
  match db.bgpRouters with
  | none => .error .vrf
  | some routers =>
    match routers.find? (·.1 = index) with
    | none => .error .router
    | some (_, ref) =>
      match rowOf ref db.routers with
      | none => .error .router
      | some router => .ok (ref, router)

/-- `find_matching_neighbor_or_peer_group_object`; its parameter
`is_peer_group` is not used. -/
def findMatchingNeighborOrPeerGroupObject (router : RouterRow) (name : CStr) : Option Ref :=
  (router.neighbors.find? (·.1 = name)).map Prod.snd

/-- `object_is_bgp_neighbor`. -/
def objectIsBgpNeighbor (row : NeighborRow) : Bool :=
  match row.isPeerGroup with
  | none => true
  | some isPeerGroup => !isPeerGroup

theorem rowOf_of_addressed {db : BgpDb} {index : Int} {ref : Ref} {router : RouterRow}
    (found : db.addressed index = .ok (ref, router)) : rowOf ref db.routers = some router := by
  unfold BgpDb.addressed at found
  split at found
  · cases found
  · split at found
    · cases found
    · split at found
      · cases found
      · rename_i row
        cases found
        exact row

end OpsCli.Bgp.Database
