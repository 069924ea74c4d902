import OpsCli.Bgp.PrefixList

/-!
# Route maps in the database

`policy_set_route_map_in_ovsdb` makes an entry of a route map and enters its
context, in which the match and set clauses are configured.
-/

namespace OpsCli.Bgp.RouteMapConfig

open CLib CString Columns NamedMaps PrefixList

/-! ## The tables -/

/-- The columns of a row of `Route_Map_Entry`. -/
structure RouteMapEntry where
  action : CStr
  matchClauses : List (CStr × CStr)
  setClauses : List (CStr × CStr)
deriving DecidableEq, Repr

/-- A row of `Route_Map`: its name and its entries. -/
abbrev RouteMapRow := NamedMap CStr Int RouteMapEntry Unit

/-- The table `Route_Map`. -/
abbrev RouteMapTable := MapTable CStr Int RouteMapEntry Unit

/-- `rmp_context`: what `strncpy` has copied into the arrays. -/
structure RmpContext where
  name : CStr
  action : CStr
  pref : Nat
deriving DecidableEq, Repr

/-- The size of the arrays of `rmp_context`. -/
def rmpContextSize : Nat := 80

/-- The table and the context of the session, which is there after a route map
was entered. -/
structure RouteMapState where
  table : RouteMapTable
  context : Option RmpContext

def RouteMapState.empty : RouteMapState :=
  ⟨.empty, none⟩

/-! ## The handler -/

/-- The arguments of `route-map WORD (deny|permit) <1-65535>`. -/
structure RouteMapArgs where
  name : CStr
  typestr : CStr
  seq : CStr
deriving DecidableEq, Repr

/-- `policy_route_map_get_seq`. -/
def policyRouteMapGetSeq (seqstr : CStr) : Option Nat :=
  match strtoul seqstr with
  | (pseq, endptr) =>
    if pseq = ulongMax ∨ endptr ≠ [] ∨ pseq = 0 ∨ 65535 < pseq then none
    else some pseq

def newEntry (action : CStr) : RouteMapEntry :=
  ⟨action, [], []⟩

def actionUpdate (pref : Nat) (action : CStr) : Update Int RouteMapEntry where
  key := pref
  probe := pref
  value := newEntry action

/-- The comparison of an entry with the action that is looked for. -/
def sameAction (entry wanted : RouteMapEntry) : Bool :=
  entry.action = wanted.action

theorem sameAction_iff {entry wanted : RouteMapEntry} :
    sameAction entry wanted ↔ entry.action = wanted.action :=
  decide_eq_true_iff

/-- `policy_get_route_map_in_ovsdb`. -/
def policyGetRouteMapInOvsdb (name : CStr) (rows : List RouteMapRow) : Option RouteMapRow :=
  firstNamed name rows

/-- `policy_get_route_map_entry_in_ovsdb`. -/
def policyGetRouteMapEntryInOvsdb (pref : Nat) (name action : CStr)
    (rows : List RouteMapRow) : Bool :=
  isFound sameAction name (actionUpdate pref action) rows

variable (column : MapColumn Int RouteMapEntry)

/-- `bgp_route_map_entry_insert_to_route_map`. -/
def bgpRouteMapEntryInsertToRouteMap (row : RouteMapRow) (entry : RouteMapEntry) (seq : Int)
    (table : RouteMapTable) : RouteMapTable :=
  table.append column row seq entry

/-- The transaction of `policy_set_route_map_in_ovsdb`. -/
def storeAction (name action : CStr) (pref : Nat) (table : RouteMapTable) : RouteMapTable :=
  let table := { table with rows := ensureNamed () name table.rows }
  if policyGetRouteMapEntryInOvsdb pref name action table.rows then table
  else
    match policyGetRouteMapInOvsdb name table.rows with
    | none => table
    | some row =>
      bgpRouteMapEntryInsertToRouteMap column row (newEntry action) pref table

/-- `typestr` abbreviates one of the two actions. -/
def isAction (typestr : CStr) : Bool :=
  typestr.isPrefixOf "permit" || typestr.isPrefixOf "deny"

/-- `policy_set_route_map_in_ovsdb`. -/
def policySetRouteMapInOvsdb (args : RouteMapArgs) (state : RouteMapState) :
    Reply × RouteMapState :=
  if !isAction args.typestr then (⟨.warning, []⟩, state)
  else
    match policyRouteMapGetSeq args.seq with
    | none => (⟨.success, []⟩, state)
    | some pref =>
      (.committed,
        { table := storeAction column args.name args.typestr pref state.table
          context := some
            { name := args.name.take rmpContextSize
              action := args.typestr.take rmpContextSize
              pref } })

theorem storeAction_eq (name action : CStr) (pref : Nat) (table : RouteMapTable) :
    storeAction column name action pref table =
      table.store column sameAction () name (actionUpdate pref action) := by
  unfold storeAction MapTable.store policyGetRouteMapEntryInOvsdb
    policyGetRouteMapInOvsdb bgpRouteMapEntryInsertToRouteMap
  dsimp only
  cases firstNamed name (ensureNamed () name table.rows) with
  | none => rfl
  | some row => rfl

end OpsCli.Bgp.RouteMapConfig
