import OpsCli.CLib.Runs
import OpsCli.Ospf.Database

/-!
# Network ranges

`network R area A` and `no network R area A`.  A router keeps its ranges in a
map column from texts to area ids.  All routers are searched for the range
before the column of one of them is set.
-/

namespace OpsCli.Ospf.NetworkRange

open CLib CString Columns RowTable Runs Bgp.PrefixList Database
  List

/-- The column `networks` of a row of `OSPF_Router`. -/
abbrev Networks := List (CStr × Int)

/-- The column `ospf_routers` of the default VRF, if there is one, and the
table `OSPF_Router`. -/
structure RouterDb where
  instances : Option (List (Int × Ref))
  routers : List (Ref × Networks)

/-- `ospf_router_lookup_by_instance_id`. -/
def RouterDb.lookup (instanceId : Int) (instances : List (Int × Ref))
    (db : RouterDb) : Option (Ref × Networks) :=
  (valueOf instanceId instances).bind fun ref => (rowOf ref db.routers).map (ref, ·)

/-- `ospf_network_insert_ospf_router`. -/
def ospfNetworkInsertOspfRouter (areaId : Int) (networkRange : CStr)
    (networks : Networks) : Networks :=
  networks ++ [(networkRange, areaId)]

/-- `ospf_network_remove_from_ospf_router`. -/
def ospfNetworkRemoveFromOspfRouter (areaId : Int) (networkRange : CStr)
    (networks : Networks) : Option Networks :=
  if (networkRange, areaId) ∈ networks then
    filled ((networks.length : Int) - 1) (networks.filter (· ≠ (networkRange, areaId)))
  else some networks

/-- The loop over the networks of all routers: a message, or whether the range
is configured. -/
def searchNetworks (noFlag : Bool) (networkRange : CStr) (areaId : Int) :
    Bool → Networks → Except String Bool
  | isPresent, [] => .ok isPresent
  | isPresent, (key, value) :: rest =>
    if key = networkRange ∧ value ≠ areaId then
      .error (if noFlag then "Area id is not  configured." else
        "Remove the existing area id before configuring a new one.")
    else if key = networkRange then
      if noFlag then searchNetworks noFlag networkRange areaId true rest
      else .error "Configuration already exists."
    else searchNetworks noFlag networkRange areaId isPresent rest

/-- `ospf_router_area_id_cmd_execute`. -/
def ospfRouterAreaIdCmdExecute (noFlag : Bool) (instanceId : Int) (networkRange : CStr)
    (areaId : Int) (db : RouterDb) : Option (Reply × RouterDb) :=
  match searchNetworks noFlag networkRange areaId false (db.routers.flatMap Prod.snd) with
  | .error message => some (aborted message, db)
  | .ok isPresent =>
    if noFlag && !isPresent then
      some (aborted "Configuration does not exist.", db)
    else
      match db.instances with
      | none => some (erroneous "VRF is not present.", db)
      | some instances =>
        match db.lookup instanceId instances with
        | none => some (erroneous "OSPF router is not present.", db)
        | some (ref, networks) =>
          (if noFlag then
            ospfNetworkRemoveFromOspfRouter areaId networkRange networks
          else some (ospfNetworkInsertOspfRouter areaId networkRange networks)).map fun networks =>
              (.committed, { db with
                routers := changeRow ref (fun _ => networks) db.routers })

structure NetworkCommand where
  noFlag : Bool
  instanceId : Int
  networkRange : CStr
  areaId : Int
deriving DecidableEq, Repr

variable (command : NetworkCommand)

def NetworkCommand.execute : RouterDb → Option (Reply × RouterDb) :=
  ospfRouterAreaIdCmdExecute command.noFlag command.instanceId command.networkRange command.areaId

def NetworkCommand.step (db : RouterDb) : Option RouterDb :=
  (command.execute db).map Prod.snd

/-- The area of a range of a router. -/
def RouterDb.areaOf (ref : Ref) (networkRange : CStr) (db : RouterDb) : Option Int :=
  (rowOf ref db.routers).bind (valueOf networkRange)

/-- No router has a range twice. -/
def RouterDb.Keyed (db : RouterDb) : Prop :=
  ∀ ref networks, rowOf ref db.routers = some networks → (CLib.Columns.keys networks).Nodup

/-- An accepted command sets or erases its range in the router of its instance,
and nothing else. -/
structure NetworkCommand.Lawful (db next : RouterDb) : Prop where
  keyed : next.Keyed
  accepted : command.execute db = some (.committed, next) →
    ∃ instances ref networks, db.instances = some instances ∧
      db.lookup command.instanceId instances = some (ref, networks) ∧
      ∀ other networkRange, next.areaOf other networkRange =
        if other = ref ∧ command.networkRange = networkRange then
          if command.noFlag then none else some command.areaId
        else db.areaOf other networkRange
  refused : command.execute db ≠ some (.committed, next) → next = db

variable {networkRange : CStr} {networks : Networks} {noFlag : Bool} {areaId : Int}

theorem searchNetworks_ok {isPresent found : Bool}
    (searched : searchNetworks noFlag networkRange areaId isPresent networks = .ok found) :
    ∀ value, (networkRange, value) ∈ networks → value = areaId ∧ noFlag := by
  induction networks generalizing isPresent with
  | nil => nofun
  | cons pair rest ih =>
    obtain ⟨key, stored⟩ := pair
    rw [searchNetworks] at searched
    intro value member
    split at searched
    · cases searched
    rename_i sameArea
    split at searched
    · split at searched
      · rcases mem_cons.mp member with equal | later
        · cases equal
          exact ⟨not_not.mp fun differs => sameArea ⟨rfl, differs⟩, ‹_›⟩
        · exact ih searched value later
      · cases searched
    · rename_i other
      rcases mem_cons.mp member with equal | later
      · exact absurd (congrArg Prod.fst equal).symm other
      · exact ih searched value later

theorem set_spec (distinct : (CLib.Columns.keys networks).Nodup)
    (searched : ∀ value, (networkRange, value) ∈ networks → value = areaId ∧ noFlag) :
    ∃ set, (if noFlag then
        ospfNetworkRemoveFromOspfRouter areaId networkRange networks
      else some (ospfNetworkInsertOspfRouter areaId networkRange networks)) =
        some set ∧ (CLib.Columns.keys set).Nodup ∧
      ∀ other, valueOf other set = if networkRange = other then
        if noFlag then none else some areaId else valueOf other networks := by
  cases noFlag with
  | false =>
    have new : networkRange ∉ CLib.Columns.keys networks := by
      intro member
      obtain ⟨value, inside⟩ := exists_mem_of_mem_keys member
      cases (searched value inside).2
    refine ⟨_, rfl, keys_nodup_append distinct new areaId, fun other => ?_⟩
    rw [ospfNetworkInsertOspfRouter, valueOf_append, valueOf_cons]
    split
    · rename_i same
      rw [← same, valueOf_eq_none new]
      rfl
    · exact Option.or_none
  | true =>
    unfold ospfNetworkRemoveFromOspfRouter
    have same : networks.filter (· ≠ (networkRange, areaId)) =
        networks.filter (·.1 ≠ networkRange) := by
      refine filter_congr fun pair member => ?_
      rw [decide_eq_decide]
      refine not_congr ⟨congrArg Prod.fst, fun equal => ?_⟩
      obtain ⟨key, value⟩ := pair
      cases equal
      rw [(searched value member).1]
    by_cases present : (networkRange, areaId) ∈ networks
    · refine ⟨networks.filter (·.1 ≠ networkRange), ?_,
        distinct.sublist (filter_sublist.map _), fun other => ?_⟩
      · rw [if_pos rfl, if_pos present, same]
        exact without_of_mem distinct (mem_keys_of_mem present)
      · exact valueOf_filter networkRange other networks
    · refine ⟨networks, if_neg present, distinct, fun other => ?_⟩
      split
      · rename_i equal
        rw [← equal]
        refine valueOf_eq_none fun member => ?_
        obtain ⟨value, inside⟩ := exists_mem_of_mem_keys member
        rw [(searched value inside).1] at inside
        exact present inside
      · rfl

/-- A command is refused, or it sets the networks of one router. -/
theorem NetworkCommand.execute_cases {db : RouterDb} (keyed : db.Keyed) :
    (∃ reply, command.execute db = some (reply, db) ∧ reply ≠ .committed) ∨
      ∃ instances ref networks set, db.instances = some instances ∧
        db.lookup command.instanceId instances = some (ref, networks) ∧
        rowOf ref db.routers = some networks ∧ (CLib.Columns.keys set).Nodup ∧
        (∀ other, valueOf other set = if command.networkRange = other then
          if command.noFlag then none else some command.areaId else valueOf other networks) ∧
        command.execute db = some (.committed,
          { db with routers := changeRow ref (fun _ => set) db.routers }) := by
  unfold execute ospfRouterAreaIdCmdExecute
  cases searched : searchNetworks command.noFlag command.networkRange command.areaId false
      (db.routers.flatMap Prod.snd) with
  | error message => exact .inl ⟨_, rfl, by rintro ⟨⟩⟩
  | ok isPresent =>
    dsimp only
    split
    · exact .inl ⟨_, rfl, by rintro ⟨⟩⟩
    cases vrf : db.instances with
    | none => exact .inl ⟨_, rfl, by rintro ⟨⟩⟩
    | some instances =>
      cases found : db.lookup command.instanceId instances with
      | none =>
        dsimp only
        rw [found]
        exact .inl ⟨_, rfl, by rintro ⟨⟩⟩
      | some pair =>
        obtain ⟨ref, networks⟩ := pair
        obtain ⟨_, _, located⟩ := Option.bind_eq_some_iff.mp found
        obtain ⟨_, stored, equal⟩ := Option.map_eq_some_iff.mp located
        cases equal
        obtain ⟨set, set_eq, distinct, values⟩ := set_spec (keyed ref networks stored)
          fun value member => searchNetworks_ok searched value
            (mem_flatMap.mpr ⟨(ref, networks), mem_of_rowOf stored, member⟩)
        refine .inr ⟨instances, ref, networks, set, rfl, found, stored, distinct, values, ?_⟩
        dsimp only
        rw [found]
        dsimp only
        rw [set_eq]
        rfl

theorem NetworkCommand.keeps (db : RouterDb) (keyed : db.Keyed) :
    ∃ next, command.step db = some next ∧ command.Lawful db next ∧ next.Keyed := by
  rcases command.execute_cases keyed with
    ⟨reply, ran, refused⟩ |
    ⟨instances, ref, networks, set, vrf, found, stored, distinct, values, ran⟩
  · refine ⟨db, congrArg (Option.map Prod.snd) ran,
      ⟨keyed, fun accepted => ?_, fun _ => rfl⟩, keyed⟩
    cases ran.symm.trans accepted
    exact absurd rfl refused
  · have after : RouterDb.Keyed { db with routers := changeRow ref (fun _ => set) db.routers } := by
      intro other kept held
      by_cases same : other = ref
      · subst same
        rw [rowOf_changeRow, stored] at held
        cases held
        exact distinct
      · rw [rowOf_changeRow_of_ne same] at held
        exact keyed other kept held
    refine ⟨_, congrArg (Option.map Prod.snd) ran,
      ⟨after, fun _ => ⟨instances, ref, networks, vrf, found, fun other range => ?_⟩,
        fun refused => absurd ran refused⟩, after⟩
    unfold RouterDb.areaOf
    by_cases same : other = ref
    · subst same
      rw [rowOf_changeRow, stored]
      simpa using values range
    · rw [rowOf_changeRow_of_ne same, if_neg fun both => same both.1]

/-- **Network ranges stay keys of a map, and an accepted command changes the area of its own
range only.** -/
theorem networks_lawful (commands : List NetworkCommand) {db : RouterDb} (keyed : db.Keyed) :
    Throughout NetworkCommand.step NetworkCommand.Lawful commands db :=
  throughout_of_forall NetworkCommand.keeps commands keyed

def emptyRouter : RouterDb :=
  ⟨some [(1, 0)], [(0, [])]⟩

/-- Two ranges are added, one of them for a second area, and the other one is removed. -/
def sampleCommands : List NetworkCommand :=
  [⟨false, 1, "10.0.0.0/8", 0⟩, ⟨false, 1, "11.0.0.0/8", 0⟩,
    ⟨false, 1, "10.0.0.0/8", 7⟩, ⟨true, 1, "11.0.0.0/8", 0⟩]

theorem sampleCommands_lawful :
    (run NetworkCommand.step sampleCommands emptyRouter).map RouterDb.routers =
        some [(0, [("10.0.0.0/8".toList, 0)])] ∧
      Throughout NetworkCommand.step NetworkCommand.Lawful sampleCommands emptyRouter := by
  refine ⟨by decide, networks_lawful _ fun ref networks held => ?_⟩
  cases mem_singleton.mp (mem_of_rowOf held)
  exact nodup_nil

end OpsCli.Ospf.NetworkRange
