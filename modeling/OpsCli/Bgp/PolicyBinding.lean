import OpsCli.Bgp.Database

/-!
# Policies of a neighbor

A neighbor has a prefix list, a filter list and a route map for each of some
directions.  The six handlers that bind an object to a direction and that take
the binding back copy the map column into arrays by hand.
-/

namespace OpsCli.Bgp.PolicyBinding

open CLib CString Columns RowTable PrefixList Database List

/-! ## The columns -/

/-- The columns that map directions to objects. -/
inductive Kind where
  | prefixList
  | filterList
  | routeMap
deriving DecidableEq, Repr

namespace Kind

def bindings : Kind → NeighborRow → List (CStr × Ref)
  | .prefixList, row => row.prefixLists
  | .filterList, row => row.aspathFilters
  | .routeMap, row => row.routeMaps

def withBindings : Kind → List (CStr × Ref) → NeighborRow → NeighborRow
  | .prefixList, pairs, row => { row with prefixLists := pairs }
  | .filterList, pairs, row => { row with aspathFilters := pairs }
  | .routeMap, pairs, row => { row with routeMaps := pairs }

def objects : Kind → BgpDb → List (Ref × CStr)
  | .prefixList, db => db.prefixLists
  | .filterList, db => db.aspathFilters
  | .routeMap, db => db.routeMaps

@[simp]
theorem bindings_withBindings (kind : Kind) (pairs : List (CStr × Ref)) (row : NeighborRow) :
    kind.bindings (kind.withBindings pairs row) = pairs := by
  cases kind with
  | prefixList => rfl
  | filterList => rfl
  | routeMap => rfl

end Kind

/-- `ABORT_DB_TXN`. -/
def aborted (message : CStr) : Reply :=
  ⟨.success, message ++ "\n"⟩

/-! ## The neighbor -/

inductive NoNeighbor where
  | vrf
  | router
  | neighbor
deriving DecidableEq, Repr

def findNeighbor (db : BgpDb) (index : Int) (ipAddr : CStr) :
    Except NoNeighbor (Ref × NeighborRow) :=
  match db.addressed index with
  | .error .vrf => .error .vrf
  | .error .router => .error .router
  | .ok (_, router) =>
    match findMatchingNeighborOrPeerGroupObject router ipAddr with
    | none => .error .neighbor
    | some ref =>
      match rowOf ref db.neighbors with
      | none => .error .neighbor
      | some row => .ok (ref, row)

variable {db : BgpDb} {index : Int} {ipAddr dir : CStr} {ref object : Ref} {row : NeighborRow}
  {kind : Kind} {pairs before : List (CStr × Ref)}

theorem rowOf_of_findNeighbor (found : findNeighbor db index ipAddr = .ok (ref, row)) :
    rowOf ref db.neighbors = some row := by
  unfold findNeighbor at found
  split at found
  · cases found
  · cases found
  · split at found
    · cases found
    · split at found
      · cases found
      · rename_i isRow
        cases found
        exact isRow

def setBindings (column : MapColumn CStr Ref) (kind : Kind) (ref : Ref) (pairs : List (CStr × Ref))
    (db : BgpDb) : BgpDb :=
  { db with
    neighbors := changeRow ref (kind.withBindings (column.arrange pairs))
      db.neighbors }

theorem rowOf_setBindings {column : MapColumn CStr Ref} (found : rowOf ref db.neighbors = some row)
    (pairs : List (CStr × Ref)) :
    rowOf ref (setBindings column kind ref pairs db).neighbors =
      some (kind.withBindings (column.arrange pairs) row) := by
  unfold setBindings
  rw [rowOf_changeRow, found]
  rfl

/-! ## Binding -/

/-- The arrays that a set command hands over: the object replaces the one of
the direction, or is appended. -/
def bindTo (dir : CStr) (object : Ref) (pairs : List (CStr × Ref)) : List (CStr × Ref) :=
  pairs.map (fun pair => if dir = pair.1 then (pair.1, object) else pair) ++
    if dir ∈ keys pairs then [] else [(dir, object)]

/-- An object of the name is bound to the direction. -/
def isBound (kind : Kind) (db : BgpDb) (name dir : CStr) (row : NeighborRow) : Bool :=
  (kind.bindings row).any fun pair => rowOf pair.2 (kind.objects db) = some name && dir = pair.1

def firstObject (kind : Kind) (db : BgpDb) (name : CStr) : Option Ref :=
  ((kind.objects db).find? (·.2 = name)).map Prod.fst

/-- What the set commands differ in.  If `noNeighbor` has no answer, the
handler goes on with a null pointer; without `duplicate` the handler does not
look for the binding. -/
structure SetTexts where
  noNeighbor : NoNeighbor → Option CStr
  duplicate : Option CStr
  noObject : CStr

variable (column : MapColumn CStr Ref) {after : List (CStr × Ref)} {name : CStr}

/-- The common body of the set commands. -/
def setCmdExecute (kind : Kind) (texts : SetTexts) (index : Int) (ipAddr name dir : CStr)
    (db : BgpDb) : Option (Reply × BgpDb) :=
  match findNeighbor db index ipAddr with
  | .error missing =>
    (texts.noNeighbor missing).map fun message => (.erroneous message, db)
  | .ok (ref, row) =>
    match texts.duplicate, isBound kind db name dir row with
    | some message, true => some (aborted message, db)
    | _, _ =>
      match firstObject kind db name with
      | none => some (.erroneous texts.noObject, db)
      | some object =>
        some (.committed, setBindings column kind ref (bindTo dir object (kind.bindings row)) db)

/-- `cli_neighbor_prefix_list_cmd_execute`. -/
def cliNeighborPrefixListCmdExecute : Int → CStr → CStr → CStr → BgpDb → Option (Reply × BgpDb) :=
  setCmdExecute column .prefixList
    { noNeighbor := fun
        | .vrf => some "VRF not found"
        | .router => some "Specified BGP router not configured"
        | .neighbor => some "Neighbor not found"
      duplicate := some "Configuration exists"
      noObject := "Prefix filter does not exist" }

/-- `cli_neighbor_aspath_filter_cmd_execute`. -/
def cliNeighborAspathFilterCmdExecute : Int → CStr → CStr → CStr → BgpDb → Option (Reply × BgpDb) :=
  setCmdExecute column .filterList
    { noNeighbor := fun _ => none
      duplicate := some "Configuration exists"
      noObject := "AS-Path filter does not exist" }

/-- `cli_neighbor_route_map_cmd_execute`. -/
def cliNeighborRouteMapCmdExecute : Int → CStr → CStr → CStr → BgpDb → Option (Reply × BgpDb) :=
  setCmdExecute column .routeMap
    { noNeighbor := fun
        | .vrf => some "no vrf found"
        | .router => some "bgp router context not available"
        | .neighbor => some "Existing neighbor not found."
      duplicate := none
      noObject := "route-map doesn't exist" }

def setCommand : Kind → Int → CStr → CStr → CStr → BgpDb → Option (Reply × BgpDb)
  | .prefixList => cliNeighborPrefixListCmdExecute column
  | .filterList => cliNeighborAspathFilterCmdExecute column
  | .routeMap => cliNeighborRouteMapCmdExecute column

/-! ## Taking a binding back -/

/-- The texts of a `no` command. -/
structure NoTexts where
  noNeighbor : NoNeighbor → Option CStr
  noBinding : CStr
  noDirection : CStr

/-- What a `no` command leaves of a column that is not empty: nothing has a
defined result if the arrays are not filled, and `some none` is a direction
that was not found. -/
abbrev Rebuild := CStr → List (CStr × Ref) → Option (Option (List (CStr × Ref)))

/-- The common frame of the `no` commands. -/
def noCmdExecute (kind : Kind) (texts : NoTexts) (rebuild : Rebuild) (index : Int)
    (ipAddr dir : CStr) (db : BgpDb) : Option (Reply × BgpDb) :=
  match findNeighbor db index ipAddr with
  | .error missing =>
    (texts.noNeighbor missing).map fun message => (.erroneous message, db)
  | .ok (ref, row) =>
    if kind.bindings row = [] then some (aborted texts.noBinding, db)
    else
      (rebuild dir (kind.bindings row)).map fun
        | none => (aborted texts.noDirection, db)
        | some pairs =>
          (.committed, setBindings column kind ref pairs db)

/-- The others are copied, and as many as were copied are handed over. -/
def rebuildByCount : Rebuild := fun dir pairs =>
  some (if dir ∈ keys pairs then some (pairs.filter (·.1 ≠ dir)) else none)

/-- The loop of `cli_no_neighbor_route_map_cmd_execute` from the index `i` on:
the pairs that are copied, whether the direction was found, and `num_elems`,
which bounds the loop and is decremented in it. -/
def routeMapLoop (dir : CStr) : List (CStr × Ref) → Nat → Nat → List (CStr × Ref) × Bool × Nat
  | [], _, numElems => ([], false, numElems)
  | pair :: rest, i, numElems =>
    if numElems ≤ i then ([], false, numElems)
    else if dir = pair.1 then
      let (kept, _, bound) := routeMapLoop dir rest (i + 1) (numElems - 1)
      (kept, true, bound)
    else
      let (kept, found, bound) := routeMapLoop dir rest (i + 1) numElems
      (pair :: kept, found, bound)

/-- The others are copied, and `num_elems` pairs are handed over. -/
def rebuildByBound : Rebuild := fun dir pairs =>
  match routeMapLoop dir pairs 0 pairs.length with
  | (_, false, _) => some none
  | (kept, true, bound) => (handOver pairs.length bound kept).map some

/-- `cli_no_neighbor_prefix_list_cmd_execute`. -/
def cliNoNeighborPrefixListCmdExecute : Int → CStr → CStr → BgpDb → Option (Reply × BgpDb) :=
  noCmdExecute column .prefixList
    { noNeighbor := fun
        | .vrf => some "VRF not found"
        | .router => some "Specified BGP router not configured"
        | .neighbor => some "Neighbor not found"
      noBinding := "Failed to unconfigure, prefix filter does not exist"
      noDirection := "Neighbor prefix-list for the direction does not exist" }
    rebuildByCount

/-- `cli_no_neighbor_aspath_filter_cmd_execute`. -/
def cliNoNeighborAspathFilterCmdExecute : Int → CStr → CStr → BgpDb → Option (Reply × BgpDb) :=
  noCmdExecute column .filterList
    { noNeighbor := fun _ => none
      noBinding := "Failed to unconfigure, AS-Path filter does not exist"
      noDirection := "Neighbor filter-list for the direction does not exist" }
    rebuildByCount

/-- `cli_no_neighbor_route_map_cmd_execute`. -/
def cliNoNeighborRouteMapCmdExecute : Int → CStr → CStr → BgpDb → Option (Reply × BgpDb) :=
  noCmdExecute column .routeMap
    { noNeighbor := fun
        | .vrf => some "no vrf found"
        | .router => some "bgp router context not available"
        | .neighbor => some "no existing neighbor found"
      noBinding := "no existing neighbor route-map to unset"
      noDirection := "neighbor route-map for the direction doesn't exist" }
    rebuildByBound

/-- The `no` command of a kind. -/
def noCommand : Kind → Int → CStr → CStr → BgpDb → Option (Reply × BgpDb)
  | .prefixList => cliNoNeighborPrefixListCmdExecute column
  | .filterList => cliNoNeighborAspathFilterCmdExecute column
  | .routeMap => cliNoNeighborRouteMapCmdExecute column

/-! ## The laws -/

structure IsBinding (dir : CStr) (object : Ref) (before after : List (CStr × Ref)) : Prop where
  distinct : (keys after).Nodup
  mem_iff : ∀ key value, (key, value) ∈ after ↔
    key = dir ∧ value = object ∨ key ≠ dir ∧ (key, value) ∈ before

/-- The new map is the old one without the direction. -/
structure IsRemoval (dir : CStr) (before after : List (CStr × Ref)) : Prop where
  distinct : (keys after).Nodup
  mem_iff : ∀ key value, (key, value) ∈ after ↔ key ≠ dir ∧ (key, value) ∈ before

/-- A command has a result, in which the bindings of the neighbor are as
described. -/
def Leaves (kind : Kind) (ref : Ref) (result : Option (Reply × BgpDb))
    (described : List (CStr × Ref) → Prop) : Prop :=
  ∃ reply after row, result = some (reply, after) ∧
    rowOf ref after.neighbors = some row ∧ described (kind.bindings row)

theorem keys_bindTo_nodup (distinct : (keys pairs).Nodup) :
    (keys (bindTo dir object pairs)).Nodup := by
  have replaced : keys (pairs.map fun pair =>
      if dir = pair.1 then (pair.1, object) else pair) = keys pairs := by
    unfold CLib.Columns.keys
    rw [map_map]
    refine map_congr_left fun pair _ => ?_
    simp only [Function.comp_apply]
    split
    · rfl
    · rfl
  unfold bindTo
  rw [CLib.Columns.keys_append, replaced]
  split
  · rw [CLib.Columns.keys_nil, append_nil]
    exact distinct
  · rename_i new
    have appended := keys_nodup_append distinct new object
    rw [CLib.Columns.keys_append] at appended
    exact appended

theorem mem_bindTo_iff (key : CStr) (value : Ref) : (key, value) ∈ bindTo dir object pairs ↔
      key = dir ∧ value = object ∨ key ≠ dir ∧ (key, value) ∈ pairs := by
  unfold bindTo
  rw [mem_append, mem_map]
  constructor
  · rintro (⟨⟨old, bound⟩, member, equal⟩ | new)
    · dsimp only at equal
      split at equal
      · rename_i here
        cases equal
        exact .inl ⟨here.symm, rfl⟩
      · rename_i elsewhere
        cases equal
        exact .inr ⟨Ne.symm elsewhere, member⟩
    · split at new
      · exact absurd new not_mem_nil
      · cases mem_singleton.mp new
        exact .inl ⟨rfl, rfl⟩
  · rintro (⟨rfl, rfl⟩ | ⟨elsewhere, member⟩)
    · by_cases old : key ∈ keys pairs
      · obtain ⟨bound, member⟩ := exists_mem_of_mem_keys old
        exact .inl ⟨(key, bound), member, if_pos rfl⟩
      · rw [if_neg old]
        exact .inr mem_cons_self
    · exact .inl ⟨(key, value), member, if_neg (Ne.symm elsewhere)⟩

section

variable (distinct : (keys pairs).Nodup)
include distinct

theorem isBinding_arrange :
    IsBinding dir object pairs (column.arrange (bindTo dir object pairs)) where
  distinct := column.keys_arrange_nodup (keys_bindTo_nodup distinct)
  mem_iff key value := by
    rw [column.mem_arrange (keys_bindTo_nodup distinct)]
    exact mem_bindTo_iff key value

theorem keys_filter_nodup (keep : CStr × Ref → Bool) : (keys (pairs.filter keep)).Nodup :=
  distinct.sublist (filter_sublist.map Prod.fst)

theorem isRemoval_arrange : IsRemoval dir pairs (column.arrange (pairs.filter (·.1 ≠ dir))) where
  distinct := column.keys_arrange_nodup (keys_filter_nodup distinct _)
  mem_iff key value := by
    rw [column.mem_arrange (keys_filter_nodup distinct _), mem_filter, decide_eq_true_eq, and_comm]

theorem isRemoval_of_not_mem (absent : dir ∉ keys pairs) : IsRemoval dir pairs pairs where
  distinct := distinct
  mem_iff key value := by
    refine ⟨fun member => ⟨?_, member⟩, fun both => both.2⟩
    rintro rfl
    exact absent (mem_keys_of_mem member)

end

theorem isBinding_of_isBound (distinct : (keys (kind.bindings row)).Nodup)
    (names : ((kind.objects db).map Prod.snd).Nodup)
    (named : firstObject kind db name = some object) (bound : isBound kind db name dir row) :
    IsBinding dir object (kind.bindings row) (kind.bindings row) := by
  unfold isBound at bound
  obtain ⟨⟨key, old⟩, member, both⟩ := any_eq_true.mp bound
  rw [Bool.and_eq_true, decide_eq_true_eq, decide_eq_true_eq] at both
  obtain ⟨isNamed, rfl⟩ := both
  obtain ⟨⟨_, _⟩, first, rfl⟩ := Option.map_eq_some_iff.mp named
  have firstName := find?_some first
  have sameName := of_decide_eq_true firstName
  have same := inj_on_of_nodup_map names (mem_of_rowOf isNamed)
    (mem_of_find?_eq_some first) sameName.symm
  have equal : old = _ := congrArg Prod.fst same
  subst equal
  refine ⟨distinct, fun key value => ⟨fun inside => ?_, ?_⟩⟩
  · by_cases here : key = dir
    · subst here
      exact .inl ⟨rfl, value_unique distinct inside member⟩
    · exact .inr ⟨here, inside⟩
  · rintro (⟨rfl, rfl⟩ | ⟨_, inside⟩)
    · exact member
    · exact inside

section

variable
  (found : findNeighbor db index ipAddr = .ok (ref, row))
  (distinct : (keys (kind.bindings row)).Nodup)
include found distinct

theorem leaves_setCmdExecute (texts : SetTexts) {dir : CStr} {object : Ref}
    (names : ((kind.objects db).map Prod.snd).Nodup)
    (named : firstObject kind db name = some object) :
    Leaves kind ref (setCmdExecute column kind texts index ipAddr name dir db)
      (IsBinding dir object (kind.bindings row)) := by
  have isRow := rowOf_of_findNeighbor found
  unfold setCmdExecute
  rw [found]
  dsimp only
  split
  · rename_i bound
    exact ⟨_, db, row, rfl, isRow, isBinding_of_isBound distinct names named bound⟩
  · rw [named]
    refine ⟨_, _, _, rfl, rowOf_setBindings isRow _, ?_⟩
    rw [Kind.bindings_withBindings]
    exact isBinding_arrange column distinct

end

/-! ## The loops -/

theorem routeMapLoop_of_not_mem (absent : dir ∉ keys pairs) (i numElems : Nat) :
    routeMapLoop dir pairs i numElems = (pairs.take (numElems - i), false, numElems) := by
  induction pairs generalizing i with
  | nil => simp [routeMapLoop]
  | cons pair rest ih =>
    have here : ¬ dir = pair.1 := by
      rintro rfl
      exact absent mem_cons_self
    have later : dir ∉ keys rest := fun member => absent (mem_cons_of_mem _ member)
    unfold routeMapLoop
    by_cases done : numElems ≤ i
    · rw [if_pos done, Nat.sub_eq_zero_of_le done]
      rfl
    · have more : numElems - i = (numElems - (i + 1)) + 1 := by omega
      rw [if_neg done, if_neg here, ih later, more, take_succ_cons]

/-- After the direction the loop ends one pair early. -/
theorem routeMapLoop_append (absent : dir ∉ keys before) (later : dir ∉ keys after) (i : Nat) :
    routeMapLoop dir (before ++ (dir, object) :: after) i (i + (before.length + after.length + 1)) =
      (before ++ after.dropLast, true, i + (before.length + after.length)) := by
  induction before generalizing i with
  | nil =>
    have running : ¬ i + (([] : List (CStr × Ref)).length + after.length + 1) ≤
        i := by
      simp
    have size : i + (([] : List (CStr × Ref)).length + after.length + 1) - 1 -
        (i + 1) = after.length - 1 := by
      simp only [length_nil]
      omega
    rw [nil_append, routeMapLoop, if_neg running, if_pos rfl, routeMapLoop_of_not_mem later, size,
      dropLast_eq_take]
    simp
  | cons pair rest ih =>
    have here : ¬ dir = pair.1 := by
      rintro rfl
      exact absent mem_cons_self
    have restAbsent : dir ∉ keys rest := fun member => absent (mem_cons_of_mem _ member)
    have running : ¬ i + ((pair :: rest).length + after.length + 1) ≤ i := by
      simp
    have shifted : i + ((pair :: rest).length + after.length + 1) =
        (i + 1) + (rest.length + after.length + 1) := by
      simp only [length_cons]
      omega
    rw [cons_append, routeMapLoop, if_neg running, if_neg here, shifted, ih restAbsent]
    simp only [cons_append, length_cons, Prod.mk.injEq, true_and]
    omega

theorem rebuildByBound_of_not_mem (absent : dir ∉ keys pairs) :
    rebuildByBound dir pairs = some none := by
  unfold rebuildByBound
  rw [routeMapLoop_of_not_mem absent]

theorem rebuildByBound_append (absent : dir ∉ keys before) (later : dir ∉ keys after) :
    rebuildByBound dir (before ++ (dir, object) :: after) =
      if after = [] then some (some (before ++ after)) else none := by
  have loop : routeMapLoop dir (before ++ (dir, object) :: after) 0
      (0 + (before.length + after.length + 1)) = _ :=
    routeMapLoop_append absent later 0
  have length : 0 + (before.length + after.length + 1) =
      (before ++ (dir, object) :: after).length := by
    rw [length_append, length_cons]
    omega
  rw [length] at loop
  unfold rebuildByBound
  rw [loop]
  dsimp only
  by_cases last : after = []
  · subst last
    have full : handOver ((before ++ [(dir, object)]).length : Int)
        before.length before = some before := by
      refine handOver_length ?_
      rw [length_append]
      omega
    rw [if_pos rfl, append_nil]
    simpa using full
  · have positive := length_pos_of_ne_nil last
    rw [if_neg last]
    unfold handOver
    rw [if_neg]
    · rfl
    · rw [length_append, length_dropLast]
      omega

theorem exists_split_of_mem_keys (distinct : (keys pairs).Nodup) (member : dir ∈ keys pairs) :
    ∃ (before : List (CStr × Ref)) (object : Ref) (after : List (CStr × Ref)),
      pairs = before ++ (dir, object) :: after ∧ dir ∉ keys before ∧ dir ∉ keys after := by
  obtain ⟨object, inside⟩ := exists_mem_of_mem_keys member
  obtain ⟨before, after, rfl⟩ := append_of_mem inside
  unfold CLib.Columns.keys at distinct ⊢
  rw [map_append, map_cons] at distinct
  obtain ⟨_, tail, apart⟩ := nodup_append.mp distinct
  refine ⟨before, object, after, rfl, ?_, (nodup_cons.mp tail).1⟩
  intro first
  exact apart dir first dir mem_cons_self rfl

theorem eq_nil_iff_not_mem_dropLast (absent : dir ∉ keys before) (object : Ref)
    (after : List (CStr × Ref)) :
    after = [] ↔ dir ∉ keys (before ++ (dir, object) :: after).dropLast := by
  cases after with
  | nil =>
    rw [dropLast_concat]
    exact iff_of_true rfl absent
  | cons next rest =>
    have inside : (dir, object) ∈ (before ++ (dir, object) :: next :: rest).dropLast := by
      rw [dropLast_append_cons, dropLast_cons_cons]
      exact mem_append_right _ mem_cons_self
    exact iff_of_false (cons_ne_nil _ _) (not_not_intro (mem_keys_of_mem inside))

/-! ## The `no` commands -/

section

variable (found : findNeighbor db index ipAddr = .ok (ref, row))
  (distinct : (keys (kind.bindings row)).Nodup) {rebuild : Rebuild}
include found distinct

theorem leaves_noCmdExecute_iff (texts : NoTexts) {defined : Prop} [Decidable defined]
    (rebuilt : rebuild dir (kind.bindings row) =
      if dir ∈ keys (kind.bindings row) then
        if defined then some (some ((kind.bindings row).filter (·.1 ≠ dir))) else none
      else some none) :
    Leaves kind ref (noCmdExecute column kind texts rebuild index ipAddr dir db)
      (IsRemoval dir (kind.bindings row)) ↔ (dir ∈ keys (kind.bindings row) → defined) := by
  have isRow := rowOf_of_findNeighbor found
  unfold noCmdExecute
  rw [found]
  dsimp only
  rw [rebuilt]
  by_cases member : dir ∈ keys (kind.bindings row)
  · have nonempty : kind.bindings row ≠ [] := by
      intro empty
      rw [empty] at member
      exact not_mem_nil member
    rw [if_neg nonempty, if_pos member, forall_prop_of_true member]
    by_cases holds : defined
    · rw [if_pos holds]
      refine iff_of_true ⟨_, _, _, rfl, rowOf_setBindings isRow _, ?_⟩ holds
      rw [Kind.bindings_withBindings]
      exact isRemoval_arrange column distinct
    · rw [if_neg holds]
      refine iff_of_false ?_ holds
      rintro ⟨_, _, _, ran, _⟩
      cases ran
  · have unchanged := isRemoval_of_not_mem distinct member
    rw [if_neg member]
    refine iff_of_true ?_ fun inside => absurd inside member
    split
    · exact ⟨_, db, row, rfl, isRow, unchanged⟩
    · exact ⟨_, db, row, rfl, isRow, unchanged⟩

theorem leaves_rebuildByCount (texts : NoTexts) : Leaves kind ref
      (noCmdExecute column kind texts rebuildByCount index ipAddr dir db)
      (IsRemoval dir (kind.bindings row)) := by
  refine (@leaves_noCmdExecute_iff _ _ _ _ _ _ _ column found distinct _ texts True _ ?_).mpr
    fun _ => trivial
  unfold rebuildByCount
  rw [if_pos trivial]
  split
  · rfl
  · rfl

/-- The handler that decrements its bound removes only the last direction. -/
theorem leaves_rebuildByBound_iff (texts : NoTexts) : Leaves kind ref
      (noCmdExecute column kind texts rebuildByBound index ipAddr dir db)
      (IsRemoval dir (kind.bindings row)) ↔
      dir ∉ keys (kind.bindings row).dropLast := by
  have rebuilt : rebuildByBound dir (kind.bindings row) =
      if dir ∈ keys (kind.bindings row) then
        if dir ∉ keys (kind.bindings row).dropLast then
          some (some ((kind.bindings row).filter (·.1 ≠ dir)))
        else none
      else some none := by
    split
    · rename_i member
      obtain ⟨before, object, after, split, absent, later⟩ :=
        exists_split_of_mem_keys distinct member
      have kept : (kind.bindings row).filter (·.1 ≠ dir) = before ++ after := by
        rw [split, filter_append, filter_of_not_mem absent, filter_cons_of_neg (by simp),
          filter_of_not_mem later]
      rw [kept, split, rebuildByBound_append absent later]
      simp only [eq_nil_iff_not_mem_dropLast absent object after]
    · rename_i absent
      exact rebuildByBound_of_not_mem absent
  rw [leaves_noCmdExecute_iff column found distinct texts rebuilt]
  refine ⟨fun removes inside => ?_, fun last _ => last⟩
  exact removes (((dropLast_sublist _).map Prod.fst).subset inside) inside

end

/-- **Bindings are finite maps, except that `no neighbor route-map` only takes
back the last direction.** -/
theorem bindings_lawful_iff {kind : Kind} {index : Int} {ipAddr dir : CStr} {db : BgpDb} {ref : Ref}
    {row : NeighborRow} (found : findNeighbor db index ipAddr = .ok (ref, row))
    (distinct : (keys (kind.bindings row)).Nodup) (names : ((kind.objects db).map Prod.snd).Nodup) :
    (∀ name object, firstObject kind db name = some object →
      Leaves kind ref (setCommand column kind index ipAddr name dir db)
        (IsBinding dir object (kind.bindings row))) ∧
    (Leaves kind ref (noCommand column kind index ipAddr dir db)
        (IsRemoval dir (kind.bindings row)) ↔
      (kind = .routeMap → dir ∉ keys (kind.bindings row).dropLast)) := by
  constructor
  · intro name object named
    cases kind with
    | prefixList | filterList | routeMap =>
      exact leaves_setCmdExecute column found distinct _ names named
  · cases kind with
    | prefixList | filterList =>
      exact iff_of_true (leaves_rebuildByCount column found distinct _) nofun
    | routeMap =>
      rw [forall_prop_of_true rfl]
      exact leaves_rebuildByBound_iff column found distinct _

def bothDirections : NeighborRow where
  routeMaps := [("in", 1), ("out", 2)]

def oneNeighbor : BgpDb where
  bgpRouters := some [(1, 1)]
  routers := [(1, { neighbors := [("10.0.0.1", 1)] })]
  neighbors := [(1, bothDirections)]
  routeMaps := [(1, "A"), (2, "B")]

theorem oneNeighbor_found : findNeighbor oneNeighbor 1 "10.0.0.1" =
      .ok (1, bothDirections) := by
  decide

theorem out_removed : Leaves .routeMap 1
      (noCommand .plain .routeMap 1 "10.0.0.1" "out" oneNeighbor)
      (IsRemoval "out" bothDirections.routeMaps) := by
  refine (bindings_lawful_iff .plain oneNeighbor_found (by decide) (by decide)).2.mpr ?_
  intro _
  decide

/-- The first of two directions is taken back: the arrays are not filled. -/
theorem in_not_removed : noCommand .plain .routeMap 1 "10.0.0.1" "in" oneNeighbor =
        none ∧
      ¬ Leaves .routeMap 1 (noCommand .plain .routeMap 1 "10.0.0.1" "in" oneNeighbor)
        (IsRemoval "in" bothDirections.routeMaps) := by
  have undefined : noCommand .plain .routeMap 1 "10.0.0.1" "in"
      oneNeighbor = none := by
    decide
  refine ⟨undefined, ?_⟩
  rintro ⟨reply, after, row, ran, _⟩
  rw [undefined] at ran
  cases ran

end OpsCli.Bgp.PolicyBinding
