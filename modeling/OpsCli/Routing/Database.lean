import Mathlib.Data.List.Pairwise
import OpsCli.CLib.CString

/-!
# Route maps and their clauses

`routemap.c` keeps the route maps in a list and the clauses of a map in a
list ordered by their preference.  `route_map_index_get` is the only way to
make a clause: it looks for one with the same preference first, replaces one
of the other type, and puts a new one in its place.  So the preferences of a
map are strictly ascending.
-/

namespace OpsCli.Routing.Database

open CLib.CString List

/-- `enum route_map_type` of a clause; the value `RMAP_ANY` is for searches
only. -/
inductive RouteMapType where
  | permit
  | deny
deriving DecidableEq, Repr

/-- `route_map_result_t`. -/
inductive RouteMapResult where
  | matched
  | denymatch
  | nomatch
  | error
  | okay
deriving DecidableEq, Repr

/-- `route_map_end_t`. -/
inductive RouteMapEnd where
  | exit
  | goto
  | next
deriving DecidableEq, Repr

/-- A rule with its compiled value: what `func_apply` returns for an object,
and the object afterwards. -/
abbrev Rule (Object : Type) := Object → RouteMapResult × Object

/-- `struct route_map_index`. -/
structure RouteMapIndex (Object : Type) where
  pref : Int
  type : RouteMapType
  exitpolicy : RouteMapEnd := .exit
  nextpref : Int := 0
  nextrm : Option CStr := none
  matchList : List (Rule Object) := []
  setList : List (Rule Object) := []

/-- `struct route_map`. -/
structure RouteMap (Object : Type) where
  name : CStr
  indexes : List (RouteMapIndex Object) := []

/-- The list in `route_map_master`. -/
abbrev RouteMapMaster (Object : Type) := List (RouteMap Object)

variable {Object : Type}

/-! ## Making maps and clauses -/

/-- `route_map_lookup_by_name`. -/
def routeMapLookupByName (master : RouteMapMaster Object) (name : CStr) :
    Option (RouteMap Object) :=
  master.find? (·.name = name)

/-- `route_map_get`: the list with the map of this name. -/
def routeMapGet (master : RouteMapMaster Object) (name : CStr) : RouteMapMaster Object :=
  if (routeMapLookupByName master name).isSome then master
  else master ++ [{ name := name }]

/-- `route_map_index_lookup`; `none` is the type `RMAP_ANY`. -/
def routeMapIndexLookup (indexes : List (RouteMapIndex Object)) (type : Option RouteMapType)
    (pref : Int) : Option (RouteMapIndex Object) :=
  indexes.find? fun index => (type = some index.type || type = none) && index.pref = pref

/-- `route_map_index_add`: the new clause stands before the first one that
has at least its preference. -/
def routeMapIndexAdd (type : RouteMapType) (pref : Int) :
    List (RouteMapIndex Object) → List (RouteMapIndex Object)
  | [] => [{ pref := pref, type := type }]
  | point :: rest =>
    if pref ≤ point.pref then { pref := pref, type := type } :: point :: rest
    else point :: routeMapIndexAdd type pref rest

/-- `route_map_index_delete` for the first clause with this preference. -/
def routeMapIndexDelete (indexes : List (RouteMapIndex Object))
    (pref : Int) : List (RouteMapIndex Object) :=
  indexes.eraseP (·.pref = pref)

/-- `route_map_index_get`: the clauses with one of this type and
preference. -/
def routeMapIndexGet (type : RouteMapType) (pref : Int)
    (indexes : List (RouteMapIndex Object)) : List (RouteMapIndex Object) :=
  match routeMapIndexLookup indexes none pref with
  | none => routeMapIndexAdd type pref indexes
  | some index =>
    if index.type ≠ type then
      routeMapIndexAdd type pref (routeMapIndexDelete indexes pref)
    else indexes

def setIndexes (master : RouteMapMaster Object) (name : CStr)
    (change : List (RouteMapIndex Object) → List (RouteMapIndex Object)) : RouteMapMaster Object :=
  master.map fun map =>
    if map.name = name then { map with indexes := change map.indexes }
    else map

/-- The databases that are made by `route_map_get`, by
`route_map_index_get`, and by setting the rules, the call and the exit policy
of clauses. -/
inductive Built : RouteMapMaster Object → Prop where
  | empty : Built []
  | get {master : RouteMapMaster Object} (name : CStr)
      (before : Built master) : Built (routeMapGet master name)
  | indexGet {master : RouteMapMaster Object} (name : CStr)
      (type : RouteMapType) (pref : Int) (before : Built master) :
      Built (setIndexes master name (routeMapIndexGet type pref))
  | edit {master : RouteMapMaster Object} (name : CStr)
      (change : RouteMapIndex Object → RouteMapIndex Object)
      (keeps : ∀ index, (change index).pref = index.pref)
      (before : Built master) :
      Built (setIndexes master name (·.map change))

/-! ## The order of the clauses -/

/-- Clauses in strictly ascending preference order. -/
def Ascending (indexes : List (RouteMapIndex Object)) : Prop :=
  indexes.Pairwise fun first second => first.pref < second.pref

variable {pref : Int} {indexes : List (RouteMapIndex Object)} {master : RouteMapMaster Object}
  {index : RouteMapIndex Object}

theorem mem_routeMapIndexAdd {type : RouteMapType}
    (member : index ∈ routeMapIndexAdd type pref indexes) :
    index.pref = pref ∨ index ∈ indexes := by
  induction indexes with
  | nil =>
    rw [routeMapIndexAdd, mem_singleton] at member
    exact .inl (congrArg RouteMapIndex.pref member)
  | cons point rest ih =>
    rw [routeMapIndexAdd] at member
    split at member
    · rcases mem_cons.mp member with rfl | old
      · exact .inl rfl
      · exact .inr old
    · rcases mem_cons.mp member with rfl | later
      · exact .inr mem_cons_self
      · exact (ih later).imp_right (mem_cons_of_mem _)

theorem Ascending.add (ascending : Ascending indexes) (type : RouteMapType)
    (new : ∀ index ∈ indexes, index.pref ≠ pref) :
    Ascending (routeMapIndexAdd type pref indexes) := by
  induction indexes with
  | nil => exact pairwise_singleton _ _
  | cons point rest ih =>
    obtain ⟨first, later⟩ := pairwise_cons.mp ascending
    have distinct := new point mem_cons_self
    rw [routeMapIndexAdd]
    split
    · rename_i before
      refine pairwise_cons.mpr ⟨fun index member => ?_, ascending⟩
      change pref < index.pref
      rcases mem_cons.mp member with rfl | old
      · omega
      · have above := first index old
        omega
    · rename_i after
      refine pairwise_cons.mpr ⟨fun index member => ?_, ih later fun index member =>
          new index (mem_cons_of_mem _ member)⟩
      rcases mem_routeMapIndexAdd member with same | old
      · omega
      · exact first index old

theorem routeMapIndexLookup_any (indexes : List (RouteMapIndex Object)) (pref : Int) :
    routeMapIndexLookup indexes none pref = indexes.find? (·.pref = pref) :=
  rfl

theorem pref_ne_of_mem_delete (ascending : Ascending indexes)
    (member : index ∈ routeMapIndexDelete indexes pref) : index.pref ≠ pref := by
  induction indexes with
  | nil => cases member
  | cons head rest ih =>
    obtain ⟨first, later⟩ := pairwise_cons.mp ascending
    rw [routeMapIndexDelete] at member
    by_cases same : head.pref = pref
    · rw [eraseP_cons_of_pos (by simpa using same)] at member
      have above := first index member
      omega
    · rw [eraseP_cons_of_neg (by simpa using same)] at member
      rcases mem_cons.mp member with rfl | old
      · exact same
      · exact ih later old

theorem Ascending.indexGet (ascending : Ascending indexes) (type : RouteMapType) (pref : Int) :
    Ascending (routeMapIndexGet type pref indexes) := by
  rw [routeMapIndexGet, routeMapIndexLookup_any]
  cases found : indexes.find? (·.pref = pref) with
  | none =>
    refine ascending.add type fun index member => ?_
    simpa using find?_eq_none.mp found index member
  | some index =>
    dsimp only
    split
    · have smaller : Ascending (routeMapIndexDelete indexes pref) :=
        ascending.sublist eraseP_sublist
      exact smaller.add type fun _ member => pref_ne_of_mem_delete ascending member
    · exact ascending

theorem Ascending.edit (ascending : Ascending indexes)
    {change : RouteMapIndex Object → RouteMapIndex Object}
    (keeps : ∀ index, (change index).pref = index.pref) : Ascending (indexes.map change) := by
  refine pairwise_map.mpr (ascending.imp fun {first second} below => ?_)
  rw [keeps, keeps]
  exact below

theorem ascending_setIndexes {change : List (RouteMapIndex Object) → List (RouteMapIndex Object)}
    (keeps : ∀ indexes, Ascending indexes → Ascending (change indexes))
    (before : ∀ map ∈ master, Ascending map.indexes) (name : CStr) :
    ∀ map ∈ setIndexes master name change, Ascending map.indexes := by
  intro map member
  obtain ⟨old, present, rfl⟩ := mem_map.mp member
  split
  · exact keeps _ (before old present)
  · exact before old present

/-- The clauses of every map are in ascending order. -/
theorem Built.ascending (built : Built master) : ∀ map ∈ master, Ascending map.indexes := by
  induction built with
  | empty => exact fun _ member => nomatch member
  | get name _ ih =>
    intro map member
    rw [routeMapGet] at member
    split at member
    · exact ih map member
    · rcases mem_append.mp member with old | new
      · exact ih map old
      · rw [mem_singleton.mp new]
        exact List.Pairwise.nil
  | indexGet name type pref _ ih =>
    exact ascending_setIndexes (fun _ ascending => ascending.indexGet type pref) ih name
  | edit name change keeps _ ih =>
    exact ascending_setIndexes (fun _ ascending => ascending.edit keeps) ih name

theorem mem_of_lookup {name : CStr} {map : RouteMap Object}
    (found : routeMapLookupByName master name = some map) : map ∈ master :=
  mem_of_find?_eq_some found

end OpsCli.Routing.Database
