import OpsCli.Routing.Database

/-!
# Applying a route map

`route_map_apply` goes through the clauses of a map, runs the rules of a
clause on the object, calls another map if the clause says so, and leaves the
clause by its exit policy.  The depth of the calls is counted in a static
variable, which is part of the state here.
-/

namespace OpsCli.Routing.Apply

open Database

variable {Object : Type}

/-! ## Rules -/

/-- `route_map_apply_match`. -/
def routeMapApplyMatch : List (Rule Object) → Object → RouteMapResult × Object
  | [], object => (.matched, object)
  | rule :: rest, object =>
    if (rule object).1 ≠ .matched then rule object
    else routeMapApplyMatch rest (rule object).2

/-- The loop over the set rules; `ret` is what it starts from. -/
def applySets : List (Rule Object) → RouteMapResult → Object → RouteMapResult × Object
  | [], ret, object => (ret, object)
  | rule :: rest, _, object =>
    applySets rest (rule object).1 (rule object).2

/-! ## Clauses -/

/-- `RMAP_RECURSION_LIMIT`. -/
def rmapRecursionLimit : Int := 10

/-- What `route_map_apply` returns, the object, and the static `recursion`. -/
structure Evaluation (Object : Type) where
  result : RouteMapResult
  object : Object
  recursion : Int

/-- How a map is applied to an object, from a value of `recursion`. -/
abbrev Applier (Object : Type) :=
  RouteMap Object → Object → Int → Option (Evaluation Object)

variable (master : RouteMapMaster Object) (apply : Applier Object) (index : RouteMapIndex Object)

def callTarget : Option (RouteMap Object) :=
  index.nextrm.bind (routeMapLookupByName master)

/-- The call of a clause whose set rules returned `ret`. -/
def applyCall (ret : RouteMapResult) (object : Object)
    (recursion : Int) : Option (Evaluation Object) :=
  match callTarget master index with
  | none => some ⟨ret, object, recursion⟩
  | some nextrm =>
    (apply nextrm object (recursion + 1)).map fun called =>
      { called with recursion := called.recursion - 1 }

/-- How a clause is left: with a result, for the next clause, or for the
first later clause that has a preference, if there is one. -/
inductive Leave (Object : Type) where
  | done (evaluation : Evaluation Object)
  | next (object : Object) (recursion : Int)
  | goto (nextpref : Int) (evaluation : Evaluation Object)

def leaveBy (evaluation : Evaluation Object) : Leave Object :=
  match index.exitpolicy with
  | .exit => .done evaluation
  | .next => .next evaluation.object evaluation.recursion
  | .goto => .goto index.nextpref evaluation

def applyIndex (object : Object) (recursion : Int) : Option (Leave Object) :=
  let tried := routeMapApplyMatch index.matchList object
  if tried.1 = .matched then
    match index.type with
    | .deny => some (.done ⟨.denymatch, tried.2, recursion⟩)
    | .permit =>
      let done := applySets index.setList .matched tried.2
      (applyCall master apply index done.1 done.2 recursion).map fun called =>
          if index.nextrm.isSome && called.result = .denymatch then
            .done called
          else leaveBy index called
  else some (.next tried.2 recursion)

/-- The loop over the clauses.  `goto` is the preference that a goto looks
for, with the result so far: the clauses below it are passed over, and if
there is no other the result is returned. -/
def applyIndexes :
    List (RouteMapIndex Object) → Option (Int × RouteMapResult) → Object →
      Int → Option (Evaluation Object)
  | [], none, object, recursion => some ⟨.denymatch, object, recursion⟩
  | [], some goto, object, recursion => some ⟨goto.2, object, recursion⟩
  | index :: rest, goto, object, recursion =>
    if goto.any (index.pref < ·.1) then
      applyIndexes rest goto object recursion
    else
      match applyIndex master apply index object recursion with
      | none => none
      | some (.done evaluation) => some evaluation
      | some (.next object recursion) => applyIndexes rest none object recursion
      | some (.goto nextpref evaluation) =>
        applyIndexes rest (some (nextpref, evaluation.result)) evaluation.object
          evaluation.recursion

/-- `route_map_apply`; `none` is only for too little fuel, which bounds the
depth of the calls. -/
def routeMapApply :
    Nat → Option (RouteMap Object) → Object → Int → Option (Evaluation Object)
  | 0, _, _, _ => none
  | fuel + 1, map, object, recursion =>
    if rmapRecursionLimit < recursion then some ⟨.denymatch, object, 0⟩
    else
      match map with
      | none => some ⟨.denymatch, object, recursion⟩
      | some map =>
        applyIndexes master (fun map => routeMapApply fuel (some map)) map.indexes none object
          recursion

/-! ## Gotos -/

/-- Where the loop goes when a clause has been left. -/
def leaveTo (rest : List (RouteMapIndex Object)) : Leave Object → Option (Evaluation Object)
  | .done evaluation => some evaluation
  | .next object recursion =>
    applyIndexes master apply rest none object recursion
  | .goto nextpref evaluation =>
    applyIndexes master apply rest (some (nextpref, evaluation.result))
      evaluation.object evaluation.recursion

theorem applyIndexes_cons (rest : List (RouteMapIndex Object)) (object : Object) (recursion : Int) :
    applyIndexes master apply (index :: rest) none object recursion =
      (applyIndex master apply index object recursion).bind (leaveTo master apply rest) := by
  rw [applyIndexes]
  cases applyIndex master apply index object recursion with
  | none => rfl
  | some leave => cases leave <;> rfl

theorem applyIndexes_goto (rest : List (RouteMapIndex Object)) (nextpref : Int)
    (ret : RouteMapResult) (object : Object) (recursion : Int) :
    applyIndexes master apply rest (some (nextpref, ret)) object recursion =
      if rest.dropWhile (·.pref < nextpref) = [] then
        some ⟨ret, object, recursion⟩
      else
        applyIndexes master apply (rest.dropWhile (·.pref < nextpref)) none object recursion := by
  induction rest with
  | nil => rfl
  | cons index rest ih =>
    by_cases below : index.pref < nextpref
    · rw [List.dropWhile_cons_of_pos (by simpa using below), ← ih, applyIndexes,
        if_pos (by simpa using below)]
    · rw [List.dropWhile_cons_of_neg (by simpa using below), if_neg (List.cons_ne_nil _ _),
        applyIndexes, applyIndexes,
        if_neg (by simpa using below), if_neg (by simp)]

/-! ## Every evaluation ends -/

/-- An evaluation that the limit has ended: it denies, and so do all calls
that are pending, each of which counts down from zero. -/
structure CutOff (recursion : Int) (evaluation : Evaluation Object) : Prop where
  denied : evaluation.result = .denymatch
  less : evaluation.recursion = recursion - (rmapRecursionLimit + 1)

/-- An evaluation beside the same one with fewer calls: it does without the
other calls and leaves `recursion` as it was, or it is cut off. -/
def Guarded (recursion : Int) (short whole : Option (Evaluation Object)) : Prop :=
  ∃ evaluation, whole = some evaluation ∧ (evaluation.recursion = recursion ∧ whole = short ∨
    CutOff recursion evaluation ∧ short = none)

/-- The value of `recursion` when a clause is left. -/
def Leave.recursion : Leave Object → Int
  | done evaluation | goto _ evaluation => evaluation.recursion
  | next _ recursion => recursion

theorem leaveBy_recursion (evaluation : Evaluation Object) :
    (leaveBy index evaluation).recursion = evaluation.recursion := by
  rw [leaveBy]
  cases index.exitpolicy with
  | exit | next | goto => rfl

section

variable {master apply} {short : Applier Object} {recursion : Int}
  (calls : ∀ map object, Guarded (recursion + 1) (short map object (recursion + 1))
    (apply map object (recursion + 1)))

include calls

theorem applyCall_guarded (index : RouteMapIndex Object) (ret : RouteMapResult) (object : Object) :
    Guarded recursion (applyCall master short index ret object recursion)
      (applyCall master apply index ret object recursion) := by
  unfold applyCall
  cases callTarget master index with
  | none => exact ⟨_, rfl, .inl ⟨rfl, rfl⟩⟩
  | some map =>
    dsimp only
    obtain ⟨called, ends, ⟨same, alike⟩ | ⟨⟨denied, less⟩, none⟩⟩ := calls map object
    · rw [← alike, ends]
      refine ⟨_, rfl, .inl ⟨?_, rfl⟩⟩
      exact Int.sub_eq_iff_eq_add.mpr same
    · rw [none, ends]
      refine ⟨_, rfl, .inr ⟨⟨denied, ?_⟩, rfl⟩⟩
      change called.recursion - 1 = _
      omega

theorem applyIndex_guarded (index : RouteMapIndex Object) (object : Object) :
    ∃ leave, applyIndex master apply index object recursion = some leave ∧
      (leave.recursion = recursion ∧ applyIndex master short index object recursion = some leave ∨
        (∃ evaluation, leave = .done evaluation ∧ CutOff recursion evaluation) ∧
          applyIndex master short index object recursion = none) := by
  unfold applyIndex
  dsimp only
  split
  · cases index.type with
    | deny => exact ⟨_, rfl, .inl ⟨rfl, rfl⟩⟩
    | permit =>
      generalize applySets index.setList .matched
        (routeMapApplyMatch index.matchList object).2 = done
      obtain ⟨called, ends, ⟨same, alike⟩ | ⟨cutOff, none⟩⟩ :=
        applyCall_guarded calls index done.1 done.2
      · rw [← alike, ends]
        refine ⟨_, rfl, .inl ⟨?_, rfl⟩⟩
        dsimp only
        split
        · exact same
        · exact (leaveBy_recursion index called).trans same
      · rw [none, ends]
        have named : index.nextrm.isSome := by
          rw [Option.isSome_iff_ne_none]
          intro unnamed
          simp [applyCall, callTarget, unnamed] at none
        refine ⟨_, rfl, .inr ⟨⟨called, if_pos ?_, cutOff⟩, rfl⟩⟩
        rw [named, cutOff.denied]
        rfl
  · exact ⟨_, rfl, .inl ⟨rfl, rfl⟩⟩

theorem applyIndexes_guarded (rest : List (RouteMapIndex Object))
    (goto : Option (Int × RouteMapResult)) (object : Object) :
    Guarded recursion (applyIndexes master short rest goto object recursion)
      (applyIndexes master apply rest goto object recursion) := by
  induction rest generalizing goto object with
  | nil => cases goto <;> exact ⟨_, rfl, .inl ⟨rfl, rfl⟩⟩
  | cons index rest ih =>
    unfold applyIndexes
    split
    · exact ih goto object
    · obtain ⟨leave, round, ⟨same, alike⟩ | ⟨⟨evaluation, rfl, cutOff⟩, none⟩⟩ :=
        applyIndex_guarded calls index object
      · rw [round, alike]
        cases leave with
        | done evaluation => exact ⟨_, rfl, .inl ⟨same, rfl⟩⟩
        | next after count =>
          cases same
          exact ih none after
        | goto nextpref evaluation =>
          cases same
          exact ih _ evaluation.object
      · rw [round, none]
        exact ⟨_, rfl, .inr ⟨cutOff, rfl⟩⟩

end

/-- With fuel for the calls below the limit, an evaluation that reaches the
limit does not return. -/
theorem routeMapApply_guarded {left fuel : Nat} {recursion : Int}
    (atLimit : recursion + left = rmapRecursionLimit + 1) (enough : left < fuel)
    (map : Option (RouteMap Object)) (object : Object) :
    Guarded recursion (routeMapApply master left map object recursion)
      (routeMapApply master fuel map object recursion) := by
  induction left generalizing fuel recursion map object with
  | zero =>
    obtain ⟨fuel, rfl⟩ := Nat.exists_eq_add_one_of_ne_zero enough.ne'
    have reached : recursion = rmapRecursionLimit + 1 := by
      rw [← atLimit]
      exact (Int.add_zero _).symm
    refine ⟨⟨.denymatch, object, 0⟩, if_pos ?_, .inr ⟨⟨rfl, ?_⟩, rfl⟩⟩
    · rw [reached]
      decide
    · rw [reached]
      rfl
  | succ left ih =>
    obtain ⟨fuel, rfl⟩ := Nat.exists_eq_add_one_of_ne_zero (Nat.ne_zero_of_lt enough)
    have within : ¬ rmapRecursionLimit < recursion := by omega
    unfold routeMapApply
    rw [if_neg within, if_neg within]
    cases map with
    | none => exact ⟨_, rfl, .inl ⟨rfl, rfl⟩⟩
    | some map =>
      exact applyIndexes_guarded
        (fun map object => ih (by omega) (Nat.lt_of_succ_lt_succ enough) (some map) object)
        map.indexes none object

end OpsCli.Routing.Apply
