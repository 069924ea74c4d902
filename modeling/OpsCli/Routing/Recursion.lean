import OpsCli.Routing.Semantics

/-!
# The recursion counter over many applications

The counter of `route_map_apply` is static, so an application finds it as the
applications before have left it.  It is meant to limit how deep calls of maps
are nested, which is said here without the counter.
-/

namespace OpsCli.Routing.Recursion

open Database Apply Semantics

variable {Object : Type} (master : RouteMapMaster Object)

/-- A call of `route_map_apply` from outside. -/
abbrev Application (Object : Type) := Option (RouteMap Object) × Object

/-- The call, with fuel for every value of the counter. -/
def Application.run (recursion : Int) (application : Application Object) :
    Option (Evaluation Object) :=
  routeMapApply master (rmapRecursionLimit + 2 - recursion).toNat application.1 application.2
    recursion

/-- The counter after some applications. -/
def applyEach : Int → List (Application Object) → Option Int
  | recursion, [] => some recursion
  | recursion, application :: later =>
    (application.run master recursion).bind fun evaluation => applyEach evaluation.recursion later

/-- Calls of maps that are answered without a counter. -/
def answering (answer : RouteMap Object → Object → Option (RouteMapResult × Object)) :
    Applier Object :=
  fun map object count => (answer map object).map fun given => ⟨given.1, given.2, count⟩

/-- The application of a map with no limit to the calls, which turn out to be
nested at most `depth` deep. -/
inductive Nested : Nat → RouteMap Object → Object → RouteMapResult → Object → Prop where
  | intro {depth : Nat} {map : RouteMap Object} {object last : Object} {ret : RouteMapResult}
      {answer : RouteMap Object → Object → Option (RouteMapResult × Object)}
      (positive : ∀ map object given, answer map object = some given → 0 < depth)
      (calls : ∀ map object given, answer map object = some given →
        Nested (depth - 1) map object given.1 given.2)
      (run : applyIndexes master (answering answer) map.indexes none object 0 =
        some ⟨ret, last, 0⟩) :
      Nested depth map object ret last

/-- The calls of an application are nested within the limit. -/
def WithinLimit (application : Application Object) : Prop :=
  ∀ map, application.1 = some map →
    ∃ ret last, Nested master rmapRecursionLimit.toNat map application.2 ret last

/-! ## The nesting and the fuel -/

/-- A clause is left in the same way, with another value of the counter. -/
def recount (count : Int) : Leave Object → Leave Object
  | .done evaluation => .done { evaluation with recursion := count }
  | .next object _ => .next object count
  | .goto nextpref evaluation => .goto nextpref { evaluation with recursion := count }

theorem recount_leaveBy (index : RouteMapIndex Object) (evaluation : Evaluation Object)
    (count : Int) : recount count (leaveBy index evaluation) =
      leaveBy index { evaluation with recursion := count } := by
  unfold leaveBy
  split <;> rfl

section

variable {master} {first second : Applier Object} {count other : Int}
  (alike : ∀ map object called, first map object (count + 1) = some called →
    called.recursion = count + 1 ∧
      second map object (other + 1) = some { called with recursion := other + 1 })
include alike

theorem applyCall_recount {index : RouteMapIndex Object} {ret : RouteMapResult} {object : Object}
    {called : Evaluation Object}
    (call : applyCall master first index ret object count = some called) :
    called.recursion = count ∧
      applyCall master second index ret object other = some { called with recursion := other } := by
  unfold applyCall at call ⊢
  cases target : callTarget master index with
  | none =>
    rw [target] at call
    cases call
    exact ⟨rfl, rfl⟩
  | some map =>
    rw [target] at call
    obtain ⟨answer, answered, rfl⟩ := Option.map_eq_some_iff.mp call
    obtain ⟨kept, same⟩ := alike map object answer answered
    dsimp only
    rw [same, kept, Option.map_some]
    simp

theorem applyIndex_recount {index : RouteMapIndex Object} {object : Object} {leave : Leave Object}
    (step : applyIndex master first index object count = some leave) :
    recount count leave = leave ∧
      applyIndex master second index object other = some (recount other leave) := by
  unfold applyIndex at step ⊢
  dsimp only at step ⊢
  by_cases matched : (routeMapApplyMatch index.matchList object).1 = .matched
  · rw [if_pos matched] at step ⊢
    cases type : index.type with
    | deny =>
      rw [type] at step
      cases step
      exact ⟨rfl, rfl⟩
    | permit =>
      rw [type] at step
      obtain ⟨called, call, rfl⟩ := Option.map_eq_some_iff.mp step
      obtain ⟨kept, same⟩ := applyCall_recount alike call
      dsimp only
      rw [same, Option.map_some, ← kept]
      split
      · exact ⟨rfl, rfl⟩
      · rw [recount_leaveBy, recount_leaveBy]
        exact ⟨rfl, rfl⟩
  · rw [if_neg matched] at step ⊢
    cases step
    exact ⟨rfl, rfl⟩

theorem applyIndexes_recount {rest : List (RouteMapIndex Object)}
    {goto : Option (Int × RouteMapResult)} {object : Object} {evaluation : Evaluation Object}
    (run : applyIndexes master first rest goto object count = some evaluation) :
    evaluation.recursion = count ∧
      applyIndexes master second rest goto object other =
        some { evaluation with recursion := other } := by
  induction rest generalizing goto object with
  | nil => cases goto <;> cases run <;> exact ⟨rfl, rfl⟩
  | cons index rest ih =>
    unfold applyIndexes at run ⊢
    by_cases below : goto.any (index.pref < ·.1)
    · rw [if_pos below] at run ⊢
      exact ih run
    · rw [if_neg below] at run ⊢
      cases step : applyIndex master first index object count with
      | none =>
        rw [step] at run
        cases run
      | some leave =>
        obtain ⟨kept, same⟩ := applyIndex_recount alike step
        rw [step] at run
        rw [same]
        cases leave with
        | done answer =>
          cases run
          exact ⟨congrArg Evaluation.recursion (Leave.done.inj kept).symm, rfl⟩
        | next object after =>
          obtain rfl : count = after := (Leave.next.inj kept).2
          exact ih run
        | goto nextpref answer =>
          have after : count = answer.recursion :=
            congrArg Evaluation.recursion (Leave.goto.inj kept).2
          dsimp only at run
          rw [← after] at run
          exact ih run

end

section

variable {master} {depth : Nat} {count : Int} {object : Object}

theorem recursion_of_routeMapApply (atLimit : count + depth = rmapRecursionLimit + 1)
    {map : Option (RouteMap Object)} {called : Evaluation Object}
    (run : routeMapApply master depth map object count = some called) :
    called.recursion = count := by
  obtain ⟨whole, ends, ⟨same, alike⟩ | ⟨_, none⟩⟩ :=
    routeMapApply_guarded master atLimit (Nat.lt_succ_self depth) map object
  · cases (ends.symm.trans alike).trans run
    exact same
  · cases none.symm.trans run

/-- With fuel for the calls below the limit, a map is applied exactly if its
calls are nested so far. -/
theorem routeMapApply_iff_nested (atLimit : count + depth = rmapRecursionLimit)
    {map : RouteMap Object} {last : Object} {ret : RouteMapResult} :
    routeMapApply master (depth + 1) (some map) object count = some ⟨ret, last, count⟩ ↔
      Nested master depth map object ret last := by
  induction depth using Nat.strong_induction_on generalizing count map object ret last with
  | _ depth ih =>
    rw [routeMapApply, if_neg (by omega)]
    constructor
    · intro run
      have kept {map : RouteMap Object} {object : Object} {called : Evaluation Object} :
          routeMapApply master depth (some map) object (count + 1) = some called →
          called.recursion = count + 1 :=
        recursion_of_routeMapApply (by omega)
      refine @Nested.intro _ _ _ _ _ _ _
        (fun map object => (routeMapApply master depth (some map) object (count + 1)).map
          fun called => (called.result, called.object)) ?_ ?_
        (applyIndexes_recount (fun map object called call => ⟨kept call, ?_⟩) run).2
      · intro map object given answered
        obtain ⟨called, call, _⟩ := Option.map_eq_some_iff.mp answered
        cases depth with
        | zero => cases call
        | succ depth => exact Nat.succ_pos depth
      · intro map object given answered
        obtain ⟨⟨ret, last, after⟩, call, rfl⟩ := Option.map_eq_some_iff.mp answered
        cases depth with
        | zero => cases call
        | succ depth =>
          cases kept call
          exact (ih depth (Nat.lt_succ_self depth) (by omega)).mp call
      · rw [answering, call]
        rfl
    · rintro ⟨positive, calls, run⟩
      refine (applyIndexes_recount (fun map object called call => ?_) run).2
      obtain ⟨given, answered, rfl⟩ := Option.map_eq_some_iff.mp call
      obtain ⟨less, rfl⟩ := Nat.exists_eq_add_one_of_ne_zero (positive _ _ _ answered).ne'
      exact ⟨rfl, (ih less (Nat.lt_succ_self less) (by omega)).mpr (calls _ _ _ answered)⟩

end

theorem isSome_iff_withinLimit (application : Application Object) :
    (routeMapApply master (rmapRecursionLimit + 1).toNat application.1 application.2 0).isSome ↔
      WithinLimit master application := by
  obtain ⟨map, object⟩ := application
  have limit : (0 : Int) + (rmapRecursionLimit.toNat : Nat) = rmapRecursionLimit := rfl
  cases map with
  | none => exact iff_of_true rfl nofun
  | some map =>
    constructor
    · rintro returns _ ⟨⟩
      obtain ⟨⟨ret, last, count⟩, run⟩ := Option.isSome_iff_exists.mp returns
      have limited : (0 : Int) + (rmapRecursionLimit + 1).toNat = rmapRecursionLimit + 1 := rfl
      obtain rfl : count = 0 := recursion_of_routeMapApply limited run
      exact ⟨ret, last, (routeMapApply_iff_nested limit).mp run⟩
    · intro within
      obtain ⟨ret, last, nested⟩ := within map rfl
      exact Option.isSome_of_eq_some ((routeMapApply_iff_nested limit).mpr nested)

/-! ## Many applications -/

/-- What an application or several leave in the counter: it is not raised,
and from zero it stays there exactly within the limit. -/
structure Leaves (recursion after : Int) (within : Prop) : Prop where
  le : after ≤ recursion
  kept : recursion = 0 → (after = 0 ↔ within)

variable {recursion : Int}

theorem leaves_run (start : recursion ≤ 0) (application : Application Object) :
    ∃ evaluation, application.run master recursion = some evaluation ∧
      Leaves recursion evaluation.recursion (WithinLimit master application) := by
  have limit : rmapRecursionLimit = 10 := rfl
  obtain ⟨evaluation, ends, ⟨same, alike⟩ | ⟨⟨_, less⟩, none⟩⟩ := routeMapApply_guarded master
    (show recursion + (rmapRecursionLimit + 1 - recursion).toNat = _ by omega)
    (show _ < (rmapRecursionLimit + 2 - recursion).toNat by omega) application.1 application.2
  · refine ⟨evaluation, ends, Int.le_of_eq same, ?_⟩
    rintro rfl
    rw [← isSome_iff_withinLimit]
    exact iff_of_true same (Option.isSome_of_eq_some (alike.symm.trans ends))
  · refine ⟨evaluation, ends, by omega, ?_⟩
    rintro rfl
    rw [← isSome_iff_withinLimit]
    refine iff_of_false (by omega) fun within => ?_
    exact Option.isSome_iff_ne_none.mp within none

theorem leaves_applyEach (start : recursion ≤ 0) (applications : List (Application Object)) :
    ∃ after, applyEach master recursion applications = some after ∧
      Leaves recursion after (∀ application ∈ applications, WithinLimit master application) := by
  induction applications generalizing recursion with
  | nil => exact ⟨recursion, rfl, Int.le_refl _, fun zero => iff_of_true zero nofun⟩
  | cons application later ih =>
    obtain ⟨evaluation, ends, first⟩ := leaves_run master start application
    obtain ⟨after, last, rest⟩ := ih (Int.le_trans first.le start)
    refine ⟨after, ?_, Int.le_trans rest.le first.le, ?_⟩
    · rw [applyEach, ends]
      exact last
    · intro zero
      rw [List.forall_mem_cons, ← first.kept zero]
      constructor
      · rintro rfl
        have same := Int.le_antisymm (zero ▸ first.le) rest.le
        exact ⟨same, (rest.kept same).mp rfl⟩
      · rintro ⟨same, within⟩
        exact (rest.kept same).mpr within

/-- Any number of applications return, also where maps call each other in a
circle, and the counter is zero again exactly if all of them stay within the
limit. -/
theorem recursion_restored_iff (applications : List (Application Object)) :
    ∃ recursion, applyEach master 0 applications = some recursion ∧
      (recursion = 0 ↔ ∀ application ∈ applications, WithinLimit master application) := by
  obtain ⟨recursion, ends, leaves⟩ := leaves_applyEach master (Int.le_refl 0) applications
  exact ⟨recursion, ends, leaves.kept rfl⟩

/-- Twelve maps that call each other in a row deny, and the second time they
permit. -/
theorem second_application_permits :
    Application.run chain 0 (some (link 0), ()) = some ⟨.denymatch, (), -11⟩ ∧
      Application.run chain (-11) (some (link 0), ()) = some ⟨.matched, (), -11⟩ :=
  ⟨rfl, rfl⟩

end OpsCli.Routing.Recursion
