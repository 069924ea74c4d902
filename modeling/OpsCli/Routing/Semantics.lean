import Mathlib.Data.List.Nodup
import OpsCli.Routing.Apply

/-!
# The documented meaning of a route map

The comment over `route_map_apply` says what a clause does and where the
evaluation goes on.  Here this is a relation that knows nothing of lists and
loops: the next clause is the one with the least preference among those that
are still eligible.  What the result is when the clauses run out after a
permit clause has matched is a parameter of the relation.
-/

namespace OpsCli.Routing.Semantics

open CLib.CString Database Apply List

variable {Object : Type}

/-! ## One clause -/

/-- Whether the match rules succeed, each in its turn, and the object after
them. -/
def tryMatch : List (Rule Object) → Object → Bool × Object
  | [], object => (true, object)
  | rule :: rest, object =>
    if (rule object).1 = .matched then tryMatch rest (rule object).2
    else (false, (rule object).2)

def runSets (rules : List (Rule Object)) (object : Object) : Object :=
  rules.foldl (fun object rule => (rule object).2) object

/-- What a clause does to an object, from the matrix of the comment. -/
inductive Effect (Object : Type) where
  | skipped (object : Object)
  | denied (object : Object)
  | acted (object : Object)

/-- The matrix of the comment. -/
def clauseEffect (index : RouteMapIndex Object) (object : Object) : Effect Object :=
  match tryMatch index.matchList object, index.type with
  | (false, after), _ => .skipped after
  | (true, after), .deny => .denied after
  | (true, after), .permit => .acted (runSets index.setList after)

/-! ## Whole maps -/

/-- The answers of a route map; `undecided` is for what is left open. -/
inductive Verdict where
  | permit
  | deny
  | undecided
deriving DecidableEq, Repr

/-- The clause with the least preference among the eligible ones. -/
structure First (clauses : List (RouteMapIndex Object)) (eligible : Int → Prop)
    (index : RouteMapIndex Object) : Prop where
  member : index ∈ clauses
  allowed : eligible index.pref
  least : ∀ other ∈ clauses, eligible other.pref → index.pref ≤ other.pref

/-- Some clause is eligible. -/
def Remains (clauses : List (RouteMapIndex Object)) (eligible : Int → Prop) : Prop :=
  ∃ index ∈ clauses, eligible index.pref

/-- The preferences after that of a clause. -/
def after (index : RouteMapIndex Object) (pref : Int) : Prop :=
  index.pref < pref

/-- The preferences that the goto of a clause may lead to. -/
def jump (index : RouteMapIndex Object) (pref : Int) : Prop :=
  index.pref < pref ∧ index.nextpref ≤ pref

/--
The evaluation of the eligible clauses of a map on an object.  `matched` says
that a permit clause has matched before, and `ranOut` is the answer when the
clauses then run out.  A called map has to permit; then the exit policy of
the clause decides, and a goto that finds no later clause permits.
-/
inductive Evaluates (master : RouteMapMaster Object) (ranOut : Verdict) :
    List (RouteMapIndex Object) → (Int → Prop) → Bool → Object → Verdict → Object → Prop where
  | runOut {clauses : List (RouteMapIndex Object)} {eligible : Int → Prop}
      {matched : Bool} {object : Object}
      (nothing : ¬ Remains clauses eligible) :
      Evaluates master ranOut clauses eligible matched object
        (if matched then ranOut else .deny) object
  | skipped {clauses : List (RouteMapIndex Object)}
      {eligible : Int → Prop} {matched : Bool} {object tried last : Object}
      {verdict : Verdict} {index : RouteMapIndex Object}
      (first : First clauses eligible index)
      (effect : clauseEffect index object = .skipped tried)
      (later : Evaluates master ranOut clauses (after index) matched tried verdict last) :
      Evaluates master ranOut clauses eligible matched object verdict last
  | denied {clauses : List (RouteMapIndex Object)} {eligible : Int → Prop}
      {matched : Bool} {object last : Object} {index : RouteMapIndex Object}
      (first : First clauses eligible index)
      (effect : clauseEffect index object = .denied last) :
      Evaluates master ranOut clauses eligible matched object .deny last
  | refused {clauses : List (RouteMapIndex Object)}
      {eligible : Int → Prop} {matched : Bool} {object acted last : Object}
      {verdict : Verdict} {index : RouteMapIndex Object}
      {map : RouteMap Object} (first : First clauses eligible index)
      (effect : clauseEffect index object = .acted acted)
      (target : callTarget master index = some map)
      (call : Evaluates master ranOut map.indexes (fun _ => True) false acted verdict last)
      (refuses : verdict ≠ .permit) :
      Evaluates master ranOut clauses eligible matched object verdict last
  | left {clauses : List (RouteMapIndex Object)} {eligible : Int → Prop}
      {matched : Bool} {object acted called last : Object}
      {verdict : Verdict} {index : RouteMapIndex Object}
      (first : First clauses eligible index)
      (effect : clauseEffect index object = .acted acted)
      (call : ∀ map, callTarget master index = some map →
        Evaluates master ranOut map.indexes (fun _ => True) false acted .permit called)
      (noCall : callTarget master index = none → called = acted)
      (exit : index.exitpolicy = .exit → verdict = .permit ∧ last = called)
      (next : index.exitpolicy = .next →
        Evaluates master ranOut clauses (after index) true called verdict last)
      (goto : index.exitpolicy = .goto → Remains clauses (jump index) →
        Evaluates master ranOut clauses (jump index) true called verdict last)
      (gotoEnd : index.exitpolicy = .goto → ¬ Remains clauses (jump index) →
        verdict = .permit ∧ last = called) :
      Evaluates master ranOut clauses eligible matched object verdict last

/-! ## The documented answer is unique -/

variable {clauses : List (RouteMapIndex Object)} {index other : RouteMapIndex Object}
  {eligible : Int → Prop} {object : Object} {master : RouteMapMaster Object} {ret : RouteMapResult}
  {verdict : Verdict}

theorem pref_injective (ascending : Ascending clauses) (member : index ∈ clauses)
    (otherMember : other ∈ clauses) (same : index.pref = other.pref) : index = other := by
  have distinct : (clauses.map RouteMapIndex.pref).Nodup :=
    pairwise_map.mpr (ascending.imp Int.ne_of_lt)
  exact inj_on_of_nodup_map distinct member otherMember same

theorem First.unique (ascending : Ascending clauses) (first : First clauses eligible index)
    (second : First clauses eligible other) : index = other := by
  have below := first.least other second.member second.allowed
  have above := second.least index first.member first.allowed
  exact pref_injective ascending first.member second.member (Int.le_antisymm below above)

theorem First.remains (first : First clauses eligible index) : Remains clauses eligible :=
  ⟨index, first.member, first.allowed⟩

theorem First.effect_eq (ascending : Ascending clauses)
    {effect answer : Effect Object} (first : First clauses eligible index)
    (second : First clauses eligible other) (does : clauseEffect index object = effect)
    (same : clauseEffect other object = answer) : effect = answer := by
  rw [← does, ← same, first.unique ascending second]

/-- A map has one documented answer for an object. -/
theorem Evaluates.unique {ranOut : Verdict}
    (ascendingMaps : ∀ map ∈ master, Ascending map.indexes) {matched : Bool}
    {last other : Object} {answer : Verdict} (ascending : Ascending clauses)
    (evaluates : Evaluates master ranOut clauses eligible matched object verdict last)
    (again : Evaluates master ranOut clauses eligible matched object answer other) :
    verdict = answer ∧ last = other := by
  have ofTarget {index : RouteMapIndex Object} {map : RouteMap Object}
      (target : callTarget master index = some map) :
      Ascending map.indexes := by
    obtain ⟨name, _, found⟩ := Option.bind_eq_some_iff.mp target
    exact ascendingMaps map (mem_of_lookup found)
  induction evaluates generalizing answer other with
  | runOut nothing =>
    cases again with
    | runOut _ => exact ⟨rfl, rfl⟩
    | skipped first _ _ | denied first _ | refused first _ _ _ _
    | left first _ _ _ _ _ _ _ => exact absurd first.remains nothing
  | skipped first effect _ ih =>
    cases again with
    | runOut nothing => exact absurd first.remains nothing
    | skipped second same later =>
      cases first.unique ascending second
      cases effect.symm.trans same
      exact ih ascending later
    | denied second same | refused second same _ _ _
    | left second same _ _ _ _ _ _ =>
      cases first.effect_eq ascending second effect same
  | denied first effect =>
    cases again with
    | runOut nothing => exact absurd first.remains nothing
    | skipped second same _ | refused second same _ _ _
    | left second same _ _ _ _ _ _ =>
      cases first.effect_eq ascending second effect same
    | denied second same =>
      cases first.unique ascending second
      cases effect.symm.trans same
      exact ⟨rfl, rfl⟩
  | refused first effect target _ refuses ih =>
    cases again with
    | runOut nothing => exact absurd first.remains nothing
    | skipped second same _ | denied second same =>
      cases first.effect_eq ascending second effect same
    | refused second same called call _ =>
      cases first.unique ascending second
      cases effect.symm.trans same
      cases target.symm.trans called
      exact ih (ofTarget target) call
    | left second same call _ _ _ _ _ =>
      cases first.unique ascending second
      cases effect.symm.trans same
      exact absurd (ih (ofTarget target) (call _ target)).1 refuses
  | @left clauses _ _ _ _ called _ _ index first effect call noCall exit
      next goto gotoEnd callIH nextIH gotoIH =>
      cases again with
      | runOut nothing => exact absurd first.remains nothing
      | skipped second same _ | denied second same =>
        cases first.effect_eq ascending second effect same
      | refused second same target called refuses =>
        cases first.unique ascending second
        cases effect.symm.trans same
        exact absurd (callIH _ target (ofTarget target) called).1.symm refuses
      | left second same call' noCall' exit' next' goto' gotoEnd' =>
        cases first.unique ascending second
        cases effect.symm.trans same
        rename_i called'
        have calledSame : called = called' := by
          cases target : callTarget master index with
          | none => exact (noCall target).trans (noCall' target).symm
          | some map =>
            exact (callIH map target (ofTarget target) (call' map target)).2
        subst calledSame
        cases policy : index.exitpolicy with
        | exit =>
          obtain ⟨rfl, rfl⟩ := exit policy
          obtain ⟨rfl, rfl⟩ := exit' policy
          exact ⟨rfl, rfl⟩
        | next => exact nextIH policy ascending (next' policy)
        | goto =>
          by_cases remains : Remains clauses (jump index)
          · exact gotoIH policy remains ascending (goto' policy remains)
          · obtain ⟨rfl, rfl⟩ := gotoEnd policy remains
            obtain ⟨rfl, rfl⟩ := gotoEnd' policy remains
            exact ⟨rfl, rfl⟩

/-! ## One round of the loop -/

/-- The set rules of a clause answer `RMAP_OKAY`. -/
def SetsOkay (index : RouteMapIndex Object) : Prop :=
  ∀ rule ∈ index.setList, ∀ object, (rule object).1 = .okay

theorem routeMapApplyMatch_eq (rules : List (Rule Object)) (object : Object) :
    ((routeMapApplyMatch rules object).1 = .matched ↔ (tryMatch rules object).1) ∧
      (routeMapApplyMatch rules object).2 = (tryMatch rules object).2 := by
  induction rules generalizing object with
  | nil => exact ⟨⟨fun _ => rfl, fun _ => rfl⟩, rfl⟩
  | cons rule rest ih =>
    rw [routeMapApplyMatch, tryMatch]
    by_cases matches' : (rule object).1 = .matched
    · rw [if_neg (not_not_intro matches'), if_pos matches']
      exact ih _
    · rw [if_pos matches', if_neg matches']
      exact ⟨⟨fun same => absurd same matches', nofun⟩, rfl⟩

theorem applySets_object (rules : List (Rule Object)) (ret : RouteMapResult) (object : Object) :
    (applySets rules ret object).2 = runSets rules object := by
  induction rules generalizing ret object with
  | nil => rfl
  | cons rule rest ih => exact ih _ _

theorem applySets_ne_denymatch {rules : List (Rule Object)}
    (okay : ∀ rule ∈ rules, ∀ object, (rule object).1 = .okay)
    (start : ret ≠ .denymatch) (object : Object) : (applySets rules ret object).1 ≠ .denymatch := by
  induction rules generalizing ret object with
  | nil => exact start
  | cons rule rest ih =>
    refine ih (fun other member => okay other (mem_cons_of_mem _ member)) ?_ _
    rw [okay rule mem_cons_self]
    decide

theorem applyIndex_effect (master : RouteMapMaster Object) (apply : Applier Object)
    (okay : SetsOkay index) (object : Object) (recursion : Int) :
    match clauseEffect index object with
    | .skipped tried =>
      applyIndex master apply index object recursion = some (.next tried recursion)
    | .denied last =>
      applyIndex master apply index object recursion = some (.done ⟨.denymatch, last, recursion⟩)
    | .acted acted =>
      ∃ ret, ret ≠ .denymatch ∧ applyIndex master apply index object recursion =
          (applyCall master apply index ret acted recursion).map fun called =>
              if index.nextrm.isSome && called.result = .denymatch then
                .done called
              else leaveBy index called := by
  obtain ⟨answer, object'⟩ := routeMapApplyMatch_eq index.matchList object
  rw [clauseEffect, applyIndex]
  cases tried : tryMatch index.matchList object with
  | mk success last =>
    rw [tried] at answer object'
    cases success with
    | false =>
      rw [if_neg fun same => Bool.false_ne_true (answer.mp same), object']
    | true =>
      rw [if_pos (answer.mpr rfl), object']
      cases index.type with
      | deny => rfl
      | permit =>
        have start : RouteMapResult.matched ≠ .denymatch := by decide
        refine ⟨_, applySets_ne_denymatch okay start last, ?_⟩
        dsimp only
        rw [applySets_object]

/-! ## The loop over the clauses -/

/-- The clauses that the loop has still to go through are the eligible
ones. -/
structure Pending (clauses : List (RouteMapIndex Object)) (eligible : Int → Prop)
    (rest : List (RouteMapIndex Object)) :
    Prop where
  ascending : Ascending rest
  members : ∀ index, index ∈ rest ↔ index ∈ clauses ∧ eligible index.pref
  upward : ∀ low high, low ≤ high → eligible low → eligible high

section

variable {rest : List (RouteMapIndex Object)}

theorem pending_all (ascending : Ascending clauses) : Pending clauses (fun _ => True) clauses :=
  ⟨ascending, fun _ => (and_iff_left trivial).symm, fun _ _ _ _ => trivial⟩

theorem Pending.first (pending : Pending clauses eligible (index :: rest)) :
    First clauses eligible index := by
  obtain ⟨member, allowed⟩ := (pending.members index).mp mem_cons_self
  refine ⟨member, allowed, fun other here fits => ?_⟩
  obtain ⟨first, _⟩ := pairwise_cons.mp pending.ascending
  rcases mem_cons.mp ((pending.members other).mpr ⟨here, fits⟩) with
    rfl | later
  · exact Int.le_refl _
  · exact Int.le_of_lt (first other later)

theorem Pending.tail (pending : Pending clauses eligible (index :: rest)) :
    Pending clauses (after index) rest := by
  obtain ⟨first, later⟩ := pairwise_cons.mp pending.ascending
  have allowed := pending.first.allowed
  refine ⟨later, fun other => ⟨fun member => ?_, ?_⟩, ?_⟩
  · have listed := (pending.members other).mp (mem_cons_of_mem _ member)
    exact ⟨listed.1, first other member⟩
  · rintro ⟨member, above⟩
    have fits := pending.upward _ _ (Int.le_of_lt above) allowed
    rcases mem_cons.mp ((pending.members other).mpr ⟨member, fits⟩) with
      rfl | listed
    · exact absurd above (Int.lt_irrefl _)
    · exact listed
  · exact fun _ _ below above => Int.lt_of_lt_of_le above below

theorem mem_dropWhile_pref (ascending : Ascending rest) (nextpref : Int)
    (other : RouteMapIndex Object) :
    other ∈ rest.dropWhile (·.pref < nextpref) ↔ other ∈ rest ∧ nextpref ≤ other.pref := by
  induction rest with
  | nil => exact ⟨nofun, fun both => nomatch both.1⟩
  | cons head tail ih =>
    obtain ⟨first, later⟩ := pairwise_cons.mp ascending
    by_cases below : head.pref < nextpref
    · rw [dropWhile_cons_of_pos (by simpa using below), ih later, mem_cons]
      constructor
      · exact fun both => ⟨.inr both.1, both.2⟩
      · rintro ⟨rfl | member, above⟩
        · omega
        · exact ⟨member, above⟩
    · rw [dropWhile_cons_of_neg (by simpa using below)]
      refine ⟨fun member => ⟨member, ?_⟩, fun both => both.1⟩
      rcases mem_cons.mp member with rfl | listed
      · omega
      · have above := first other listed
        omega

theorem Pending.jump (pending : Pending clauses eligible (index :: rest)) :
    Pending clauses (jump index) (rest.dropWhile (·.pref < index.nextpref)) := by
  have tail := pending.tail
  refine ⟨tail.ascending.sublist (dropWhile_sublist _), ?_, ?_⟩
  · intro other
    rw [mem_dropWhile_pref tail.ascending, tail.members, and_assoc]
    rfl
  · intro low high below above
    exact ⟨Int.lt_of_lt_of_le above.1 below, Int.le_trans above.2 below⟩

theorem Pending.remains_iff (pending : Pending clauses eligible rest) :
    Remains clauses eligible ↔ rest ≠ [] := by
  constructor
  · rintro ⟨index, member, fits⟩ rfl
    cases (pending.members index).mpr ⟨member, fits⟩
  · intro nonempty
    obtain ⟨index, tail, rfl⟩ := exists_cons_of_ne_nil nonempty
    exact pending.first.remains

end

/-- A result answers a verdict: it denies unless the verdict is to permit. -/
def Answers (result : RouteMapResult) (verdict : Verdict) : Prop :=
  result = .denymatch ↔ verdict ≠ .permit

theorem answers_permit {result : RouteMapResult} (permits : result ≠ .denymatch) :
    Answers result .permit :=
  ⟨fun denies => absurd denies permits, fun other => absurd rfl other⟩

theorem answers_of_ne (refuses : verdict ≠ .permit) : Answers .denymatch verdict :=
  ⟨fun _ => refuses, fun _ => rfl⟩

/-- An evaluation of the code that follows the documentation, up to what is
left undecided. -/
def Follows (master : RouteMapMaster Object) (clauses : List (RouteMapIndex Object))
    (eligible : Int → Prop)
    (matched : Bool) (object : Object) (recursion : Int)
    (run : Option (Evaluation Object)) : Prop :=
  ∃ verdict last result, Evaluates master .undecided clauses eligible matched object verdict last ∧
      run = some ⟨result, last, recursion⟩ ∧ Answers result verdict

section

variable {master : RouteMapMaster Object} {apply : Applier Object}
  {clauses rest : List (RouteMapIndex Object)} {recursion : Int}
  {eligible : Int → Prop}

/-- Leaving a clause that has acted, when the rest of the list is known to
follow the documentation. -/
theorem follows_leave {bound : Nat} (ih : ∀ {rest : List (RouteMapIndex Object)}
      {eligible : Int → Prop}, rest.length ≤ bound →
        Pending clauses eligible rest → ∀ matched object,
          Follows master clauses eligible matched object recursion
            (applyIndexes master apply rest none object recursion)) (short : rest.length ≤ bound)
    (pending : Pending clauses eligible (index :: rest)) (matched : Bool) {acted called : Object}
    (effect : clauseEffect index object = .acted acted)
    (call : ∀ map, callTarget master index = some map →
      Evaluates master .undecided map.indexes (fun _ => True) false acted .permit called)
    (noCall : callTarget master index = none → called = acted) (permits : ret ≠ .denymatch) :
    Follows master clauses eligible matched object recursion
      (leaveTo master apply rest (leaveBy index ⟨ret, called, recursion⟩)) := by
  have first := pending.first
  rw [leaveBy]
  cases policy : index.exitpolicy with
  | exit =>
    refine ⟨.permit, called, ret, ?_, rfl, answers_permit permits⟩
    refine .left first effect call noCall (fun _ => ⟨rfl, rfl⟩) ?_ ?_ ?_ <;>
      intro other <;> cases policy.symm.trans other
  | next =>
    obtain ⟨verdict, last, result, later, run, answers⟩ := ih short pending.tail true called
    refine ⟨verdict, last, result, ?_, run, answers⟩
    refine .left first effect call noCall ?_ (fun _ => later) ?_ ?_ <;>
      intro other <;> cases policy.symm.trans other
  | goto =>
    have jumped := pending.jump
    change Follows _ _ _ _ _ _ (applyIndexes master apply rest
      (some (index.nextpref, ret)) called recursion)
    rw [applyIndexes_goto]
    split
    · rename_i nothing
      have ends : ¬ Remains clauses (jump index) := fun remains =>
        jumped.remains_iff.mp remains nothing
      refine ⟨.permit, called, ret, ?_, rfl, answers_permit permits⟩
      refine .left first effect call noCall ?_ ?_
        (fun _ remains => absurd remains ends) (fun _ _ => ⟨rfl, rfl⟩) <;>
        intro other <;> cases policy.symm.trans other
    · rename_i something
      have remains := jumped.remains_iff.mpr something
      have shorter := (dropWhile_sublist (·.pref < index.nextpref)).length_le.trans short
      obtain ⟨verdict, last, result, later, run, answers⟩ := ih shorter jumped true called
      refine ⟨verdict, last, result, ?_, run, answers⟩
      refine .left first effect call noCall ?_ ?_ (fun _ _ => later)
        (fun _ ends => absurd remains ends) <;>
        intro other <;> cases policy.symm.trans other

/-- The loop follows the documentation when the called maps do. -/
theorem follows_applyIndexes (okay : ∀ index ∈ clauses, SetsOkay index)
    (calls : ∀ index ∈ clauses, ∀ map, callTarget master index = some map →
      ∀ object, Follows master map.indexes (fun _ => True) false object
        (recursion + 1) (apply map object (recursion + 1)))
    (bound : Nat) (short : rest.length ≤ bound)
    (pending : Pending clauses eligible rest) (matched : Bool) (object : Object) :
    Follows master clauses eligible matched object recursion
      (applyIndexes master apply rest none object recursion) := by
  induction bound generalizing rest eligible matched object with
  | zero =>
    cases length_eq_zero_iff.mp (Nat.le_zero.mp short)
    have nothing : ¬ Remains clauses eligible := fun remains => pending.remains_iff.mp remains rfl
    refine ⟨_, object, .denymatch, .runOut nothing, rfl, answers_of_ne ?_⟩
    cases matched <;> decide
  | succ bound ih =>
    cases rest with
    | nil =>
      exact @ih [] eligible (Nat.zero_le bound) pending matched object
    | cons index rest =>
      have first := pending.first
      have shorter := Nat.le_of_succ_le_succ short
      have round := applyIndex_effect master apply (okay index first.member) object recursion
      rw [applyIndexes_cons]
      cases effect : clauseEffect index object with
      | skipped tried =>
        rw [effect] at round
        rw [round]
        obtain ⟨verdict, last, result, later, run, answers⟩ := ih shorter pending.tail matched tried
        exact ⟨verdict, last, result, .skipped first effect later, run, answers⟩
      | denied last =>
        rw [effect] at round
        rw [round]
        exact ⟨.deny, last, .denymatch, .denied first effect, rfl, answers_of_ne (by decide)⟩
      | acted acted =>
        rw [effect] at round
        obtain ⟨ret, permits, round⟩ := round
        rw [round, applyCall]
        cases target : callTarget master index with
        | none =>
          have kept : ¬ (index.nextrm.isSome && decide (ret = .denymatch)) := by
            simp [permits]
          dsimp only [Option.map_some, Option.bind_some]
          rw [if_neg kept]
          exact follows_leave ih shorter pending matched effect
            (by intro _ other; cases target.symm.trans other)
            (fun _ => rfl) permits
        | some map =>
          obtain ⟨verdict, called, result, documented, run,
            answers⟩ := calls index first.member map target acted
          have named : index.nextrm.isSome := by
            obtain ⟨name, found, _⟩ := Option.bind_eq_some_iff.mp target
            rw [found]
            rfl
          have back : recursion + 1 - 1 = recursion := by omega
          dsimp only
          rw [run]
          dsimp only [Option.map_some, Option.bind_some]
          rw [back, named, Bool.true_and]
          by_cases denies : result = .denymatch
          · rw [if_pos (decide_eq_true denies)]
            have refuses := answers.mp denies
            exact ⟨verdict, called, result, .refused first effect target documented refuses, rfl,
              answers⟩
          · rw [if_neg fun same => denies (of_decide_eq_true same)]
            have permit : verdict = .permit := by
              by_contra other
              exact denies (answers.mpr other)
            subst permit
            refine follows_leave ih shorter pending matched effect (fun other found => ?_)
              (by intro other; cases target.symm.trans other) denies
            cases target.symm.trans found
            exact documented

end

/-! ## Whole databases -/

/-- Every call leads to a map of smaller depth, so the calls are acyclic. -/
def CallsBelow (master : RouteMapMaster Object) (depth : CStr → Nat) : Prop :=
  ∀ map ∈ master, ∀ index ∈ map.indexes, ∀ target,
    callTarget master index = some target → depth target.name < depth map.name

theorem follows_routeMapApply (ascending : ∀ map ∈ master, Ascending map.indexes)
    (okay : ∀ map ∈ master, ∀ index ∈ map.indexes, SetsOkay index)
    {depth : CStr → Nat} (below : CallsBelow master depth) {fuel : Nat}
    {map : RouteMap Object} (member : map ∈ master)
    (enough : depth map.name < fuel) (object : Object) {recursion : Int}
    (shallow : recursion + depth map.name ≤ rmapRecursionLimit) :
    Follows master map.indexes (fun _ => True) false object recursion
      (routeMapApply master fuel (some map) object recursion) := by
  induction fuel generalizing map object recursion with
  | zero => cases enough
  | succ fuel ih =>
    have within : ¬ rmapRecursionLimit < recursion := by omega
    unfold routeMapApply
    rw [if_neg within]
    refine follows_applyIndexes (okay map member) ?_ map.indexes.length
      le_rfl (pending_all (ascending map member)) false object
    intro index listed target found object
    obtain ⟨name, _, named⟩ := Option.bind_eq_some_iff.mp found
    have deeper := below map member index listed target found
    exact ih (mem_of_lookup named) (by omega) object (by omega)

/--
For a database with acyclic calls that are nested at most
`RMAP_RECURSION_LIMIT` deep, `route_map_apply` follows the documentation: the
clauses of a map have exactly one documented answer for an object, and unless
a permit clause matched and the clauses then ran out, this is the answer that
is given, with the object as the documented rules leave it.
-/
theorem route_map_apply_documented {master : RouteMapMaster Object} (built : Built master)
    (okay : ∀ map ∈ master, ∀ index ∈ map.indexes, SetsOkay index)
    (depth : CStr → Nat) (below : CallsBelow master depth)
    (map : RouteMap Object) (member : map ∈ master) (object : Object) (recursion : Int)
    (shallow : recursion + depth map.name ≤ rmapRecursionLimit) (fuel : Nat)
    (enough : depth map.name < fuel) :
    ∃ verdict last evaluation, (∀ answer other,
        Evaluates master .undecided map.indexes (fun _ => True) false object
          answer other ↔ answer = verdict ∧ other = last) ∧
      routeMapApply master fuel (some map) object recursion = some evaluation ∧
      evaluation.recursion = recursion ∧
      (verdict ≠ .undecided → (evaluation.result ≠ .denymatch ↔ verdict = .permit) ∧
          evaluation.object = last) := by
  have ascending := built.ascending
  obtain ⟨verdict, last, result, documented, run, answers⟩ :=
    follows_routeMapApply ascending okay below member enough object shallow
  refine ⟨verdict, last, _, fun answer other => ⟨fun again => ?_, ?_⟩, run, rfl, fun _ => ⟨?_, rfl⟩⟩
  · obtain ⟨same, equal⟩ := documented.unique ascending (ascending map member) again
    exact ⟨same.symm, equal.symm⟩
  · rintro ⟨rfl, rfl⟩
    exact documented
  · exact (not_congr answers).trans not_not

/-! ## Examples -/

def countRule : Rule Nat :=
  fun count => (.okay, count + 1)

theorem first_singleton (index : RouteMapIndex Object) : First [index] (fun _ => True) index := by
  refine ⟨mem_cons_self, trivial, fun other member _ => ?_⟩
  cases mem_singleton.mp member
  exact Int.le_refl _

/-- `permit 10` counts, calls the map `b` and goes to the clauses from 25
on. -/
def callingClause : RouteMapIndex Nat :=
  ⟨10, .permit, .goto, 25, some "b", [], [countRule]⟩

def countingClause (pref : Int) : RouteMapIndex Nat :=
  ⟨pref, .permit, .exit, 0, none, [], [countRule]⟩

theorem countingClause_permits {master : RouteMapMaster Nat} {ranOut : Verdict}
    {clauses : List (RouteMapIndex Nat)} {eligible : Int → Prop} {matched : Bool} {object : Nat}
    {pref : Int} (first : First clauses eligible (countingClause pref)) :
    Evaluates master ranOut clauses eligible matched object .permit (object + 1) := by
  refine .left first rfl ?_ (fun _ => rfl) (fun _ => ⟨rfl, rfl⟩) ?_ ?_ ?_
  · rintro map ⟨⟩
  all_goals rintro ⟨⟩

/-- The map `b` counts, and the map `a` calls it and goes past its `deny 20`. -/
def callingMaps : RouteMapMaster Nat :=
  [⟨"b", [countingClause 10]⟩,
    ⟨"a", [callingClause, { pref := 20, type := .deny }, countingClause 30]⟩]

theorem built_callingMaps : Built callingMaps :=
  .edit "a" (fun index =>
      if index.pref = 10 then { callingClause with pref := index.pref, type := index.type }
      else if index.pref = 30 then { index with setList := [countRule] } else index)
    (fun index => by dsimp only; split <;> [rfl; (split <;> rfl)])
    (.indexGet "a" .permit 30 (.indexGet "a" .deny 20 (.indexGet "a" .permit 10 (.get "a"
      (.edit "b" (fun index => { index with setList := [countRule] }) (fun _ => rfl)
        (.indexGet "b" .permit 10 (.get "b" .empty)))))))

/-- A map with a call and a goto permits, and the object is counted three
times. -/
theorem callingMaps_documented : ∃ evaluation,
    routeMapApply callingMaps 2 callingMaps[1]? 0 0 = some evaluation ∧
      evaluation.recursion = 0 ∧ evaluation.result ≠ .denymatch ∧ evaluation.object = 3 := by
  have okay : ∀ map ∈ callingMaps, ∀ index ∈ map.indexes, SetsOkay index := by
    simp [callingMaps, callingClause, countingClause, SetsOkay, countRule]
  have below : CallsBelow callingMaps fun name => if name = "a" then 1 else 0 := by
    simp [CallsBelow, callingMaps, callTarget, callingClause, countingClause, routeMapLookupByName]
  have last : First callingMaps[1].indexes (jump callingClause) (countingClause 30) := by
    constructor <;> simp [callingMaps, callingClause, countingClause, jump]
  have permits : Evaluates callingMaps .undecided callingMaps[1].indexes (fun _ => True)
      false 0 .permit 3 := by
    refine @Evaluates.left _ _ _ _ _ _ _ _ 2 _ _ callingClause ?_ rfl ?_ ?_ ?_ ?_
      (fun _ _ => countingClause_permits last)
      (fun _ nothing => absurd ⟨_, last.member, last.allowed⟩ nothing)
    · constructor <;> simp [callingMaps, callingClause, countingClause]
    · rintro map ⟨⟩
      exact countingClause_permits (first_singleton _)
    all_goals rintro ⟨⟩
  obtain ⟨verdict, final, evaluation, unique, run, same, answers⟩ := route_map_apply_documented
    built_callingMaps okay _ below callingMaps[1] (by simp) 0 0 (by decide) 2 (by decide)
  obtain ⟨rfl, rfl⟩ := (unique _ _).mp permits
  have decided := answers (by rintro ⟨⟩)
  exact ⟨evaluation, run, same, decided.1.mpr rfl, decided.2⟩

def nextClause : RouteMapIndex Unit where
  pref := 10
  type := .permit
  exitpolicy := .next

def nextMap : RouteMap Unit where
  name := "a"
  indexes := [nextClause]

theorem built_nextMap : Built [nextMap] :=
  .edit "a" (fun index => { index with exitpolicy := .next }) (fun _ => rfl)
    (.indexGet "a" .permit 10 (.get "a" .empty))

def linkName (number : Nat) : CStr :=
  List.replicate number 'a'

def linkClause (number : Nat) : RouteMapIndex Unit where
  pref := 10
  type := .permit
  nextrm := some (linkName (number + 1))

def link (number : Nat) : RouteMap Unit where
  name := linkName number
  indexes := [linkClause number]

def chain : RouteMapMaster Unit :=
  (List.range 12).map link

def addLink (master : RouteMapMaster Unit) (number : Nat) : RouteMapMaster Unit :=
  setIndexes (setIndexes (routeMapGet master (linkName number)) (linkName number)
      (routeMapIndexGet .permit 10))
    (linkName number)
    (·.map fun index => { index with nextrm := some (linkName (number + 1)) })

theorem built_chain : Built chain := by
  have built (numbers : List Nat) (master : RouteMapMaster Unit)
      (before : Built master) : Built (numbers.foldl addLink master) := by
    induction numbers generalizing master with
    | nil => exact before
    | cons number rest ih =>
      refine ih (addLink master number) ?_
      exact .edit _ _ (fun _ => rfl) (.indexGet _ _ _ (.get _ before))
  exact built (List.range 12) [] .empty

theorem link_permits (number : Nat) (call : ∀ map, callTarget chain (linkClause number) = some map →
      Evaluates chain .permit map.indexes (fun _ => True) false () .permit ()) :
    Evaluates chain .permit (link number).indexes (fun _ => True) false () .permit () := by
  refine .left (first_singleton (linkClause number)) rfl call (fun _ => rfl)
    (fun _ => ⟨rfl, rfl⟩) ?_ ?_ ?_
  all_goals
    intro policy
    cases policy

theorem callTarget_chain {number : Nat} {map : RouteMap Unit}
    (found : callTarget chain (linkClause number) = some map) :
    ∃ later, map = link later ∧ later = number + 1 ∧ later < 12 := by
  change routeMapLookupByName chain (linkName (number + 1)) = some map at found
  have member := mem_of_lookup found
  obtain ⟨later, listed, rfl⟩ := mem_map.mp member
  refine ⟨later, rfl, ?_, mem_range.mp listed⟩
  have named := find?_some found
  have lengths := congrArg List.length (of_decide_eq_true named)
  simpa [link, linkName] using lengths

theorem chain_permits (left : Nat) (number : Nat) (last : 11 ≤ number + left) :
    Evaluates chain .permit (link number).indexes (fun _ => True) false () .permit () := by
  induction left generalizing number with
  | zero =>
    refine link_permits number fun map found => ?_
    obtain ⟨later, _, next, listed⟩ := callTarget_chain found
    omega
  | succ left ih =>
    refine link_permits number fun map found => ?_
    obtain ⟨later, rfl, next, _⟩ := callTarget_chain found
    exact ih later (by omega)

/-- The twelfth map of a chain of calls is not applied: the route is denied,
and the counter is negative afterwards.  A route that has matched a last
clause with `on-match next` is denied too. -/
theorem documented_permit_denied : (Built chain ∧
      Evaluates chain .permit (link 0).indexes (fun _ => True) false () .permit () ∧
      routeMapApply chain 12 (some (link 0)) () 0 = some ⟨.denymatch, (), -11⟩) ∧
    (Built [nextMap] ∧ Evaluates [nextMap] .permit nextMap.indexes (fun _ => True) false ()
        .permit () ∧
      routeMapApply [nextMap] 1 (some nextMap) () 0 = some ⟨.denymatch, (), 0⟩) := by
  refine ⟨⟨built_chain, chain_permits 11 0 le_rfl, rfl⟩, built_nextMap, ?_, rfl⟩
  have nothing : ¬ Remains nextMap.indexes (after nextClause) := by
    rintro ⟨index, member, above⟩
    rw [mem_singleton.mp member] at above
    exact Int.lt_irrefl _ above
  exact .left (first_singleton nextClause) rfl (fun _ found => nomatch found) (fun _ => rfl) nofun
    (fun _ => .runOut nothing) nofun nofun

end OpsCli.Routing.Semantics
