import OpsCli.Command.Trace
import OpsCli.Vtysh.Execute

/-!
# The walk to the parents

The walk is meant to try a line at the node of the terminal and at its parents
in turn, up to the first attempt that stops it, and to report the status of
that attempt; if no attempt stops it, the status of the first attempt is
reported and the terminal is left as it was.  The code replaces the status of
a stop at a parent unless it is `CMD_SUCCESS`.
-/

namespace OpsCli.Vtysh.Walk

open CLib.CString Command.Matcher Command.Selection Command.Authorization
  Command.Execute Command.Trace Execute

variable {World : Type} {node : NodeType} {fuel : Nat}

/-! ## Attempts -/

/-- One attempt of a walk. -/
structure Attempt (World : Type) where
  start : Session World
  status : CmdStatus
  result : Session World
deriving DecidableEq, Repr

def loopAttempts (execute : Executor World) : Nat → Walk World → List (Attempt World)
  | 0, _ => []
  | fuel + 1, walk =>
    if goesOn walk.ret walk.session then
      let start := walk.session.setNode (nodeParent walk.session.vty.node)
      match execute start with
      | none => []
      | some (ret, session) =>
        ⟨start, ret, session⟩ :: loopAttempts execute fuel ⟨ret, walk.tried + 1, session⟩
    else []

def attempts (execute : Executor World) (fuel : Nat)
    (session : Session World) : List (Attempt World) :=
  match execute session with
  | none => []
  | some (ret, first) =>
    ⟨session, ret, first⟩ :: loopAttempts execute fuel ⟨ret, 0, enterWalk ret first⟩

def firstStop (tried : List (Attempt World)) : Option (Attempt World) :=
  tried.find? (stopsWalk ·.status)

/-! ## What is meant -/

/-- The nodes are tried in turn, up to the first attempt that stops. -/
inductive Climbs : List NodeType → List (Attempt World) → Prop where
  | finished : Climbs [] []
  | stopped {node : NodeType} {nodes : List NodeType}
      {attempt : Attempt World} (located : attempt.start.vty.node = node)
      (stops : stopsWalk attempt.status) :
      Climbs (node :: nodes) [attempt]
  | failed {node : NodeType} {nodes : List NodeType}
      {attempt : Attempt World} {rest : List (Attempt World)}
      (located : attempt.start.vty.node = node)
      (fails : stopsWalk attempt.status = false)
      (climbs : Climbs nodes rest) : Climbs (node :: nodes) (attempt :: rest)

/-- The status of the first stop is reported; without one the status of the
first attempt is, and the terminal is as it was. -/
def ReportsFirstStop (session : Session World) (tried : List (Attempt World)) (ret : CmdStatus)
    (final : Session World) : Prop :=
  match firstStop tried with
  | some stop => ret = stop.status
  | none =>
    tried.head?.map (·.status) = some ret ∧ final.vty = session.vty

/-- The walk stops at the original node or with `CMD_SUCCESS`; if it does not
stop, the attempt at the original node has not moved the index. -/
def StopsCleanly (session : Session World) (tried : List (Attempt World)) : Prop :=
  match firstStop tried with
  | some stop => tried.head? = some stop ∨ stop.status = .success
  | none =>
    ∀ first ∈ tried.head?, first.result.vty.index = session.vty.index

/-- Two states of the terminal with one node and one index list. -/
def SamePlace (vty other : Vty) : Prop :=
  vty.node = other.node ∧ vty.indexList = other.indexList

/-- An attempt that does not stop the walk leaves the node and the index list
alone. -/
def FailuresKeepPlace (execute : Executor World) : Prop :=
  ∀ start status result, execute start = some (status, result) →
    stopsWalk status = false → SamePlace result.vty start.vty

/-! ## The parents -/

theorem ancestors_of_belowConfig (below : belowConfig node) :
    ancestors node = nodeParent node :: ancestors (nodeParent node) := by
  cases node <;> first | rfl | exact absurd below (by decide)

theorem ancestors_of_not_belowConfig (above : belowConfig node = false) : ancestors node = [] :=
  if_neg (by rw [above]; exact Bool.false_ne_true)

theorem length_ancestors_le (node : NodeType) : (ancestors node).length ≤ 2 := by
  cases node <;> decide

/-! ## The loop -/

theorem firstStop_cons_of_stops {attempt : Attempt World} (rest : List (Attempt World))
    (stops : stopsWalk attempt.status) : firstStop (attempt :: rest) = some attempt :=
  List.find?_cons_of_pos stops

theorem firstStop_cons_of_fails {attempt : Attempt World} (rest : List (Attempt World))
    (fails : stopsWalk attempt.status = false) : firstStop (attempt :: rest) = firstStop rest :=
  List.find?_cons_of_neg (by rw [fails]; exact Bool.false_ne_true)

theorem stops_of_firstStop {tried : List (Attempt World)} {stop : Attempt World}
    (found : firstStop tried = some stop) : stopsWalk stop.status := by
  simpa using List.find?_some found

variable {ret : CmdStatus} {walk last : Walk World} {session first : Session World}
  {execute : Executor World}

theorem goesOn_of_stops (session : Session World) (stops : stopsWalk ret) :
    goesOn ret session = false := by
  rw [goesOn, stops]
  rfl

theorem goesOn_of_fails (session : Session World) (fails : stopsWalk ret = false) :
    goesOn ret session = belowConfig session.vty.node := by
  rw [goesOn, fails]
  rfl

theorem loopAttempts_of_stops (execute : Executor World) (fuel : Nat) (stops : stopsWalk walk.ret) :
    loopAttempts execute fuel walk = [] := by
  cases fuel with
  | zero => rfl
  | succ fuel =>
    rw [loopAttempts, goesOn_of_stops walk.session stops]
    rfl

theorem walkLoop_of_stops (execute : Executor World) (fuel : Nat) (stops : stopsWalk walk.ret) :
    walkLoop execute fuel walk = some walk := by
  cases fuel with
  | zero => rfl
  | succ fuel =>
    rw [walkLoop, goesOn_of_stops walk.session stops]
    rfl

/-- Where the loop stands when it is left: at its first stop, or behind its
last failure. -/
def LeftAt (tried : List (Attempt World)) (walk last : Walk World) : Prop :=
  match firstStop tried with
  | some stop => last.ret = stop.status ∧ last.tried ≠ 0
  | none => stopsWalk last.ret = false ∧ (last = walk ∨ last.tried ≠ 0)

/-- The attempts of a loop that ends in a state. -/
structure Ends (walk last : Walk World) (tried : List (Attempt World)) : Prop where
  climbs : Climbs (ancestors walk.session.vty.node) tried
  left : LeftAt tried walk last
  ended : goesOn last.ret last.session = false

theorem ends_nil (fails : stopsWalk walk.ret = false)
    (above : belowConfig walk.session.vty.node = false) : Ends walk walk [] where
  climbs := by
    rw [ancestors_of_not_belowConfig above]
    exact .finished
  left := ⟨fails, .inl rfl⟩
  ended := (goesOn_of_fails walk.session fails).trans above

theorem ends_stopped (below : belowConfig walk.session.vty.node) (stops : stopsWalk ret) :
    Ends walk ⟨ret, walk.tried + 1, session⟩
      [⟨walk.session.setNode (nodeParent walk.session.vty.node), ret, session⟩] where
  climbs := by
    rw [ancestors_of_belowConfig below]
    exact .stopped rfl stops
  left := by
    unfold LeftAt
    rw [firstStop_cons_of_stops [] stops]
    exact ⟨rfl, Nat.succ_ne_zero _⟩
  ended := goesOn_of_stops session stops

theorem ends_failed {rest : List (Attempt World)} (below : belowConfig walk.session.vty.node)
    (fails : stopsWalk ret = false) (stays : session.vty.node = nodeParent walk.session.vty.node)
    (ends : Ends ⟨ret, walk.tried + 1, session⟩ last rest) :
    Ends walk last (⟨walk.session.setNode (nodeParent walk.session.vty.node), ret,
        session⟩ :: rest) where
  climbs := by
    have climbs : Climbs (ancestors session.vty.node) rest := ends.climbs
    rw [stays] at climbs
    rw [ancestors_of_belowConfig below]
    exact .failed rfl fails climbs
  left := by
    have left := ends.left
    unfold LeftAt at left ⊢
    rw [firstStop_cons_of_fails rest fails]
    cases found : firstStop rest with
    | some stop =>
      rw [found] at left
      exact left
    | none =>
      rw [found] at left
      refine ⟨left.1, .inr ?_⟩
      rcases left.2 with same | tried
      · rw [same]
        exact Nat.succ_ne_zero _
      · exact tried
  ended := ends.ended

/-- With enough rounds, a loop that is entered after a failure tries the
parents in turn and ends. -/
theorem walkLoop_ends (keeps : FailuresKeepPlace execute)
    (enough : (ancestors walk.session.vty.node).length ≤ fuel) (fails : stopsWalk walk.ret = false)
    (run : walkLoop execute fuel walk = some last) :
    Ends walk last (loopAttempts execute fuel walk) := by
  induction fuel generalizing walk with
  | zero =>
    cases run
    refine ends_nil fails (Bool.not_eq_true _ ▸ fun below => ?_)
    rw [ancestors_of_belowConfig below] at enough
    cases enough
  | succ fuel ih =>
    unfold walkLoop at run
    unfold loopAttempts
    rw [goesOn_of_fails walk.session fails] at run ⊢
    cases below : belowConfig walk.session.vty.node with
    | false =>
      rw [below] at run
      cases run
      exact ends_nil fails below
    | true =>
      rw [below, if_pos rfl] at run
      rw [if_pos rfl]
      dsimp only
      cases attempt : execute (walk.session.setNode (nodeParent walk.session.vty.node)) with
      | none =>
        rw [attempt] at run
        cases run
      | some next =>
        obtain ⟨ret, session⟩ := next
        rw [attempt] at run
        dsimp only at run ⊢
        cases stops : stopsWalk ret with
        | true =>
          rw [walkLoop_of_stops execute fuel stops] at run
          rw [loopAttempts_of_stops execute fuel stops]
          cases run
          exact ends_stopped below stops
        | false =>
          have stays := (keeps _ _ _ attempt stops).1
          refine ends_failed below stops stays (ih ?_ stops run)
          rw [ancestors_of_belowConfig below] at enough
          change (ancestors session.vty.node).length ≤ fuel
          rw [stays]
          exact Nat.le_of_succ_le_succ enough

/-! ## The walk -/

/-- The walk ends, has tried the nodes in turn and reports as it should. -/
def WalksAsMeant (execute : Executor World) (fuel : Nat) (session : Session World) : Prop :=
  ∃ ret final, vtyshWalk execute fuel session = some (.ended ret final) ∧
    Climbs (session.vty.node :: ancestors session.vty.node) (attempts execute fuel session) ∧
    ReportsFirstStop session (attempts execute fuel session) ret final

theorem settle_untried (savedRet ret : CmdStatus) (saved : Vty) (session : Session World) :
    settle savedRet saved ⟨ret, 0, session⟩ = (ret, session) :=
  if_neg (by simp)

theorem vtyshWalk_of_stops (fuel : Nat) (attempt : execute session = some (ret, first))
    (stops : stopsWalk ret) :
    vtyshWalk execute fuel session = some (.ended ret first) ∧
      attempts execute fuel session = [⟨session, ret, first⟩] := by
  have goes := goesOn_of_stops first stops
  have enter : enterWalk ret first = first := if_neg (by rw [goes]; exact Bool.false_ne_true)
  unfold vtyshWalk attempts
  rw [attempt]
  dsimp only
  rw [enter, walkLoop_of_stops execute fuel stops, loopAttempts_of_stops execute fuel stops]
  dsimp only
  rw [goes, settle_untried]
  exact ⟨rfl, rfl⟩

theorem enterWalk_node (ret : CmdStatus) (session : Session World) :
    (enterWalk ret session).vty.node = session.vty.node := by
  unfold enterWalk
  split <;> rfl

/-- Behind the loop, the status of a stop at a parent is replaced unless it is
`CMD_SUCCESS`; after a failure everything saved is restored. -/
theorem settle_of_left {tried : List (Attempt World)} {walk last : Walk World} {ret : CmdStatus}
    {saved : Vty} (left : LeftAt tried walk last) (entered : walk.ret = ret)
    (same : goesOn walk.ret walk.session = false → walk.session.vty = saved)
    (ended : goesOn last.ret last.session = false) :
    match firstStop tried with
    | some stop =>
      (settle ret saved last).1 = if stop.status = .success then .success else ret
    | none =>
      (settle ret saved last).1 = ret ∧ (settle ret saved last).2.vty = saved := by
  unfold LeftAt at left
  cases found : firstStop tried with
  | some stop =>
    rw [found] at left
    dsimp only
    unfold settle
    rw [left.1]
    by_cases success : stop.status = .success
    · rw [if_pos success, if_neg (by simp [success])]
      exact success
    · rw [if_neg success, if_pos (by simp [success, left.2])]
  | none =>
    rw [found] at left
    dsimp only
    unfold settle
    have failure : last.ret ≠ .success := by
      intro success
      rw [success] at left
      cases left.1
    rcases left.2 with unchanged | tried
    · subst unchanged
      split
      · exact ⟨rfl, rfl⟩
      · exact ⟨entered, same ended⟩
    · rw [if_pos (by simp [failure, tried])]
      exact ⟨rfl, rfl⟩

theorem vtyshWalk_of_fails (keeps : FailuresKeepPlace execute) {progress}
    (attempt : execute session = some (ret, first)) (fails : stopsWalk ret = false)
    (run : vtyshWalk execute (fuel + 2) session = some progress) :
    ∃ last tried, attempts execute (fuel + 2) session = ⟨session, ret, first⟩ :: tried ∧
      Ends ⟨ret, 0, enterWalk ret first⟩ last tried ∧
      progress = .ended (settle ret first.vty last).1 (settle ret first.vty last).2 := by
  unfold vtyshWalk at run
  unfold attempts
  rw [attempt] at run ⊢
  dsimp only at run ⊢
  split at run
  · cases run
  · rename_i last loop
    have enough : (ancestors (enterWalk ret first).vty.node).length ≤ fuel + 2 :=
      (length_ancestors_le _).trans (Nat.le_add_left 2 fuel)
    have ends := walkLoop_ends keeps enough fails loop
    rw [ends.ended] at run
    exact ⟨last, _, rfl, ends, (Option.some.inj run).symm⟩

theorem enterWalk_vty (ended : goesOn ret (enterWalk ret first) = false) :
    (enterWalk ret first).vty = first.vty := by
  have goes : goesOn ret first = false := by
    rw [← ended, goesOn, goesOn, enterWalk_node]
  rw [enterWalk, goes]
  rfl

theorem SamePlace.eq_iff_index {vty other : Vty} (place : SamePlace vty other) :
    vty = other ↔ vty.index = other.index := by
  obtain ⟨node, indexList⟩ := place
  cases vty
  cases other
  cases node
  cases indexList
  simp

/-- What is reported behind a loop that follows a failure. -/
theorem reportsFirstStop_settle_iff {tried : List (Attempt World)} (fails : stopsWalk ret = false)
    (place : SamePlace first.vty session.vty)
    (ends : Ends ⟨ret, 0, enterWalk ret first⟩ last tried) :
    ReportsFirstStop session (⟨session, ret, first⟩ :: tried)
        (settle ret first.vty last).1 (settle ret first.vty last).2 ↔
      StopsCleanly session (⟨session, ret, first⟩ :: tried) := by
  have settled := settle_of_left ends.left rfl enterWalk_vty ends.ended
  unfold ReportsFirstStop StopsCleanly
  rw [firstStop_cons_of_fails tried fails]
  cases found : firstStop tried with
  | some stop =>
    rw [found] at settled
    dsimp only at settled ⊢
    have stops := stops_of_firstStop found
    have different : ret ≠ stop.status := by
      rintro rfl
      rw [fails] at stops
      cases stops
    rw [settled]
    by_cases success : stop.status = .success
    · rw [if_pos success]
      exact ⟨fun _ => .inr success, fun _ => success.symm⟩
    · rw [if_neg success]
      refine ⟨fun same => absurd same different, fun clean => ?_⟩
      rcases clean with head | same
      · cases head
        exact absurd rfl different
      · exact absurd same success
  | none =>
    rw [found] at settled
    dsimp only at settled ⊢
    rw [settled.1, settled.2, place.eq_iff_index]
    simp

/-! ## The attempts of the executor -/

/-- A handler that fails leaves the terminal alone, and one that runs for an
index list moves at most the index. -/
structure HandlersKeepPlace (services : Services World) : Prop where
  failing : ∀ command argv vty world,
    stopsWalk (services.handler command argv vty world).1 = false →
      (services.handler command argv vty world).2.1 = vty
  listed : ∀ command argv vty world, vty.indexList ≠ [] →
    SamePlace (services.handler command argv vty world).2.1 vty

section

variable {services : Services World} (keeps : HandlersKeepPlace services) (command : CmdElement)
  (argv : List Arg)

include keeps

theorem invoke_keepsPlace (ret : CmdStatus) (listed : session.vty.indexList ≠ []) :
    SamePlace (invoke services command argv ret session).2.vty session.vty := by
  unfold invoke
  split
  · exact ⟨rfl, rfl⟩
  · rename_i world _
    exact keeps.listed command argv session.vty world listed

theorem indexLoop_keepsPlace (list : List CStr) (ret : CmdStatus)
    (listed : session.vty.indexList ≠ []) :
    SamePlace (indexLoop services command argv list ret session).2.vty session.vty := by
  induction list generalizing ret session with
  | nil => exact ⟨rfl, rfl⟩
  | cons value rest ih =>
    have step : SamePlace (invoke services command argv ret (session.setIndex value)).2.vty
        session.vty :=
      invoke_keepsPlace keeps command argv ret
        (show (session.setIndex value).vty.indexList ≠ [] from listed)
    unfold indexLoop
    dsimp only
    split
    · exact step
    · have later := ih (invoke services command argv ret (session.setIndex value)).1
        (step.2 ▸ listed)
      exact ⟨later.1.trans step.1, later.2.trans step.2⟩

theorem runHandlers_keepsPlace (session : Session World)
    (fails : stopsWalk (runHandlers services command argv session).1 = false) :
    SamePlace (runHandlers services command argv session).2.vty session.vty := by
  unfold runHandlers at fails ⊢
  by_cases listed : session.vty.indexList = []
  · rw [if_pos listed] at fails ⊢
    unfold invoke at fails ⊢
    cases ready : handlerReady services command session.world with
    | mk flag world =>
      rw [ready] at fails
      cases flag with
      | false => cases fails
      | true =>
        have same := keeps.failing command argv session.vty world fails
        exact ⟨congrArg Vty.node same, congrArg Vty.indexList same⟩
  · rw [if_neg listed]
    exact indexLoop_keepsPlace keeps command argv _ _ listed

theorem dispatch_keepsPlace {next : Session World} {status : CmdStatus}
    (run : dispatch services command argv session = some (status, next))
    (fails : stopsWalk status = false) : SamePlace next.vty session.vty := by
  unfold dispatch at run
  split at run
  · cases run
  · rename_i authorized
    cases run
    rw [(authorize_cases authorized).1]
    exact ⟨rfl, rfl⟩
  · rename_i middle authorized
    split at run
    · cases run
      cases fails
    · have place := runHandlers_keepsPlace keeps command argv middle
      rw [Option.some.inj run, (authorize_cases authorized).1] at place
      exact place fails

theorem failuresKeepPlace_cmdExecuteCommand (vline : List (Option CStr)) :
    FailuresKeepPlace (cmdExecuteCommand services vline true) := by
  intro start status result run fails
  unfold cmdExecuteCommand at run
  split at run
  · unfold executeShortcut at run
    obtain ⟨next, _, equal⟩ := Option.map_eq_some_iff.mp run
    cases equal
    exact ⟨rfl, rfl⟩
  · unfold cmdExecuteCommandReal at run
    cases selection : selectCommand services.env .relaxed vline
        (services.commands start.vty.node) start.szToken with
    | none =>
      rw [selection] at run
      cases run
    | some pair =>
      obtain ⟨selected, szToken⟩ := pair
      rw [selection] at run
      cases selected with
      | refused refusal =>
        cases run
        exact ⟨rfl, rfl⟩
      | command command argv =>
        dsimp only at run
        split at run
        · cases run
        · rename_i ret next attempt
          cases run
          split at attempt
          · have place := dispatch_keepsPlace keeps command argv attempt
            exact place fails
          · cases attempt

end

/-! ## The result -/

/-- Whatever the attempts yield, a walk whose failures keep their place tries
the line at the node and its parents in turn and ends.  It reports as it
should exactly if it stops at the original node or with `CMD_SUCCESS`, or
fails throughout without having moved the index. -/
theorem walk_reports_first_stop_iff {execute : Executor World} (keeps : FailuresKeepPlace execute)
    (fuel : Nat) {session : Session World} (defined : vtyshWalk execute (fuel + 2) session ≠ none) :
    WalksAsMeant execute (fuel + 2) session ↔
      StopsCleanly session (attempts execute (fuel + 2) session) := by
  obtain ⟨progress, run⟩ := Option.ne_none_iff_exists'.mp defined
  cases attempt : execute session with
  | none =>
    rw [vtyshWalk, attempt] at run
    cases run
  | some next =>
    obtain ⟨ret, first⟩ := next
    unfold WalksAsMeant
    cases stops : stopsWalk ret with
    | true =>
      obtain ⟨walk, tried⟩ := vtyshWalk_of_stops (fuel + 2) attempt stops
      unfold ReportsFirstStop StopsCleanly
      rw [walk, tried, firstStop_cons_of_stops [] stops]
      exact ⟨fun _ => .inl rfl, fun _ => ⟨ret, first, rfl, .stopped rfl stops, rfl⟩⟩
    | false =>
      obtain ⟨last, tried, equal, ends, ended⟩ := vtyshWalk_of_fails keeps attempt stops run
      have place := keeps _ _ _ attempt stops
      have climbs := ends.climbs
      change Climbs (ancestors (enterWalk ret first).vty.node) tried at climbs
      rw [enterWalk_node, place.1] at climbs
      have reports := reportsFirstStop_settle_iff stops place ends
      rw [run, equal, ended, ← reports]
      constructor
      · rintro ⟨_, _, same, _, holds⟩
        cases same
        exact holds
      · intro holds
        exact ⟨_, _, rfl, .failed rfl stops climbs, holds⟩

/-! ## A command of the parent node -/

def hostname : CmdElement where
  string := "hostname WORD"
  tokens := [.terminal ⟨"hostname", none, none⟩, .terminal ⟨"WORD", none, none⟩]

def shutdown : CmdElement where
  string := "shutdown"
  tokens := [.terminal ⟨"shutdown", none, none⟩]

/-- A shell with `hostname` at the configuration node, whose handlers return
this status. -/
def hostnameShell (status : CmdStatus) : Shell Unit where
  services := plainServices (fun node => if node = .configNode then [hostname] else [shutdown])
    fun _ => status
  vtyFile := false
  clientExecute _ _ world := (.success, world)

def hostnameExecute (status : CmdStatus) : Executor Unit :=
  (hostnameShell status).execute ["hostname", "core"]

def hostnameUnknown : Session Unit :=
  ⟨⟨.interfaceNode, none, []⟩, (), [], some hostname, [.authorization hostname exitOk,
      .handler hostname [.text "core"] none .warning,
      .output "% Unknown command.\n"]⟩

theorem hostname_walks_as_meant :
    WalksAsMeant (hostnameExecute .success) 2 (plainSession .interfaceNode) :=
  (walk_reports_first_stop_iff
    (failuresKeepPlace_cmdExecuteCommand ⟨nofun, fun _ _ _ _ _ => ⟨rfl, rfl⟩⟩
      _) 0 (by decide)).mpr (.inr rfl)

/-- The handler of `hostname` warns, but its command is reported as unknown,
because the walk found it at a parent. -/
theorem warning_at_parent_reported_unknown :
    vtyshExecuteFunc (hostnameShell .warning) 2 "hostname core"
        (plainSession .interfaceNode) =
      some (.ended .errNoMatch hostnameUnknown) ∧
    (attempts (hostnameExecute .warning) 2 (plainSession .interfaceNode)).map (·.status) =
      [.errNoMatch, .warning] ∧
    ¬ WalksAsMeant (hostnameExecute .warning) 2 (plainSession .interfaceNode) := by
  refine ⟨by decide, by decide, ?_⟩
  rintro ⟨ret, final, run, _, reports⟩
  have stop : (firstStop (attempts (hostnameExecute .warning) 2
      (plainSession .interfaceNode))).map (·.status) = some .warning := by
    decide
  obtain ⟨attempt, found, status⟩ := Option.map_eq_some_iff.mp stop
  have reported : ret = attempt.status := by
    rwa [ReportsFirstStop, found] at reports
  have walk : vtyshWalk (hostnameExecute .warning) 2
      (plainSession .interfaceNode) = some (.ended .errNoMatch
          { hostnameUnknown with events := hostnameUnknown.events.take 2 }) := by
    decide
  rw [walk] at run
  cases run
  rw [status] at reported
  cases reported

end OpsCli.Vtysh.Walk
