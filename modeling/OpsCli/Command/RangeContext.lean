import OpsCli.Command.Trace

/-!
# Range contexts

With an index list the handler of a command is to be run for every entry.  The
status of a run replaces that of the run before it, and an entry for which the
system is not ready is passed over with the status as it is.
-/

namespace OpsCli.Command.RangeContext

open CLib.CString Token Matcher Selection Authorization Execute Trace List

/-! ## Calls and answers -/

def isCall : Event → Bool
  | .handler _ _ _ _ => true
  | _ => false

def handlerCalls (events : List Event) : List Event :=
  events.filter isCall

theorem handlerCalls_append (first second : List Event) : handlerCalls (first ++ second) =
      handlerCalls first ++ handlerCalls second :=
  filter_append first second

section

variable {World : Type} (services : Services World) (command : CmdElement) (argv : List Arg)

/-- What the system and the handler answer for the entries of a list: nothing if
the system is not ready, or else the status of the handler. -/
def answers : List CStr → Vty → World → List (Option CmdStatus)
  | [], _, _ => []
  | value :: rest, vty, world =>
    match handlerReady services command world with
    | (false, world) =>
      none :: answers rest { vty with index := some value } world
    | (true, world) =>
      match services.handler command argv { vty with index := some value } world with
      | (status, vty, world) => some status :: answers rest vty world

def calls : List CStr → List (Option CmdStatus) → List Event
  | value :: rest, some status :: others =>
    .handler command argv (some value) status :: calls rest others
  | _ :: rest, none :: others => calls rest others
  | _, _ => []

/-- The status after the answers. -/
def lastStatus (ret : CmdStatus) (answers : List (Option CmdStatus)) : CmdStatus :=
  answers.foldl (fun ret answer => answer.getD ret) ret

/-- The handler leaves the index in place. -/
def KeepsIndex : Prop :=
  ∀ (vty : Vty) (world : World), vty.index ≠ none →
    (services.handler command argv vty world).2.1.index ≠ none

theorem length_answers (list : List CStr) (vty : Vty) (world : World) :
    (answers services command argv list vty world).length = list.length := by
  induction list generalizing vty world with
  | nil => rfl
  | cons value rest ih =>
    unfold answers
    split
    · exact congrArg Nat.succ (ih _ _)
    · exact congrArg Nat.succ (ih _ _)

theorem invoke_answer (keeps : KeepsIndex services command argv) (value : CStr) (rest : List CStr)
    (ret : CmdStatus) (session : Session World) :
    ∃ answer, ∃ next : Session World,
      invoke services command argv ret (session.setIndex (some value)) =
        (answer.getD ret, next) ∧ next.vty.index ≠ none ∧
      answers services command argv (value :: rest) session.vty session.world =
        answer :: answers services command argv rest next.vty next.world ∧
      handlerCalls next.events = handlerCalls session.events ++
          calls command argv [value] [answer] := by
  rw [answers]
  unfold invoke
  have same : (session.setIndex (some value)).world = session.world := rfl
  rw [same]
  cases handlerReady services command session.world with
  | mk flag world =>
    cases flag with
    | false =>
      refine ⟨none, _, rfl, nofun, rfl, ?_⟩
      exact handlerCalls_append session.events [.output notReadyText]
    | true =>
      refine ⟨some _, _, rfl, keeps _ _ nofun, rfl, ?_⟩
      exact handlerCalls_append session.events [.handler ..]

/-- **The loop over the index list.** -/
theorem indexLoop_answers (keeps : KeepsIndex services command argv) (list : List CStr)
    (ret : CmdStatus) (session : Session World) :
    (indexLoop services command argv list ret session).1 = lastStatus ret
          (answers services command argv list session.vty session.world) ∧
      handlerCalls (indexLoop services command argv list ret session).2.events =
        handlerCalls session.events ++ calls command argv list
          (answers services command argv list session.vty session.world) := by
  induction list generalizing ret session with
  | nil => exact ⟨rfl, (append_nil _).symm⟩
  | cons value rest ih =>
    obtain ⟨answer, next, step, index, unfolded, events⟩ :=
      invoke_answer services command argv keeps value rest ret session
    obtain ⟨status, later⟩ := ih (answer.getD ret) next
    unfold indexLoop
    rw [step, unfolded]
    rw [if_neg index]
    refine ⟨status, later.trans ?_⟩
    rw [events, append_assoc]
    cases answer with
    | none => rfl
    | some status => rfl

end

/-! ## When everything is run -/

section

theorem length_calls_le (command : CmdElement) (argv : List Arg) (list : List CStr)
    (answers : List (Option CmdStatus)) :
    (calls command argv list answers).length ≤ list.length := by
  induction list generalizing answers with
  | nil => exact Nat.zero_le _
  | cons value rest ih =>
    cases answers with
    | nil => exact Nat.zero_le _
    | cons answer others =>
      cases answer with
      | none => exact Nat.le_succ_of_le (ih others)
      | some status => exact Nat.succ_le_succ (ih others)

variable {command : CmdElement} {argv : List Arg} {answers : List (Option CmdStatus)}
  {list : List CStr}

/-- The event is a call for an entry of the list. -/
def CalledFor (command : CmdElement) (argv : List Arg) (value : CStr) (event : Event) : Prop :=
  ∃ status, event = .handler command argv (some value) status

theorem forall₂_calls_iff (lengths : answers.length = list.length) :
    List.Forall₂ (CalledFor command argv) list (calls command argv list answers) ↔
      none ∉ answers := by
  induction list generalizing answers with
  | nil =>
    cases length_eq_zero_iff.mp lengths
    exact iff_of_true .nil (not_mem_nil)
  | cons value rest ih =>
    cases answers with
    | nil => cases lengths
    | cons answer others =>
      have lengths' : others.length = rest.length := Nat.succ.inj lengths
      cases answer with
      | none =>
        refine iff_of_false ?_ fun absent => absent mem_cons_self
        intro all
        have short := length_calls_le command argv rest others
        have equal : (value :: rest).length =
            (calls command argv rest others).length := all.length_eq
        rw [← equal] at short
        exact Nat.not_succ_le_self _ short
      | some status =>
        rw [calls, List.forall₂_cons, ih lengths', mem_cons, not_or]
        exact and_congr_left fun _ => iff_of_true ⟨status, rfl⟩ nofun

theorem calls_eq_map_iff (lengths : answers.length = list.length) :
    calls command argv list answers =
        list.map (fun value => .handler command argv (some value) .success) ↔
      ∀ answer ∈ answers, answer = some .success := by
  induction list generalizing answers with
  | nil =>
    cases length_eq_zero_iff.mp lengths
    exact iff_of_true rfl nofun
  | cons value rest ih =>
    cases answers with
    | nil => cases lengths
    | cons answer others =>
      have lengths' : others.length = rest.length := Nat.succ.inj lengths
      rw [forall_mem_cons, ← ih lengths']
      cases answer with
      | none =>
        refine iff_of_false ?_ nofun
        intro same
        have short := length_calls_le command argv rest others
        rw [show calls command argv rest others = _ from same, length_map] at short
        exact Nat.not_succ_le_self _ short
      | some status =>
        rw [calls, map_cons, List.cons.injEq, Event.handler.injEq, Option.some.injEq]
        simp

theorem getLast?_eq_lastStatus (ret : CmdStatus) (some : answers ≠ []) (all : none ∉ answers) :
    answers.getLast? = .some (.some (lastStatus ret answers)) := by
  induction answers generalizing ret with
  | nil => exact absurd rfl some
  | cons answer others ih =>
    rw [mem_cons, not_or] at all
    cases answer with
    | none => exact absurd rfl all.1
    | some status =>
      cases others with
      | nil => rfl
      | cons other others =>
        rw [getLast?_cons_cons]
        exact ih status nofun all.2

/-- No entry is passed over, and if the last run succeeds then so do the
others. -/
def Smooth (answers : List (Option CmdStatus)) : Prop :=
  none ∉ answers ∧ (answers.getLast? = some (some .success) →
      ∀ answer ∈ answers, answer = some .success)

end

/-! ## The executor -/

section

variable {World : Type}

/-- The handler has been run for every entry of the list, in order, and for
nothing else. -/
def RunsAll (command : CmdElement) (argv : List Arg) (list : List CStr)
    (before after : Session World) : Prop :=
  List.Forall₂ (CalledFor command argv) list (handlerCalls (eventsSince before after))

/-- The handler has been run for every entry of the list, in order, with
success. -/
def AllSucceed (command : CmdElement) (argv : List Arg) (list : List CStr)
    (before after : Session World) : Prop :=
  handlerCalls (eventsSince before after) =
    list.map fun value => .handler command argv (some value) .success

/-- The line is that of a command that may be executed: the session with which
its handlers are run. -/
structure Reaches (services : Services World) (filter : FilterType) (vline : List (Option CStr))
    (session : Session World)
    (command : CmdElement) (argv : List Arg) (next : Session World) : Prop where
  selected : ∃ szToken, selectCommand services.env filter vline
      (services.commands session.vty.node) session.szToken = some (.command command argv, szToken) ∧
    authorize services command { session with szToken, cmd := some command } = some (true, next)
  fits : recordFits services.env session.vty.node command vline
  own : command.daemon = 0

variable {services : Services World} {filter : FilterType} {vline : List (Option CStr)}
  {session next : Session World} {command : CmdElement} {argv : List Arg}
  {before after : Session World}

theorem handlerCalls_authorize
    (authorized : authorize services command before = some (true, after)) :
    after.vty = before.vty ∧ handlerCalls after.events = handlerCalls before.events := by
  obtain ⟨vty, same | ⟨status, allowed, events⟩⟩ := authorize_cases authorized
  · exact ⟨vty, congrArg handlerCalls same.2⟩
  · refine ⟨vty, ?_⟩
    rw [events, handlerCalls_append]
    have taken : isRefusal status = false := by
      rw [← Bool.not_eq_true', ← allowed]
    rw [taken]
    exact append_nil _

theorem handlerCalls_eventsSince {kind : Event → Prop} (adds : Adds kind before after)
    {added : List Event}
    (events : handlerCalls after.events = handlerCalls before.events ++ added) :
    handlerCalls (eventsSince before after) = added := by
  obtain ⟨more, equal, _⟩ := adds
  rw [equal, handlerCalls_append] at events
  rw [eventsSince, equal, drop_left]
  exact append_cancel_left events

theorem Reaches.run (reaches : Reaches services filter vline session command argv next)
    (keeps : KeepsIndex services command argv) (some : session.vty.indexList ≠ []) :
    ∃ final, cmdExecuteCommandReal services filter vline session =
        .some (lastStatus .success (answers services command argv
          session.vty.indexList next.vty next.world), final) ∧
      handlerCalls (eventsSince session final) =
        calls command argv session.vty.indexList (answers services command
          argv session.vty.indexList next.vty next.world) := by
  obtain ⟨⟨szToken, selected, authorized⟩, fits, own⟩ := reaches
  obtain ⟨vty, silent⟩ := handlerCalls_authorize authorized
  have list : next.vty.indexList = session.vty.indexList := congrArg Vty.indexList vty
  obtain ⟨status, events⟩ := indexLoop_answers services command argv keeps
    session.vty.indexList .success next
  have run : cmdExecuteCommandReal services filter vline session =
      .some (indexLoop services command argv session.vty.indexList .success next) := by
    unfold cmdExecuteCommandReal
    rw [selected]
    dsimp only
    rw [if_pos fits]
    unfold dispatch
    rw [authorized]
    dsimp only
    rw [if_neg (not_not.mpr own), runHandlers, list, if_neg some]
  refine ⟨(indexLoop services command argv session.vty.indexList .success next).2, ?_, ?_⟩
  · rw [run, ← status]
  · refine handlerCalls_eventsSince (cmdExecuteCommandReal_adds run) ?_
    rw [events, silent]

/--
**The handler is run for every entry, and success means that all runs
succeeded, exactly if the answers are smooth.**

The answers are those of the system, which may not be ready, and of the handler.
-/
theorem range_runs_iff_smooth (reaches : Reaches services filter vline session command argv next)
    (keeps : KeepsIndex services command argv) (some : session.vty.indexList ≠ []) :
    ∃ ret final, cmdExecuteCommandReal services filter vline session = .some (ret, final) ∧
      ((RunsAll command argv session.vty.indexList session final ∧ (ret = .success →
            AllSucceed command argv session.vty.indexList session final)) ↔
        Smooth (answers services command argv session.vty.indexList next.vty next.world)) := by
  obtain ⟨final, run, events⟩ := reaches.run keeps some
  refine ⟨_, final, run, ?_⟩
  have lengths := length_answers services command argv session.vty.indexList next.vty next.world
  have present : answers services command argv session.vty.indexList next.vty next.world ≠ [] := by
    intro empty
    rw [empty] at lengths
    exact some (length_eq_zero_iff.mp lengths.symm)
  unfold RunsAll AllSucceed Smooth
  rw [events, forall₂_calls_iff lengths, calls_eq_map_iff lengths]
  refine and_congr_right fun all => ?_
  rw [getLast?_eq_lastStatus .success present all, Option.some.injEq, Option.some.injEq]

end

/-! ## Two interfaces -/

def shutdown : CmdElement where
  string := "shutdown"
  tokens := [.terminal ⟨"shutdown", none, none⟩]

def shutdownServices (status : CStr → CmdStatus) : Services Unit :=
  { plainServices (fun _ => [shutdown]) fun _ => .success with
    handler := fun _ _ vty world => ((vty.index.map status).getD .success, vty, world) }

def twoInterfaces : Session Unit :=
  (plainSession .interfaceNode).setIndexList ["1", "2"]

def shutdownAuthorized : Session Unit :=
  { twoInterfaces with
    cmd := some shutdown
    events := [.authorization shutdown exitOk] }

theorem shutdown_runs_all : ∃ ret final,
      cmdExecuteCommandReal (shutdownServices fun _ => .success) .relaxed
          [some "shutdown"] twoInterfaces = some (ret, final) ∧
      RunsAll shutdown [] ["1", "2"] twoInterfaces final ∧
      (ret = .success → AllSucceed shutdown [] ["1", "2"] twoInterfaces final) := by
  obtain ⟨ret, final, run, runs_iff⟩ := range_runs_iff_smooth
    (show Reaches (shutdownServices fun _ => .success) .relaxed
        [some "shutdown"] twoInterfaces shutdown []
        shutdownAuthorized from
      ⟨⟨[], by decide, by decide⟩, by decide, rfl⟩)
    (fun _ _ present => present) (by decide)
  exact ⟨ret, final, run, runs_iff.mpr (by unfold Smooth; decide)⟩

/-- The handler fails for the first interface, and the line succeeds. -/
theorem failure_for_first_interface_lost : cmdExecuteCommandReal (shutdownServices fun value =>
          if value = "1" then .warning else .success)
        .relaxed [some "shutdown"] twoInterfaces =
      some (.success,
        { shutdownAuthorized with
          vty := ⟨.interfaceNode, some "2", ["1", "2"]⟩
          events :=
            [.authorization shutdown exitOk,
              .handler shutdown [] (some "1") .warning,
              .handler shutdown [] (some "2") .success] }) := by
  decide

end OpsCli.Command.RangeContext
