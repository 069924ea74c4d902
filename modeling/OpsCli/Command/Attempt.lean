import OpsCli.Command.Trace

/-!
# What an attempt does

An attempt of the shell to execute a line selects a command or fails.  The
command is refused, left to the daemons, or its handler is called if the
system becomes ready in time.  Both kinds of event are characterised by the
state in which the attempt starts.
-/

namespace OpsCli.Command.Attempt

open CLib.CString Token Matcher Selection Execute Trace List

variable {World : Type}

/-! ## Occurrences -/

/-- An event of this kind has been added since an earlier session. -/
def Occurs (kind : Event → Bool) (before after : Session World) : Prop :=
  ∃ event ∈ eventsSince before after, kind event

instance (kind : Event → Bool) (before after : Session World) :
    Decidable (Occurs kind before after) :=
  inferInstanceAs (Decidable (∃ event ∈ eventsSince before after, kind event))

/-- The later session only adds events. -/
def Extends (before after : Session World) : Prop :=
  Adds (fun _ => True) before after

variable {kind : Event → Bool} {before after session next : Session World}
  {services : Services World} {command : CmdElement} {vline : List (Option CStr)}
  {entered result start : Session World} {status : CmdStatus} {argv : List Arg}

theorem occurs_congr (starts : start.events = before.events)
    (results : result.events = after.events) :
    Occurs kind start result ↔ Occurs kind before after := by
  unfold Occurs eventsSince
  rw [starts, results]

theorem Extends.congr (extend : Extends before after) (starts : start.events = before.events)
    (results : result.events = after.events) : Extends start result := by
  obtain ⟨added, equal, each⟩ := extend
  exact ⟨added, by rw [results, starts, equal], each⟩

theorem not_occurs_of_events (same : after.events = before.events) :
    ¬ Occurs kind before after := by
  rintro ⟨event, member, _⟩
  rw [eventsSince, same, drop_length] at member
  cases member

theorem occurs_of_append {added : List Event} (equal : after.events = before.events ++ added) :
    Occurs kind before after ↔ ∃ event ∈ added, kind event := by
  rw [Occurs, eventsSince, equal, drop_left]

theorem occurs_trans {first second third : Session World} (left : Extends first second)
    (right : Extends second third) :
    Occurs kind first third ↔ Occurs kind first second ∨ Occurs kind second third := by
  obtain ⟨added, equal, _⟩ := left
  obtain ⟨more, moreEqual, _⟩ := right
  have both : third.events = first.events ++ (added ++ more) := by
    rw [moreEqual, equal, append_assoc]
  rw [occurs_of_append both, occurs_of_append equal, occurs_of_append moreEqual]
  simp only [mem_append, or_and_right, exists_or]

theorem not_occurs_of_adds {allowed : Event → Prop} (adds : Adds allowed before after)
    (other : ∀ event, allowed event → kind event = false) : ¬ Occurs kind before after := by
  rintro ⟨event, member, holds⟩
  rw [other event (adds.eventsSince member)] at holds
  cases holds

/-- A refusal of `check_cmd_authorization`. -/
def isRefused : Event → Bool
  | .authorization _ status => isRefusal status
  | _ => false

def isHandled : Event → Bool
  | .handler .. => true
  | _ => false

/-! ## Calls -/

def everReady (services : Services World) (command : CmdElement) : Nat → World → Bool
  | 0, _ => false
  | count + 1, world =>
    match handlerReady services command world with
    | (true, _) => true
    | (false, world) => everReady services command count world

section

variable (services : Services World) (command : CmdElement) (argv : List Arg) {world : World}

theorem invoke_of_ready (ret : CmdStatus)
    (ready : handlerReady services command session.world = (true, world)) :
    Occurs isHandled session (invoke services command argv ret session).2 := by
  unfold invoke
  rw [ready]
  exact (occurs_of_append rfl).mpr ⟨_, mem_singleton_self _, rfl⟩

theorem invoke_of_not_ready (ret : CmdStatus)
    (ready : handlerReady services command session.world = (false, world)) :
    invoke services command argv ret session =
      (ret, session.happens world (.output notReadyText)) := by
  unfold invoke
  rw [ready]

theorem not_occurs_output (world : World) (text : CStr) :
    ¬ Occurs isHandled session (session.happens world (.output text)) := by
  intro occurs
  obtain ⟨event, member, holds⟩ := (occurs_of_append rfl).mp occurs
  rw [mem_singleton.mp member] at holds
  cases holds

theorem invoke_extends (ret : CmdStatus) (session : Session World) :
    Extends session (invoke services command argv ret session).2 :=
  (invoke_adds services command argv ret session).mono fun _ _ => trivial

theorem indexLoop_extends (list : List CStr) (ret : CmdStatus) (session : Session World) :
    Extends session (indexLoop services command argv list ret session).2 :=
  (indexLoop_adds services command argv list ret session).mono fun _ _ => trivial

theorem indexLoop_occurs_iff (list : List CStr) (ret : CmdStatus) (session : Session World) :
    Occurs isHandled session (indexLoop services command argv list ret session).2 ↔
      everReady services command list.length session.world := by
  induction list generalizing ret session with
  | nil => exact ⟨fun occurs => absurd occurs (not_occurs_of_events rfl), by rintro ⟨⟩⟩
  | cons value rest ih =>
    unfold indexLoop
    rw [length_cons, everReady]
    dsimp only
    cases ready : handlerReady services command session.world with
    | mk flag world =>
      have inquiry : handlerReady services command
          (session.setIndex value).world = (flag, world) := ready
      have extend := invoke_extends services command argv ret (session.setIndex value)
      cases flag with
      | true =>
        have called := invoke_of_ready services command argv ret inquiry
        refine ⟨fun _ => rfl, fun _ => ?_⟩
        split
        · exact (occurs_congr rfl rfl).mp called
        · exact (occurs_congr rfl rfl).mp ((occurs_trans extend (indexLoop_extends services command
              argv rest _ _)).mpr (.inl called))
      | false =>
        rw [invoke_of_not_ready services command argv ret inquiry] at extend ⊢
        rw [if_neg (by rintro ⟨⟩)]
        exact (occurs_congr rfl rfl).trans ((occurs_trans extend
            (indexLoop_extends services command argv rest _ _)).trans
          ((or_iff_right (not_occurs_output world notReadyText)).trans (ih ret _)))

theorem runHandlers_occurs_iff (session : Session World) :
    Occurs isHandled session (runHandlers services command argv session).2 ↔
      everReady services command (max 1 session.vty.indexList.length) session.world := by
  unfold runHandlers
  by_cases single : session.vty.indexList = []
  · rw [if_pos single, single, length_nil, Nat.max_zero, everReady]
    cases ready : handlerReady services command session.world with
    | mk flag world =>
      cases flag with
      | true =>
        exact ⟨fun _ => rfl, fun _ => invoke_of_ready services command argv _ ready⟩
      | false =>
        rw [invoke_of_not_ready services command argv _ ready]
        exact ⟨fun occurs => absurd occurs (not_occurs_output world notReadyText), nofun⟩
  · rw [if_neg single, indexLoop_occurs_iff, Nat.max_eq_right (length_pos_iff.mpr single)]

end

theorem authorize_occurs {allowed : Bool}
    (run : authorize services command session = some (allowed, next)) :
    Extends session next ∧ ¬ Occurs isHandled session next ∧
      (Occurs isRefused session next ↔ allowed = false) := by
  rcases (authorize_cases run).2 with ⟨rfl, same⟩ | ⟨status, rfl, equal⟩
  · exact ⟨.of_events same, not_occurs_of_events same, fun occurs =>
      absurd occurs (not_occurs_of_events same), nofun⟩
  · rw [occurs_of_append equal, occurs_of_append equal]
    refine ⟨⟨_, equal, fun _ _ => trivial⟩, ?_, ?_⟩
    · cases refused : isRefusal status <;> simp [isHandled]
    · cases refused : isRefusal status <;> simp [isRefused, refused]

theorem runHandlers_extends (services : Services World) (command : CmdElement) (argv : List Arg)
    (session : Session World) : Extends session (runHandlers services command argv session).2 :=
  (runHandlers_adds services command argv session).mono fun _ _ => trivial

theorem runHandlers_not_refused (services : Services World) (command : CmdElement) (argv : List Arg)
    (session : Session World) :
    ¬ Occurs isRefused session (runHandlers services command argv session).2 := by
  refine not_occurs_of_adds (runHandlers_adds services command argv session) fun event call => ?_
  rcases call with ⟨_, _, rfl⟩ | ⟨_, rfl⟩ <;> rfl

/-! ## Selection -/

/-- What the executor sees: behind `do`, the rest of the line at the enable
node. -/
def seen (vline : List (Option CStr)) (session : Session World) :
    List (Option CStr) × Session World :=
  if cmdTryDoShortcut session.vty.node vline.head?.join then
    (vline.tail, (session.setIndexList []).setNode .enableNode)
  else (vline, session)

def Selects (services : Services World) (vline : List (Option CStr)) (session : Session World)
    (command : CmdElement) (argv : List Arg)
    (entered : Session World) : Prop :=
  ∃ szToken, selectCommand services.env .relaxed (seen vline session).1
      (services.commands (seen vline session).2.vty.node)
      (seen vline session).2.szToken = some (.command command argv, szToken) ∧
    entered = { (seen vline session).2 with szToken, cmd := some command }

def Refuses (services : Services World) (vline : List (Option CStr))
    (session : Session World) : Prop :=
  ∃ command argv entered after, Selects services vline session command argv entered ∧
      authorize services command entered = some (false, after)

/-- The line selects a command of the shell that is authorized and for which
the system becomes ready. -/
def Runs (services : Services World) (vline : List (Option CStr))
    (session : Session World) : Prop :=
  ∃ command argv entered after, Selects services vline session command argv entered ∧
      authorize services command entered = some (true, after) ∧
      command.daemon = 0 ∧
      everReady services command (max 1 after.vty.indexList.length) after.world

theorem Selects.unique {other : Session World} {second : CmdElement} {arguments : List Arg}
    (left : Selects services vline session command argv entered)
    (right : Selects services vline session second arguments other) :
    command = second ∧ argv = arguments ∧ entered = other := by
  obtain ⟨szToken, selected, rfl⟩ := left
  obtain ⟨otherToken, otherSelected, rfl⟩ := right
  rw [selected] at otherSelected
  cases otherSelected
  exact ⟨rfl, rfl, rfl⟩

/-! ## Attempts -/

theorem seen_events (vline : List (Option CStr)) (session : Session World) :
    (seen vline session).2.events = session.events := by
  unfold seen
  split <;> rfl

section

variable (run : cmdExecuteCommand services vline true session = some (status, next))
include run

theorem cmdExecuteCommand_seen :
    ∃ inner, cmdExecuteCommandReal services .relaxed (seen vline session).1
        (seen vline session).2 = some (status, inner) ∧
      next.events = inner.events := by
  unfold cmdExecuteCommand at run
  unfold seen
  by_cases shortcut : cmdTryDoShortcut session.vty.node vline.head?.join
  · rw [if_pos shortcut] at run ⊢
    unfold executeShortcut at run
    obtain ⟨inner, attempt, equal⟩ := Option.map_eq_some_iff.mp run
    cases equal
    exact ⟨inner.2, attempt, rfl⟩
  · rw [if_neg shortcut] at run ⊢
    cases attempt : cmdExecuteCommandReal services .relaxed vline session with
    | none =>
      rw [attempt] at run
      cases run
    | some pair =>
      rw [attempt] at run
      exact ⟨next, run, rfl⟩

theorem cmdExecuteCommand_cases :
    (next.events = session.events ∧ ∀ command argv entered,
        ¬ Selects services vline session command argv entered) ∨
      ∃ command argv entered after allowed, Selects services vline session command argv entered ∧
        authorize services command entered = some (allowed, after) ∧
        ((allowed = false ∧ status = .errNothingTodo ∧ next.events = after.events) ∨
          (allowed ∧ command.daemon ≠ 0 ∧ status = .successDaemon ∧ next.events = after.events) ∨
          (allowed ∧ command.daemon = 0 ∧ next.events =
            (runHandlers services command argv after).2.events)) := by
  obtain ⟨inner, attempt, same⟩ := cmdExecuteCommand_seen run
  rw [same]
  unfold cmdExecuteCommandReal at attempt
  split at attempt
  · cases attempt
  · rename_i refusal szToken selected
    cases attempt
    refine .inl ⟨seen_events vline session, ?_⟩
    rintro command argv entered ⟨_, other, _⟩
    rw [selected] at other
    cases other
  · rename_i command argv szToken selected
    split at attempt
    · refine .inr ⟨command, argv, { (seen vline session).2 with szToken, cmd := some command }, ?_⟩
      unfold dispatch at attempt
      split at attempt
      · cases attempt
      · rename_i after authorized
        cases attempt
        exact ⟨_, false, ⟨szToken, selected, rfl⟩, authorized, .inl ⟨rfl, rfl, rfl⟩⟩
      · rename_i after authorized
        refine ⟨after, true, ⟨szToken, selected, rfl⟩, authorized, .inr ?_⟩
        split at attempt
        · rename_i daemon
          cases attempt
          exact .inl ⟨rfl, daemon, rfl, rfl⟩
        · rename_i own
          refine .inr ⟨rfl, not_not.mp own, ?_⟩
          rw [Option.some.inj attempt]
    · cases attempt

end

theorem Selects.events (selects : Selects services vline session command argv entered) :
    entered.events = session.events := by
  obtain ⟨_, _, rfl⟩ := selects
  exact seen_events vline session

section

variable {allowed : Bool}
  (selects : Selects services vline session command argv entered)
  (authorized : authorize services command entered = some (allowed, after))

include selects authorized

theorem refuses_iff : Refuses services vline session ↔ allowed = false := by
  constructor
  · rintro ⟨_, _, _, _, chosen, refused⟩
    obtain ⟨rfl, _, rfl⟩ := selects.unique chosen
    rw [authorized] at refused
    cases refused
    rfl
  · rintro rfl
    exact ⟨command, argv, entered, after, selects, authorized⟩

theorem runs_iff : Runs services vline session ↔ allowed ∧ command.daemon = 0 ∧
      everReady services command (max 1 after.vty.indexList.length) after.world := by
  constructor
  · rintro ⟨_, _, _, _, chosen, granted, own, ready⟩
    obtain ⟨rfl, _, rfl⟩ := selects.unique chosen
    rw [authorized] at granted
    cases granted
    exact ⟨rfl, own, ready⟩
  · rintro ⟨rfl, own, ready⟩
    exact ⟨command, argv, entered, after, selects, authorized, own, ready⟩

end

section

variable
  (run : cmdExecuteCommand services vline true session = some (status, next))

include run

/-- An attempt only adds events, refuses the command exactly if the
authorization does and calls its handler exactly if nothing is in the way. -/
theorem attempt_occurs : Extends session next ∧
      (Occurs isRefused session next ↔ Refuses services vline session) ∧
      (Occurs isHandled session next ↔ Runs services vline session) := by
  rcases cmdExecuteCommand_cases run with ⟨same, none⟩ |
    ⟨command, argv, entered, after, allowed, selects, authorized, outcome⟩
  · refine ⟨.of_events same, ?_, ?_⟩
    · refine iff_of_false (not_occurs_of_events same) ?_
      rintro ⟨_, _, _, _, selects, _⟩
      exact none _ _ _ selects
    · refine iff_of_false (not_occurs_of_events same) ?_
      rintro ⟨_, _, _, _, selects, _⟩
      exact none _ _ _ selects
  · rw [refuses_iff selects authorized, runs_iff selects authorized]
    obtain ⟨extend, quiet, refused⟩ := authorize_occurs authorized
    have starts := selects.events.symm
    rcases outcome with ⟨rfl, _, results⟩ | ⟨rfl, daemon, _, results⟩ | ⟨rfl, own, results⟩
    · rw [occurs_congr starts results, occurs_congr starts results]
      exact ⟨extend.congr starts results, refused, iff_of_false quiet nofun⟩
    · rw [occurs_congr starts results, occurs_congr starts results]
      exact ⟨extend.congr starts results, refused, iff_of_false quiet fun runs => daemon runs.2.1⟩
    · have more := runHandlers_extends services command argv after
      rw [occurs_congr starts results, occurs_congr starts results, occurs_trans extend more,
        occurs_trans extend more,
        runHandlers_occurs_iff, refused]
      refine ⟨Extends.congr (Adds.trans extend more) starts results, ?_, ?_⟩
      · exact or_iff_left (runHandlers_not_refused services command argv after)
      · exact (or_iff_right quiet).trans ⟨fun ready => ⟨rfl, own, ready⟩, fun runs => runs.2.2⟩

/-- A refusal is reported as a status that lets the walk go on. -/
theorem status_of_refuses (refuses : Refuses services vline session) :
    status = .errNothingTodo := by
  obtain ⟨_, _, _, _, selects, refused⟩ := refuses
  rcases cmdExecuteCommand_cases run with ⟨_, none⟩ |
    ⟨_, _, _, _, allowed, chosen, authorized, outcome⟩
  · exact absurd selects (none _ _ _)
  · obtain ⟨rfl, _, rfl⟩ := selects.unique chosen
    rw [refused] at authorized
    cases authorized
    rcases outcome with ⟨_, nothing, _⟩ | ⟨contra, _⟩ | ⟨contra, _⟩
    · exact nothing
    · cases contra
    · cases contra

end

end OpsCli.Command.Attempt
