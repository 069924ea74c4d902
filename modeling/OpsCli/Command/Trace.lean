import OpsCli.Command.Execute

/-!
# The events of an attempt

An attempt to execute a line adds events to the trace: at most one
authorization, and behind it the calls of the handler of the same command.
-/

namespace OpsCli.Command.Trace

open CLib.CString Token Matcher Selection Execute List

variable {World : Type}

/-! ## Added events -/

def eventsSince (before after : Session World) : List Event :=
  after.events.drop before.events.length

/-- The later session only adds events of this kind. -/
def Adds (kind : Event → Prop) (before after : Session World) : Prop :=
  ∃ added, after.events = before.events ++ added ∧ ∀ event ∈ added, kind event

variable {kind : Event → Prop} {before after session next : Session World}
  {services : Services World} {ret : CmdStatus} {vline : List (Option CStr)} {command : CmdElement}
  {filter : FilterType} {argv : List Arg} {event : Event}

theorem Adds.refl (session : Session World) : Adds kind session session :=
  ⟨[], (append_nil _).symm, nofun⟩

theorem Adds.of_events (same : after.events = before.events) : Adds kind before after :=
  ⟨[], by rw [same, append_nil], nofun⟩

theorem Adds.trans {first second third : Session World} (left : Adds kind first second)
    (right : Adds kind second third) : Adds kind first third := by
  obtain ⟨added, equal, each⟩ := left
  obtain ⟨more, moreEqual, moreEach⟩ := right
  refine ⟨added ++ more, ?_, fun event member => ?_⟩
  · rw [moreEqual, equal, append_assoc]
  · exact (mem_append.mp member).elim (each event) (moreEach event)

theorem Adds.mono {other : Event → Prop} (adds : Adds kind before after)
    (implies : ∀ event, kind event → other event) : Adds other before after := by
  obtain ⟨added, equal, each⟩ := adds
  exact ⟨added, equal, fun event member => implies event (each event member)⟩

theorem adds_happens (session : Session World) (world : World) (holds : kind event) :
    Adds kind session (session.happens world event) :=
  ⟨[event], rfl, fun _ member => mem_singleton.mp member ▸ holds⟩

theorem Adds.eventsSince (adds : Adds kind before after)
    (member : event ∈ eventsSince before after) : kind event := by
  obtain ⟨added, equal, each⟩ := adds
  rw [Trace.eventsSince, equal, drop_left] at member
  exact each event member

/-! ## Handlers -/

/-- The event is a call of the handler of this command with these arguments,
or a message. -/
def IsCall (command : CmdElement) (argv : List Arg) (event : Event) : Prop :=
  (∃ index status, event = .handler command argv index status) ∨ ∃ text, event = .output text

section

variable (services : Services World) (command : CmdElement) (argv : List Arg)

theorem invoke_adds (ret : CmdStatus) (session : Session World) : Adds (IsCall command argv) session
      (invoke services command argv ret session).2 := by
  unfold invoke
  split
  · rename_i world _
    exact adds_happens session world (.inr ⟨_, rfl⟩)
  · exact ⟨[_], rfl, fun _ member => .inl ⟨_, _, mem_singleton.mp member⟩⟩

theorem indexLoop_adds (list : List CStr) (ret : CmdStatus) (session : Session World) :
    Adds (IsCall command argv) session (indexLoop services command argv list ret session).2 := by
  induction list generalizing ret session with
  | nil => exact .refl session
  | cons value rest ih =>
    have step := invoke_adds services command argv ret (session.setIndex value)
    unfold indexLoop
    dsimp only
    split
    · exact step
    · exact step.trans (ih _ _)

theorem runHandlers_adds (session : Session World) : Adds (IsCall command argv) session
      (runHandlers services command argv session).2 := by
  unfold runHandlers
  split
  · exact invoke_adds services command argv _ _
  · exact indexLoop_adds services command argv _ _ _

end

/-! ## The status of handlers -/

section

variable {bad : CmdStatus} (handlers : ∀ command argv vty world,
    (services.handler command argv vty world).1 ≠ bad)
  (command : CmdElement) (argv : List Arg)

include handlers

theorem invoke_status_ne (good : ret ≠ bad) (session : Session World) :
    (invoke services command argv ret session).1 ≠ bad := by
  unfold invoke
  split
  · exact good
  · exact handlers command argv session.vty _

theorem indexLoop_status_ne (list : List CStr) (good : ret ≠ bad) (session : Session World) :
    (indexLoop services command argv list ret session).1 ≠ bad := by
  induction list generalizing ret session with
  | nil => exact good
  | cons value rest ih =>
    have step := invoke_status_ne handlers command argv good (session.setIndex value)
    unfold indexLoop
    dsimp only
    split
    · exact step
    · exact ih step _

theorem runHandlers_status_ne (good : CmdStatus.success ≠ bad) (session : Session World) :
    (runHandlers services command argv session).1 ≠ bad := by
  unfold runHandlers
  split
  · exact invoke_status_ne handlers command argv good session
  · exact indexLoop_status_ne handlers command argv _ good session

end

/-! ## Dispatch -/

theorem authorize_cases {allowed : Bool}
    (run : authorize services command session = some (allowed, next)) :
    next.vty = session.vty ∧ ((allowed ∧ next.events = session.events) ∨
        ∃ status, allowed = !isRefusal status ∧
          next.events = session.events ++ .authorization command status ::
            if isRefusal status then [.output (refusalText status)]
            else []) := by
  unfold authorize at run
  split at run
  · cases run
    exact ⟨rfl, .inl ⟨rfl, rfl⟩⟩
  split at run
  · cases run
    exact ⟨rfl, .inl ⟨rfl, rfl⟩⟩
  split at run
  · cases run
  · rename_i answer _
    cases run
    unfold noteAuthorization
    by_cases refused : isRefusal answer.status
    · rw [if_pos refused]
      refine ⟨rfl, .inr ⟨answer.status, rfl, ?_⟩⟩
      rw [if_pos refused]
      exact append_assoc _ _ _
    · rw [if_neg refused]
      refine ⟨rfl, .inr ⟨answer.status, rfl, ?_⟩⟩
      rw [if_neg refused]
      rfl

/-- If no handler says that a line is ambiguous, only the selection does. -/
theorem cmdExecuteCommandReal_ambiguous {status : CmdStatus}
    (handlers : ∀ command argv vty world,
      (services.handler command argv vty world).1 ≠ .errAmbiguous)
    (run : cmdExecuteCommandReal services filter vline session = some (status, next)) :
    ∃ selected after, selectCommand services.env filter vline
        (services.commands session.vty.node) session.szToken = some (selected, after) ∧
      (status = .errAmbiguous ↔ selected = .refused .errAmbiguous) := by
  unfold cmdExecuteCommandReal at run
  split at run
  · cases run
  · rename_i refused szToken selected
    cases run
    refine ⟨_, _, selected, ?_⟩
    rw [Selected.refused.injEq]
  · rename_i command argv szToken selected
    refine ⟨_, _, selected, ?_⟩
    split at run
    · have different : status ≠ .errAmbiguous := by
        unfold dispatch at run
        split at run
        · cases run
        · cases run
          exact nofun
        · split at run
          · cases run
            exact nofun
          · rename_i middle _ _
            have same : (runHandlers services command argv middle).1 =
                status := congrArg Prod.fst (Option.some.inj run)
            rw [← same]
            exact runHandlers_status_ne handlers command argv nofun middle
      exact ⟨fun same => absurd same different, nofun⟩
    · cases run

/-- The event is about the selected command. -/
def Concerns (command : CmdElement) (argv : List Arg) (event : Event) : Prop :=
  (∃ status, event = .authorization command status) ∨ IsCall command argv event

theorem dispatch_adds (run : dispatch services command argv session = some (ret, next)) :
    Adds (Concerns command argv) session next := by
  unfold dispatch at run
  have first {allowed : Bool} {middle : Session World}
      (authorized : authorize services command session = some (allowed, middle)) :
      Adds (Concerns command argv) session middle := by
    rcases (authorize_cases authorized).2 with ⟨_, same⟩ | ⟨status, _, equal⟩
    · exact .of_events same
    · refine ⟨_, equal, fun event member => ?_⟩
      rcases mem_cons.mp member with same | message
      · exact .inl ⟨status, same⟩
      · split at message
        · exact .inr (.inr ⟨_, mem_singleton.mp message⟩)
        · cases message
  split at run
  · cases run
  · rename_i authorized
    cases run
    exact first authorized
  · rename_i middle authorized
    split at run
    · cases run
      exact first authorized
    · have next_eq := congrArg Prod.snd (Option.some.inj run)
      have calls := (runHandlers_adds services command argv middle).mono
        fun event call => (.inr call : Concerns command argv event)
      rw [next_eq] at calls
      exact (first authorized).trans calls

section

variable (run : cmdExecuteCommandReal services filter vline session = some (ret, next))
include run

theorem cmdExecuteCommandReal_adds :
    Adds (fun event => ∃ command argv szToken, selectCommand services.env filter vline
          (services.commands session.vty.node) session.szToken =
        some (.command command argv, szToken) ∧
      Concerns command argv event) session next := by
  unfold cmdExecuteCommandReal at run
  split at run
  · cases run
  · cases run
    exact .of_events rfl
  · rename_i command argv szToken selected
    split at run
    · obtain ⟨added, equal, each⟩ := dispatch_adds run
      exact ⟨added, equal, fun event member =>
        ⟨command, argv, szToken, selected, each event member⟩⟩
    · cases run

/-- A handler that is called belongs to the command that the line selects. -/
theorem selected_of_called {result : CmdStatus} {index : Option CStr}
    (called : Event.handler command argv index result ∈ eventsSince session next) :
    ∃ szToken, selectCommand services.env filter vline (services.commands session.vty.node)
      session.szToken = some (.command command argv, szToken) := by
  obtain ⟨found, foundArgv, szToken, selected, concerns⟩ :=
    (cmdExecuteCommandReal_adds run).eventsSince called
  rcases concerns with ⟨_, other⟩ | ⟨_, _, same⟩ | ⟨_, other⟩
  · cases other
  · cases same
    exact ⟨szToken, selected⟩
  · cases other

end

end OpsCli.Command.Trace
