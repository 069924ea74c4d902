import OpsCli.Command.Survival
import OpsCli.Command.Trace

/-!
# Preconditions and postconditions of the executor

An assertion speaks about the node of the terminal and about the world.  The
rules below carry assertions through the authorization, the calls of a handler
and one attempt to execute a line; a handler only has to be looked at for the
commands of the node at which the line is tried.
-/

namespace OpsCli.Command.Preservation

open CLib.CString Token WordMatch Matcher Selection Survival Execute Trace

variable {World : Type}

/-- A statement about the node of the terminal and the world. -/
abbrev Assertion (World : Type) := NodeType → World → Prop

def Meets (holds : Assertion World) (session : Session World) : Prop :=
  holds session.vty.node session.world

/-- Neither the test of the database nor the authorization servers affect the
assertion. -/
structure Ambient (services : Services World) (holds : Assertion World) : Prop where
  ready : ∀ node world, holds node world → holds node (services.systemReady world).2
  asked : ∀ node world contacts, holds node world → holds node (services.asked world contacts)

/-- The assertion about the status holds of what has been returned. -/
def Yields (post : CmdStatus → Assertion World) (result : CmdStatus × Session World) : Prop :=
  Meets (post result.1) result.2

/-- What a call of the handler makes of an assertion. -/
def CallYields (services : Services World) (command : CmdElement) (argv : List Arg)
    (pre : Assertion World) (post : CmdStatus → Assertion World) : Prop :=
  ∀ vty world, pre vty.node world → post (services.handler command argv vty world).1
    (services.handler command argv vty world).2.1.node
    (services.handler command argv vty world).2.2

section

variable {services : Services World} {pre : Assertion World} {post : CmdStatus → Assertion World}

/-! ## Authorization -/

variable {command : CmdElement} {session next : Session World} {filter : FilterType}
  {vline : List (Option CStr)} {argv : List Arg}
  {status : CmdStatus}

theorem meets_authorize (ambient : Ambient services pre) {allowed : Bool}
    (run : authorize services command session = some (allowed, next)) (start : Meets pre session) :
    Meets pre next := by
  have kept := ambient.ready session.vty.node session.world start
  unfold authorize at run
  split at run
  · cases run
    exact start
  split at run
  · rename_i world ready
    cases run
    rw [ready] at kept
    exact kept
  · rename_i world ready
    rw [ready] at kept
    split at run
    · cases run
    · rename_i answer _
      cases run
      have heard := ambient.asked _ _ answer.contacts kept
      unfold noteAuthorization
      split <;> exact heard

/-! ## Handlers -/

theorem handlerReady_meets (ambient : Ambient services pre) (command : CmdElement) {node : NodeType}
    {world : World} (start : pre node world) :
    pre node (handlerReady services command world).2 := by
  unfold handlerReady
  split
  · exact start
  · exact ambient.ready node world start

theorem invoke_meets (ambient : Ambient services pre) (command : CmdElement) (argv : List Arg)
    (ret : CmdStatus) (idle : ∀ node world, pre node world → post ret node world)
    (call : CallYields services command argv pre post)
    {session : Session World} (start : Meets pre session) :
    Yields post (invoke services command argv ret session) := by
  have kept := handlerReady_meets ambient command start
  unfold invoke
  split
  · rename_i world ready
    rw [ready] at kept
    exact idle _ _ kept
  · rename_i world ready
    rw [ready] at kept
    exact call session.vty world kept

section

variable (ambient : ∀ ret, Ambient services (post ret)) (command : CmdElement) (argv : List Arg)
  (call : ∀ ret, CallYields services command argv (post ret) post)
include ambient call

theorem indexLoop_meets (list : List CStr) {ret : CmdStatus} (start : Meets (post ret) session) :
    Yields post (indexLoop services command argv list ret session) := by
  induction list generalizing ret session with
  | nil => exact start
  | cons value rest ih =>
    have step := invoke_meets (ambient ret) command argv ret (fun _ _ holds => holds) (call ret)
      (show Meets (post ret) (session.setIndex value) from start)
    unfold indexLoop
    dsimp only
    split
    · exact step
    · exact ih step

theorem runHandlers_meets (start : Meets (post .success) session) :
    Yields post (runHandlers services command argv session) := by
  unfold runHandlers
  split
  · exact invoke_meets (ambient .success) command argv .success
      (fun _ _ holds => holds) (call .success) start
  · exact indexLoop_meets ambient command argv call _ start

end

/-! ## Attempts -/

theorem mem_of_selectCommand {env : MatchEnv} {table : List CmdElement} {szToken after : CStr}
    (run : selectCommand env filter vline table szToken =
      some (.command command argv, after)) : command ∈ table := by
  obtain ⟨left, filtered, member⟩ := (selectCommand_command run).1
  obtain ⟨position, found⟩ := List.mem_iff_getElem?.mp member
  have listed := List.mem_of_getElem? (filterRun_position filtered found)
  obtain ⟨element, member, same⟩ := List.mem_map.mp listed
  cases same
  exact member

section

variable (ambient : Ambient services pre)
  (idle : ∀ status node world, pre node world → post status node world)
include ambient idle

theorem dispatch_meets
    (handlers : ∀ middle : Session World, middle.vty = session.vty → Meets pre middle →
      Yields post (runHandlers services command argv middle)) (start : Meets pre session)
    (run : dispatch services command argv session = some (status, next)) :
    Meets (post status) next := by
  unfold dispatch at run
  split at run
  · cases run
  · rename_i authorized
    cases run
    exact idle _ _ _ (meets_authorize ambient authorized start)
  · rename_i middle authorized
    have kept := meets_authorize ambient authorized start
    split at run
    · cases run
      exact idle _ _ _ kept
    · have result := handlers middle (authorize_cases authorized).1 kept
      rw [Option.some.inj run] at result
      exact result

/-- One attempt to execute a line: it does nothing besides running the handler
of a command of the node. -/
theorem cmdExecuteCommandReal_meets
    (handlers : ∀ command ∈ services.commands session.vty.node,
      ∀ (argv : List Arg) (middle : Session World), middle.vty = session.vty → Meets pre middle →
        Yields post (runHandlers services command argv middle)) (start : Meets pre session)
    (run : cmdExecuteCommandReal services filter vline session = some (status, next)) :
    Meets (post status) next := by
  unfold cmdExecuteCommandReal at run
  split at run
  · cases run
  · cases run
    exact idle _ _ _ start
  · rename_i command argv szToken selected
    split at run
    · refine dispatch_meets ambient idle ?_ ?_ run
      · exact handlers command (mem_of_selectCommand selected) argv
      · exact start
    · cases run

end

end

end OpsCli.Command.Preservation
