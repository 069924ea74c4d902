import OpsCli.Command.Preservation
import OpsCli.Vty.Session

/-!
# The mode of a session and the lock

A session that configures has its flag set, and the shared flag with it; one
that does not has its flag cleared.  Every handler of the library keeps this
agreement wherever it is called from, and so does the execution of a line with
its shortcut, its walk to the parents and its calls for an index list.
-/

namespace OpsCli.Vty.Mode

open CLib.CString
open OpsCli.Command.Token hiding Terminal
open Command.Matcher Command.Selection
open OpsCli.Command.Execute hiding Event
open Command.Preservation Session

variable {Rest : Type}

/-! ## Agreement -/

/-- How a session stands to the lock.  If another session holds it, this one
does not configure; otherwise the shared flag is the flag of this session, and
it is set in the configuration nodes only. -/
structure Agrees (taken : Bool) (node : NodeType) (vtyConfig config : Nat) : Prop where
  mode : inConfig node ↔ config = 1
  lock : vtyConfig = if taken then 1 else config
  range : config = 0 ∨ config = 1
  apart : taken → config = 0

/-- The session and the shared flag agree in these surroundings. -/
abbrev AgreesIn (taken : Bool) (node : NodeType) (world : Surroundings Rest) : Prop :=
  Agrees taken node world.vtyConfig world.config

namespace Agrees

variable {taken : Bool} {node target : NodeType} {vtyConfig config : Nat}

section

variable (agrees : Agrees taken node vtyConfig config)
include agrees

theorem move (same : inConfig target = inConfig node) : Agrees taken target vtyConfig config :=
  ⟨by rw [same]; exact agrees.mode, agrees.lock, agrees.range, agrees.apart⟩

theorem config_eq_one (inside : inConfig node) : config = 1 :=
  agrees.mode.mp inside

theorem not_taken (inside : inConfig node) : taken = false := by
  cases taken with
  | false => rfl
  | true => exact absurd (agrees.apart rfl) (by simp [agrees.mode.mp inside])

theorem vtyConfig_eq_one (inside : inConfig node) : vtyConfig = 1 := by
  rw [agrees.lock, agrees.not_taken inside]
  exact agrees.config_eq_one inside

end

end Agrees

/-! ## The lock operations -/

variable {taken : Bool} {world : Surroundings Rest} {vty : Vty} {routine : Routine Rest}
  {before : Nat} {node : NodeType} {command : CmdElement} {config : Nat} {status : CmdStatus}

theorem agrees_unlock {target : NodeType} (agrees : AgreesIn taken node world)
    (inside : inConfig node) (outside : inConfig target = false) :
    AgreesIn taken target (vtyConfigUnlock world) := by
  have one := agrees.config_eq_one inside
  have locked := agrees.vtyConfig_eq_one inside
  have own := agrees.not_taken inside
  unfold vtyConfigUnlock
  rw [if_pos ⟨locked, one⟩, own]
  exact ⟨by simp [outside], rfl, .inl rfl, nofun⟩

theorem agrees_configTerminal (agrees : AgreesIn taken vty.node world) :
    AgreesIn taken (configTerminal vty world).2.1.node (configTerminal vty world).2.2 := by
  obtain ⟨vtyConfig, config, status, type, rest⟩ := world
  have lock : vtyConfig = if taken then 1 else config := agrees.lock
  rcases agrees.range with zero | one
  · obtain rfl : config = 0 := zero
    cases taken with
    | true =>
      subst lock
      exact agrees
    | false =>
      subst lock
      exact ⟨⟨fun _ => rfl, fun _ => rfl⟩, rfl, .inr rfl, nofun⟩
  · obtain rfl : config = 1 := one
    cases taken with
    | true => cases agrees.apart rfl
    | false =>
      subst lock
      exact ⟨⟨fun _ => rfl, fun _ => rfl⟩, rfl, .inr rfl, nofun⟩

/-! ## Handlers -/

theorem exitNode_cases (node : NodeType) (world : Surroundings Rest) : (node = .configNode ∧
      exitNode node world = (.enableNode, vtyConfigUnlock world)) ∨
    (inConfig (exitNode node world).1 = inConfig node ∧
      (exitNode node world).2.vtyConfig = world.vtyConfig ∧
      (exitNode node world).2.config = world.config) := by
  by_cases top : node = .configNode
  · subst top
    exact .inl ⟨rfl, rfl⟩
  · refine .inr ?_
    cases node <;> first | exact absurd rfl top | exact ⟨rfl, rfl, rfl⟩

theorem agrees_configExit (agrees : AgreesIn taken vty.node world) :
    AgreesIn taken (configExit vty world).2.1.node (configExit vty world).2.2 := by
  unfold configExit
  rcases exitNode_cases vty.node world with
    ⟨top, exits⟩ | ⟨mode, flag, config⟩
  · rw [exits]
    rw [top] at agrees
    exact agrees_unlock agrees rfl rfl
  · have moved := agrees.move mode
    unfold AgreesIn
    rw [flag, config]
    exact moved

/-- Every listed node is a configuration node. -/
def Inside (listed : List NodeType) : Prop :=
  ∀ node ∈ listed, inConfig node

theorem agrees_leaveConfig {listed : List NodeType} (inside : Inside listed)
    (agrees : AgreesIn taken vty.node world) :
    AgreesIn taken (leaveConfig listed vty world).1.node (leaveConfig listed vty world).2 := by
  unfold leaveConfig
  split
  · rename_i member
    exact agrees_unlock agrees (inside _ member) rfl
  · exact agrees

theorem inside_configEndNodes : Inside configEndNodes := by
  unfold Inside
  decide

theorem inside_vtyEndConfigNodes : Inside vtyEndConfigNodes := by
  unfold Inside
  decide

theorem inside_vtyStopInputNodes : Inside vtyStopInputNodes := by
  unfold Inside
  decide

section

variable (agrees : AgreesIn taken vty.node world)
include agrees

theorem agrees_configEnd :
    AgreesIn taken (configEnd vty world).2.1.node (configEnd vty world).2.2 :=
  agrees_leaveConfig inside_configEndNodes agrees

theorem agrees_enable (access : Access) (outside : inConfig vty.node = false) :
    inConfig (enable access vty world).2.1.node = false ∧
      AgreesIn taken (enable access vty world).2.1.node (enable access vty world).2.2 := by
  unfold enable
  split
  · exact ⟨rfl, agrees.move outside.symm⟩
  · exact ⟨rfl, agrees.move outside.symm⟩

theorem agrees_disable :
    AgreesIn taken (disable vty world).2.1.node (disable vty world).2.2 := by
  unfold disable
  split
  · rename_i top
    exact agrees.move (by rw [top]; rfl)
  · exact agrees

theorem agrees_work (task : Work Rest) (access : Rest → Access) (argv : List Arg) :
    AgreesIn taken ((Routine.work task).run access argv vty world).2.1.node
      ((Routine.work task).run access argv vty world).2.2 := by
  rcases task.moves argv vty world.rest with stays | ⟨inside, still⟩
  · exact agrees.move (congrArg inConfig stays)
  · exact agrees.move (still.trans inside.symm)

end

/-! ## Routines -/

/-- `enable` is called outside the configuration nodes only. -/
def Fits (routine : Routine Rest) (node : NodeType) : Prop :=
  routine = .enable → inConfig node = false

theorem fits_of_installed {daemon : Daemon Rest} (member : command ∈ daemon.commands node) :
    Fits (daemon.routine command) node := by
  intro enables
  rcases daemon.enable_installed node command member enables with
    view | restricted
  · rw [view]
    rfl
  · rw [restricted]
    rfl

theorem run_agrees (access : Rest → Access) (argv : List Arg) (fits : Fits routine vty.node)
    (agrees : AgreesIn taken vty.node world) :
    Fits routine (routine.run access argv vty world).2.1.node ∧
      AgreesIn taken (routine.run access argv vty world).2.1.node
        (routine.run access argv vty world).2.2 := by
  cases routine with
  | configTerminal => exact ⟨nofun, agrees_configTerminal agrees⟩
  | enable =>
    obtain ⟨outside, kept⟩ := agrees_enable agrees (access world.rest) (fits rfl)
    exact ⟨fun _ => outside, kept⟩
  | disable => exact ⟨nofun, agrees_disable agrees⟩
  | configExit => exact ⟨nofun, agrees_configExit agrees⟩
  | configEnd => exact ⟨nofun, agrees_configEnd agrees⟩
  | work task => exact ⟨nofun, agrees_work agrees task access argv⟩

/-- The statuses at which the executor does not go on to the parents. -/
def Finished (status : CmdStatus) : Prop :=
  status = .success ∨ status = .warning

/-- Handlers that touch the mode of the session finish the line; the others
leave the flag of the session alone. -/
def Outcome (routine : Routine Rest) (before : Nat) (status : CmdStatus) (config : Nat) : Prop :=
  match routine with
  | .work _ => config = before
  | _ => Finished status

theorem Outcome.finished_or (outcome : Outcome routine before status config) :
    Finished status ∨ config = before := by
  cases routine with
  | work task => exact .inr outcome
  | configTerminal | enable | disable | configExit | configEnd =>
    exact .inl outcome

theorem outcome_start (same : config = before) : Outcome routine before .success config := by
  cases routine with
  | work task => exact same
  | configTerminal | enable | disable | configExit | configEnd => exact .inl rfl

theorem run_outcome (access : Rest → Access) (argv : List Arg)
    (outcome : Outcome routine before status world.config) :
    Outcome routine before (routine.run access argv vty world).1
      (routine.run access argv vty world).2.2.config := by
  cases routine with
  | work task => exact outcome
  | configTerminal =>
    rw [Routine.run, configTerminal]
    split
    · exact .inr rfl
    · exact .inl rfl
  | enable =>
    rw [Routine.run, enable]
    split
    · exact .inl rfl
    · exact .inl rfl
  | disable =>
    rw [Routine.run, disable]
    split
    · exact .inl rfl
    · exact .inl rfl
  | configExit => exact .inl rfl
  | configEnd => exact .inl rfl

/-- At the enable node, no call gives up a lock that the session holds. -/
theorem run_at_enable (access : Rest → Access) (routine : Routine Rest) (argv : List Arg)
    (top : vty.node = .enableNode) (locked : world.vtyConfig = 1) (one : world.config = 1) :
    (routine.run access argv vty world).2.2.vtyConfig = 1 ∧
      (routine.run access argv vty world).2.2.config = 1 := by
  obtain ⟨node, index, indexList⟩ := vty
  obtain ⟨vtyConfig, config, status, type, rest⟩ := world
  cases top
  cases locked
  cases one
  cases routine with
  | configTerminal | disable | configExit | configEnd | work task =>
    exact ⟨rfl, rfl⟩
  | enable =>
    rw [Routine.run, enable]
    split
    · exact ⟨rfl, rfl⟩
    · exact ⟨rfl, rfl⟩

/-! ## Attempts -/

/-- After an attempt, either the line was executed or the flag of the session
is what it was. -/
def Attempted (taken : Bool) (config : Nat) (status : CmdStatus) (node : NodeType)
    (world : Surroundings Rest) : Prop :=
  AgreesIn taken node world ∧ (Finished status ∨ world.config = config)

section

variable (daemon : Daemon Rest)

theorem ambient_flags (holds : NodeType → Nat → Nat → Prop) : Ambient daemon.services
      fun node world => holds node world.vtyConfig world.config :=
  ⟨fun _ _ held => held, fun _ _ _ held => held⟩

variable {daemon} {session next : Session (Surroundings Rest)} {vline : List (Option CStr)}
  {argv : List Arg}

theorem runHandlers_attempted (member : command ∈ daemon.commands session.vty.node)
    (agrees : AgreesIn taken session.vty.node session.world)
    (same : session.world.config = config) :
    Yields (Attempted taken config) (runHandlers daemon.services command argv session) := by
  have result := runHandlers_meets (fun status => ambient_flags daemon fun node vtyConfig flag =>
      (Fits (daemon.routine command) node ∧ Agrees taken node vtyConfig flag) ∧
      Outcome (daemon.routine command) config status flag)
    command argv
    (fun _ vty world held =>
      ⟨run_agrees daemon.access argv held.1.1 held.1.2, run_outcome daemon.access argv held.2⟩)
    ⟨⟨fits_of_installed member, agrees⟩, outcome_start same⟩
  exact ⟨result.1.2, result.2.finished_or⟩

theorem cmdExecuteCommandReal_attempted {filter : FilterType}
    (agrees : AgreesIn taken session.vty.node session.world)
    (run : cmdExecuteCommandReal daemon.services filter vline session = some (status, next)) :
    Meets (Attempted taken session.world.config status) next := by
  refine cmdExecuteCommandReal_meets (ambient_flags daemon fun node vtyConfig config =>
      Agrees taken node vtyConfig config ∧ config = session.world.config)
    (fun _ _ _ held => ⟨held.1, .inr held.2⟩) ?_ ⟨agrees, rfl⟩ run
  intro command member argv middle vty held
  rw [← vty] at member
  exact runHandlers_attempted member held.1 held.2

theorem runHandlers_at_enable {index : Option CStr} (place : session.vty = ⟨.enableNode, index, []⟩)
    (locked : session.world.vtyConfig = 1 ∧ session.world.config = 1) :
    Meets (fun _ world => world.vtyConfig = 1 ∧ world.config = 1)
      (runHandlers daemon.services command argv session).2 := by
  have top : session.vty.node = .enableNode := congrArg Vty.node place
  have single : session.vty.indexList = [] := congrArg Vty.indexList place
  unfold runHandlers
  rw [if_pos single]
  refine @invoke_meets _ _ _ (fun _ _ world => world.vtyConfig = 1 ∧ world.config = 1)
    (ambient_flags daemon fun node vtyConfig config =>
      node = .enableNode ∧ vtyConfig = 1 ∧ config = 1)
    command argv .success (fun _ _ held => held.2) ?_ _ ⟨top, locked⟩
  intro vty world held
  exact run_at_enable daemon.access _ argv held.1 held.2.1 held.2.2

/-- Behind `do`, a handler runs once and at the enable node, where none of
them gives up a lock. -/
theorem executeShortcut_flags (locked : session.world.vtyConfig = 1)
    (one : session.world.config = 1)
    (run : executeShortcut daemon.services vline session = some (status, next)) :
    next.vty.node = session.vty.node ∧ next.world.vtyConfig = 1 ∧ next.world.config = 1 := by
  unfold executeShortcut at run
  obtain ⟨⟨ret, done⟩, attempt, equal⟩ := Option.map_eq_some_iff.mp run
  cases equal
  have flags : Meets (fun _ (world : Surroundings Rest) =>
      world.vtyConfig = 1 ∧ world.config = 1) done := by
    refine cmdExecuteCommandReal_meets (ambient_flags daemon fun _ vtyConfig config =>
        vtyConfig = 1 ∧ config = 1)
      (fun _ _ _ held => held) ?_ ?_ attempt
    · intro command member argv middle vty held
      exact runHandlers_at_enable vty held
    · exact ⟨locked, one⟩
  exact ⟨rfl, flags⟩

/-! ## Lines -/

theorem inConfig_of_belowConfig (below : belowConfig node) : inConfig node :=
  decide_eq_true (Nat.le_of_lt (of_decide_eq_true below))

theorem inConfig_nodeParent (node : NodeType) : inConfig (nodeParent node) := by
  cases node <;> rfl

theorem inside_ancestors (node : NodeType) : Inside (ancestors node) := by
  intro other member
  unfold ancestors at member
  split at member
  · split at member
    · rcases List.mem_pair.mp member with rfl | rfl
      · exact inConfig_nodeParent node
      · exact inConfig_nodeParent (nodeParent node)
    · cases List.mem_singleton.mp member
      exact inConfig_nodeParent node
  · cases member

theorem inConfig_of_shortcut {firstWord : Option CStr}
    (shortcut : cmdTryDoShortcut node firstWord) : inConfig node := by
  cases node <;> first | rfl | cases shortcut

/-- The walk to the parents stays in the configuration nodes until a line is
executed. -/
theorem parentLoop_agrees {savedRet ret : CmdStatus} {onode : NodeType} {nodes : List NodeType}
    (home : inConfig onode) (inside : Inside nodes)
    (agrees : AgreesIn taken session.vty.node session.world) (one : session.world.config = 1)
    (run : parentLoop daemon.services vline savedRet onode nodes ret
      session = some (status, next)) : AgreesIn taken next.vty.node next.world := by
  have within {node : NodeType} (mode : inConfig node) : AgreesIn taken node session.world :=
    agrees.move (mode.trans (agrees.mode.mpr one).symm)
  induction nodes generalizing ret session with
  | nil =>
    rw [parentLoop] at run
    split at run
    · cases run
      exact within home
    · cases run
  | cons node rest ih =>
    rw [parentLoop] at run
    split at run
    · cases run
      exact within home
    · split at run
      · cases run
      · rename_i ret after attempt
        have attempted := cmdExecuteCommandReal_attempted
          (show AgreesIn taken (session.setNode node).vty.node (session.setNode node).world from
            within (inside node List.mem_cons_self)) attempt
        split at run
        · cases run
          exact attempted.1
        · rename_i unfinished
          have kept : after.world.config = 1 := by
            rcases attempted.2 with (rfl | rfl) | same
            · cases unfinished rfl
            · cases unfinished rfl
            · exact same.trans one
          exact ih (fun other member => inside other (List.mem_cons_of_mem _ member))
            attempted.1 kept run
            (fun mode => attempted.1.move (mode.trans (attempted.1.mode.mpr kept).symm))

theorem cmdExecuteCommand_agrees (agrees : AgreesIn taken session.vty.node session.world)
    (run : cmdExecuteCommand daemon.services vline false session = some (status, next)) :
    AgreesIn taken next.vty.node next.world := by
  unfold cmdExecuteCommand at run
  split at run
  · rename_i shortcut
    have inside := inConfig_of_shortcut shortcut
    have one := agrees.config_eq_one inside
    have locked := agrees.vtyConfig_eq_one inside
    obtain ⟨node, flag, config⟩ := executeShortcut_flags locked one run
    have kept := agrees
    unfold AgreesIn at kept ⊢
    rw [locked, one] at kept
    rw [node, flag, config]
    exact kept
  · split at run
    · cases run
    rename_i ret after attempt
    have attempted := cmdExecuteCommandReal_attempted agrees attempt
    rw [if_neg Bool.false_ne_true] at run
    split at run
    · cases run
      exact attempted.1
    · rename_i unfinished
      simp only [Bool.or_eq_true, decide_eq_true_eq, Bool.not_eq_true', not_or] at unfinished
      have below : belowConfig after.vty.node := Bool.not_eq_false _ ▸ unfinished.2
      have one := attempted.1.config_eq_one (inConfig_of_belowConfig below)
      have same : after.world.config = session.world.config := by
        rcases attempted.2 with finished | same
        · exact absurd finished (not_or.mpr unfinished.1)
        · exact same
      exact parentLoop_agrees (agrees.mode.mpr (same ▸ one))
        (inside_ancestors _) attempted.1 one run

end

end OpsCli.Vty.Mode
