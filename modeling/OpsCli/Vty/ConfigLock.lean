import Mathlib.Logic.Relation
import OpsCli.Vty.Mode

/-!
# The configuration lock

Seen from outside, the lock is a holder: nobody, or one session.  The flag
`vty_config`, the flags of the sessions and their nodes represent the holder,
and every event at every session either keeps the holder, or lets a session
take a free lock, or lets the holder give it up.  Hence at most one session
configures at any time, and the lock is free when nobody configures.
-/

namespace OpsCli.Vty.ConfigLock

open CLib CString Qsort Command.Selection Command.Authorization
open OpsCli.Command.Execute hiding Event
open Session Mode

variable {Rest : Type}

/-! ## The holder -/

/-- What the lock does: it is kept, taken when it is free, or given up. -/
inductive Passes : Option Nat → Option Nat → Prop where
  | keeps (holder : Option Nat) : Passes holder holder
  | takes (fd : Nat) : Passes none (some fd)
  | gives (fd : Nat) : Passes (some fd) none

/-- The flags and the nodes say who holds the lock. -/
structure Represents (holder : Option Nat) (process : Process Rest) : Prop where
  flag : process.vtyConfig = if holder.isSome then 1 else 0
  alive : ∀ fd, holder = some fd → process.live fd ≠ none
  config : ∀ fd terminal, process.live fd = some terminal →
    terminal.config = if holder = some fd then 1 else 0
  mode : ∀ fd terminal, process.live fd = some terminal →
    (inConfig terminal.vty.node ↔ holder = some fd)

/-- Another session holds the lock. -/
def takenFrom (holder : Option Nat) (fd : Nat) : Bool :=
  holder.any (· ≠ fd)

/-- The holder after the session `fd` has set its flag to this value. -/
def nextHolder (holder : Option Nat) (fd config : Nat) : Option Nat :=
  if takenFrom holder fd then holder
  else if config = 1 then some fd
  else none

variable {holder : Option Nat} {fd config : Nat} {terminal : Terminal}

theorem holder_of_not_taken (free : takenFrom holder fd = false) :
    holder = none ∨ holder = some fd := by
  cases holder with
  | none => exact .inl rfl
  | some other =>
    have same : other = fd := by simpa [takenFrom] using free
    exact .inr (congrArg some same)

theorem holder_of_taken (taken : takenFrom holder fd) :
    ∃ other, holder = some other ∧ other ≠ fd := by
  cases holder with
  | none => cases taken
  | some other => exact ⟨other, rfl, by simpa [takenFrom] using taken⟩

theorem passes_nextHolder (holder : Option Nat) (fd config : Nat) :
    Passes holder (nextHolder holder fd config) := by
  unfold nextHolder
  split
  · exact .keeps holder
  · rename_i free
    rcases holder_of_not_taken (Bool.eq_false_of_not_eq_true free) with
      rfl | rfl
    · split
      · exact .takes fd
      · exact .keeps none
    · split
      · exact .keeps (some fd)
      · exact .gives fd

theorem nextHolder_other {other : Nat} (different : other ≠ fd)
    (holder : Option Nat) (config : Nat) :
    nextHolder holder fd config = some other ↔ holder = some other := by
  have unequal : ¬ (some fd = some other) := fun same => different (Option.some.inj same).symm
  unfold nextHolder
  split
  · exact Iff.rfl
  · rename_i free
    rcases holder_of_not_taken (Bool.eq_false_of_not_eq_true free) with
      rfl | rfl
    · split
      · exact ⟨fun same => absurd same unequal, nofun⟩
      · exact Iff.rfl
    · split
      · exact Iff.rfl
      · exact ⟨nofun, fun same => absurd same unequal⟩

theorem nextHolder_self (apart : takenFrom holder fd → config = 0) :
    nextHolder holder fd config = some fd ↔ config = 1 := by
  unfold nextHolder
  split
  · rename_i taken
    obtain ⟨other, rfl, different⟩ := holder_of_taken taken
    rw [apart taken]
    exact ⟨fun same => absurd (Option.some.inj same) different, nofun⟩
  · split
    · rename_i one
      exact ⟨fun _ => one, fun _ => rfl⟩
    · rename_i other
      exact ⟨nofun, fun one => absurd one other⟩

theorem isSome_nextHolder (range : config = 0 ∨ config = 1) :
    (if takenFrom holder fd then 1 else config) =
      if (nextHolder holder fd config).isSome then 1 else 0 := by
  unfold nextHolder
  split
  · rename_i taken
    obtain ⟨other, rfl, _⟩ := holder_of_taken taken
    rfl
  · rcases range with rfl | rfl
    · rfl
    · rfl

namespace Represents

variable {process : Process Rest}

theorem initial (rest : Rest) : Represents none (Process.start rest) :=
  ⟨rfl, nofun, nofun, nofun⟩

variable {next : Process Rest}

section

variable (represents : Represents holder process)
include represents

theorem agrees (found : process.live fd = some terminal) :
    Agrees (takenFrom holder fd) terminal.vty.node process.vtyConfig terminal.config := by
  have flag := represents.flag
  have config := represents.config fd terminal found
  have mode := represents.mode fd terminal found
  cases taken : takenFrom holder fd with
  | true =>
    obtain ⟨other, rfl, different⟩ := holder_of_taken taken
    have unequal : ¬ (some other = some fd) := fun same => different (Option.some.inj same)
    rw [if_neg unequal] at config
    refine ⟨?_, flag, .inl config, fun _ => config⟩
    rw [mode, config]
    exact ⟨fun same => absurd same unequal, nofun⟩
  | false =>
    rcases holder_of_not_taken taken with rfl | rfl
    · refine ⟨?_, flag.trans config.symm, .inl config, nofun⟩
      rw [mode, config]
      exact ⟨nofun, nofun⟩
    · rw [if_pos rfl] at config
      refine ⟨?_, flag.trans config.symm, .inr config, nofun⟩
      rw [mode, config]
      exact ⟨fun _ => rfl, fun _ => rfl⟩

theorem agrees_new (unused : process.live fd = none)
    {node : NodeType} (outside : inConfig node = false) :
    Agrees (takenFrom holder fd) node process.vtyConfig 0 := by
  have other : holder ≠ some fd := fun same => represents.alive fd same unused
  have flag := represents.flag
  refine ⟨by simp [outside], ?_, .inl rfl, fun _ => rfl⟩
  cases taken : takenFrom holder fd with
  | true =>
    obtain ⟨owner, rfl, _⟩ := holder_of_taken taken
    exact flag
  | false =>
    rcases holder_of_not_taken taken with rfl | rfl
    · exact flag
    · exact absurd rfl other

theorem replace {after : Option Nat} {cell : Option Terminal}
    (live : next.live = Function.update process.live fd cell)
    (flag : next.vtyConfig = if after.isSome then 1 else 0)
    (others : ∀ other, other ≠ fd → (after = some other ↔ holder = some other))
    (alive : after = some fd → cell ≠ none)
    (self : ∀ state, cell = some state → state.config = (if after = some fd then 1 else 0) ∧
      (inConfig state.vty.node ↔ after = some fd)) : Represents after next := by
  have known (other : Nat) (state : Terminal) (lives : next.live other = some state) :
      state.config = (if after = some other then 1 else 0) ∧
        (inConfig state.vty.node ↔ after = some other) := by
    rw [live] at lives
    by_cases same : other = fd
    · subst same
      rw [Function.update_self] at lives
      exact self state lives
    · rw [Function.update_of_ne same] at lives
      simp only [others other same]
      exact ⟨represents.config other state lives, represents.mode other state lives⟩
  refine ⟨flag, fun other holds => ?_, fun other state lives => (known other state lives).1,
    fun other state lives => (known other state lives).2⟩
  rw [live]
  by_cases same : other = fd
  · subst same
    rw [Function.update_self]
    exact alive holds
  · rw [Function.update_of_ne same]
    exact represents.alive other ((others other same).mp holds)

theorem update (live : next.live = Function.update process.live fd (some terminal))
    (agrees : Agrees (takenFrom holder fd) terminal.vty.node next.vtyConfig terminal.config) :
    ∃ after, Passes holder after ∧ Represents after next := by
  have self := nextHolder_self agrees.apart
  refine ⟨nextHolder holder fd terminal.config, passes_nextHolder _ _ _, represents.replace live ?_
    (fun other different => nextHolder_other different _ _) nofun ?_⟩
  · rw [agrees.lock]
    exact isSome_nextHolder agrees.range
  · rintro _ ⟨⟩
    refine ⟨?_, agrees.mode.trans self.symm⟩
    rcases agrees.range with zero | one
    · rw [if_neg fun holds => by simp [self.mp holds] at zero, zero]
    · rw [if_pos (self.mpr one), one]

theorem close (config : terminal.config = if holder = some fd then 1 else 0) :
    ∃ after, Passes holder after ∧ Represents after (process.vtyClose fd terminal) := by
  by_cases own : holder = some fd
  · subst own
    rw [if_pos rfl] at config
    refine ⟨none, .gives fd, represents.replace rfl ?_ ?_ nofun nofun⟩
    · have held : process.vtyConfig = 1 := represents.flag
      unfold Process.vtyClose vtyConfigUnlock
      exact congrArg Surroundings.vtyConfig (if_pos ⟨held, config⟩)
    · intro other different
      exact ⟨nofun, fun same => absurd (Option.some.inj same).symm different⟩
  · rw [if_neg own] at config
    refine ⟨holder, .keeps holder, represents.replace rfl ?_ (fun _ _ => Iff.rfl)
      (fun holds => absurd holds own) nofun⟩
    have idle : ¬ (process.vtyConfig = 1 ∧ terminal.config = 1) :=
      fun both => by simp [config] at both
    unfold Process.vtyClose vtyConfigUnlock
    exact (congrArg Surroundings.vtyConfig (if_neg idle)).trans represents.flag

end

end Represents

/-! ## Events -/

/-- Logging in leads to a node outside the configuration and does not touch
the flag. -/
theorem vtyAuth_outside (daemon : Daemon Rest) (access : Access) (buf : CStr)
    (outside : inConfig terminal.vty.node = false) :
    inConfig (vtyAuth daemon access buf terminal).vty.node = false ∧
      (vtyAuth daemon access buf terminal).config = terminal.config := by
  have target : inConfig (authTarget access terminal.vty.node).2 = false := by
    unfold authTarget
    split
    · dsimp only
      split
      · rfl
      · rfl
    · rfl
  unfold vtyAuth
  dsimp only
  split
  · exact ⟨target, rfl⟩
  split
  · exact ⟨outside, rfl⟩
  split
  · exact ⟨outside, rfl⟩
  · refine ⟨?_, rfl⟩
    split
    · rfl
    · rfl

section

variable {daemon : Daemon Rest} {process next : Process Rest}

theorem represents_store (represents : Represents holder process) (terminal : Terminal) {vty : Vty}
    {world : Surroundings Rest} (agrees : AgreesIn (takenFrom holder fd) vty.node world) :
    ∃ after, Passes holder after ∧ Represents after (process.store fd terminal vty world) :=
  represents.update rfl agrees

theorem inConfig_loginNode (access : Access) : inConfig (loginNode access) = false := by
  unfold loginNode
  split
  · split
    · rfl
    · split
      · rfl
      · rfl
  · rfl

section

variable (represents : Represents holder process)
include represents

theorem represents_vtyCreate (unused : process.live fd = none) :
    ∃ after, Passes holder after ∧ Represents after (vtyCreate daemon fd process) := by
  unfold vtyCreate
  dsimp only
  split
  · refine ⟨holder, .keeps holder, represents.replace (Function.update_idem _ _ _) ?_
      (fun _ _ => Iff.rfl) (fun same => absurd unused (represents.alive fd same)) nofun⟩
    exact (congrArg Surroundings.vtyConfig (if_neg nofun)).trans represents.flag
  · exact represents.update rfl (represents.agrees_new unused (inConfig_loginNode _))

theorem represents_vtyshAccept (unused : process.live fd = none) :
    ∃ after, Passes holder after ∧ Represents after (vtyshAccept fd process) :=
  represents.update rfl (represents.agrees_new unused rfl)

theorem represents_vtyExecute {buf : CStr} (found : process.live fd = some terminal)
    (run : vtyExecute daemon fd buf terminal process = some next) :
    ∃ after, Passes holder after ∧ Represents after next := by
  have agrees := represents.agrees found
  unfold vtyExecute at run
  split at run
  · rename_i authenticates
    cases run
    have outside : inConfig terminal.vty.node = false := by
      rcases authenticates with top | top
      · rw [top]
        rfl
      · rw [top]
        rfl
    obtain ⟨still, config⟩ := vtyAuth_outside daemon (daemon.access process.rest) buf outside
    refine represents.update rfl ?_
    rw [config]
    exact agrees.move (still.trans outside.symm)
  · unfold vtyCommand at run
    split at run
    · cases run
      exact ⟨holder, .keeps holder, represents⟩
    · obtain ⟨⟨status, done⟩, executed, equal⟩ := Option.map_eq_some_iff.mp run
      cases equal
      exact represents.update rfl (cmdExecuteCommand_agrees agrees executed)

/-- Every event at every session is a step of the lock. -/
theorem step_represents {event : Nat × Event} (run : daemon.step process event = some next) :
    ∃ after, Passes holder after ∧ Represents after next := by
  obtain ⟨fd, event⟩ := event
  have idle : ∃ after, Passes holder after ∧ Represents after process :=
    ⟨holder, .keeps holder, represents⟩
  unfold Daemon.step at run
  split at run
  · rename_i terminal found
    have agrees := represents.agrees found
    have config := represents.config fd terminal found
    cases event with
    | connect =>
      cases run
      exact idle
    | connectShell =>
      cases run
      exact idle
    | line buf => exact represents_vtyExecute represents found run
    | endConfig =>
      cases run
      exact represents_store represents terminal
        (agrees_leaveConfig inside_vtyEndConfigNodes agrees)
    | stopInput =>
      cases run
      exact represents_store represents terminal
        (agrees_leaveConfig inside_vtyStopInputNodes agrees)
    | downLevel =>
      cases run
      exact represents_store represents terminal (agrees_configExit agrees)
    | close | timeout =>
      cases run
      exact represents.close config
  · rename_i unused
    cases event with
    | connect =>
      cases run
      exact represents_vtyCreate represents unused
    | connectShell =>
      cases run
      exact represents_vtyshAccept represents unused
    | line buf | endConfig | stopInput | downLevel | close | timeout =>
      cases run
      exact idle

theorem run_represents {events : List (Nat × Event)} (run : daemon.run events process = some next) :
    ∃ after, Relation.ReflTransGen Passes holder after ∧ Represents after next := by
  induction events generalizing holder process with
  | nil =>
    cases run
    exact ⟨holder, .refl, represents⟩
  | cons event rest ih =>
    rw [Daemon.run] at run
    split at run
    · cases run
    · rename_i middle taken
      obtain ⟨between, passes, kept⟩ := step_represents represents taken
      obtain ⟨after, later, final⟩ := ih kept run
      exact ⟨after, .head passes later, final⟩

end

end

/-! ## The result -/

/-- At most one session configures, the shared flag says whether one does, and
the lock is free when none does. -/
structure Exclusive (process : Process Rest) : Prop where
  one : ∀ first second : Nat, ∀ left right : Terminal,
    process.live first = some left → process.live second = some right →
    inConfig left.vty.node → left.config = 1 →
    inConfig right.vty.node → right.config = 1 → first = second
  flag : process.vtyConfig = 1 ↔
    ∃ fd terminal, process.live fd = some terminal ∧ terminal.config = 1
  free : (∀ fd terminal, process.live fd = some terminal →
    inConfig terminal.vty.node = false) → process.vtyConfig = 0

theorem Represents.exclusive {process : Process Rest} (represents : Represents holder process) :
    Exclusive process := by
  refine ⟨?_, ?_, ?_⟩
  · intro first second left right leftLive rightLive leftMode _ rightMode _
    have leftHolds := (represents.mode first left leftLive).mp leftMode
    have rightHolds := (represents.mode second right rightLive).mp rightMode
    exact Option.some.inj (leftHolds.symm.trans rightHolds)
  · rw [represents.flag]
    cases holder with
    | none =>
      refine ⟨nofun, ?_⟩
      rintro ⟨fd, terminal, live, one⟩
      rw [represents.config fd terminal live] at one
      cases one
    | some fd =>
      refine ⟨fun _ => ?_, fun _ => rfl⟩
      obtain ⟨terminal, live⟩ := Option.ne_none_iff_exists'.mp (represents.alive fd rfl)
      refine ⟨fd, terminal, live, ?_⟩
      rw [represents.config fd terminal live, if_pos rfl]
  · intro outside
    rw [represents.flag]
    cases holder with
    | none => rfl
    | some fd =>
      obtain ⟨terminal, live⟩ := Option.ne_none_iff_exists'.mp (represents.alive fd rfl)
      have inside := (represents.mode fd terminal live).mpr rfl
      rw [outside fd terminal live] at inside
      cases inside

/-- After any sequence of events at any number of sessions, the lock
excludes. -/
theorem config_lock_exclusive (daemon : Daemon Rest) (rest : Rest) {events : List (Nat × Event)}
    {process : Process Rest} (run : daemon.run events (Process.start rest) = some process) :
    Exclusive process := by
  obtain ⟨holder, _, represents⟩ := run_represents (Represents.initial rest) run
  exact represents.exclusive

/-! ## Two shells -/

def enableCommand : CmdElement where
  string := "enable"
  tokens := [.terminal ⟨"enable", none, none⟩]

def configureTerminal : CmdElement where
  string := "configure terminal"
  tokens := [.terminal ⟨"configure", none, none⟩, .terminal ⟨"terminal", none, none⟩]

def lineVty : CmdElement where
  string := "line vty"
  tokens := [.terminal ⟨"line", none, none⟩, .terminal ⟨"vty", none, none⟩]

def enterVtyNode : Work Unit where
  act _ vty rest :=
    if inConfig vty.node then (.success, { vty with node := .vtyNode }, rest)
    else (.warning, vty, rest)
  moves _ vty _ := by
    cases mode : inConfig vty.node with
    | true =>
      rw [if_pos rfl]
      exact .inr ⟨rfl, rfl⟩
    | false =>
      rw [if_neg Bool.false_ne_true]
      exact .inl rfl

def smallDaemon : Daemon Unit where
  env := plainEnv
  qsort := Sorter.insertion
  commands node :=
    if node = .viewNode then [enableCommand]
    else if node = .enableNode then [configureTerminal]
    else [lineVty]
  routine command :=
    if command = enableCommand then .enable
    else if command = configureTerminal then .configTerminal
    else .work enterVtyNode
  systemReady world := (true, world)
  tables _ := ⟨some [⟨0, tacNoneGroup⟩], [], none, none⟩
  author _ _ _ _ := exitOk
  asked world _ := world
  access _ := ⟨false, false, none, none, none, none, true, false⟩
  crypt _ passwd := passwd
  enable_installed := by
    intro node command member enables
    split at member
    · rename_i view
      exact .inl view
    · split at member
      · cases List.mem_singleton.mp member
        cases enables
      · cases List.mem_singleton.mp member
        cases enables

/-- Two shells ask for the lock; the first gets it and enters a
descendant node. -/
def contention : List (Nat × Event) :=
  [(3, .connectShell), (4, .connectShell), (3, .line "enable"),
    (4, .line "enable"), (3, .line "configure terminal"),
    (4, .line "configure terminal"), (3, .line "line vty")]

theorem contention_exclusive :
    ∃ process, smallDaemon.run contention (Process.start ()) = some process ∧ Exclusive process ∧
      (process.live 3).map (fun terminal =>
        (terminal.vty.node, terminal.config)) = some (.vtyNode, 1) ∧
      (process.live 4).map (fun terminal =>
        (terminal.vty.node, terminal.config)) = some (.enableNode, 0) := by
  have ends : (smallDaemon.run contention (Process.start ())).map
      (fun process => ((process.live 3).map (fun terminal => (terminal.vty.node, terminal.config)),
        (process.live 4).map (fun terminal => (terminal.vty.node, terminal.config)))) =
      some (some (.vtyNode, 1), some (.enableNode, 0)) := by
    decide
  obtain ⟨process, run, places⟩ := Option.map_eq_some_iff.mp ends
  obtain ⟨first, second⟩ := Prod.mk.inj places
  exact ⟨process, run, config_lock_exclusive smallDaemon () run, first, second⟩

end OpsCli.Vty.ConfigLock
