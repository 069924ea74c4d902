import OpsCli.Command.Attempt
import OpsCli.Vtysh.Walk

/-!
# Refused commands

A refusal is meant to be final: no handler is run for the line.  The executor
reports it as `CMD_ERR_NOTHING_TODO`, which lets the walk try the line at the
parents, where another command may be authorized.
-/

namespace OpsCli.Vtysh.Refusal

open CLib CString Command.Selection Command.Authorization Command.Execute
  Command.Trace Command.Attempt Command.Line Execute Walk List

variable {World : Type} {progress : Progress World}

/-! ## The events of a walk -/

section

variable {execute : Executor World}
  (extending : ∀ start status result, execute start = some (status, result) → Extends start result)
  {fuel : Nat} {walk : Walk World} {attempt : Attempt World} {session : Session World}

theorem mem_loopAttempts (member : attempt ∈ loopAttempts execute fuel walk) :
    execute attempt.start = some (attempt.status, attempt.result) := by
  induction fuel generalizing walk with
  | zero => cases member
  | succ fuel ih =>
    unfold loopAttempts at member
    split at member
    · dsimp only at member
      split at member
      · cases member
      · rename_i attempted
        rcases mem_cons.mp member with rfl | later
        · exact attempted
        · exact ih later
    · cases member

theorem mem_attempts (member : attempt ∈ attempts execute fuel session) :
    execute attempt.start = some (attempt.status, attempt.result) := by
  unfold attempts at member
  split at member
  · cases member
  · rename_i attempted
    rcases mem_cons.mp member with rfl | later
    · exact attempted
    · exact mem_loopAttempts later

theorem enterWalk_events (ret : CmdStatus) (session : Session World) :
    (enterWalk ret session).events = session.events := by
  unfold enterWalk
  split <;> rfl

theorem settle_events (ret : CmdStatus) (saved : Vty) (walk : Walk World) :
    (settle ret saved walk).2.events = walk.session.events := by
  unfold settle
  split <;> rfl

include extending

theorem walkLoop_occurs {last : Walk World} (run : walkLoop execute fuel walk = some last) :
    Extends walk.session last.session ∧ ∀ kind, (Occurs kind walk.session last.session ↔
        ∃ attempt ∈ loopAttempts execute fuel walk, Occurs kind attempt.start attempt.result) := by
  induction fuel generalizing walk with
  | zero =>
    cases run
    exact ⟨.refl _, fun kind => iff_of_false (not_occurs_of_events rfl)
      (by rintro ⟨_, member, _⟩; cases member)⟩
  | succ fuel ih =>
    unfold walkLoop at run
    unfold loopAttempts
    cases goes : goesOn walk.ret walk.session with
    | false =>
      rw [goes] at run
      cases run
      exact ⟨.refl _, fun kind => iff_of_false (not_occurs_of_events rfl)
        (by rintro ⟨_, member, _⟩; cases member)⟩
    | true =>
      rw [goes, if_pos rfl] at run
      rw [if_pos rfl]
      dsimp only
      cases attempted : execute (walk.session.setNode (nodeParent walk.session.vty.node)) with
      | none =>
        rw [attempted] at run
        cases run
      | some next =>
        obtain ⟨ret, session⟩ := next
        rw [attempted] at run
        obtain ⟨later, occurs⟩ := ih run
        have first : Extends walk.session session := (extending _ _ _ attempted).congr rfl rfl
        refine ⟨Adds.trans first later, fun kind => ?_⟩
        rw [occurs_trans first later, occurs kind]
        simp only [mem_cons, exists_eq_or_imp]
        exact or_congr_left (occurs_congr rfl rfl)

theorem vtyshWalk_occurs (run : vtyshWalk execute fuel session = some progress) :
    Extends session progress.session ∧ ∀ kind, (Occurs kind session progress.session ↔
        ∃ attempt ∈ attempts execute fuel session, Occurs kind attempt.start attempt.result) := by
  unfold vtyshWalk at run
  unfold attempts
  cases attempted : execute session with
  | none =>
    rw [attempted] at run
    cases run
  | some next =>
    obtain ⟨ret, first⟩ := next
    rw [attempted] at run
    dsimp only at run ⊢
    split at run
    · cases run
    · rename_i last loop
      have same : progress.session.events = last.session.events := by
        split at run
        · cases run
          rfl
        · cases run
          exact settle_events ret first.vty last
      obtain ⟨later, occurs⟩ := walkLoop_occurs extending loop
      have entered : first.events =
          (enterWalk ret first).events := (enterWalk_events ret first).symm
      have extend := extending _ _ _ attempted
      have rest : Extends first progress.session := later.congr entered same
      refine ⟨Adds.trans extend rest, fun kind => ?_⟩
      rw [occurs_trans extend rest]
      simp only [mem_cons, exists_eq_or_imp, ← occurs kind]
      exact or_congr_right (occurs_congr entered same)

end

/-! ## The report -/

variable {execute : Executor World} {fuel : Nat} {walk last : Walk World}
  {session final : Session World} {shell : Shell World} {line : CStr}

theorem walkLoop_tried (run : walkLoop execute fuel walk = some last) :
    walk.tried ≤ last.tried := by
  induction fuel generalizing walk with
  | zero =>
    cases run
    exact le_rfl
  | succ fuel ih =>
    unfold walkLoop at run
    split at run
    · split at run
      · cases run
      · exact (Nat.le_succ _).trans (ih run)
    · cases run
      exact le_rfl

theorem walkLoop_untried (run : walkLoop execute fuel walk = some last) :
    (last = walk ∧ loopAttempts execute fuel walk = []) ∨
      (goesOn walk.ret walk.session ∧ last.tried ≠ 0) := by
  cases fuel with
  | zero =>
    cases run
    exact .inl ⟨rfl, rfl⟩
  | succ fuel =>
    unfold walkLoop at run
    unfold loopAttempts
    cases goes : goesOn walk.ret walk.session with
    | false =>
      rw [goes] at run
      cases run
      exact .inl ⟨rfl, rfl⟩
    | true =>
      rw [goes, if_pos rfl] at run
      split at run
      · cases run
      · refine .inr ⟨rfl, ?_⟩
        exact Nat.ne_of_gt ((Nat.succ_pos _).trans_le (walkLoop_tried run))

/-- `CMD_SUCCESS_DAEMON` is only reported for the attempt at the original
node. -/
theorem attempts_of_successDaemon (run : vtyshWalk execute fuel session =
      some (.ended .successDaemon final)) :
    ∃ first, attempts execute fuel session = [⟨session, .successDaemon, first⟩] := by
  unfold vtyshWalk at run
  unfold attempts
  cases attempted : execute session with
  | none =>
    rw [attempted] at run
    cases run
  | some next =>
    obtain ⟨ret, first⟩ := next
    rw [attempted] at run
    dsimp only at run ⊢
    split at run
    · cases run
    · rename_i last loop
      split at run
      · cases run
      · have reported : (settle ret first.vty last).1 = .successDaemon :=
          (Progress.ended.inj (Option.some.inj run)).1
        rcases walkLoop_untried loop with ⟨rfl, none⟩ | ⟨goes, tried⟩
        · rw [settle_untried] at reported
          cases reported
          exact ⟨first, by rw [none]⟩
        · unfold settle at reported
          split at reported
          · cases reported
            cases goes
          · rename_i success
            rw [show last.ret = .successDaemon from reported] at success
            exact absurd (by simp [tried]) success

theorem report_not_handled {ret status : CmdStatus} (other : ret ≠ .successDaemon)
    (run : report shell line ret session = some (status, final)) :
    Extends session final ∧ ¬ Occurs isHandled session final := by
  unfold report at run
  rw [if_neg other] at run
  split at run
  · cases run
    exact ⟨.refl _, not_occurs_of_events rfl⟩
  · cases run
    exact ⟨⟨_, rfl, fun _ _ => trivial⟩, not_occurs_output _ _⟩

/-! ## Refusals -/

/-- If the authorization of a command matched by the line is refused, no
handler is run for the line. -/
def RefusalFinal (shell : Shell World) (fuel : Nat) (line : CStr) (session : Session World)
    (progress : Progress World) : Prop :=
  ∀ words ∈ cmdMakeStrvec line, (∃ attempt ∈ attempts (shell.execute words) fuel session,
      Occurs isRefused attempt.start attempt.result) →
    ¬ Occurs isHandled session progress.session

/-- One attempt at the line is refused and another runs a handler. -/
def RefusedAndRun (shell : Shell World) (words : List CStr) (tried : List (Attempt World)) : Prop :=
  (∃ attempt ∈ tried, Refuses shell.services (words.map some) attempt.start) ∧
  ∃ attempt ∈ tried, Runs shell.services (words.map some) attempt.start

section

variable (shell : Shell World) (words : List CStr) (fuel : Nat) (session : Session World)

theorem exists_refused_iff : (∃ attempt ∈ attempts (shell.execute words) fuel session,
        Occurs isRefused attempt.start attempt.result) ↔
      ∃ attempt ∈ attempts (shell.execute words) fuel session,
        Refuses shell.services (words.map some) attempt.start := by
  refine exists_congr fun attempt => and_congr_right fun member => ?_
  exact (attempt_occurs (mem_attempts member)).2.1

theorem exists_handled_iff : (∃ attempt ∈ attempts (shell.execute words) fuel session,
        Occurs isHandled attempt.start attempt.result) ↔
      ∃ attempt ∈ attempts (shell.execute words) fuel session,
        Runs shell.services (words.map some) attempt.start := by
  refine exists_congr fun attempt => and_congr_right fun member => ?_
  exact (attempt_occurs (mem_attempts member)).2.2

end

/-- Behind a refused attempt nothing but the walk runs a handler. -/
theorem vtyshExecuteFunc_handled {words : List CStr} (split : cmdMakeStrvec line = some words)
    (run : vtyshExecuteFunc shell fuel line session = some progress)
    (refused : ∃ attempt ∈ attempts (shell.execute words) fuel session,
      Refuses shell.services (words.map some) attempt.start) :
    Occurs isHandled session progress.session ↔
      ∃ attempt ∈ attempts (shell.execute words) fuel session,
        Occurs isHandled attempt.start attempt.result := by
  have extending : ∀ start status result, shell.execute words start = some (status, result) →
        Extends start result :=
    fun start status result attempted => (attempt_occurs attempted).1
  unfold vtyshExecuteFunc at run
  rw [split] at run
  dsimp only at run
  split at run
  · cases run
  · rename_i middle walk
    cases run
    exact (vtyshWalk_occurs extending walk).2 isHandled
  · rename_i ret middle walk
    obtain ⟨extend, occurs⟩ := vtyshWalk_occurs extending walk
    obtain ⟨⟨status, final⟩, reported, rfl⟩ := Option.map_eq_some_iff.mp run
    have other : ret ≠ .successDaemon := by
      rintro rfl
      obtain ⟨first, only⟩ := attempts_of_successDaemon walk
      obtain ⟨attempt, member, refuses⟩ := refused
      have status := status_of_refuses (mem_attempts member) refuses
      rw [only] at member
      rw [mem_singleton.mp member] at status
      cases status
    obtain ⟨more, quiet⟩ := report_not_handled other reported
    rw [← occurs isHandled]
    exact (occurs_trans extend more).trans (or_iff_left quiet)

/-- A refusal is final exactly if the walk does not bring together an attempt
that is refused and one that runs a handler. -/
theorem refusal_final_iff {shell : Shell World} {fuel : Nat} {line : CStr} {session : Session World}
    {progress : Progress World} (run : vtyshExecuteFunc shell fuel line session = some progress) :
    RefusalFinal shell fuel line session progress ↔
      ∀ words ∈ cmdMakeStrvec line, ¬ RefusedAndRun shell words
        (attempts (shell.execute words) fuel session) := by
  refine forall_congr' fun words => forall_congr' fun split => ?_
  rw [exists_refused_iff, RefusedAndRun, not_and]
  refine forall_congr' fun refused => not_congr ?_
  rw [vtyshExecuteFunc_handled split run refused, exists_handled_iff]

/-! ## A command of two nodes -/

def shutdownOrReload : CmdElement where
  string := "(shutdown|reload)"
  tokens := [.multiple [⟨"shutdown", none, none⟩, ⟨"reload", none, none⟩]]

def oneServer : AaaTables where
  authorizationGroupPrios := some [⟨1, tacDefaultGroup⟩]
  servers := [⟨"10.0.0.1", [1], 1, none,
    some ⟨"secret", fun member => absurd member (by decide)⟩, some 5⟩]
  tacacsTimeout := none
  tacacsPasskey := none

/-- A shell whose interface node has `shutdown`, which the server refuses, and
whose other nodes have `(shutdown|reload)`, for which it gives this answer. -/
def shutdownShell (answer : Int) : Shell Unit where
  services :=
    { plainServices
        (fun node =>
          if node = .interfaceNode then [shutdown] else [shutdownOrReload])
        fun _ => .success with
      tables := fun _ => oneServer
      author := fun _ _ _ command =>
        if command = shutdown.string then exitFail else answer }
  vtyFile := false
  clientExecute _ _ world := (.success, world)

/-- The session after `shutdown` has been refused at the interface node and at
the configuration node. -/
def shutdownRefused : Session Unit :=
  ⟨⟨.interfaceNode, none, []⟩, (), [], some shutdownOrReload,
    [.authorization shutdown exitFail, .output (refusalText exitFail),
      .authorization shutdownOrReload exitFail, .output (refusalText exitFail)]⟩

/-- The session after `shutdown` has been refused at the interface node and
run at the configuration node. -/
def shutdownRun : Session Unit :=
  ⟨⟨.configNode, none, []⟩, (), [], some shutdownOrReload,
    [.authorization shutdown exitFail, .output (refusalText exitFail),
      .authorization shutdownOrReload exitOk,
      .handler shutdownOrReload [.text "shutdown"] none .success]⟩

theorem shutdown_refusal_final :
    Occurs isRefused (plainSession .interfaceNode) shutdownRefused ∧
      RefusalFinal (shutdownShell exitFail) 2 "shutdown" (plainSession .interfaceNode)
        (.ended .errNothingTodo shutdownRefused) := by
  refine ⟨by decide, (refusal_final_iff (by decide)).mpr ?_⟩
  rintro words split ⟨_, runs⟩
  cases split
  -- No attempt runs a handler, the one at the parent included.
  exact absurd ((exists_handled_iff (shutdownShell exitFail) ["shutdown"] 2 _).mpr runs) (by decide)

/-- The server refuses `shutdown`, but the same line runs a handler at the
parent. -/
theorem refused_line_runs_at_parent : vtyshExecuteFunc (shutdownShell exitOk) 2 "shutdown"
        (plainSession .interfaceNode) =
      some (.ended .success shutdownRun) ∧
    ¬ RefusalFinal (shutdownShell exitOk) 2 "shutdown"
      (plainSession .interfaceNode) (.ended .success shutdownRun) := by
  refine ⟨by decide, fun final => ?_⟩
  exact final ["shutdown"] rfl (by decide) (by decide)

end OpsCli.Vtysh.Refusal
