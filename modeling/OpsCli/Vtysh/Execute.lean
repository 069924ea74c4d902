import OpsCli.Command.Execute
import OpsCli.Command.Line

/-!
# Executing a line in the shell

`vtysh_execute_func`, built with `ENABLE_OVSDB`, tries a line at the node of
the terminal and then at its parents, restores the terminal if no attempt
succeeds, and reports the status.  A line that belongs to other daemons is
forwarded to them.
-/

namespace OpsCli.Vtysh.Execute

open CLib.CString Command.Selection Command.Execute Command.Line

variable {World : Type}

/-! ## The walk to the parents -/

/-- One attempt to execute a line; `none` where the code has no defined
behaviour. -/
abbrev Executor (World : Type) :=
  Session World → Option (CmdStatus × Session World)

/-- The statuses at which the walk stops. -/
def stopsWalk (status : CmdStatus) : Bool :=
  status = .success || status = .successDaemon || status = .warning || status = .ovsdbFailure

/-- The condition of the loop. -/
def goesOn (ret : CmdStatus) (session : Session World) : Bool :=
  !stopsWalk ret && belowConfig session.vty.node

structure Walk (World : Type) where
  ret : CmdStatus
  tried : Nat
  session : Session World

/-- The loop over the parents, for at most this many rounds: handlers may move
the terminal, so that the loop need not end. -/
def walkLoop (execute : Executor World) : Nat → Walk World → Option (Walk World)
  | 0, walk => some walk
  | fuel + 1, walk =>
    if goesOn walk.ret walk.session then
      match execute (walk.session.setNode (nodeParent walk.session.vty.node)) with
      | none => none
      | some (ret, session) =>
        walkLoop execute fuel ⟨ret, walk.tried + 1, session⟩
    else some walk

def enterWalk (ret : CmdStatus) (session : Session World) : Session World :=
  if goesOn ret session then (session.setIndexList []).setIndex none
  else session

/-- The values saved after the first attempt are restored behind the loop. -/
def settle (savedRet : CmdStatus) (saved : Vty) (walk : Walk World) : CmdStatus × Session World :=
  if walk.ret ≠ .success && walk.tried ≠ 0 then
    (savedRet, walk.session.withVty saved)
  else (walk.ret, walk.session)

inductive Progress (World : Type) where
  | running (session : Session World)
  | ended (ret : CmdStatus) (session : Session World)
deriving DecidableEq, Repr

namespace Progress

def session : Progress World → Session World
  | .running session => session
  | .ended _ session => session

end Progress

/-- The first part of `vtysh_execute_func`: the status and the session that
the `switch` receives. -/
def vtyshWalk (execute : Executor World) (fuel : Nat)
    (session : Session World) : Option (Progress World) :=
  match execute session with
  | none => none
  | some (savedRet, first) =>
    match walkLoop execute fuel ⟨savedRet, 0, enterWalk savedRet first⟩ with
    | none => none
    | some walk =>
      if goesOn walk.ret walk.session then some (.running walk.session)
      else
        match settle savedRet first.vty walk with
        | (ret, session) => some (.ended ret session)

/-! ## The daemons -/

/-- The flags of the table `vtysh_client`. -/
def vtyshClient : List Nat :=
  [0x01, 0x02, 0x04, 0x08, 0x10, 0x20, 0x40, 0x80, 0x100]

/-- What the shell calls besides the services of the executor: whether the
terminal is a file, and `vtysh_client_execute` for the daemon of a flag. -/
structure Shell (World : Type) where
  services : Services World
  vtyFile : Bool
  clientExecute : Nat → CStr → World → CmdStatus × World

namespace Shell

/-- `cmd_execute_command` for a vector of words. -/
def execute (shell : Shell World) (words : List CStr) : Executor World :=
  cmdExecuteCommand shell.services (words.map some) true

end Shell

/-- A loop over the daemons: those that are wanted receive the line until one
answers with a status that ends the loop. -/
def clientLoop (shell : Shell World) (line : CStr) (wanted : Nat → Bool) (ends : CmdStatus → Bool) :
    List Nat → CmdStatus → Session World → CmdStatus × Session World
  | [], cmdStat, session => (cmdStat, session)
  | flag :: rest, cmdStat, session =>
    if wanted flag then
      match shell.clientExecute flag line session.world with
      | (cmdStat, world) =>
        if ends cmdStat then (cmdStat, { session with world })
        else
          clientLoop shell line wanted ends rest cmdStat { session with world }
    else clientLoop shell line wanted ends rest cmdStat session

/-- The handler of the command is called without arguments; its status is
ignored. -/
def callFunc (shell : Shell World) (command : CmdElement)
    (session : Session World) : Session World :=
  match shell.services.handler command [] session.vty session.world with
  | (status, vty, world) =>
    (session.happens world (.handler command [] session.vty.index status)).withVty vty

/-- The command is forwarded to its daemons and then run in the shell. -/
def forwardToDaemons (shell : Shell World) (line : CStr) (command : CmdElement)
    (session : Session World) : CmdStatus × Session World :=
  match clientLoop shell line (fun flag => command.daemon &&& flag ≠ 0)
      (· ≠ .success) vtyshClient .success session with
  | (cmdStat, session) =>
    if cmdStat ≠ .success then (cmdStat, session)
    else (cmdStat, callFunc shell command session)

/-- `configure terminal` goes to every daemon; if the last answer is an error
the shell executes `end`. -/
def configureTerminal (shell : Shell World) (line : CStr) (command : CmdElement)
    (session : Session World) : Option (CmdStatus × Session World) :=
  match clientLoop shell line (fun _ => true) (· = .warning) vtyshClient .successDaemon session with
  | (.success, session) => some (.success, callFunc shell command session)
  | (cmdStat, session) =>
    match shell.execute ["end"] session with
    | none => none
    | some (.successDaemon, session) =>
      session.cmd.map fun command => forwardToDaemons shell "end" command session
    | some (_, session) => some (cmdStat, session)

/-- The case of `CMD_SUCCESS_DAEMON`. -/
def reportDaemon (shell : Shell World) (line : CStr)
    (session : Session World) : Option (CmdStatus × Session World) :=
  match session.cmd with
  | none => none
  | some command =>
    if command.string = "configure terminal" then
      configureTerminal shell line command session
    else some (forwardToDaemons shell line command session)

/-! ## The report -/

def reportText (vtyFile : Bool) : CmdStatus → Option CStr
  | .ovsdbFailure => some "% Command failed.\n"
  | .warning => if vtyFile then some "Warning...\n" else none
  | .errAmbiguous => some "% Ambiguous command.\n"
  | .errNoMatch => some "% Unknown command.\n"
  | .errIncomplete => some "% Command incomplete.\n"
  | _ => none

/-- The `switch` on the status. -/
def report (shell : Shell World) (line : CStr) (ret : CmdStatus)
    (session : Session World) : Option (CmdStatus × Session World) :=
  if ret = .successDaemon then reportDaemon shell line session
  else
    match reportText shell.vtyFile ret with
    | none => some (ret, session)
    | some text => some (ret, session.happens session.world (.output text))

/-- `vtysh_execute_func`. -/
def vtyshExecuteFunc (shell : Shell World) (fuel : Nat) (line : CStr)
    (session : Session World) : Option (Progress World) :=
  match cmdMakeStrvec line with
  | none => some (.ended .success session)
  | some words =>
    match vtyshWalk (shell.execute words) fuel session with
    | none => none
    | some (.running session) => some (.running session)
    | some (.ended ret session) =>
      (report shell line ret session).map fun reported => .ended reported.1 reported.2

end OpsCli.Vtysh.Execute
