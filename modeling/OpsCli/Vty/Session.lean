import Mathlib.Logic.Function.Basic
import OpsCli.Command.Execute
import OpsCli.Command.Line

/-!
# The sessions of a daemon

A daemon serves terminals and shells.  Each session is a `struct vty` of its
own; the flag `vty_config`, the settings and the database are shared.  A
session connects, logs in, enters lines, types `^Z`, `^C` and `^D`, and is
closed; lines go through the executor of the command library to the handlers
that change the mode.
-/

namespace OpsCli.Vty.Session

open CLib CString Qsort Command.Matcher Command.WordMatch
  Command.Selection Command.Authorization Command.Execute Command.Line

/-! ## The lock -/

inductive VtyStatus where
  | normal
  | close
deriving DecidableEq, Repr

/-- The types of sessions that connect to a daemon: `VTY_TERM` and
`VTY_SHELL_SERV`. -/
inductive VtyType where
  | term
  | shellServ
deriving DecidableEq, Repr

/-- What a handler reads and writes besides the node and the index: the flag
`vty_config`, further fields of its `struct vty`, and the rest of the
daemon. -/
structure Surroundings (Rest : Type) where
  vtyConfig : Nat
  config : Nat
  status : VtyStatus
  type : VtyType
  rest : Rest
deriving DecidableEq, Repr

variable {Rest : Type}

/-- `vty_config_lock`. -/
def vtyConfigLock (world : Surroundings Rest) : Nat × Surroundings Rest :=
  let world := if world.vtyConfig = 0 then { world with config := 1, vtyConfig := 1 }
    else world
  (world.config, world)

/-- `vty_config_unlock`; no caller reads its value. -/
def vtyConfigUnlock (world : Surroundings Rest) : Surroundings Rest :=
  if world.vtyConfig = 1 ∧ world.config = 1 then
    { world with config := 0, vtyConfig := 0 }
  else world

/-! ## Passwords -/

/-- The settings that decide who may log in: fields of `struct host`, and
`no_password_check` and `restricted_mode`. -/
structure Access where
  encrypt : Bool
  advanced : Bool
  password : Option CStr
  passwordEncrypt : Option CStr
  enable : Option CStr
  enableEncrypt : Option CStr
  noPasswordCheck : Bool
  restrictedMode : Bool
deriving DecidableEq, Repr

/-! ## Handlers -/

abbrev Result (Rest : Type) := CmdStatus × Vty × Surroundings Rest

variable (vty : Vty)

/-- `configure terminal`. -/
def configTerminal (world : Surroundings Rest) : Result Rest :=
  match vtyConfigLock world with
  | (0, world) => (.warning, vty, world)
  | (_ + 1, world) => (.success, { vty with node := .configNode }, world)

/-- `enable`. -/
def enable (access : Access) (vty : Vty) (world : Surroundings Rest) : Result Rest :=
  if (access.enable = none ∧ access.enableEncrypt = none) ∨ world.type = .shellServ then
    (.success, { vty with node := .enableNode }, world)
  else (.success, { vty with node := .authEnableNode }, world)

/-- `disable`. -/
def disable (world : Surroundings Rest) : Result Rest :=
  if vty.node = .enableNode then
    (.success, { vty with node := .viewNode }, world)
  else (.success, vty, world)

/-- The `switch` of `config_exit`.  A session of a daemon is not the terminal
of a shell, so that `exit (0)` is not reached. -/
def exitNode (node : NodeType) (world : Surroundings Rest) : NodeType × Surroundings Rest :=
  match node with
  | .viewNode | .enableNode | .restrictedNode =>
    (node, { world with status := .close })
  | .configNode => (.enableNode, vtyConfigUnlock world)
  | .aaaServerGroupNode | .interfaceNode | .vlanNode | .mgmtInterfaceNode
  | .vlanInterfaceNode | .dhcpServerNode | .tftpServerNode
  | .accessListNode | .mirrorNode | .linkAggregationNode
  | .qosQueueProfileNode | .qosScheduleProfileNode | .zebraNode | .bgpNode
  | .ripNode | .ripngNode | .babelNode | .ospfNode | .ospf6Node | .isisNode
  | .keychainNode | .mascNode | .rmapNode | .pimNode | .vtyNode =>
    (.configNode, world)
  | .bgpVpnv4Node | .bgpIpv4Node | .bgpIpv4mNode | .bgpIpv6Node
  | .bgpIpv6mNode => (.bgpNode, world)
  | .keychainKeyNode => (.keychainNode, world)
  | _ => (node, world)

/-- `exit` and `quit`. -/
def configExit (world : Surroundings Rest) : Result Rest :=
  match exitNode vty.node world with
  | (node, world) => (.success, ⟨node, none, []⟩, world)

/-- The nodes that `end` leaves. -/
def configEndNodes : List NodeType :=
  [.configNode, .aaaServerGroupNode, .interfaceNode, .vlanNode,
    .linkAggregationNode, .qosQueueProfileNode, .qosScheduleProfileNode,
    .mgmtInterfaceNode, .vlanInterfaceNode, .dhcpServerNode,
    .tftpServerNode, .accessListNode, .mirrorNode, .zebraNode, .ripNode,
    .ripngNode, .babelNode, .bgpNode, .bgpVpnv4Node, .bgpIpv4Node,
    .bgpIpv4mNode, .bgpIpv6Node, .bgpIpv6mNode, .rmapNode, .ospfNode,
    .ospf6Node, .isisNode, .keychainNode, .keychainKeyNode, .mascNode,
    .pimNode, .vtyNode]

/-- The nodes that `^Z` leaves: not the VLAN interfaces. -/
def vtyEndConfigNodes : List NodeType :=
  [.configNode, .aaaServerGroupNode, .interfaceNode, .vlanNode,
    .mgmtInterfaceNode, .linkAggregationNode, .qosQueueProfileNode,
    .qosScheduleProfileNode, .zebraNode, .ripNode, .ripngNode, .babelNode,
    .bgpNode, .bgpVpnv4Node, .bgpIpv4Node, .bgpIpv4mNode, .bgpIpv6Node,
    .bgpIpv6mNode, .rmapNode, .ospfNode, .ospf6Node, .isisNode,
    .keychainNode, .keychainKeyNode, .mascNode, .pimNode, .vtyNode,
    .dhcpServerNode, .tftpServerNode, .accessListNode, .mirrorNode]

/-- The nodes that `^C` leaves: not the address families of BGP. -/
def vtyStopInputNodes : List NodeType :=
  [.configNode, .aaaServerGroupNode, .interfaceNode, .vlanNode,
    .linkAggregationNode, .qosQueueProfileNode, .qosScheduleProfileNode,
    .mgmtInterfaceNode, .vlanInterfaceNode, .dhcpServerNode,
    .tftpServerNode, .accessListNode, .mirrorNode, .zebraNode, .ripNode,
    .ripngNode, .babelNode, .bgpNode, .rmapNode, .ospfNode, .ospf6Node,
    .isisNode, .keychainNode, .keychainKeyNode, .mascNode, .pimNode,
    .vtyNode]

/-- A `switch` that gives up the lock and goes to the enable node from the
listed nodes. -/
def leaveConfig (listed : List NodeType) (vty : Vty)
    (world : Surroundings Rest) : Vty × Surroundings Rest :=
  if vty.node ∈ listed then
    ({ vty with node := .enableNode }, vtyConfigUnlock world)
  else (vty, world)

/-- `end`. -/
def configEnd (world : Surroundings Rest) : Result Rest :=
  match leaveConfig configEndNodes vty world with
  | (vty, world) => (.success, { vty with indexList := [] }, world)

/-- `vty_end_config`, for `^Z`. -/
def vtyEndConfig (world : Surroundings Rest) : Vty × Surroundings Rest :=
  leaveConfig vtyEndConfigNodes vty world

/-- `vty_stop_input`, for `^C`. -/
def vtyStopInput (world : Surroundings Rest) : Vty × Surroundings Rest :=
  leaveConfig vtyStopInputNodes vty world

/-- A handler that may change the daemon and the index.  It stays at its node
or moves between configuration nodes, as `interface` and `router` do. -/
structure Work (Rest : Type) where
  act : List Arg → Vty → Rest → CmdStatus × Vty × Rest
  moves : ∀ argv vty rest, (act argv vty rest).2.1.node = vty.node ∨
      inConfig vty.node ∧ inConfig (act argv vty rest).2.1.node

/-- The function behind a command. -/
inductive Routine (Rest : Type) where
  | configTerminal
  | enable
  | disable
  | configExit
  | configEnd
  | work (task : Work Rest)

def Routine.run (access : Rest → Access) :
    Routine Rest → List Arg → Vty → Surroundings Rest → Result Rest
  | .configTerminal, _, vty, world => Session.configTerminal vty world
  | .enable, _, vty, world => Session.enable (access world.rest) vty world
  | .disable, _, vty, world => Session.disable vty world
  | .configExit, _, vty, world => Session.configExit vty world
  | .configEnd, _, vty, world => Session.configEnd vty world
  | .work task, argv, vty, world =>
    match task.act argv vty world.rest with
    | (status, vty, rest) => (status, vty, { world with rest })

/-! ## The library in a daemon -/

/-- A daemon with its command tables.  `cmd_init` installs `enable` at the
view node and at the restricted node only. -/
structure Daemon (Rest : Type) where
  env : MatchEnv
  qsort : Sorter TacacsServer
  commands : NodeType → List CmdElement
  routine : CmdElement → Routine Rest
  systemReady : Rest → Bool × Rest
  tables : Rest → AaaTables
  author : Rest → Author
  asked : Rest → List Contact → Rest
  access : Rest → Access
  crypt : CStr → CStr → CStr
  enable_installed : ∀ node, ∀ command ∈ commands node,
    routine command = .enable → node = .viewNode ∨ node = .restrictedNode

variable (daemon : Daemon Rest)

def Daemon.services : Services (Surroundings Rest) where
  env := daemon.env
  qsort := daemon.qsort
  commands := daemon.commands
  systemReady world :=
    match daemon.systemReady world.rest with
    | (ready, rest) => (ready, { world with rest })
  tables world := daemon.tables world.rest
  author world := daemon.author world.rest
  asked world contacts := { world with rest := daemon.asked world.rest contacts }
  handler command argv vty world := (daemon.routine command).run daemon.access argv vty world

/-- The fields of the `struct vty` of a live session. -/
structure Terminal where
  vty : Vty
  config : Nat
  status : VtyStatus
  type : VtyType
  fail : Nat
deriving DecidableEq, Repr

/-- `vty_new` with the node and the type of the session. -/
def Terminal.new (type : VtyType) (node : NodeType) : Terminal :=
  ⟨⟨node, none, []⟩, 0, .normal, type, 0⟩

/-- A daemon at work, with its live sessions by the number of the socket;
`szToken` is the static buffer of the matcher. -/
structure Process (Rest : Type) where
  vtyConfig : Nat
  szToken : CStr
  rest : Rest
  live : Nat → Option Terminal

namespace Process

def start (rest : Rest) : Process Rest :=
  ⟨0, [], rest, fun _ => none⟩

/-- The surroundings that a handler sees in a session. -/
def surroundings (process : Process Rest) (terminal : Terminal) : Surroundings Rest :=
  ⟨process.vtyConfig, terminal.config, terminal.status, terminal.type, process.rest⟩

def session (process : Process Rest) (terminal : Terminal) : Session (Surroundings Rest) :=
  ⟨terminal.vty, process.surroundings terminal, process.szToken, none, []⟩

/-- What a session has done is written back. -/
def store (process : Process Rest) (fd : Nat) (terminal : Terminal) (vty : Vty)
    (world : Surroundings Rest) : Process Rest :=
  { process with
    vtyConfig := world.vtyConfig
    rest := world.rest
    live := Function.update process.live fd (some
      { terminal with
        vty, config := world.config, status := world.status }) }

/-- The lock is given up and the session freed, as at the end of
`vty_close`. -/
def vtyClose (process : Process Rest) (fd : Nat) (terminal : Terminal) : Process Rest :=
  { process with
    vtyConfig := (vtyConfigUnlock (process.surroundings terminal)).vtyConfig
    live := Function.update process.live fd none }

end Process

/-! ## Connecting and logging in -/

/-- The node at which `vty_create` starts. -/
def loginNode (access : Access) : NodeType :=
  if access.noPasswordCheck then
    if access.restrictedMode then .restrictedNode
    else if access.advanced then .enableNode
    else .viewNode
  else .authNode

/-- `vty_create`; without a password to ask for, the session is closed. -/
def vtyCreate (fd : Nat) (process : Process Rest) : Process Rest :=
  let access := daemon.access process.rest
  let terminal := Terminal.new .term (loginNode access)
  let connected := { process with live := Function.update process.live fd (some terminal) }
  if !access.noPasswordCheck && access.password = none && access.passwordEncrypt = none then
    connected.vtyClose fd { terminal with status := .close }
  else connected

/-- `vtysh_accept`. -/
def vtyshAccept (fd : Nat) (process : Process Rest) : Process Rest :=
  { process with
    live := Function.update process.live fd
      (some (Terminal.new .shellServ .viewNode)) }

/-- The password that `vty_auth` asks for and the node behind it. -/
def authTarget (access : Access) (node : NodeType) : Option CStr × NodeType :=
  if node = .authNode then
    (if access.encrypt then access.passwordEncrypt else access.password,
      if access.advanced && access.enable = none then .enableNode
      else .viewNode)
  else
    (if access.encrypt then access.enableEncrypt else access.enable, .enableNode)

/-- Whether `vty_auth` takes the line for the password. -/
def authAccepts (access : Access) (buf : CStr) : Option CStr → Bool
  | none => false
  | some passwd =>
    if access.encrypt then daemon.crypt buf passwd = passwd
    else buf = passwd

/-- `vty_auth`, at the authentication nodes. -/
def vtyAuth (access : Access) (buf : CStr)
    (terminal : Terminal) : Terminal :=
  match authTarget access terminal.vty.node with
  | (passwd, nextNode) =>
    if authAccepts daemon access buf passwd then
      { terminal with fail := 0, vty := { terminal.vty with node := nextNode } }
    else if terminal.fail + 1 < 3 then
      { terminal with fail := terminal.fail + 1 }
    else if terminal.vty.node = .authNode then
      { terminal with fail := terminal.fail + 1, status := .close }
    else
      { terminal with
        fail := 0
        vty := { terminal.vty with
          node := if access.restrictedMode then .restrictedNode
            else .viewNode } }

/-! ## Lines -/

/-- `vty_command`. -/
def vtyCommand (fd : Nat) (buf : CStr) (terminal : Terminal)
    (process : Process Rest) : Option (Process Rest) :=
  match cmdMakeStrvec buf with
  | none => some process
  | some words =>
    (cmdExecuteCommand daemon.services (words.map some) false (process.session terminal)).map
      fun done =>
        { process.store fd terminal done.2.vty done.2.world with
          szToken := done.2.szToken }

/-- `vty_execute`. -/
def vtyExecute (fd : Nat) (buf : CStr) (terminal : Terminal)
    (process : Process Rest) : Option (Process Rest) :=
  if terminal.vty.node = .authNode ∨ terminal.vty.node = .authEnableNode then
    some { process with
      live := Function.update process.live fd
        (some (vtyAuth daemon (daemon.access process.rest) buf terminal)) }
  else vtyCommand daemon fd buf terminal process

/-! ## Events -/

/-- What happens to a session.  `vty_reset` closes the terminals one after the
other. -/
inductive Event where
  | connect
  | connectShell
  | line (buf : CStr)
  | endConfig
  | stopInput
  | downLevel
  | close
  | timeout
deriving DecidableEq, Repr

/-- An event at a live session; `none` where the code has no defined
behaviour. -/
def Daemon.handle (fd : Nat) (terminal : Terminal)
    (process : Process Rest) : Event → Option (Process Rest)
  | .connect => some process
  | .connectShell => some process
  | .line buf => vtyExecute daemon fd buf terminal process
  | .endConfig =>
    match vtyEndConfig terminal.vty (process.surroundings terminal) with
    | (vty, world) => some (process.store fd terminal vty world)
  | .stopInput =>
    match vtyStopInput terminal.vty (process.surroundings terminal) with
    | (vty, world) => some (process.store fd terminal vty world)
  | .downLevel =>
    match configExit terminal.vty (process.surroundings terminal) with
    | (_, vty, world) => some (process.store fd terminal vty world)
  | .close => some (process.vtyClose fd terminal)
  | .timeout =>
    some (process.vtyClose fd { terminal with status := .close })

/-- An event at the socket `fd`: only a socket that is not in use is accepted,
and only a live session receives anything else. -/
def Daemon.step (process : Process Rest)
    (event : Nat × Event) : Option (Process Rest) :=
  match process.live event.1 with
  | some terminal => daemon.handle event.1 terminal process event.2
  | none =>
    match event.2 with
    | .connect => some (vtyCreate daemon event.1 process)
    | .connectShell => some (vtyshAccept event.1 process)
    | _ => some process

def Daemon.run (daemon : Daemon Rest) : List (Nat × Event) → Process Rest → Option (Process Rest)
  | [], process => some process
  | event :: rest, process =>
    match daemon.step process event with
    | none => none
    | some next => daemon.run rest next

end OpsCli.Vty.Session
