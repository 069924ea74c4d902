import OpsCli.Command.Authorization
import OpsCli.Command.Autocomplete
import OpsCli.Command.Selection

/-!
# Executing a command

`cmd_execute_command_real` selects the command for a line, asks for
authorization and runs the handler, once or for every entry of the index list.
`cmd_execute_command` adds the shortcut `do` and the walk to the parent nodes.
What happens is kept as a list of events.
-/

namespace OpsCli.Command.Execute

open CLib CString Qsort Token WordMatch Matcher Selection Authorization
  Autocomplete

/-! ## Nodes -/

/-- `enum node_type`, in its order. -/
inductive NodeType where
  | authNode
  | restrictedNode
  | viewNode
  | authEnableNode
  | enableNode
  | configNode
  | serviceNode
  | debugNode
  | aaaNode
  | aaaServerGroupNode
  | keychainNode
  | keychainKeyNode
  | interfaceNode
  | zebraNode
  | tableNode
  | ripNode
  | ripngNode
  | babelNode
  | bgpNode
  | bgpVpnv4Node
  | bgpIpv4Node
  | bgpIpv4mNode
  | bgpIpv6Node
  | bgpIpv6mNode
  | ospfNode
  | ospf6Node
  | isisNode
  | pimNode
  | mascNode
  | irdpNode
  | ipNode
  | prefixNode
  | prefixIpv6Node
  | asListNode
  | communityListNode
  | rmapNode
  | smuxNode
  | dumpNode
  | forwardingNode
  | protocolNode
  | dhcpServerNode
  | tftpServerNode
  | accessListNode
  | mirrorNode
  | vlanNode
  | mgmtInterfaceNode
  | linkAggregationNode
  | qosQueueProfileNode
  | qosScheduleProfileNode
  | vlanInterfaceNode
  | subInterfaceNode
  | loopbackInterfaceNode
  | ipsecIkeNode
  | ipsecIkeIsakmpNode
  | vrrpIfNode
  | vtyNode
deriving DecidableEq, Repr

/-- `vty->node >= CONFIG_NODE`. -/
def inConfig (node : NodeType) : Bool :=
  NodeType.configNode.ctorIdx ≤ node.ctorIdx

/-- `vty->node > CONFIG_NODE`. -/
def belowConfig (node : NodeType) : Bool :=
  NodeType.configNode.ctorIdx < node.ctorIdx

/-- `node_parent`, for a node above `CONFIG_NODE` in the enumeration. -/
def nodeParent : NodeType → NodeType
  | .bgpVpnv4Node => .bgpNode
  | .bgpIpv4Node => .bgpNode
  | .bgpIpv4mNode => .bgpNode
  | .bgpIpv6Node => .bgpNode
  | .bgpIpv6mNode => .bgpNode
  | .keychainKeyNode => .keychainNode
  | _ => .configNode

/-- The nodes that a walk from this node can try after it. -/
def ancestors (node : NodeType) : List NodeType :=
  if belowConfig node then
    if belowConfig (nodeParent node) then
      [nodeParent node, nodeParent (nodeParent node)]
    else [nodeParent node]
  else []

/-! ## The terminal and its surroundings -/

/-- The fields of `struct vty` that execution reads and writes.  The empty
list is the null pointer. -/
structure Vty where
  node : NodeType
  index : Option CStr
  indexList : List CStr
deriving DecidableEq, Repr

/-- What the executor calls: the command tables, the handlers, the database
and the TACACS+ servers.  All of them may depend on the outside world and
change it. -/
structure Services (World : Type) where
  env : MatchEnv
  qsort : Sorter TacacsServer
  commands : NodeType → List CmdElement
  systemReady : World → Bool × World
  tables : World → AaaTables
  author : World → Author
  asked : World → List Contact → World
  handler : CmdElement → List Arg → Vty → World → CmdStatus × Vty × World

inductive Event where
  | authorization (command : CmdElement) (status : Int)
  | handler (command : CmdElement) (argv : List Arg) (index : Option CStr) (status : CmdStatus)
  | output (text : CStr)
deriving DecidableEq, Repr

/-- The state of the shell; `cmd` is the element reported to the caller and
`szToken` the static buffer of the matcher. -/
structure Session (World : Type) where
  vty : Vty
  world : World
  szToken : CStr
  cmd : Option CmdElement
  events : List Event
deriving DecidableEq, Repr

variable {World : Type}

namespace Session

variable (session : Session World)

def withVty (vty : Vty) : Session World :=
  { session with vty }

def withSzToken (szToken : CStr) : Session World :=
  { session with szToken }

def happens (world : World) (event : Event) : Session World :=
  { session with world, events := session.events ++ [event] }

def setNode (node : NodeType) : Session World :=
  session.withVty { session.vty with node }

def setIndexList (indexList : List CStr) : Session World :=
  session.withVty { session.vty with indexList }

def setIndex (index : Option CStr) : Session World :=
  session.withVty { session.vty with index }

end Session

/-! ## Authorization -/

/-- The commands that are never sent for authorization. -/
def isExempt (command : CmdElement) : Bool :=
  command.string = "exit" || command.string = "end"

/-- The statuses of `check_cmd_authorization` that stop the command. -/
def isRefusal (status : Int) : Bool :=
  status = exitFail || status = exitConnErr

def refusalText (status : Int) : CStr :=
  if status = exitFail then
    "Cannot execute command. Command not allowed.\n"
  else
    ("Cannot execute command. Could not connect to any TACACS+ " ++ "servers.\n").toList

/-- The outcome of the authorization is noted, with the message if the
command is stopped. -/
def noteAuthorization (command : CmdElement) (status : Int) (session : Session World)
    (world : World) : Session World :=
  let noted := session.happens world (.authorization command status)
  if isRefusal status then noted.happens world (.output (refusalText status))
  else noted

variable (services : Services World)

/-- The command is sent for authorization if the system is ready; the flag
says that it may be executed. -/
def authorize (command : CmdElement)
    (session : Session World) : Option (Bool × Session World) :=
  if isExempt command then some (true, session)
  else
    match services.systemReady session.world with
    | (false, world) => some (true, { session with world })
    | (true, world) =>
      match checkCmdAuthorization services.qsort (services.tables world)
          (services.author world) command.string with
      | none => none
      | some answer =>
        some (!isRefusal answer.status, noteAuthorization command answer.status session
            (services.asked world answer.contacts))

/-! ## Handlers -/

/-- Whether the handler is called; a command that does not need the database
is not held up. -/
def handlerReady (command : CmdElement)
    (world : World) : Bool × World :=
  if command.nonIdlCmd then (true, world) else services.systemReady world

/-- The message that takes the place of a call. -/
def notReadyText : CStr :=
  "System is not ready. Please retry after few seconds..\n"

/-- One call of the handler, or the message that the system is not ready; in
the latter case `ret` keeps its value. -/
def invoke (command : CmdElement) (argv : List Arg) (ret : CmdStatus)
    (session : Session World) : CmdStatus × Session World :=
  match handlerReady services command session.world with
  | (false, world) => (ret, session.happens world (.output notReadyText))
  | (true, world) =>
    match services.handler command argv session.vty world with
    | (status, vty, world) =>
      (status, (session.happens world (.handler command argv session.vty.index status)).withVty vty)

def indexLoop (command : CmdElement) (argv : List Arg) :
    List CStr → CmdStatus → Session World → CmdStatus × Session World
  | [], ret, session => (ret, session)
  | value :: rest, ret, session =>
    let next := invoke services command argv ret (session.setIndex value)
    if next.2.vty.index = none then next
    else indexLoop command argv rest next.1 next.2

def runHandlers (command : CmdElement) (argv : List Arg)
    (session : Session World) : CmdStatus × Session World :=
  if session.vty.indexList = [] then
    invoke services command argv .success session
  else
    indexLoop services command argv session.vty.indexList .success session

/-! ## The executor -/

def maxCfgdataLen : Nat := 1288

/-- The record of the command is written into a buffer of fixed size. -/
def recordFits (env : MatchEnv) (node : NodeType) (command : CmdElement)
    (vline : List (Option CStr)) : Bool :=
  !inConfig node || (autocompleteCommandTokens env command.tokens vline []).any
      fun record => record.length < maxCfgdataLen

/-- The second half of `cmd_execute_command_real`. -/
def dispatch (command : CmdElement) (argv : List Arg)
    (session : Session World) : Option (CmdStatus × Session World) :=
  match authorize services command session with
  | none => none
  | some (false, session) => some (.errNothingTodo, session)
  | some (true, session) =>
    if command.daemon ≠ 0 then some (.successDaemon, session)
    else some (runHandlers services command argv session)

/-- `cmd_execute_command_real`. -/
def cmdExecuteCommandReal (filter : FilterType)
    (vline : List (Option CStr)) (session : Session World) : Option (CmdStatus × Session World) :=
  match selectCommand services.env filter vline
      (services.commands session.vty.node) session.szToken with
  | none => none
  | some (.refused status, szToken) =>
    some (status, session.withSzToken szToken)
  | some (.command command argv, szToken) =>
    if recordFits services.env session.vty.node command vline then
      dispatch services command argv { session with szToken, cmd := some command }
    else none

/-! ## The shortcut and the parents -/

/-- `cmd_try_do_shortcut`. -/
def cmdTryDoShortcut (node : NodeType) (firstWord : Option CStr) : Bool :=
  node ≠ .authNode && node ≠ .viewNode && node ≠ .authEnableNode &&
    node ≠ .enableNode && node ≠ .restrictedNode &&
    firstWord = some "do".toList

/-- The line behind `do`, tried on the enable node. -/
def executeShortcut (vline : List (Option CStr))
    (session : Session World) : Option (CmdStatus × Session World) :=
  (cmdExecuteCommandReal services .relaxed vline.tail
      ((session.setIndexList []).setNode .enableNode)).map
    fun next => (next.1, (next.2.setNode session.vty.node).setIndexList session.vty.indexList)

/-- The loop over the parents; `node_parent` asserts that there is one. -/
def parentLoop (vline : List (Option CStr)) (savedRet : CmdStatus)
    (onode : NodeType) :
    List NodeType → CmdStatus → Session World → Option (CmdStatus × Session World)
  | nodes, ret, session =>
    if ret = .success || ret = .warning || !belowConfig session.vty.node
    then some (savedRet, session.setNode onode)
    else
      match nodes with
      | [] => none
      | node :: rest =>
        match cmdExecuteCommandReal services .relaxed vline (session.setNode node) with
        | none => none
        | some (ret, session) =>
          if ret = .success || ret = .warning then some (ret, session)
          else parentLoop vline savedRet onode rest ret session

/-- `cmd_execute_command`. -/
def cmdExecuteCommand (vline : List (Option CStr)) (vtysh : Bool)
    (session : Session World) : Option (CmdStatus × Session World) :=
  if cmdTryDoShortcut session.vty.node (vline.head?.join) then
    executeShortcut services vline session
  else
    match cmdExecuteCommandReal services .relaxed vline session with
    | none => none
    | some (ret, next) =>
      if vtysh then some (ret, next)
      else if ret = .success || ret = .warning || !belowConfig next.vty.node then some (ret, next)
      else
        parentLoop services vline ret session.vty.node (ancestors session.vty.node) ret next

/-! ## A small system -/

/-- No callback is installed and no IPv6 address is known. -/
def plainEnv : MatchEnv where
  inetPton6 _ := false
  verifyIfname _ := false
  interfaceMatch := none
  portMatch := none
  vlanMatch := none
  macMatch := none
  uninit := ⟨(0, 0), (0, 0)⟩
  ifnameUninit := (0, 0)

/-- A system that is always ready, has no authorization groups besides
`none`, and whose handlers change nothing. -/
def plainServices (commands : NodeType → List CmdElement)
    (status : CmdElement → CmdStatus) : Services Unit where
  env := plainEnv
  qsort := Sorter.insertion
  commands := commands
  systemReady world := (true, world)
  tables _ := ⟨some [⟨0, tacNoneGroup⟩], [], none, none⟩
  author _ _ _ _ := exitOk
  asked world _ := world
  handler command _ vty world := (status command, vty, world)

def plainSession (node : NodeType) : Session Unit :=
  ⟨⟨node, none, []⟩, (), [], none, []⟩

end OpsCli.Command.Execute
