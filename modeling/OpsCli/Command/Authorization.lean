import OpsCli.CLib.CString
import OpsCli.CLib.Qsort

/-!
# Command authorization

`check_cmd_authorization` asks the TACACS+ servers of the configured groups
whether a command may be executed.  The passkey of each server is copied into
one buffer, which is allocated before the groups are visited and freed after
each of them.  `none` stands for undefined behaviour.
-/

namespace OpsCli.Command.Authorization

open CLib CString Qsort

def exitOk : Int := 0
def exitFail : Int := 1
def exitConnErr : Int := 2

def tacNoneGroup : CStr := "none"
def tacDefaultGroup : CStr := "tacacs_plus"

def maxLengthTacacsPasskey : Nat := 32

/-! ## The tables -/

/-- A passkey is a C string: the terminator is not part of it. -/
structure Passkey where
  text : CStr
  noTerminator : '\x00' ∉ text
deriving DecidableEq, Repr

/-- The columns of a `TACACS_Server` row that are read; `group` holds the
identities of its groups. -/
structure TacacsServer where
  address : CStr
  group : List Nat
  defaultGroupPriority : Int
  userGroupPriority : Option Int
  passkey : Option Passkey
  timeout : Option Int
deriving DecidableEq, Repr

/-- A row of `AAA_Server_Group`, with its identity. -/
structure AaaServerGroup where
  row : Nat
  groupName : CStr
deriving DecidableEq, Repr

/-- What the database holds: the authorization groups of the first
`AAA_Server_Group_Prio` row, the servers and the two global settings. -/
structure AaaTables where
  authorizationGroupPrios : Option (List AaaServerGroup)
  servers : List TacacsServer
  tacacsTimeout : Option CStr
  tacacsPasskey : Option Passkey
deriving DecidableEq, Repr

/-- The condition for putting a server on the list of a group. -/
def belongs (group : AaaServerGroup) (server : TacacsServer) : Bool :=
  (match server.group with
    | first :: second :: _ => first = group.row || second = group.row
    | _ => false) ||
    group.groupName = tacDefaultGroup

/-! ## Sorting -/

/-- The conversion of a difference of 64-bit integers to `int`. -/
def toInt (value : Int) : Int :=
  Int.bmod value (2 ^ 32)

/-- `compare_nodes_by_tacacs_server_default_priority`. -/
def compareNodesByTacacsServerDefaultPriority (a b : TacacsServer) : Int :=
  toInt (a.defaultGroupPriority - b.defaultGroupPriority)

/-- `compare_nodes_by_tacacs_server_group_priority`, for servers that have a
group priority. -/
def compareNodesByTacacsServerGroupPriority (a b : TacacsServer) : Int :=
  toInt (a.userGroupPriority.getD 0 - b.userGroupPriority.getD 0)

/-- `sort_servers` for TACACS+ servers: `some none` is the null pointer for an
empty list.  The group priority is dereferenced as soon as two servers are
compared. -/
def sortServers (qsort : Sorter TacacsServer) (list : List TacacsServer)
    (byDefaultPriority : Bool) : Option (Option (List TacacsServer)) :=
  if list = [] then some none
  else if byDefaultPriority then
    some (some (qsort.sort compareNodesByTacacsServerDefaultPriority list))
  else if 1 < list.length && list.any (fun server => server.userGroupPriority.isNone) then none
  else some (some (qsort.sort compareNodesByTacacsServerGroupPriority list))

/-! ## The passkey buffer -/

/-- The buffer after `malloc` and `memset`. -/
def emptyBuffer : List Char :=
  List.replicate maxLengthTacacsPasskey '\x00'

/-- `strncpy` of the key without its terminator, and a terminator one position
further; both must stay inside the buffer. -/
def copyPasskey (buffer : List Char) (key : CStr) : Option (List Char) :=
  if key.length + 1 < maxLengthTacacsPasskey then
    some ((key ++ buffer.drop key.length).set (key.length + 1) '\x00')
  else none

def bufferText (buffer : List Char) : CStr :=
  buffer.takeWhile (· ≠ '\x00')

/-! ## The servers of a group -/

/-- A call of `tac_cmd_author` for a server; the arguments that never change
are left out. -/
structure Contact where
  server : TacacsServer
  passkey : CStr
  timeout : Int
deriving DecidableEq, Repr

/-- The answer of `tac_cmd_author` for an address, a passkey and a
command. -/
abbrev Author := CStr → CStr → CStr → Int

/-- A server answers, or none of them does. -/
inductive Answer where
  | answered (status : Int) (contacts : List Contact)
  | silent (status : Int) (buffer : List Char) (contacts : List Contact)
deriving DecidableEq, Repr

/-- The timeout for a server; the global one is converted by `atoi`. -/
def serverTimeout (tables : AaaTables) (server : TacacsServer) : Option Int :=
  match server.timeout with
  | some timeout => some timeout
  | none => tables.tacacsTimeout.map atoi

def serverPasskey (tables : AaaTables) (server : TacacsServer) : Option Passkey :=
  match server.passkey with
  | some passkey => some passkey
  | none => tables.tacacsPasskey

def askServers (tables : AaaTables) (author : Author) (command : CStr) :
    List TacacsServer → Int → List Char → List Contact → Option Answer
  | [], status, buffer, contacts => some (.silent status buffer contacts)
  | server :: rest, _, buffer, contacts =>
    match serverTimeout tables server, serverPasskey tables server with
    | some timeout, some passkey =>
      match copyPasskey buffer passkey.text with
      | none => none
      | some buffer =>
        let status := author server.address (bufferText buffer) command
        let contacts := contacts ++ [⟨server, bufferText buffer, timeout⟩]
        if status = exitOk || status = exitFail then
          some (.answered status contacts)
        else askServers tables author command rest status buffer contacts
    | _, _ => none

/-! ## The groups -/

/-- What `check_cmd_authorization` returns and whom it asked. -/
structure AuthorizationResult where
  status : Int
  contacts : List Contact
deriving DecidableEq, Repr

/-- The variables that are carried from one group to the next; `passkey` is
`none` once it has been freed. -/
structure GroupState where
  passkey : Option (List Char)
  byDefaultPriority : Bool
  status : Int
  contacts : List Contact
deriving DecidableEq, Repr

/-- The loop over the groups; `last` is the group visited before, whose name
is looked at behind the loop. -/
def groupLoop (qsort : Sorter TacacsServer) (tables : AaaTables)
    (author : Author) (command : CStr) :
    List AaaServerGroup → AaaServerGroup → GroupState → Option AuthorizationResult
  | [], last, state =>
    some ⟨if last.groupName ≠ tacNoneGroup then exitConnErr
      else state.status, state.contacts⟩
  | group :: rest, _, state =>
    if group.groupName ≠ tacNoneGroup then
      let byDefaultPriority := state.byDefaultPriority || group.groupName = tacDefaultGroup
      match sortServers qsort (tables.servers.filter (belongs group)) byDefaultPriority with
      | none => none
      | some none => some ⟨exitFail, state.contacts⟩
      | some (some nodes) =>
        match state.passkey with
        | none => none
        | some buffer =>
          match askServers tables author command nodes state.status buffer state.contacts with
          | none => none
          | some (.answered status contacts) => some ⟨status, contacts⟩
          | some (.silent status _ contacts) =>
            groupLoop qsort tables author command rest group
              ⟨none, byDefaultPriority, status, contacts⟩
    else
      match state.passkey with
      | none => none
      | some _ => some ⟨exitOk, state.contacts⟩

/-- `check_cmd_authorization`. -/
def checkCmdAuthorization (qsort : Sorter TacacsServer) (tables : AaaTables) (author : Author)
    (tacCommand : CStr) : Option AuthorizationResult :=
  match tables.authorizationGroupPrios with
  | none => some ⟨exitFail, []⟩
  | some [] => some ⟨exitOk, []⟩
  | some (group :: rest) =>
    if group.groupName ≠ tacNoneGroup then
      groupLoop qsort tables author tacCommand (group :: rest) group
        ⟨some emptyBuffer, false, exitOk, []⟩
    else some ⟨exitOk, []⟩

end OpsCli.Command.Authorization
