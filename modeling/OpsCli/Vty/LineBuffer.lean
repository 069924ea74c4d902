import OpsCli.Command.Execute
import OpsCli.Command.Line

/-!
# The line of a session while it is executed

Before it calls a handler, `cmd_execute_command_real` lets `vty->buf` point at
the string of the command, and nothing sets it back.  `vty_execute` ends by
clearing `vty->buf`, which it cannot do in a string literal.
-/

namespace OpsCli.Vty.LineBuffer

open CLib CString Command.Selection Command.Execute Command.Line

variable {World : Type}

/-- What happens only behind the assignment to `vty->buf`: a call of the handler, or the
message in its place. -/
def isCall : Event → Bool
  | .authorization .. => false
  | .handler .. => true
  | .output text => text = notReadyText

/-- `vty->buf` is the string of a command. -/
def repointed (session : Session World) : Bool :=
  session.events.any isCall

/-- The message of `vty_command` for a status, on a session that reads no file. -/
def statusText (protocolname newline buf : CStr) : CmdStatus → CStr
  | .errAmbiguous => "% Ambiguous command." ++ newline
  | .errNoMatch => "% [" ++ protocolname ++ "] Unknown command: " ++ buf ++ newline
  | .errIncomplete => "% Command incomplete." ++ newline
  | _ => []

variable (services : Services World) (protocolname newline : CStr)

/-- `vty_command`, with the events of this line only. -/
def vtyCommand (buf : CStr) (session : Session World) : Option (CmdStatus × Session World) :=
  let session := { session with events := [] }
  match cmdMakeStrvec buf with
  | none => some (.success, session)
  | some words =>
    (cmdExecuteCommand services (words.map some) false session).map fun next =>
      (next.1, next.2.happens next.2.world
        (.output (statusText protocolname newline buf next.1)))

/-- `vty_execute` at a node that asks for no password; there is no defined behaviour where
the line to be cleared is the string of a command. -/
def vtyExecute (buf : CStr) (session : Session World) : Option (CmdStatus × Session World) :=
  (vtyCommand services protocolname newline buf session).filter fun next => !repointed next.2

def versionServices : Services Unit :=
  plainServices (fun _ => [⟨"show version",
    [.terminal ⟨"show", none, none⟩, .terminal ⟨"version", none, none⟩], false, false, false, 0⟩])
    fun _ => .success

end OpsCli.Vty.LineBuffer
