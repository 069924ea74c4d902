import OpsCli.Vty.LineBuffer

/-!
# The connection between the shell and a daemon

`vtysh_client_execute` sends a line with its terminating zero to a daemon and
copies the answer to its output.  The daemon collects the bytes in
`vtysh_read`, executes the line at the zero, and answers with what the command
has printed, three zeros and the status.  Both sides see the streams in pieces
of any size.  There is no answer to a line that comes to a handler.
-/

namespace OpsCli.Vtysh.Wire

open CLib.CString Command.Selection Command.Execute Vty.LineBuffer

abbrev Bytes := List UInt8

/-- A `char` as an `int`. -/
def charToInt (byte : UInt8) : Int :=
  if byte.toNat < 128 then byte.toNat else byte.toNat - 256

/-- An `int` as a `u_char`. -/
def statusByte (ret : Int) : UInt8 :=
  UInt8.ofNat (ret % 256).toNat

/-- The bytes in front of the first zero. -/
def cString (bytes : Bytes) : Bytes :=
  bytes.takeWhile (· ≠ 0)

structure Line where
  bytes : Bytes
  proper : 0 ∉ bytes

/-! ## The daemon -/

/-- A line that has been executed, what it has printed and the status that is
reported. -/
structure Reply where
  command : Bytes
  text : Bytes
  status : UInt8
deriving DecidableEq, Repr

/-- The answer on the wire. -/
def Reply.bytes (reply : Reply) : Bytes :=
  reply.text ++ [0, 0, 0, reply.status]

/-- `vty_execute`: what a line prints, what it returns and what becomes of the
daemon, or `none` if it has no defined behaviour. -/
abbrev Execute (World : Type) := Bytes → World → Option (Bytes × Int × World)

/-- The line that is being collected, and the rest of the daemon. -/
structure Server (World : Type) where
  buf : Bytes
  world : World
deriving DecidableEq, Repr

variable {World : Type}

def lineString (line : Bytes) : CStr :=
  line.map fun byte => Char.ofNat byte.toNat

def printed (session : Session World) : Bytes :=
  session.events.flatMap fun
    | .output text => text.map fun c => UInt8.ofNat c.toNat
    | _ => []

def code : CmdStatus → Int
  | .other code => code
  | status => status.ctorIdx - 1

/-- `vty_execute` of a daemon, on a session of the shell. -/
def daemon (services : Services World) (protocolname : CStr) : Execute (Session World) :=
  fun line session =>
    (vtyExecute services protocolname "\n" (lineString line) session).map fun next =>
      (printed next.2, code next.1, next.2)

/-- The loop of `vtysh_read` over the bytes it has read. -/
def vtyshRead (execute : Execute World) : Bytes → Server World → Option (List Reply × Server World)
  | [], server => some ([], server)
  | p :: rest, server =>
    if p = 0 then
      let command := cString (server.buf ++ [p])
      match execute command server.world with
      | none => none
      | some (text, ret, world) =>
        (vtyshRead execute rest ⟨[], world⟩).map fun next =>
          (⟨command, text, statusByte ret⟩ :: next.1, next.2)
    else vtyshRead execute rest ⟨server.buf ++ [p], server.world⟩

/-- `VTY_READ_BUFSIZ`. -/
def vtyReadBufsiz : Nat := 512

/-! ## The shell -/

/-- The variables of the loop of `vtysh_client_execute`: the zeros that have
been counted, and what has been written to `fp`. -/
structure Waiting where
  numnulls : Nat
  output : Bytes
deriving DecidableEq, Repr

structure Outcome where
  output : Bytes
  ret : Int
deriving DecidableEq, Repr

/-- What a round of the loop comes to. -/
inductive Round where
  | waits (waiting : Waiting)
  | returns (outcome : Outcome)
deriving DecidableEq, Repr

/-- The inner loop: the zeros counted and the bytes that have not been looked
at. -/
def countNulls : Bytes → Nat → Nat × Bytes
  | [], numnulls => (numnulls, [])
  | byte :: rest, numnulls =>
    if numnulls < 3 then
      countNulls rest (if byte = 0 then numnulls + 1 else 0)
    else (numnulls, byte :: rest)

/-- Only the last four bytes of a long piece are looked at. -/
def trailingNulls (buf : Bytes) (numnulls : Nat) : Nat × Bytes :=
  if 4 ≤ buf.length then countNulls (buf.drop (buf.length - 4)) 0
  else countNulls buf numnulls

/-- One round of `vtysh_client_execute`, for a piece that has been read. -/
def clientRead (buf : Bytes) (waiting : Waiting) : Round :=
  if waiting.numnulls = 3 ∧ buf.length = 1 then
    .returns ⟨waiting.output, charToInt (buf.headD 0)⟩
  else
    match trailingNulls buf waiting.numnulls with
    | (numnulls, left) =>
      if 3 ≤ numnulls ∧ left ≠ [] then
        .returns ⟨waiting.output ++ cString buf, charToInt (buf.getLastD 0)⟩
      else .waits ⟨numnulls, waiting.output ++ cString buf⟩

/-- The size of the buffer of the shell, less one. -/
def clientBufsiz : Nat := 1000

/-! ## The connection -/

/-- Both sides and the bytes between them.  `sent` holds the lines of the
calls, `log` the replies of the daemon and `done` the outcomes of the calls that
have returned, all in their order. -/
structure Connection (World : Type) where
  server : Server World
  up : Bytes
  down : Bytes
  client : Option Waiting
  sent : List Bytes
  log : List Reply
  done : List Outcome
deriving DecidableEq, Repr

def Connection.start (world : World) : Connection World :=
  ⟨⟨[], world⟩, [], [], none, [], [], []⟩

inductive Action where
  | call (line : Line)
  | serve (count : Nat)
  | receive (count : Nat)

/-- A read takes at least one byte, and no more than there are or than fit. -/
def Readable (count size : Nat) (stream : Bytes) : Prop :=
  0 < count ∧ count ≤ size ∧ count ≤ stream.length

instance (count size : Nat) (stream : Bytes) : Decidable (Readable count size stream) :=
  inferInstanceAs (Decidable (_ ∧ _))

def Connection.serve (execute : Execute World) (count : Nat)
    (connection : Connection World) : Option (Connection World) :=
  (vtyshRead execute (connection.up.take count) connection.server).map fun next =>
    { connection with
      server := next.2
      up := connection.up.drop count
      down := connection.down ++ next.1.flatMap Reply.bytes
      log := connection.log ++ next.1 }

def Connection.receive (count : Nat) (waiting : Waiting)
    (connection : Connection World) : Connection World :=
  match clientRead (connection.down.take count) waiting with
  | .waits waiting =>
    { connection with
      down := connection.down.drop count
      client := some waiting }
  | .returns outcome =>
    { connection with
      down := connection.down.drop count
      client := none
      done := connection.done ++ [outcome] }

/-- A step of either side; `none` if it is not possible. -/
def Connection.step (execute : Execute World)
    (connection : Connection World) : Action → Option (Connection World)
  | .call line =>
    match connection.client with
    | some _ => none
    | none =>
      some { connection with
        up := connection.up ++ line.bytes ++ [0]
        client := some ⟨0, []⟩
        sent := connection.sent ++ [line.bytes] }
  | .serve count =>
    if Readable count vtyReadBufsiz connection.up then
      connection.serve execute count
    else none
  | .receive count =>
    match connection.client with
    | none => none
    | some waiting =>
      if Readable count clientBufsiz connection.down then
        some (connection.receive count waiting)
      else none

def Connection.run (execute : Execute World) :
    List Action → Connection World → Option (Connection World)
  | [], connection => some connection
  | action :: rest, connection =>
    match connection.step execute action with
    | none => none
    | some next => next.run execute rest

end OpsCli.Vtysh.Wire
