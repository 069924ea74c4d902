import Mathlib.Data.List.TakeWhile
import OpsCli.Vtysh.Wire

/-!
# Every call receives its own reply

However the streams are cut, the shell leaves a reply at its last byte, with
the text as its output and the status as its result, if the text has no zero
in it.  Calls and replies then stay in step over every run.  A call that has not
returned still has bytes to wait for, unless its line has come to a handler.
-/

namespace OpsCli.Vtysh.Delivery

open Command.Execute Vty.LineBuffer Wire List

variable {World : Type}

/-! ## Counting zeros -/

theorem countNulls_replicate (count numnulls : Nat) (rest : Bytes) (few : numnulls + count ≤ 3) :
    countNulls (List.replicate count 0 ++ rest) numnulls = countNulls rest (numnulls + count) := by
  induction count generalizing numnulls with
  | zero => rfl
  | succ count ih =>
    have below : numnulls < 3 := by omega
    have step := ih (numnulls + 1) (by omega)
    rw [replicate_succ, cons_append, countNulls, if_pos below, if_pos rfl, step]
    congr 1
    omega

variable {text chunk : Bytes} {n count : Nat} {waiting : Waiting} {execute : Execute World}
  {connection : Connection World}

theorem countNulls_clean (clean : 0 ∉ text) (rest : Bytes) :
    countNulls (text ++ rest) 0 = countNulls rest 0 := by
  induction text with
  | nil => rfl
  | cons byte text ih =>
    have nonzero : byte ≠ 0 := by
      intro zero
      exact clean (zero ▸ mem_cons_self)
    rw [cons_append, countNulls, if_pos (by omega), if_neg nonzero]
    exact ih fun member => clean (mem_cons_of_mem byte member)

theorem countNulls_full (rest : Bytes) : countNulls rest 3 = (3, rest) := by
  cases rest with
  | nil => rfl
  | cons byte rest => rfl

theorem cString_clean (clean : 0 ∉ text) : cString text = text := by
  unfold cString
  rw [takeWhile_eq_self_iff]
  intro byte member
  have nonzero : byte ≠ 0 := by
    rintro rfl
    exact clean member
  exact decide_eq_true nonzero

theorem cString_append_zero (clean : 0 ∉ text) (rest : Bytes) :
    cString (text ++ 0 :: rest) = text := by
  have kept := cString_clean clean
  unfold cString at kept ⊢
  rw [takeWhile_append, kept, if_pos rfl]
  exact append_nil text

/-! ## A piece of a reply -/

/-- A piece of a reply: text, some of the zeros of the marker, and perhaps the
status behind them. -/
structure Piece (numnulls : Nat) where
  text : Bytes
  zeros : Nat
  status : Option UInt8
  clean : 0 ∉ text
  fresh : text ≠ [] → numnulls = 0
  few : numnulls + zeros ≤ 3
  last : status ≠ none → numnulls + zeros = 3

namespace Piece

variable {numnulls : Nat}

def bytes (piece : Piece numnulls) : Bytes :=
  piece.text ++ (List.replicate piece.zeros 0 ++ piece.status.toList)

section

variable (piece : Piece numnulls)
include piece

theorem length_bytes : piece.bytes.length =
      piece.text.length + (piece.zeros + piece.status.toList.length) := by
  unfold bytes
  rw [length_append, length_append, length_replicate]

theorem length_status : piece.status.toList.length ≤ 1 := by
  cases piece.status with
  | none => exact Nat.zero_le 1
  | some status => exact Nat.le_refl 1

theorem countNulls_status :
    countNulls piece.status.toList (numnulls + piece.zeros) =
      (numnulls + piece.zeros, piece.status.toList) := by
  cases status : piece.status with
  | none => rfl
  | some byte =>
    have full : numnulls + piece.zeros = 3 := by
      apply piece.last
      rw [status]
      exact nofun
    rw [full]
    exact countNulls_full _

theorem countNulls_bytes : countNulls piece.bytes numnulls =
      (numnulls + piece.zeros, piece.status.toList) := by
  have tail : countNulls (List.replicate piece.zeros 0 ++ piece.status.toList) numnulls =
        (numnulls + piece.zeros, piece.status.toList) := by
    rw [countNulls_replicate _ _ _ piece.few]
    exact piece.countNulls_status
  unfold bytes
  by_cases empty : piece.text = []
  · rw [empty]
    exact tail
  · have zero := piece.fresh empty
    subst zero
    rw [countNulls_clean piece.clean]
    exact tail

theorem drop_bytes (count : Nat) (inside : count ≤ piece.text.length) :
    piece.bytes.drop count = piece.text.drop count ++
        (List.replicate piece.zeros 0 ++ piece.status.toList) := by
  unfold bytes
  exact drop_append_of_le_length inside

theorem trailingNulls_bytes : trailingNulls piece.bytes numnulls =
      (numnulls + piece.zeros, piece.status.toList) := by
  unfold trailingNulls
  split
  · rename_i long
    have size := piece.length_bytes
    have few := piece.few
    have short := piece.length_status
    have zero : numnulls = 0 := by
      by_cases empty : piece.text = []
      · have none := congrArg List.length empty
        rw [length_nil] at none
        omega
      · exact piece.fresh empty
    subst zero
    let tail : Piece 0 :=
      { piece with
        text := piece.text.drop (piece.bytes.length - 4)
        clean := fun member => piece.clean (mem_of_mem_drop member)
        fresh := fun _ => rfl }
    rw [piece.drop_bytes _ (by omega)]
    exact tail.countNulls_bytes
  · exact piece.countNulls_bytes

theorem cString_bytes (marked : piece.zeros ≠ 0 ∨ piece.status = none) :
    cString piece.bytes = piece.text := by
  unfold bytes
  cases zeros : piece.zeros with
  | zero =>
    have none : piece.status = none := by
      rcases marked with some | none
      · exact absurd zeros some
      · exact none
    rw [none]
    simpa using cString_clean piece.clean
  | succ more =>
    rw [replicate_succ, cons_append]
    exact cString_append_zero piece.clean _

end

end Piece

theorem clientRead_piece (waiting : Waiting) (piece : Piece waiting.numnulls)
    (nonempty : piece.bytes ≠ []) :
    clientRead piece.bytes waiting = match piece.status with
      | none =>
        .waits ⟨waiting.numnulls + piece.zeros, waiting.output ++ piece.text⟩
      | some status =>
        .returns ⟨waiting.output ++ piece.text, charToInt status⟩ := by
  have size := piece.length_bytes
  have few := piece.few
  unfold clientRead
  split
  · rename_i single
    obtain ⟨three, one⟩ := single
    have empty : piece.text = [] := by
      by_contra some
      have zero := piece.fresh some
      omega
    have zeros : piece.zeros = 0 := by omega
    cases status : piece.status with
    | none =>
      exfalso
      apply nonempty
      simp [Piece.bytes, empty, zeros, status]
    | some byte => simp [Piece.bytes, empty, zeros, status]
  · rename_i longer
    rw [piece.trailingNulls_bytes]
    dsimp only
    cases status : piece.status with
    | none =>
      rw [piece.cString_bytes (.inr status), if_neg]
      intro both
      exact both.2 rfl
    | some byte =>
      have full : waiting.numnulls + piece.zeros = 3 := by
        apply piece.last
        rw [status]
        exact nofun
      have zeros : piece.zeros ≠ 0 := by
        intro none
        have empty : piece.text = [] := by
          by_contra some
          have zero := piece.fresh some
          omega
        apply longer
        refine ⟨by omega, ?_⟩
        rw [size, empty, none, status]
        rfl
      rw [piece.cString_bytes (.inl zeros), if_pos ⟨by omega, nofun⟩]
      simp [Piece.bytes, status]

/-! ## Cutting a reply -/

variable (reply : Reply)

theorem length_reply : reply.bytes.length = reply.text.length + 4 := by
  unfold Reply.bytes
  rw [length_append]
  rfl

/-- Every cut of a reply is a piece. -/
def cut (clean : 0 ∉ reply.text) (n count : Nat)
    (inside : n < reply.text.length + 4) : Piece (n - reply.text.length) where
  text := (reply.text.drop n).take count
  zeros := min (count - (reply.text.length - n)) (3 - (n - reply.text.length))
  status := if n + count = reply.text.length + 4 then some reply.status
    else none
  clean member := clean (mem_of_mem_drop (mem_of_mem_take member))
  fresh some := by
    by_contra behind
    apply some
    rw [drop_of_length_le (by omega), take_nil]
  few := by omega
  last some := by
    have full : n + count = reply.text.length + 4 := by
      by_contra short
      exact some (if_neg short)
    omega

theorem bytes_cut (clean : 0 ∉ reply.text) (inside : n < reply.text.length + 4)
    (bound : n + count ≤ reply.text.length + 4) :
    (cut reply clean n count inside).bytes = (reply.bytes.drop n).take count := by
  have marker : reply.bytes = reply.text ++ (List.replicate 3 0 ++ [reply.status]) := rfl
  have status : [reply.status].take (count - (reply.text.length - n) -
          (3 - (n - reply.text.length))) =
        (if n + count = reply.text.length + 4 then some reply.status
          else none).toList := by
    split
    · have one : count - (reply.text.length - n) - (3 - (n - reply.text.length)) = 1 := by omega
      rw [one]
      rfl
    · have none : count - (reply.text.length - n) - (3 - (n - reply.text.length)) = 0 := by omega
      rw [none]
      rfl
  rw [marker, drop_append, take_append, drop_append, drop_replicate, length_replicate, take_append,
    take_replicate, length_replicate,
    length_drop, show n - reply.text.length - 3 = 0 by omega, drop_zero, status]
  rfl

/-- The shell has received this many bytes of a reply. -/
structure Heard (n : Nat) (waiting : Waiting) : Prop where
  numnulls : waiting.numnulls = n - reply.text.length
  output : waiting.output = reply.text.take n

/-- A round of the shell, whatever has been received before and however much
is read: it returns at the last byte of the reply and not before. -/
theorem clientRead_reply {reply : Reply} (clean : 0 ∉ reply.text) (heard : Heard reply n waiting)
    (positive : 0 < count) (bound : n + count ≤ reply.text.length + 4) :
    (n + count = reply.text.length + 4 ∧ clientRead ((reply.bytes.drop n).take count) waiting =
        .returns ⟨reply.text, charToInt reply.status⟩) ∨
    (n + count < reply.text.length + 4 ∧
      ∃ next, clientRead ((reply.bytes.drop n).take count) waiting =
        .waits next ∧ Heard reply (n + count) next) := by
  obtain ⟨numnulls, output⟩ := waiting
  obtain ⟨rfl, rfl⟩ := heard
  have inside : n < reply.text.length + 4 := by omega
  have shape := bytes_cut reply clean inside bound
  have nonempty : (cut reply clean n count inside).bytes ≠ [] := by
    rw [shape]
    intro empty
    have size := congrArg List.length empty
    rw [length_take, length_drop, length_reply, length_nil] at size
    omega
  have round := clientRead_piece ⟨n - reply.text.length, reply.text.take n⟩
    (cut reply clean n count inside) nonempty
  have output : reply.text.take n ++ (reply.text.drop n).take count =
      reply.text.take (n + count) := take_add.symm
  rw [← shape]
  by_cases full : n + count = reply.text.length + 4
  · left
    have status : (cut reply clean n count inside).status = some reply.status := if_pos full
    rw [status] at round
    refine ⟨full, round.trans ?_⟩
    have whole : reply.text.take (n + count) = reply.text := take_of_length_le (by omega)
    exact congrArg (fun text => Round.returns ⟨text, charToInt reply.status⟩) (output.trans whole)
  · right
    have status : (cut reply clean n count inside).status = none := if_neg full
    rw [status] at round
    refine ⟨by omega, _, round, ?_, output⟩
    show n - reply.text.length +
        min (count - (reply.text.length - n)) (3 - (n - reply.text.length)) =
      n + count - reply.text.length
    omega

/-! ## Collecting a line -/

theorem vtyshRead_clean (execute : Execute World) (clean : 0 ∉ chunk) (server : Server World) :
    vtyshRead execute chunk server = some ([], ⟨server.buf ++ chunk, server.world⟩) := by
  induction chunk generalizing server with
  | nil =>
    rw [vtyshRead, append_nil]
  | cons byte chunk ih =>
    have nonzero : byte ≠ 0 := by
      intro zero
      exact clean (zero ▸ mem_cons_self)
    have rest := ih (fun member => clean (mem_cons_of_mem byte member))
      ⟨server.buf ++ [byte], server.world⟩
    rw [vtyshRead, if_neg nonzero, rest, append_assoc]
    rfl

theorem vtyshRead_line (execute : Execute World) {server : Server World} (clean : 0 ∉ chunk)
    (collected : 0 ∉ server.buf) :
    vtyshRead execute (chunk ++ [0]) server =
      (execute (server.buf ++ chunk) server.world).map fun next =>
        ([⟨server.buf ++ chunk, next.1, statusByte next.2.1⟩], ⟨[], next.2.2⟩) := by
  induction chunk generalizing server with
  | nil =>
    have line : cString (server.buf ++ [0]) = server.buf := cString_append_zero collected []
    rw [nil_append, vtyshRead, if_pos rfl, line, append_nil]
    dsimp only
    cases execute server.buf server.world with
    | none => rfl
    | some next => rfl
  | cons byte chunk ih =>
    have nonzero : byte ≠ 0 := by
      intro zero
      exact clean (zero ▸ mem_cons_self)
    have grown : 0 ∉ (⟨server.buf ++ [byte], server.world⟩ : Server World).buf := by
      intro member
      rcases mem_append.mp member with old | new
      · exact collected old
      · exact nonzero (mem_singleton.mp new).symm
    have rest := ih (fun member => clean (mem_cons_of_mem byte member)) grown
    rw [cons_append, vtyshRead, if_neg nonzero, rest, append_assoc]
    rfl

/-! ## The phases of a call -/

/-- What the caller should get for a reply. -/
def owed : Outcome :=
  ⟨reply.text, charToInt reply.status⟩

/-- Calls and replies are in step: nothing is going on, the line is on its way
to the daemon, or the reply is on its way to the shell. -/
inductive InStep (connection : Connection World) : Prop where
  | idle (client : connection.client = none) (buf : connection.server.buf = [])
      (up : connection.up = [])
      (down : connection.down = [])
      (sent : connection.sent = connection.log.map Reply.command)
      (done : connection.done = connection.log.map owed)
  | asking (rest : Bytes) (client : connection.client = some ⟨0, []⟩)
      (collected : 0 ∉ connection.server.buf)
      (clean : 0 ∉ rest)
      (up : connection.up = rest ++ [0])
      (down : connection.down = [])
      (sent : connection.sent = connection.log.map Reply.command ++ [connection.server.buf ++ rest])
      (done : connection.done = connection.log.map owed)
  | answering (before : List Reply) (reply : Reply) (n : Nat) (waiting : Waiting)
      (client : connection.client = some waiting)
      (buf : connection.server.buf = [])
      (up : connection.up = [])
      (log : connection.log = before ++ [reply])
      (down : connection.down = reply.bytes.drop n)
      (inside : n < reply.text.length + 4)
      (heard : Heard reply n waiting)
      (sent : connection.sent = connection.log.map Reply.command)
      (done : connection.done = before.map owed)

theorem inStep_start (world : World) : InStep (Connection.start world) :=
  .idle rfl rfl rfl rfl rfl rfl

section

variable {next : Connection World}

theorem inStep_call {line : Line} (phase : InStep connection)
    (run : connection.step execute (.call line) = some next) : InStep next := by
  cases phase with
  | idle client buf up down sent done =>
    unfold Connection.step at run
    rw [client] at run
    cases run
    refine .asking line.bytes rfl ?_ line.proper ?_ down ?_ done
    · rw [buf]
      exact not_mem_nil
    · rw [up]
      rfl
    · rw [sent, buf]
      rfl
  | asking rest client | answering before reply n waiting client =>
    unfold Connection.step at run
    rw [client] at run
    cases run

variable {action : Action} {actions : List Action}

theorem inStep_serve (phase : InStep connection)
    (run : connection.step execute (.serve count) = some next) : InStep next := by
  unfold Connection.step at run
  dsimp only at run
  split at run
  · rename_i readable
    obtain ⟨positive, _, bound⟩ := readable
    obtain ⟨⟨replies, server⟩, read, rfl⟩ := Option.map_eq_some_iff.mp run
    cases phase with
    | idle client buf up | answering before reply n waiting client buf up =>
      rw [up] at bound
      exact absurd positive (Nat.not_lt_of_le bound)
    | asking rest client collected clean up down sent done =>
      rw [up, length_append, length_singleton] at bound
      by_cases whole : count = rest.length + 1
      · have piece : connection.up.take count = rest ++ [0] := by
          rw [up]
          exact take_of_length_le (by simp [whole])
        rw [piece, vtyshRead_line execute clean collected] at read
        obtain ⟨_, _, same⟩ := Option.map_eq_some_iff.mp read
        cases same
        refine .answering connection.log _ 0 ⟨0, []⟩ client rfl ?_ rfl ?_
          (by omega) ⟨(Nat.zero_sub _).symm, rfl⟩ ?_ done
        · rw [up]
          exact drop_of_length_le (by simp [whole])
        · rw [down]
          exact append_nil _
        · rw [sent, map_append]
          rfl
      · have part : count ≤ rest.length := by omega
        have piece : connection.up.take count = rest.take count := by
          rw [up]
          exact take_append_of_le_length part
        have taken : 0 ∉ rest.take count := fun member => clean (mem_of_mem_take member)
        rw [piece, vtyshRead_clean execute taken] at read
        cases read
        refine .asking (rest.drop count) client ?_
          (fun member => clean (mem_of_mem_drop member)) ?_ ?_ ?_ ?_
        · intro member
          rcases mem_append.mp member with old | new
          · exact collected old
          · exact taken new
        · rw [up]
          exact drop_append_of_le_length part
        · rw [down]
          rfl
        · dsimp only
          rw [sent, append_assoc, take_append_drop, append_nil]
        · dsimp only
          rw [done, append_nil]
  · cases run

theorem inStep_receive (phase : InStep connection)
    (clean : ∀ reply ∈ connection.log, 0 ∉ reply.text)
    (run : connection.step execute (.receive count) = some next) : InStep next := by
  cases phase with
  | idle client =>
    unfold Connection.step at run
    rw [client] at run
    cases run
  | asking rest client collected restClean up down =>
    unfold Connection.step at run
    rw [client] at run
    dsimp only at run
    rw [down] at run
    split at run
    · rename_i readable
      exact absurd readable.1 (Nat.not_lt_of_le readable.2.2)
    · cases run
  | answering before reply n waiting client buf up log down inside heard sent done =>
    unfold Connection.step at run
    rw [client] at run
    dsimp only at run
    split at run
    · rename_i readable
      obtain ⟨positive, _, bound⟩ := readable
      cases run
      rw [down, length_drop, length_reply] at bound
      have text : 0 ∉ reply.text := by
        apply clean
        rw [log]
        exact mem_append_right before (mem_singleton_self reply)
      have later : connection.down.drop count = reply.bytes.drop (n + count) := by
        rw [down, drop_drop]
      unfold Connection.receive
      rw [down]
      rcases clientRead_reply text heard positive (by omega) with
        ⟨full, returns⟩ | ⟨part, after, waits, further⟩
      · rw [returns]
        refine .idle rfl buf up ?_ sent ?_
        · dsimp only
          rw [← down, later]
          apply drop_of_length_le
          rw [length_reply, full]
        · dsimp only
          rw [done, log, map_append]
          rfl
      · rw [waits]
        refine .answering before reply (n + count) after rfl buf up log ?_ part further sent done
        rw [← down, later]
    · cases run

/-- A step keeps calls and replies in step while no reply has a zero in its
text. -/
theorem inStep_step (phase : InStep connection) (clean : ∀ reply ∈ connection.log, 0 ∉ reply.text)
    (run : connection.step execute action = some next) : InStep next := by
  cases action with
  | call line => exact inStep_call phase run
  | serve count => exact inStep_serve phase run
  | receive count => exact inStep_receive phase clean run

theorem log_prefix_step (run : connection.step execute action = some next) :
    connection.log <+: next.log := by
  cases action with
  | call line =>
    unfold Connection.step at run
    dsimp only at run
    split at run
    · cases run
    · cases run
      exact prefix_rfl
  | serve count =>
    unfold Connection.step at run
    dsimp only at run
    split at run
    · obtain ⟨_, _, rfl⟩ := Option.map_eq_some_iff.mp run
      exact prefix_append _ _
    · cases run
  | receive count =>
    unfold Connection.step at run
    dsimp only at run
    split at run
    · cases run
    · split at run
      · cases run
        unfold Connection.receive
        split
        · exact prefix_rfl
        · exact prefix_rfl
      · cases run

theorem log_prefix_run (run : connection.run execute actions = some next) :
    connection.log <+: next.log := by
  induction actions generalizing connection with
  | nil =>
    cases run
    exact prefix_rfl
  | cons action rest ih =>
    rw [Connection.run] at run
    split at run
    · cases run
    · rename_i middle step
      exact (log_prefix_step step).trans (ih run)

theorem inStep_run (phase : InStep connection) (run : connection.run execute actions = some next)
    (clean : ∀ reply ∈ next.log, 0 ∉ reply.text) : InStep next := by
  induction actions generalizing connection with
  | nil =>
    cases run
    exact phase
  | cons action rest ih =>
    have earlier : ∀ reply ∈ connection.log, 0 ∉ reply.text := by
      intro reply member
      exact clean reply ((log_prefix_run run).subset member)
    rw [Connection.run] at run
    split at run
    · cases run
    · rename_i middle step
      exact ih (inStep_step phase earlier step) run

end

/-! ## Reading ends -/

def Reads (execute : Execute World) (next connection : Connection World) : Prop :=
  ∃ count, connection.step execute (.serve count) = some next ∨
    connection.step execute (.receive count) = some next

/-- Reads cannot go on forever without another call. -/
theorem reads_wellFounded (execute : Execute World) : WellFounded (Reads execute) := by
  have order : WellFounded (Prod.Lex (fun a b : Nat => a < b) (fun a b : Nat => a < b)) :=
    WellFoundedRelation.wf
  apply Subrelation.wf ?_ (InvImage.wf (fun connection : Connection World =>
      (connection.up.length, connection.down.length)) order)
  rintro next connection ⟨count, serves | receives⟩
  · unfold Connection.step at serves
    dsimp only at serves
    split at serves
    · rename_i readable
      obtain ⟨positive, _, bound⟩ := readable
      obtain ⟨_, _, rfl⟩ := Option.map_eq_some_iff.mp serves
      apply Prod.Lex.left
      show (connection.up.drop count).length < connection.up.length
      rw [length_drop]
      omega
    · cases serves
  · unfold Connection.step at receives
    dsimp only at receives
    split at receives
    · cases receives
    · split at receives
      · rename_i readable
        obtain ⟨positive, _, bound⟩ := readable
        cases receives
        have shorter : (connection.down.drop count).length < connection.down.length := by
          rw [length_drop]
          omega
        unfold Connection.receive
        split
        · exact Prod.Lex.right _ shorter
        · exact Prod.Lex.right _ shorter
      · cases receives

/-! ## The result -/

/-- The outcome of the n-th call is the n-th reply of the daemon, which is the
reply to the n-th line; a call that has not returned can go on reading, and it
cannot read forever. -/
structure Delivered (execute : Execute World) (connection : Connection World) : Prop where
  matched : ∀ (n : Nat) (outcome : Outcome), connection.done[n]? = some outcome →
      ∃ reply, connection.log[n]? = some reply ∧ connection.sent[n]? = some reply.command ∧
        outcome = ⟨reply.text, charToInt reply.status⟩
  goesOn : connection.client ≠ none → ∃ next, Reads execute next connection
  ends : Acc (Reads execute) connection

theorem step_serve_one {byte : UInt8} {rest : Bytes} (up : connection.up = byte :: rest)
    (read : (vtyshRead execute [byte] connection.server).isSome) :
    ∃ next, Reads execute next connection := by
  have readable : Readable 1 vtyReadBufsiz connection.up := ⟨Nat.one_pos, by decide, by simp [up]⟩
  have served : (connection.step execute (.serve 1)).isSome := by
    unfold Connection.step
    dsimp only
    rw [if_pos readable, Connection.serve, Option.isSome_map, up]
    exact read
  obtain ⟨next, step⟩ := Option.isSome_iff_exists.mp served
  exact ⟨next, 1, .inl step⟩

theorem step_receive_one (client : connection.client = some waiting) (some : connection.down ≠ []) :
    ∃ next, Reads execute next connection := by
  have readable : Readable 1 clientBufsiz connection.down :=
    ⟨Nat.one_pos, by decide, length_pos_iff.mpr some⟩
  refine ⟨connection.receive 1 waiting, 1, .inr ?_⟩
  unfold Connection.step
  rw [client]
  exact if_pos readable

theorem getElem?_of_prefix {α : Type} {first second : List α} (initial : first <+: second)
    {value : α} (found : first[n]? = some value) : second[n]? = some value := by
  obtain ⟨rest, rfl⟩ := initial
  obtain ⟨bound, _⟩ := List.getElem?_eq_some_iff.mp found
  rw [getElem?_append_left bound]
  exact found

theorem matched_of_prefix {before : List Reply} (log : before <+: connection.log)
    (sent : connection.log.map Reply.command <+: connection.sent)
    (done : connection.done = before.map owed) {outcome : Outcome}
    (found : connection.done[n]? = some outcome) :
    ∃ reply, connection.log[n]? = some reply ∧ connection.sent[n]? = some reply.command ∧
      outcome = ⟨reply.text, charToInt reply.status⟩ := by
  rw [done, getElem?_map] at found
  obtain ⟨reply, listed, equal⟩ := Option.map_eq_some_iff.mp found
  have logged := getElem?_of_prefix log listed
  have commanded : (connection.log.map Reply.command)[n]? = some reply.command := by
    rw [getElem?_map, logged]
    rfl
  exact ⟨reply, logged, getElem?_of_prefix sent commanded, equal.symm⟩

theorem vtyshRead_zero {server : Server World} (collected : 0 ∉ server.buf) :
    (vtyshRead execute [0] server).isSome = (execute server.buf server.world).isSome := by
  have line := @vtyshRead_line World [] execute server not_mem_nil collected
  rw [append_nil, nil_append] at line
  rw [line, Option.isSome_map]

/-- With one byte left for the daemon and none for the client, the daemon reads. -/
theorem read_of_reads {byte : UInt8} {later : Connection World}
    (client : connection.client = some waiting) (up : connection.up = [byte])
    (down : connection.down = []) (reads : Reads execute later connection) :
    (vtyshRead execute [byte] connection.server).isSome := by
  obtain ⟨count, serves | receives⟩ := reads
  · unfold Connection.step at serves
    dsimp only at serves
    split at serves
    · rename_i readable
      obtain ⟨positive, _, bound⟩ := readable
      rw [up, length_singleton] at bound
      obtain ⟨_, read, _⟩ := Option.map_eq_some_iff.mp serves
      rw [up, Nat.le_antisymm bound positive, take_succ_cons, take_zero] at read
      exact Option.isSome_of_eq_some read
    · cases serves
  · unfold Connection.step at receives
    rw [client] at receives
    dsimp only at receives
    rw [down] at receives
    split at receives
    · rename_i readable
      exact absurd readable.1 (Nat.not_lt_of_le readable.2.2)
    · cases receives

theorem delivered_iff (phase : InStep connection) : Delivered execute connection ↔
      (connection.up = [0] →
        (execute connection.server.buf connection.server.world).isSome) := by
  have ends : Acc (Reads execute) connection := (reads_wellFounded execute).apply connection
  cases phase with
  | idle client buf up down sent done =>
    refine iff_of_true ⟨?_, fun busy => absurd client busy, ends⟩ (by rw [up]; nofun)
    intro n outcome found
    exact matched_of_prefix prefix_rfl (sent ▸ prefix_rfl) done found
  | asking rest client collected clean up down sent done =>
    constructor
    · intro delivered last
      obtain ⟨next, reads⟩ := delivered.goesOn (by rw [client]; nofun)
      rw [← vtyshRead_zero collected]
      exact read_of_reads client last down reads
    · intro executed
      refine ⟨?_, fun _ => ?_, ends⟩
      · intro n outcome found
        exact matched_of_prefix prefix_rfl (sent ▸ prefix_append _ _) done found
      · cases rest with
        | nil => exact step_serve_one up ((vtyshRead_zero collected).trans (executed up))
        | cons byte rest =>
          have nonzero : 0 ∉ [byte] := fun zero => clean (mem_singleton.mp zero ▸ mem_cons_self)
          exact step_serve_one up (by rw [vtyshRead_clean execute nonzero]; rfl)
  | answering before reply n waiting client buf up log down inside heard sent done =>
    refine iff_of_true ⟨?_, fun _ => ?_, ends⟩ (by rw [up]; nofun)
    · intro n outcome found
      exact matched_of_prefix (log ▸ prefix_append _ _) (sent ▸ prefix_rfl) done found
    · apply step_receive_one client
      intro empty
      have size := congrArg List.length (down.symm.trans empty)
      rw [length_drop, length_reply, length_nil] at size
      omega

/-- The line `help`. -/
def lineHelp : Line := ⟨[104, 101, 108, 112], by decide⟩

def unknownHelp : CLib.CString.CStr :=
  "% [NONE] Unknown command: help\n"

def helpAnswered : Connection (Session Unit) :=
  let output : Bytes := unknownHelp.map fun c => UInt8.ofNat c.toNat
  ⟨⟨[], { plainSession .viewNode with events := [.output unknownHelp] }⟩, [], [], none,
    [lineHelp.bytes], [⟨lineHelp.bytes, output, 2⟩], [⟨output, 2⟩]⟩

/-- The line `show version`. -/
def lineShowVersion : Line :=
  ⟨[115, 104, 111, 119, 32, 118, 101, 114, 115, 105, 111, 110], by decide⟩

/-- The daemon has collected `show version` but for its zero. -/
def showVersionCollected : Connection (Session Unit) :=
  ⟨⟨lineShowVersion.bytes, plainSession .viewNode⟩, [0], [], some ⟨0, []⟩,
    [lineShowVersion.bytes], [], []⟩

def echo (text : Bytes) (ret : Int) : Execute Unit :=
  fun _ world => some (text, ret, world)

def lineA : Line := ⟨[97], by decide⟩

def returned (down : Bytes) (reply : Reply) (outcome : Outcome) : Connection Unit :=
  ⟨⟨[], ()⟩, [], down, none, [lineA.bytes], [reply], [outcome]⟩

/-- The text ends with a zero.  The shell drops it, takes a zero of the marker
for the status, and leaves the status on the wire for the next call. -/
theorem zero_shifts_reply : (Connection.start ()).run (echo [97, 0] 1)
        [.call lineA, .serve 2, .receive 4, .receive 1] =
      some (returned [1] ⟨[97], [97, 0], 1⟩ ⟨[97], 0⟩) ∧
    ¬ [0, 0, 0] <:+: ([97, 0] : Bytes) ∧
    ¬ Delivered (echo [97, 0] 1) (returned [1] ⟨[97], [97, 0], 1⟩ ⟨[97], 0⟩) := by
  refine ⟨by decide, by decide, ?_⟩
  intro delivered
  obtain ⟨reply, logged, _, equal⟩ := delivered.matched 0 ⟨[97], 0⟩ rfl
  cases logged
  exact absurd equal (by decide)

end OpsCli.Vtysh.Delivery
