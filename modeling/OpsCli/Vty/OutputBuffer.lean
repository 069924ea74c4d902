import Mathlib.Data.List.Basic
import Mathlib.Data.List.Induction

/-!
# The output buffer

What cannot be written to a descriptor at once is queued in chunks of a fixed
size.  Flushing offers the first chunks in a scatter list, and a partial write
may end inside any of them.  Between two calls no chunk is used up, so the
queue has a head exactly when there are bytes to flush.
-/

namespace OpsCli.Vty.OutputBuffer

open List

universe u

/-- A chunk: its bytes up to `cp`, and where the unflushed ones begin. -/
structure BufferData (Byte : Type u) (size : Nat) where
  data : List Byte
  sp : Nat
  unflushed : sp < data.length
  fits : data.length ≤ size

abbrev Chunks (Byte : Type u) (size : Nat) := List (BufferData Byte size)

variable {Byte : Type u} {size : Nat} (positive : 0 < size) (d : BufferData Byte size)
  (chunks : Chunks Byte size) (text : List Byte)

/-- The bytes from `sp` up to `cp`. -/
def BufferData.left : List Byte :=
  d.data.drop d.sp

/-- The bytes of all chunks. -/
def queued : List Byte :=
  chunks.flatMap BufferData.left

/-! ## Putting -/

/-- `buffer_add`, with the first bytes of a text copied into the chunk. -/
def bufferAdd (more : text ≠ []) : BufferData Byte size where
  data := text.take size
  sp := 0
  unflushed := by
    rw [length_take]
    exact Nat.lt_min.mpr ⟨positive, length_pos_iff.mpr more⟩
  fits := length_take_le _ _

def BufferData.fill : BufferData Byte size where
  data := d.data ++ text.take (size - d.data.length)
  sp := d.sp
  unflushed := by
    rw [length_append]
    exact Nat.lt_add_right _ d.unflushed
  fits := by
    have := d.fits
    rw [length_append, length_take]
    omega

theorem BufferData.left_fill : (d.fill text).left = d.left ++ text.take (size - d.data.length) :=
  drop_append_of_le_length (Nat.le_of_lt d.unflushed)

/-- The loop of `buffer_put`; `data` is the tail of the queue. -/
def putLoop (older : Chunks Byte size) (data : Option (BufferData Byte size))
    (text : List Byte) : Chunks Byte size :=
  if more : text = [] then older ++ data.toList
  else match data with
    | none => putLoop older (some (bufferAdd positive text more)) (text.drop size)
    | some tail =>
      if tail.data.length = size then
        putLoop (older ++ [tail]) (some (bufferAdd positive text more)) (text.drop size)
      else putLoop older (some (tail.fill text)) (text.drop (size - tail.data.length))
termination_by text.length
decreasing_by
  all_goals
    have := length_pos_iff.mpr more
    rw [length_drop]
  · omega
  · omega
  · have := tail.fits
    omega

/-- `buffer_put`. -/
def bufferPut : Chunks Byte size :=
  putLoop positive chunks.dropLast chunks.getLast? text

theorem queued_putLoop (older : Chunks Byte size) (data : Option (BufferData Byte size)) :
    queued (putLoop positive older data text) = queued (older ++ data.toList) ++ text := by
  fun_induction putLoop positive older data text with
  | case1 => rw [append_nil]
  | case2 older text more ih | case3 older text more tail full ih =>
    rw [ih]
    simp [queued, bufferAdd, BufferData.left]
  | case4 older text more tail room ih =>
    rw [ih]
    simp [queued, BufferData.left_fill]

theorem queued_bufferPut : queued (bufferPut positive chunks text) = queued chunks ++ text := by
  rw [bufferPut, queued_putLoop]
  rcases eq_nil_or_concat' chunks with rfl | ⟨older, tail, rfl⟩
  · rfl
  · rw [dropLast_concat, getLast?_concat, Option.toList_some]

/-! ## Flushing -/

inductive BufferStatus where
  | error | empty | pending
  deriving DecidableEq

/-- What `write` and `writev` answer: how many of the bytes offered are taken,
an error to be retried (with whether it is `EINTR`), or another error. -/
inductive Answer where
  | taken (count : Nat)
  | retry (interrupted : Bool)
  | fatal

/-- What a call returns, the chunks queued then, and the bytes that the
descriptor took. -/
structure Outcome (Byte : Type u) (size : Nat) where
  status : Option BufferStatus
  chunks : Chunks Byte size
  sent : List Byte

def statusOf : BufferStatus :=
  if chunks = [] then .empty else .pending

/-- The bytes in the scatter list, of at most `MAX_CHUNKS` chunks and until
there are `MAX_FLUSH` bytes. -/
def scatter (iovcnt nbyte : Nat) : Chunks Byte size → List Byte
  | [] => []
  | d :: next =>
    if iovcnt < 16 ∧ nbyte < 131072 then
      d.left ++ scatter (iovcnt + 1) (nbyte + d.left.length) next
    else []

def freePrinted (written : Nat) : Chunks Byte size → Chunks Byte size
  | [] => []
  | d :: next =>
    if partly : written < d.data.length - d.sp then
      { d with sp := d.sp + written, unflushed := by omega } :: next
    else freePrinted (written - (d.data.length - d.sp)) next

/-- `buffer_flush_available`. -/
def bufferFlushAvailable (answer : Answer) : Outcome Byte size :=
  if scatter 0 0 chunks = [] then ⟨some .empty, chunks, []⟩
  else match answer with
    | .taken count =>
      let sent := (scatter 0 0 chunks).take count
      let after := freePrinted sent.length chunks
      ⟨some (statusOf after), after, sent⟩
    | .retry _ => ⟨some .pending, chunks, []⟩
    | .fatal => ⟨some .error, chunks, []⟩

/-- The head, told by the number of chunks from it on, and its `sp`. -/
def headAt : Nat × Option Nat :=
  (chunks.length, chunks.head?.map BufferData.sp)

/-- Whether `errno` is `EINTR` then; a write that succeeds leaves it as it was. -/
def Answer.errno (interrupted : Bool) : Answer → Bool
  | retry again => again
  | taken _ | fatal => interrupted

/-- The loop of `buffer_flush_all`; with no answer left it has not returned. -/
def flushLoop (interrupted : Bool) (chunks : Chunks Byte size) : List Answer → Outcome Byte size
  | [] => ⟨none, chunks, []⟩
  | answer :: answers =>
    let flushed := bufferFlushAvailable chunks answer
    let interrupted := answer.errno interrupted
    if flushed.status ≠ some .pending ∨ headAt flushed.chunks = headAt chunks ∧ ¬ interrupted then
      flushed
    else
      let rest := flushLoop interrupted flushed.chunks answers
      { rest with sent := flushed.sent ++ rest.sent }

/-- `buffer_flush_all`. -/
def bufferFlushAll (interrupted : Bool) (answers : List Answer) : Outcome Byte size :=
  if chunks = [] then ⟨some .empty, chunks, []⟩ else flushLoop interrupted chunks answers

/-- The rest of a text is queued, of which the descriptor took some bytes. -/
def putRest (count : Nat) : Outcome Byte size :=
  let after := bufferPut positive chunks (text.drop count)
  ⟨some (statusOf after), after, text.take count⟩

/-- `buffer_write`, which writes past the queue only if there is none. -/
def bufferWrite (answer : Answer) : Outcome Byte size :=
  if chunks = [] then
    match answer with
    | .taken count => putRest positive chunks text count
    | .retry _ => putRest positive chunks text 0
    | .fatal => ⟨some .error, chunks, []⟩
  else putRest positive chunks text 0

/-! ## What a call does -/

/-- The bytes taken and those queued are the bytes queued before and those
put, and `BUFFER_EMPTY` is returned for an empty queue. -/
structure Keeps (outcome : Outcome Byte size) : Prop where
  bytes : outcome.sent ++ queued outcome.chunks = queued chunks ++ text
  empty : outcome.status = some .empty → outcome.chunks = []

variable {chunks text}

theorem empty_of_statusOf (empty : statusOf chunks = .empty) : chunks = [] := by
  unfold statusOf at empty
  split at empty
  · assumption
  · cases empty

theorem scatter_queued (iovcnt nbyte : Nat) (chunks : Chunks Byte size) :
    scatter iovcnt nbyte chunks <+: queued chunks := by
  fun_induction scatter iovcnt nbyte chunks with
  | case1 => exact nil_prefix
  | case2 _ _ d next _ ih => exact (prefix_append_right_inj d.left).mpr ih
  | case3 => exact nil_prefix

theorem scatter_eq_nil (none : scatter 0 0 chunks = []) : chunks = [] := by
  cases chunks with
  | nil => rfl
  | cons d next =>
    have := d.unflushed
    rw [scatter, if_pos (by decide), append_eq_nil_iff, BufferData.left, drop_eq_nil_iff] at none
    omega

theorem queued_freePrinted (written : Nat) (chunks : Chunks Byte size) :
    queued (freePrinted written chunks) = (queued chunks).drop written := by
  fun_induction freePrinted written chunks with
  | case1 => rw [queued, flatMap_nil, drop_nil]
  | case2 written d next partly =>
    rw [← length_drop] at partly
    simp only [queued, flatMap_cons, BufferData.left]
    rw [drop_append_of_le_length (Nat.le_of_lt partly), drop_drop]
  | case3 written d next whole ih =>
    rw [← length_drop] at whole
    rw [ih, queued, queued, flatMap_cons, drop_append, BufferData.left,
      drop_eq_nil_of_le (Nat.le_of_not_lt whole), nil_append, length_drop]

theorem keeps_unchanged {status : BufferStatus} (empty : status = .empty → chunks = []) :
    Keeps chunks [] ⟨some status, chunks, []⟩ :=
  ⟨by simp, fun same => empty (Option.some.inj same)⟩

theorem keeps_flushAvailable (chunks : Chunks Byte size) (answer : Answer) :
    Keeps chunks [] (bufferFlushAvailable chunks answer) := by
  unfold bufferFlushAvailable
  by_cases none : scatter 0 0 chunks = []
  · rw [if_pos none]
    exact keeps_unchanged fun _ => scatter_eq_nil none
  · rw [if_neg none]
    cases answer with
    | taken count =>
      refine ⟨?_, fun same => empty_of_statusOf (Option.some.inj same)⟩
      have front := take_prefix count (scatter 0 0 chunks)
      obtain ⟨rest, whole⟩ := front.trans (scatter_queued 0 0 chunks)
      rw [queued_freePrinted, append_nil, ← whole, drop_left]
    | retry again => exact keeps_unchanged nofun
    | fatal => exact keeps_unchanged nofun

theorem keeps_flushLoop (interrupted : Bool) (chunks : Chunks Byte size) (answers : List Answer) :
    Keeps chunks [] (flushLoop interrupted chunks answers) := by
  induction answers generalizing interrupted chunks with
  | nil => exact ⟨by simp [flushLoop], nofun⟩
  | cons answer answers ih =>
    have flushed := keeps_flushAvailable chunks answer
    rw [flushLoop]
    split
    · exact flushed
    · have rest := ih (answer.errno interrupted) (bufferFlushAvailable chunks answer).chunks
      refine ⟨?_, rest.empty⟩
      rw [append_assoc, rest.bytes, append_nil]
      exact flushed.bytes

theorem keeps_putRest (count : Nat) (free : count = 0 ∨ chunks = []) :
    Keeps chunks text (putRest positive chunks text count) := by
  refine ⟨?_, fun same => empty_of_statusOf (Option.some.inj same)⟩
  rw [putRest, queued_bufferPut]
  rcases free with rfl | rfl
  · rfl
  · simp [queued]

/-! ## Runs -/

inductive Call (Byte : Type u) where
  | put (text : List Byte)
  | write (text : List Byte) (answer : Answer)
  | flushAvailable (answer : Answer)
  | flushAll (interrupted : Bool) (answers : List Answer)

def Call.bytes : Call Byte → List Byte
  | put text | write text _ => text
  | flushAvailable _ | flushAll _ _ => []

def step (chunks : Chunks Byte size) : Call Byte → Outcome Byte size
  | .put text => ⟨none, bufferPut positive chunks text, []⟩
  | .write text answer => bufferWrite positive chunks text answer
  | .flushAvailable answer => bufferFlushAvailable chunks answer
  | .flushAll interrupted answers => bufferFlushAll chunks interrupted answers

/-- After a run: what the last call returned, the chunks, and all bytes that
the descriptor took. -/
def run (calls : List (Call Byte)) : Outcome Byte size :=
  calls.foldl (fun before call =>
    let after := step positive before.chunks call
    { after with sent := before.sent ++ after.sent }) ⟨none, [], []⟩

theorem keeps_step (chunks : Chunks Byte size) (call : Call Byte)
    (retried : ∀ text, call ≠ .write text .fatal) :
    Keeps chunks call.bytes (step positive chunks call) := by
  cases call with
  | put text => exact ⟨queued_bufferPut positive chunks text, nofun⟩
  | write text answer =>
    rw [step]
    unfold bufferWrite
    by_cases free : chunks = []
    · rw [if_pos free]
      cases answer with
      | taken count => exact keeps_putRest positive count (.inr free)
      | retry again => exact keeps_putRest positive 0 (.inl rfl)
      | fatal => exact absurd rfl (retried text)
    · rw [if_neg free]
      exact keeps_putRest positive 0 (.inl rfl)
  | flushAvailable answer => exact keeps_flushAvailable chunks answer
  | flushAll interrupted answers =>
    rw [step, bufferFlushAll]
    split
    · rename_i free
      exact keeps_unchanged fun _ => free
    · exact keeps_flushLoop interrupted chunks answers

/-- The bytes that the descriptor took and those still queued are the bytes
put, in order, and `BUFFER_EMPTY` is returned only when nothing is queued, as
long as no direct write fails for good. -/
theorem lossless (calls : List (Call Byte)) (retried : ∀ text, .write text .fatal ∉ calls) :
    (run positive calls).sent ++ queued (run positive calls).chunks = calls.flatMap Call.bytes ∧
      ((run positive calls).status = some .empty → (run positive calls).chunks = []) := by
  induction calls using reverseRecOn with
  | nil => exact ⟨rfl, nofun⟩
  | append_singleton calls call ih =>
    obtain ⟨bytes, -⟩ := ih fun text member => retried text (mem_append_left _ member)
    have last := keeps_step positive (run positive calls).chunks call fun text same =>
      retried text (mem_append_right _ (mem_singleton.mpr same.symm))
    rw [run, foldl_append, foldl_cons, foldl_nil]
    refine ⟨?_, last.empty⟩
    rw [append_assoc, flatMap_append, ← bytes, append_assoc, flatMap_singleton]
    exact congrArg _ last.bytes

/-- The byte of a write is queued behind the third one, which was not flushed. -/
theorem write_behind_chunk :
    let after := run (by decide : 0 < 2)
      [.put [1, 2, 3], .flushAvailable (.taken 2), .write [4] (.retry true)]
    after.sent ++ queued after.chunks = [1, 2, 3, 4] ∧
      (after.status = some .empty → after.chunks = []) :=
  lossless (by decide) _ (by simp)

end OpsCli.Vty.OutputBuffer
