import Mathlib.Data.List.Basic

/-!
# Reading a terminal

`vty_read` takes the bytes of one read through the telnet commands, the escape
sequences and the line editor.  The telnet and escape states are kept in the
`struct vty`; the byte to be skipped behind a telnet command is kept in the
loop index, and is forgotten when the read ends there.
-/

namespace OpsCli.Vty.Reading

universe u

/-- The functions of the line editor that `vty_read` calls. -/
inductive Key where
  | beginningOfLine | endOfLine | backwardChar | forwardChar | backwardWord | forwardWord
  | previousLine | nextLine | deleteChar | deleteBackwardChar | killLine
  | killLineFromBeginning | backwardKillWord | forwardKillWord | transposeChars
  | stopInput | endConfig | execute | completeCommand | describeCommand | bufferReset
  | selfInsert (c : UInt8)
  deriving DecidableEq

/-- The rest of a `struct vty`, as far as `vty_read` comes at it. -/
structure Functions (σ : Type u) where
  press : Key → σ → σ
  resize : (width height : Nat) → σ → σ
  /-- The status is `VTY_MORE`. -/
  more : σ → Bool
  /-- The status is `VTY_CLOSE`. -/
  closed : σ → Bool
  /-- The node asks for a password. -/
  authenticates : σ → Bool

inductive Escape where
  | normal | preEscape | escape
  deriving DecidableEq

structure State (σ : Type u) where
  rest : σ
  escape : Escape := .normal
  iac : Bool := false
  iacSbInProgress : Bool := false
  sbBuf : Vector UInt8 5 := .replicate 5 0
  sbLen : Nat := 0

variable {σ : Type u} (functions : Functions σ)

def State.press (vty : State σ) (key : Key) : State σ :=
  { vty with rest := functions.press key vty.rest }

/-- `vty_telnet_option` on `SB`, `SE` and the others, with whether the next byte is
skipped. -/
def vtyTelnetOption (vty : State σ) : UInt8 → Bool × State σ
  | 250 => (false, { vty with sbLen := 0, iacSbInProgress := true })
  | 240 =>
    let resized :=
      if vty.iacSbInProgress ∧ vty.sbLen = 5 ∧ vty.sbBuf[0] = 31 then
        functions.resize (vty.sbBuf[1].toNat * 256 + vty.sbBuf[2].toNat)
          (vty.sbBuf[3].toNat * 256 + vty.sbBuf[4].toNat) vty.rest
      else vty.rest
    (false, { vty with rest := resized, iacSbInProgress := false })
  | _ => (true, vty)

/-- What `vty_escape_map` calls. -/
def vtyEscapeMap : UInt8 → Option Key
  | 65 => some .previousLine
  | 66 => some .nextLine
  | 67 => some .forwardChar
  | 68 => some .backwardChar
  | _ => none

/-- What is called in the state `VTY_PRE_ESCAPE`. -/
def preEscapeMap : UInt8 → Option Key
  | 98 => some .backwardWord
  | 102 => some .forwardWord
  | 100 => some .forwardKillWord
  | 8 | 127 => some .backwardKillWord
  | _ => none

/-- What is called in the state `VTY_NORMAL`. -/
def normalMap (authenticates : Bool) : UInt8 → Option Key
  | 1 => some .beginningOfLine
  | 2 => some .backwardChar
  | 3 => some .stopInput
  | 4 => some .deleteChar
  | 5 => some .endOfLine
  | 6 => some .forwardChar
  | 8 | 127 => some .deleteBackwardChar
  | 11 => some .killLine
  | 14 => some .nextLine
  | 16 => some .previousLine
  | 20 => some .transposeChars
  | 21 => some .killLineFromBeginning
  | 23 => some .backwardKillWord
  | 26 => some .endConfig
  | 10 | 13 => some .execute
  | 9 => some .completeCommand
  | 63 => some (if authenticates then .selfInsert 63 else .describeCommand)
  | c => if 31 < c ∧ c < 127 then some (.selfInsert c) else none

/-- A byte that is not part of a telnet command. -/
def vtyReadPlain (vty : State σ) (byte : UInt8) (next : Option UInt8) : Bool × State σ :=
  let press (key : Option Key) := key.elim vty (vty.press functions)
  if functions.more vty.rest then
    (false, if byte = 3 ∨ byte = 113 ∨ byte = 81 then vty.press functions .bufferReset else vty)
  else
    match vty.escape with
    | .escape => (false, { press (vtyEscapeMap byte) with escape := .normal })
    | .preEscape =>
      if byte = 91 then (false, { vty with escape := .escape })
      else (false, { press (preEscapeMap byte) with escape := .normal })
    | .normal =>
      if byte = 27 then
        if next = some 91 then (true, { vty with escape := .escape })
        else (false, { vty with escape := .preEscape })
      else (false, press (normalMap (functions.authenticates vty.rest) byte))

/-- One round of the loop of `vty_read`, with whether the next byte is skipped; 255 is
`IAC`. -/
def vtyReadByte (vty : State σ) (byte : UInt8) (next : Option UInt8) : Bool × State σ :=
  if byte = 255 ∧ !vty.iac then (false, { vty with iac := true })
  else if vty.iac ∧ byte ≠ 255 then
    ((vtyTelnetOption functions vty byte).1,
      { (vtyTelnetOption functions vty byte).2 with iac := false })
  else if vty.iacSbInProgress then
    (false, { vty with
      iac := false, sbBuf := vty.sbBuf.setIfInBounds vty.sbLen byte, sbLen := vty.sbLen + 1 })
  else vtyReadPlain functions { vty with iac := false } byte next

/-- The loop of `vty_read`, with whether a byte behind the read was to be skipped. -/
def vtyReadLoop : Bool × State σ → List UInt8 → Bool × State σ
  | state, [] => state
  | (true, vty), _ :: bytes => vtyReadLoop (false, vty) bytes
  | (false, vty), byte :: bytes =>
    vtyReadLoop (vtyReadByte functions vty byte bytes.head?) bytes

/-! ## Cuts of the input -/

/-- Successive calls of `vty_read`, until the session is closed. -/
def vtyReads (vty : State σ) : List (List UInt8) → State σ
  | [] => vty
  | bytes :: reads =>
    let read := (vtyReadLoop functions (false, vty) bytes).2
    if functions.closed read.rest then read else vtyReads read reads

/-- What the next byte of the stream is to telnet. -/
inductive Telnet where
  | data | command | option
  deriving DecidableEq

/-- The next byte behind a byte: all commands but `IAC`, `SB` and `SE` have an option. -/
def Telnet.next : Telnet → UInt8 → Telnet
  | .data, 255 => .command
  | .command, 255 | .command, 250 | .command, 240 => .data
  | .command, _ => .option
  | _, _ => .data

/-- No read but the last ends between a telnet command and its option or with the session
closed. -/
structure Whole (vty : State σ) (reads : List (List UInt8)) : Prop where
  option : ∀ k < reads.length, (reads.take k).flatten.foldl Telnet.next
    (if vty.iac then .command else .data) ≠ .option
  opened : ∀ k, 0 < k → k < reads.length →
    functions.closed (vtyReadLoop functions (false, vty) (reads.take k).flatten).2.rest = false

/-- A byte, taken without regard to the next one. -/
def take : Bool × State σ → UInt8 → Bool × State σ
  | (true, vty), _ => (false, vty)
  | (false, vty), byte => vtyReadByte functions vty byte none

variable {functions} {vty : State σ}

/-- Seeing `ESC [` at once is as good as reading its two bytes. -/
theorem vtyReadPlain_ahead (byte next : UInt8) (plain : vty.iac = false)
    (outside : vty.iacSbInProgress = false) :
    take functions (vtyReadPlain functions vty byte (some next)) next =
      take functions (vtyReadPlain functions vty byte none) next := by
  unfold vtyReadPlain
  split
  · rfl
  · rename_i unpaged
    cases vty.escape with
    | escape => rfl
    | preEscape => rfl
    | normal =>
      by_cases ahead : byte = 27 ∧ next = 91
      · obtain ⟨rfl, rfl⟩ := ahead
        simp [take, vtyReadByte, vtyReadPlain, plain, outside, unpaged]
      · simp_all

theorem vtyReadByte_ahead (byte next : UInt8) :
    take functions (vtyReadByte functions vty byte (some next)) next =
      take functions (vtyReadByte functions vty byte none) next := by
  unfold vtyReadByte
  split_ifs with command option sub
  · rfl
  · rfl
  · rfl
  · exact vtyReadPlain_ahead byte next rfl (by simpa using sub)

theorem vtyReadLoop_eq_foldl (bytes : List UInt8) (state : Bool × State σ) :
    vtyReadLoop functions state bytes = bytes.foldl (take functions) state := by
  induction bytes generalizing state with
  | nil => rw [vtyReadLoop, List.foldl_nil]
  | cons byte bytes ih =>
    obtain ⟨_ | _, vty⟩ := state
    · rw [vtyReadLoop, ih]
      cases bytes with
      | nil => rfl
      | cons next bytes =>
        rw [List.foldl_cons, List.head?_cons, vtyReadByte_ahead]
        rfl
    · rw [vtyReadLoop, ih]
      rfl

theorem vtyReadLoop_append (bytes more : List UInt8) (state : Bool × State σ) :
    vtyReadLoop functions state (bytes ++ more) =
      vtyReadLoop functions (vtyReadLoop functions state bytes) more := by
  simp only [vtyReadLoop_eq_foldl, List.foldl_append]

/-- The byte to be skipped and `iac`, as the next byte of the stream has them. -/
def Telnet.flags : Telnet → Bool × Bool
  | .data => (false, false)
  | .command => (false, true)
  | .option => (true, false)

def flags (state : Bool × State σ) : Bool × Bool :=
  (state.1, state.2.iac)

theorem vtyReadPlain_flags (byte : UInt8) :
    flags (vtyReadPlain functions vty byte none) = (false, vty.iac) := by
  have pressed (key : Option Key) : (key.elim vty (vty.press functions)).iac = vty.iac := by
    cases key <;> rfl
  unfold vtyReadPlain
  grind [flags, State.press]

theorem vtyReadByte_flags {byte : UInt8} (data : byte = 255 ↔ vty.iac) :
    flags (vtyReadByte functions vty byte none) = (false, false) := by
  rw [vtyReadByte, if_neg (by simp [data]), if_neg (by simp [data])]
  split
  · rfl
  · exact vtyReadPlain_flags byte

theorem take_flags {state : Bool × State σ} {telnet : Telnet} (located : flags state = telnet.flags)
    (byte : UInt8) : flags (take functions state byte) = (telnet.next byte).flags := by
  obtain ⟨skip, vty⟩ := state
  obtain ⟨same, iac⟩ : skip = telnet.flags.1 ∧ vty.iac = telnet.flags.2 := Prod.mk.inj located
  subst same
  cases telnet with
  | option => exact Prod.ext rfl iac
  | data =>
    change flags (vtyReadByte functions vty byte none) = _
    by_cases command : byte = 255
    · rw [vtyReadByte, if_pos ⟨command, by simp [iac, Telnet.flags]⟩, command]
      rfl
    · rw [vtyReadByte_flags (by simp [command, iac, Telnet.flags])]
      simp [Telnet.next, command, Telnet.flags]
  | command =>
    change flags (vtyReadByte functions vty byte none) = _
    by_cases command : byte = 255
    · rw [vtyReadByte_flags (by simp [command, iac, Telnet.flags]), command]
      rfl
    · rw [vtyReadByte, if_neg (command ·.1), if_pos ⟨iac, command⟩]
      unfold vtyTelnetOption Telnet.next
      grind [flags, Telnet.flags]

theorem vtyReadLoop_flags {state : Bool × State σ} {telnet : Telnet}
    (located : flags state = telnet.flags) (bytes : List UInt8) :
    flags (vtyReadLoop functions state bytes) = (bytes.foldl Telnet.next telnet).flags := by
  rw [vtyReadLoop_eq_foldl]
  induction bytes generalizing state telnet with
  | nil => exact located
  | cons byte bytes ih => exact ih (take_flags located byte)

/-- The first of several reads leaves nothing to be skipped, and an open session for the
others. -/
theorem Whole.tail {bytes : List UInt8} {reads : List (List UInt8)}
    (whole : Whole functions vty (bytes :: reads)) (more : reads ≠ []) :
    (vtyReadLoop functions (false, vty) bytes).1 = false ∧
      functions.closed (vtyReadLoop functions (false, vty) bytes).2.rest = false ∧
      Whole functions (vtyReadLoop functions (false, vty) bytes).2 reads := by
  have start : flags (false, vty) = (if vty.iac then Telnet.command else .data).flags := by
    cases iac : vty.iac <;> exact Prod.ext rfl iac
  have bound : 1 < (bytes :: reads).length := Nat.succ_lt_succ (List.length_pos_iff.mpr more)
  have located := @vtyReadLoop_flags _ functions _ _ start bytes
  have uncut : bytes.foldl Telnet.next (if vty.iac then .command else .data) ≠ .option := by
    simpa using whole.option 1 bound
  have opened := whole.opened 1 Nat.one_pos bound
  have option (k : Nat) (inside : k < reads.length) :=
    whole.option (k + 1) (Nat.succ_lt_succ inside)
  have later (k : Nat) (inside : k < reads.length) :=
    whole.opened (k + 1) k.succ_pos (Nat.succ_lt_succ inside)
  simp only [List.take_succ_cons, List.take_zero, List.flatten_cons, List.flatten_nil,
    List.append_nil, List.foldl_append, vtyReadLoop_append] at opened option later
  generalize bytes.foldl Telnet.next (if vty.iac then .command else .data) = telnet at *
  generalize vtyReadLoop functions (false, vty) bytes = state at *
  obtain ⟨skip, read⟩ := state
  obtain ⟨rfl, iac⟩ : skip = false ∧ telnet = if read.iac then .command else .data := by
    obtain ⟨same, iac⟩ : skip = telnet.flags.1 ∧ read.iac = telnet.flags.2 := Prod.mk.inj located
    rw [same, iac]
    cases telnet with
    | option => exact absurd rfl uncut
    | data | command => exact ⟨rfl, rfl⟩
  exact ⟨rfl, opened, fun k inside => iac ▸ option k inside, fun k _ inside => later k inside⟩

theorem vtyReads_whole {reads : List (List UInt8)} (whole : Whole functions vty reads) :
    vtyReads functions vty reads =
      (vtyReadLoop functions (false, vty) reads.flatten).2 := by
  induction reads generalizing vty with
  | nil => rfl
  | cons bytes reads ih =>
    rw [List.flatten_cons, vtyReadLoop_append, vtyReads]
    rcases eq_or_ne reads [] with rfl | more
    · exact ite_self _
    · obtain ⟨kept, opened, whole⟩ := whole.tail more
      rw [if_neg (by simp [opened]), ih whole]
      exact congrArg (fun state => (vtyReadLoop functions state reads.flatten).2)
        (Prod.ext kept.symm rfl)

def calls : Functions (List Key) where
  press key keys := keys ++ [key]
  resize _ _ keys := keys
  more _ := false
  closed _ := false
  authenticates _ := false

end OpsCli.Vty.Reading
