import OpsCli.CLib.CString

/-!
# Running an alias

`vtysh_alias_callback` looks up the definition of an alias, assembles the
commands in it one after the other in a buffer, and executes each of them.
References to arguments are appended with `strcat`, all other characters are
written at an index of their own.  There is no defined behaviour beyond the end
of the buffer.
-/

namespace OpsCli.Vtysh.Alias

open CLib.CString List

/-! ## The buffer -/

abbrev Buffer := List Char

def nul : Char := '\x00'

variable (buffer : Buffer)

def cString : CStr :=
  buffer.takeWhile (· ≠ nul)

/-- `buffer[i] = c`. -/
def write (i : Nat) (c : Char) : Buffer :=
  buffer.take i ++ List.replicate (i - buffer.length) nul ++ c :: buffer.drop (i + 1)

/-- `strcat (buffer, str)`. -/
def strcat (str : CStr) : Buffer :=
  cString buffer ++ str ++ nul :: buffer.drop ((cString buffer).length + str.length + 1)

theorem cString_append_nul {text : CStr} (proper : nul ∉ text) (rest : Buffer) :
    cString (text ++ nul :: rest) = text := by
  have solid : ∀ c ∈ text, decide (c ≠ nul) := by
    intro c member
    apply decide_eq_true
    rintro rfl
    exact proper member
  unfold cString
  rw [takeWhile_append_of_pos solid, takeWhile_cons_of_neg (by simp)]
  exact append_nil text

theorem cString_text {text : CStr} (proper : nul ∉ text) : cString text = text := by
  unfold cString
  rw [takeWhile_eq_self_iff]
  intro c member
  exact decide_eq_true fun equal => proper (equal ▸ member)

theorem nul_not_mem_cString : nul ∉ cString buffer := by
  intro member
  have kept := mem_takeWhile_imp member
  exact absurd rfl (of_decide_eq_true kept)

/-! ## References -/

/-- The largest `int`. -/
def intMax : Nat := 2 ^ 31 - 1

/-- `vtysh_alias_string_to_int`; `none` if the `int` overflows, which it may do
before the code of `'0'` is subtracted. -/
def vtyshAliasStringToInt : CStr → Nat → Option Nat
  | [], ret => some ret
  | c :: rest, ret =>
    if isdigit c then
      if ret * 10 + c.toNat ≤ intMax then
        vtyshAliasStringToInt rest (ret * 10 + c.toNat - '0'.toNat)
      else none
    else some ret

/-- The rounds of `while (arg_count)`, of which there are at most as many as
the value. -/
def divideRounds : Nat → Nat → Nat
  | 0, _ => 0
  | fuel + 1, value =>
    if value = 0 then 0 else divideRounds fuel (value / 10) + 1

def digitCount (value : Nat) : Nat :=
  divideRounds value value

/-! ## The callback -/

/-- What the callback does. -/
inductive AliasEvent where
  | execute (line : CStr)
  | output (text : CStr)
deriving DecidableEq, Repr

/-- The variables of the loop over the definition, and whether all that has
been written is inside `current_cmd`. -/
structure Assembly where
  currentCmd : Buffer
  i : Nat
  maxArgCount : Nat
  inside : Bool
deriving DecidableEq, Repr

/-- Where `vty->buf` points: to the line on entry, or into the buffer of the
callback. -/
inductive VtyBuf where
  | entry
  | currentCmd
deriving DecidableEq, Repr

/-- What happened until the callback returns, and `vty->buf` at that time. -/
structure AliasOutcome where
  events : List AliasEvent
  buf : VtyBuf
deriving DecidableEq, Repr

/-- Something happens before everything else. -/
def AliasOutcome.after (event : AliasEvent) (outcome : AliasOutcome) : AliasOutcome :=
  { outcome with events := event :: outcome.events }

/-- `VTYSH_MAX_ALIAS_LIST_LEN`. -/
def vtyshMaxAliasListLen : Nat := 400

/-- `VTYSH_ERROR_ALIAS_LOOP_ALIAS`. -/
def aliasLoopText : CStr :=
  "Alias name can not be part of its own definition\n"

/-- `VTYSH_ERROR_ALIAS_NOT_FOUND`. -/
def aliasNotFoundText (name : CStr) : CStr :=
  "Alias (" ++ name ++ ") not configured\n"

/-- The buffer from `strt` on: the blanks at the start are skipped. -/
def skipBlanks : Buffer :=
  buffer.dropWhile (· = ' ')

/-- The test for a command that calls the alias itself. -/
def callsItself (cmdNow : CStr) (strt : Buffer) : Bool :=
  cmdNow.isPrefixOf (cString strt) && (strt.getD (cmdNow.length + 1) nul = ' ' ||
      strt.getD (cmdNow.length + 1) nul = nul)

/-- The arguments that have not been used are appended. -/
def appendUnused (currentCmd : Buffer) (args : List CStr) : Buffer :=
  args.foldl (fun buffer arg => strcat (strcat buffer [' ']) arg) currentCmd

def Assembly.copy (assembly : Assembly) (c : Char) : Assembly :=
  { assembly with
    currentCmd := write assembly.currentCmd assembly.i c
    i := assembly.i + 1
    inside := assembly.inside && assembly.i < vtyshMaxAliasListLen }

/-- A reference to the argument `argCount`. -/
def Assembly.refer (assembly : Assembly) (argCount : Nat) (arg : CStr) : Assembly :=
  let currentCmd := strcat (strcat assembly.currentCmd arg) [' ']
  { currentCmd
    i := assembly.i + (cString currentCmd).length
    maxArgCount := max assembly.maxArgCount argCount
    inside := assembly.inside && (cString currentCmd).length < vtyshMaxAliasListLen }

/-- The test for a command that calls the alias itself, if `current_cmd` has
been written and is read inside its bounds only. -/
def Assembly.selfTest (cmdNow : CStr) (assembly : Assembly) : Option Bool :=
  let strt := skipBlanks assembly.currentCmd
  let start := (cString assembly.currentCmd).length - (cString strt).length
  if !assembly.inside || vtyshMaxAliasListLen ≤ (cString assembly.currentCmd).length then none
  else if cmdNow.isPrefixOf (cString strt) && vtyshMaxAliasListLen ≤ start + cmdNow.length + 1 then
    none
  else some (callsItself cmdNow strt)

/-- Behind the loop: the arguments that have not been used are appended, and
the last command is executed. -/
def finishAlias (cmdNow : CStr) (args : List CStr) (assembly : Assembly)
    (buf : VtyBuf) : Option AliasOutcome :=
  let assembly := { assembly with
    currentCmd := appendUnused assembly.currentCmd (args.drop assembly.maxArgCount) }
  match assembly.selfTest cmdNow with
  | none => none
  | some itself =>
    some (if assembly.currentCmd.headD nul = nul then ⟨[], .entry⟩
      else if itself then ⟨[.output aliasLoopText], buf⟩
      else ⟨[.execute (cString (skipBlanks assembly.currentCmd))], .entry⟩)

/-- The loop over the definition from the index `len` on; `skip` more
characters belong to the last reference. -/
def aliasLoop (cmdNow : CStr) (args : List CStr) :
    CStr → Nat → Nat → Assembly → VtyBuf → Option AliasOutcome
  | [], _, _, assembly, buf => finishAlias cmdNow args assembly buf
  | _ :: rest, len, skip + 1, assembly, buf =>
    aliasLoop cmdNow args rest (len + 1) skip assembly buf
  | c :: rest, len, 0, assembly, buf =>
    if vtyshMaxAliasListLen < len then finishAlias cmdNow args assembly buf
    else if c = '$' then
      match vtyshAliasStringToInt rest 0 with
      | none => none
      | some argCount =>
        if argCount ≠ 0 ∧ argCount ≤ args.length then
          aliasLoop cmdNow args rest (len + 1) (digitCount argCount)
            (assembly.refer argCount (args.getD (argCount - 1) [])) buf
        else
          aliasLoop cmdNow args rest (len + 1) 0 (assembly.copy c) buf
    else if c = ';' then
      match assembly.selfTest cmdNow with
      | none => none
      | some true => some ⟨[.output aliasLoopText], buf⟩
      | some false =>
        (aliasLoop cmdNow args rest (len + 1) 0 ⟨[], 0, assembly.maxArgCount, true⟩
            .currentCmd).map
          (·.after (.execute (cString (skipBlanks assembly.currentCmd))))
    else aliasLoop cmdNow args rest (len + 1) 0 (assembly.copy c) buf

/-- `vtysh_alias_callback`, for the rows of the alias table and the line in
`vty->buf`; `none` if an `int` overflows or an array is left.  The loop over a
line without a blank also copies its end. -/
def vtyshAliasCallback (rows : List (CStr × CStr)) (buf : CStr)
    (args : List CStr) : Option AliasOutcome :=
  let cmdNow := buf.takeWhile (· ≠ ' ')
  if vtyshMaxAliasListLen ≤ cmdNow.length + if cmdNow = buf then 1 else 0 then none
  else match rows.find? (·.1 = cmdNow) with
  | none => some ⟨[.output (aliasNotFoundText cmdNow)], .entry⟩
  | some (_, foundCmd) =>
    aliasLoop cmdNow args foundCmd 0 0 ⟨[], 0, 0, true⟩ .entry

end OpsCli.Vtysh.Alias
