import OpsCli.Command.Execute
import OpsCli.Command.Line
import OpsCli.Vtysh.Alias

/-!
# Reading a configuration file

`vtysh_config_from_file` reads a file line by line into the buffer of the
terminal and submits the words of each line to `cmd_execute_command_strict`.
Comments are recognised twice: by a test on the raw buffer, and by
`cmd_make_strvec`.  The first test looks at the second character of the buffer
where it should look at the first one.  A command that is executed leaves
`vty->buf` at its own string, into which the next line cannot be read.
-/

namespace OpsCli.Vtysh.ConfigFile

open CLib CString Words Command.Selection Command.Execute Command.Line
  Alias List

/-! ## Reading the file -/

/-- `VTY_BUFSIZ`. -/
def vtyBufsiz : Nat := 512

/-- `fgets` with room for `size` characters: what is read, up to and with the
end of the line, and what is left of the file. -/
def fgets (size : Nat) (text : List Char) : List Char × List Char :=
  text.splitAt (min ((text.takeWhile (· ≠ '\n')).length + 1) (size - 1))

/-- The contents of the buffer after each call of `fgets`, which reads at
least one character. -/
def buffers (size : Nat) : Nat → List Char → List (List Char)
  | 0, _ => []
  | _, [] => []
  | fuel + 1, c :: rest =>
    (fgets size (c :: rest)).1 :: buffers size fuel (fgets size (c :: rest)).2

/-- What the loop finds in the buffer: the words of a command, unless the
buffer is taken for a comment or is blank. -/
def readBuffer (buf : List Char) : Option (List CStr) :=
  if buf[0]? = some '!' || buf[1]? = some '#' then none
  else cmdMakeStrvec (cString buf)

/-! ## Submitting a command -/

variable {World : Type} {line file : List Char} {fuel : Nat}

/-- What the loop calls, and the node of the terminal.  `string` is the string
of the command at which `cmd_execute_command_real` has left `vty->buf`, if it has
called a handler. -/
structure Shell (World : Type) where
  strict : List CStr → World → CmdStatus × World
  execute : CStr → World → World
  exitRipdOnly : World → World
  clientExecute : List Char → World → World
  node : World → NodeType
  setNode : NodeType → World → World
  isFile : World → Bool
  string : World → Option CStr

/-- One command that was submitted: its words, the status of every call of
`cmd_execute_command_strict` for it, and the message that was printed. -/
structure Submission where
  vline : List CStr
  statuses : List CmdStatus
  message : CStr
deriving DecidableEq, Repr

/-- The statuses after which a command is not tried again. -/
def isSettled (status : CmdStatus) : Bool :=
  status = .success || status = .successDaemon || status = .warning

variable (shell : Shell World)

def attempts (vline : List CStr) (world : World) : List CmdStatus × World :=
  match shell.strict vline world with
  | (ret, world) =>
    if isSettled ret then ([ret], world)
    else if shell.node world = .keychainKeyNode then
      match shell.strict vline (shell.exitRipdOnly (shell.setNode .keychainNode world)) with
      | (second, world) =>
        if isSettled second then ([second, ret], world)
        else
          match shell.strict vline (shell.setNode .configNode (shell.exitRipdOnly world)) with
          | (third, world) => ([third, second, ret], world)
    else
      match shell.strict vline (shell.setNode .configNode (shell.execute "configure terminal"
              (shell.execute "end" world))) with
      | (second, world) => ([second, ret], world)

def statusMessage (isFile : Bool) (buf : List Char) : CmdStatus → CStr
  | .warning => if isFile then "Warning...\n" else []
  | .errAmbiguous => "% Ambiguous command.\n"
  | .errNoMatch => "% Unknown command: " ++ cString buf
  | .errIncomplete => "% Command incomplete.\n"
  | _ => []

/-- The body of the loop for a buffer with a command in it. -/
def submit (buf : List Char) (vline : List CStr)
    (world : World) : Submission × World :=
  match attempts shell vline world with
  | (statuses, world) =>
    let buf := (shell.string world).getD buf
    (⟨vline, statuses.reverse, statusMessage (shell.isFile world) buf (statuses.headD .success)⟩,
      if statuses.head? = some .successDaemon then
        shell.clientExecute buf world
      else world)

/-- The loop over the buffers; `fgets` cannot write into the string of a
command. -/
def configLoop (shell : Shell World) :
    List (List Char) → World → Option (List Submission × World)
  | [], world => some ([], world)
  | buf :: rest, world =>
    if shell.string world ≠ none then none
    else
      match readBuffer buf with
      | none => configLoop shell rest world
      | some vline =>
        let next := submit shell buf vline world
        (configLoop shell rest next.2).map fun later => (next.1 :: later.1, later.2)

/-- `vtysh_config_from_file`. -/
def vtyshConfigFromFile (file : List Char)
    (world : World) : Option (List Submission × World) :=
  configLoop shell (buffers vtyBufsiz file.length file) world

/-- `vty->buf` is the buffer of the terminal whenever something is read into
it. -/
def inPlace (shell : Shell World) : List (List Char) → World → Bool
  | [], _ => true
  | buf :: rest, world =>
    shell.string world = none &&
      inPlace shell rest ((readBuffer buf).elim world fun vline => (submit shell buf vline world).2)

/-! ## What has to be submitted -/

/-- The lines of a file. -/
def lines (file : List Char) : List (List Char) :=
  file.splitOn '\n'

def isCommand (line : List Char) : Bool :=
  (line.dropWhile isspace).head?.any fun c => c ≠ '!' && c ≠ '#'

/-- The command on a line, as its words. -/
def commandOn (line : List Char) : Option (List CStr) :=
  if isCommand line then some (words isspace line) else none

/-- The command on the line is found in the buffer: its second character is
no `#`, and it has no zero in it. -/
def Regular (line : List Char) : Prop :=
  (line)[1]? ≠ some '#' ∧ nul ∉ line

instance (line : List Char) : Decidable (Regular line) :=
  inferInstanceAs (Decidable (_ ∧ _))

/-! ## The submissions are the commands in the buffers -/

def submitted (result : List Submission × World) : List (List CStr) :=
  result.1.map (·.vline)

theorem map_submitted_configLoop (bufs : List (List Char)) (world : World) :
    (configLoop shell bufs world).map submitted =
      if inPlace shell bufs world then some (bufs.filterMap readBuffer) else none := by
  induction bufs generalizing world with
  | nil => rfl
  | cons buf rest ih =>
    unfold configLoop inPlace
    by_cases moved : shell.string world ≠ none
    · rw [if_pos moved, if_neg (by simp [moved])]
      rfl
    rw [if_neg moved, decide_eq_true (not_not.mp moved), Bool.true_and]
    cases found : readBuffer buf with
    | none =>
      rw [filterMap_cons_none found]
      exact ih world
    | some vline =>
      have later := congrArg (Option.map (vline :: ·)) (ih (submit shell buf vline world).2)
      rw [Option.map_map] at later
      rw [filterMap_cons_some found]
      dsimp only [Option.elim_some]
      rw [Option.map_map]
      exact later.trans (apply_ite (Option.map (vline :: ·)) _ _ _)

/-! ## The end of a line -/

theorem cString_append_newline (line : List Char) : cString (line ++ ['\n']) =
      if nul ∈ line then cString line else line ++ ['\n'] := by
  unfold cString
  split
  · rename_i inside
    rw [takeWhile_append, if_neg]
    intro whole
    have start := takeWhile_prefix (l := line) (· ≠ nul)
    have all := takeWhile_eq_self_iff.mp (start.eq_of_length whole)
    exact absurd rfl (of_decide_eq_true (all nul inside))
  · rename_i outside
    refine takeWhile_eq_self_iff.mpr fun c member => ?_
    refine decide_eq_true ?_
    rintro rfl
    rcases mem_append.mp member with inside | last
    · exact outside inside
    · cases mem_singleton.mp last

theorem cmdMakeStrvec_append_newline (line : CStr) :
    cmdMakeStrvec (line ++ ['\n']) = cmdMakeStrvec line := by
  refine cmdMakeStrvec_congr ?_
  rw [words_append_blank (show isspace '\n' from rfl), words_nil, append_nil]

theorem readBuffer_append_newline (line : List Char) :
    readBuffer (line ++ ['\n']) = readBuffer line := by
  have sameTest : ((line ++ ['\n'])[0]? = some '!' || (line ++ ['\n'])[1]? = some '#' : Bool) =
        ((line)[0]? = some '!' || (line)[1]? = some '#' : Bool) := by
    match line with
    | [] => rfl
    | [_] => rfl
    | _ :: _ :: _ => rfl
  have sameWords : cmdMakeStrvec (cString (line ++ ['\n'])) = cmdMakeStrvec (cString line) := by
    rw [cString_append_newline]
    split
    · rfl
    · rename_i proper
      rw [cString_text proper]
      exact cmdMakeStrvec_append_newline line
  unfold readBuffer
  rw [sameTest, sameWords]

/-! ## The buffers and the lines -/

theorem lines_of_not_mem (whole : '\n' ∉ line) : lines line = [line] :=
  splitOn_eq_singleton whole

theorem lines_append (whole : '\n' ∉ line) (rest : List Char) :
    lines (line ++ '\n' :: rest) = line :: lines rest :=
  splitOn_append_cons_self_of_not_mem whole rest

theorem file_cases (file : List Char) :
    '\n' ∉ file ∨ ∃ line rest, '\n' ∉ line ∧ file = line ++ '\n' :: rest := by
  by_cases inside : '\n' ∈ file
  · obtain ⟨line, rest, equal, whole⟩ := eq_append_cons_of_mem inside
    exact .inr ⟨line, rest, whole, equal⟩
  · exact .inl inside

section

variable {size : Nat} (whole : '\n' ∉ line)
include whole

theorem all_ne_newline : ∀ c ∈ line, decide (c ≠ '\n') := by
  intro c member
  refine decide_eq_true ?_
  rintro rfl
  exact whole member

theorem fgets_last (fits : line.length ≤ size - 1) : fgets size line = (line, []) := by
  have upTo : line.takeWhile (· ≠ '\n') = line := takeWhile_eq_self_iff.mpr (all_ne_newline whole)
  have everything : line.length ≤ min (line.length + 1) (size - 1) := by
    omega
  unfold fgets
  rw [upTo, splitAt_eq, take_of_length_le everything, drop_of_length_le everything]

theorem takeWhile_line (rest : List Char) : (line ++ '\n' :: rest).takeWhile (· ≠ '\n') = line := by
  rw [takeWhile_append_of_pos (all_ne_newline whole), takeWhile_cons_of_neg (by decide), append_nil]

theorem fgets_line (fits : line.length < size - 1) (rest : List Char) :
    fgets size (line ++ '\n' :: rest) = (line ++ ['\n'], rest) := by
  have amount : min (line.length + 1) (size - 1) = (line ++ ['\n']).length := by
    rw [length_append, length_singleton]
    omega
  have regroup : line ++ '\n' :: rest = (line ++ ['\n']) ++ rest := by simp
  unfold fgets
  rw [takeWhile_line whole, amount, regroup, splitAt_eq, take_left', drop_left']
  · rfl
  · rfl

theorem fgets_full (fills : line.length = size - 1) (rest : List Char) :
    fgets size (line ++ '\n' :: rest) = (line, '\n' :: rest) := by
  have amount : min (line.length + 1) (size - 1) = line.length := by
    omega
  unfold fgets
  rw [takeWhile_line whole, amount, splitAt_eq, take_left, drop_left]

end

theorem readBuffer_nil : readBuffer [] = none :=
  rfl

theorem buffers_cons {size : Nat} (some : file ≠ []) :
    buffers size (fuel + 1) file =
      (fgets size file).1 :: buffers size fuel (fgets size file).2 := by
  cases file with
  | nil => exact absurd rfl some
  | cons c rest => rfl

theorem buffers_nil (size fuel : Nat) : buffers size fuel [] = [] := by
  cases fuel with
  | zero => rfl
  | succ fuel => rfl

theorem filterMap_buffers (enough : file.length ≤ fuel)
    (short : ∀ line ∈ lines file, line.length < vtyBufsiz) :
    (buffers vtyBufsiz fuel file).filterMap readBuffer = (lines file).filterMap readBuffer := by
  induction fuel generalizing file with
  | zero =>
    rw [length_eq_zero_iff.mp (Nat.le_zero.mp enough)]
    rfl
  | succ fuel ih =>
    rcases file_cases file with whole | ⟨line, rest, whole, rfl⟩
    · rw [lines_of_not_mem whole] at short ⊢
      cases file with
      | nil => rfl
      | cons c rest =>
        have fits : (c :: rest).length ≤ vtyBufsiz - 1 :=
          Nat.le_sub_one_of_lt (short _ mem_cons_self)
        rw [buffers_cons (cons_ne_nil c rest), fgets_last whole fits, buffers_nil]
    · rw [lines_append whole] at short ⊢
      obtain ⟨first, later⟩ := forall_mem_cons.mp short
      rw [length_append, length_cons] at enough
      rw [buffers_cons (append_ne_nil_of_right_ne_nil line (cons_ne_nil '\n' rest))]
      rcases Nat.lt_or_eq_of_le (Nat.le_sub_one_of_lt first) with less | fills
      · rw [fgets_line whole less, filterMap_cons, readBuffer_append_newline, ih (by omega) later]
        rfl
      · have positive : 0 < line.length := by
          rw [fills]
          decide
        have behind : ∀ line ∈ lines ('\n' :: rest), line.length < vtyBufsiz := by
          rw [← nil_append ('\n' :: rest), lines_append not_mem_nil]
          exact forall_mem_cons.mpr ⟨by decide, later⟩
        rw [fgets_full whole fills, filterMap_cons, ih (by rw [length_cons]; omega) behind,
          ← nil_append ('\n' :: rest), lines_append not_mem_nil,
          filterMap_cons_none readBuffer_nil]
        rfl

/-! ## The commands that are found -/

theorem head_dropWhile_cString (line : List Char) : ((cString line).dropWhile isspace).head? =
      ((line.dropWhile isspace).head?).filter (· ≠ nul) := by
  induction line with
  | nil => rfl
  | cons c rest ih =>
    cases sort : isspace c with
    | true =>
      have proper : c ≠ nul := by
        rintro rfl
        cases sort
      have step : cString (c :: rest) = c :: cString rest :=
        takeWhile_cons_of_pos (decide_eq_true proper)
      rw [step, dropWhile_cons_of_pos sort, dropWhile_cons_of_pos sort]
      exact ih
    | false =>
      have stop : ¬ isspace c := by
        rw [sort]
        exact Bool.false_ne_true
      rw [dropWhile_cons_of_neg stop, head?_cons]
      by_cases zero : c = nul
      · subst zero
        rfl
      · have step : cString (c :: rest) = c :: cString rest :=
          takeWhile_cons_of_pos (decide_eq_true zero)
        rw [step, dropWhile_cons_of_neg stop, head?_cons, Option.filter_some,
          if_pos (decide_eq_true zero)]

theorem readBuffer_eq_none (noCommand : isCommand line = false) : readBuffer line = none := by
  unfold readBuffer
  split
  · rfl
  · rw [cmdMakeStrvec_eq, head_dropWhile_cString]
    unfold isCommand at noCommand
    cases first : (line.dropWhile isspace).head? with
    | none => rfl
    | some c =>
      rw [first, Option.any_some] at noCommand
      have comment : c = '!' ∨ c = '#' := by
        by_contra other
        simp [not_or.mp other] at noCommand
      rcases comment with rfl | rfl
      · rfl
      · rfl

theorem not_comment (command : isCommand line) : (line)[0]? ≠ some '!' := by
  intro mark
  cases line with
  | nil => cases mark
  | cons c rest =>
    cases Option.some.inj mark
    cases command

theorem cmdMakeStrvec_of_isCommand (command : isCommand line) :
    cmdMakeStrvec line = some (words isspace line) := by
  unfold isCommand at command
  rw [cmdMakeStrvec_eq]
  cases first : (line.dropWhile isspace).head? with
  | none =>
    rw [first] at command
    cases command
  | some c =>
    rw [first, Option.any_some, Bool.and_eq_true, decide_eq_true_eq, decide_eq_true_eq] at command
    simp [command.1, command.2]

theorem words_cString_ne (zero : nul ∈ line) :
    words isspace (cString line) ≠ words isspace line := by
  intro same
  have solid : nul ∈ line.filter (!isspace ·) := mem_filter.mpr ⟨zero, rfl⟩
  rw [← flatten_words, ← same, flatten_words] at solid
  exact nul_not_mem_cString line (mem_of_mem_filter solid)

/-- The command on a line is found exactly if the line is regular. -/
theorem readBuffer_eq_iff (command : isCommand line) :
    readBuffer line = some (words isspace line) ↔ Regular line := by
  unfold readBuffer Regular
  by_cases hash : (line)[1]? = some '#'
  · rw [if_pos (by simp [hash])]
    exact iff_of_false nofun fun regular => regular.1 hash
  · rw [if_neg (by simp [hash, not_comment command])]
    by_cases zero : nul ∈ line
    · refine iff_of_false ?_ fun regular => regular.2 zero
      intro same
      rcases cmdMakeStrvec_cases (cString line) with nothing | found
      · cases nothing.symm.trans same
      · exact words_cString_ne zero (Option.some.inj (found.symm.trans same))
    · rw [cString_text zero]
      exact iff_of_true (cmdMakeStrvec_of_isCommand command) ⟨hash, zero⟩

/-! ## Comparing two selections -/

section

variable {α β : Type} {found wanted : α → Option β} {list : List α}
  (nothingElse : ∀ a ∈ list, wanted a = none → found a = none)
include nothingElse

theorem length_filterMap_le_of_nothingElse :
    (list.filterMap found).length ≤ (list.filterMap wanted).length := by
  induction list with
  | nil => exact Nat.le_refl 0
  | cons a rest ih =>
    obtain ⟨first, later⟩ := forall_mem_cons.mp nothingElse
    have bound := ih later
    cases want : wanted a with
    | none =>
      rw [filterMap_cons_none want, filterMap_cons_none (first want)]
      exact bound
    | some b =>
      rw [filterMap_cons_some want, filterMap_cons]
      split
      · exact Nat.le_succ_of_le bound
      · exact Nat.succ_le_succ bound

theorem filterMap_eq_iff : list.filterMap found = list.filterMap wanted ↔
      ∀ a ∈ list, found a = wanted a := by
  refine ⟨?_, filterMap_congr⟩
  intro same
  induction list with
  | nil => exact fun a member => absurd member not_mem_nil
  | cons a rest ih =>
    obtain ⟨first, later⟩ := forall_mem_cons.mp nothingElse
    rw [forall_mem_cons]
    cases want : wanted a with
    | none =>
      have nothing := first want
      rw [filterMap_cons_none want, filterMap_cons_none nothing] at same
      exact ⟨nothing, ih later same⟩
    | some b =>
      rw [filterMap_cons_some want] at same
      cases got : found a with
      | none =>
        have short := length_filterMap_le_of_nothingElse later
        rw [filterMap_cons_none got] at same
        rw [same, length_cons] at short
        exact absurd short (Nat.not_succ_le_self _)
      | some c =>
        rw [filterMap_cons_some got] at same
        obtain ⟨equal, others⟩ := List.cons.inj same
        exact ⟨congrArg some equal, ih later others⟩

end

theorem filterMap_commandOn (list : List (List Char)) :
    list.filterMap commandOn = (list.filter isCommand).map (words isspace) := by
  induction list with
  | nil => rfl
  | cons line rest ih =>
    cases command : isCommand line with
    | true =>
      have wanted : commandOn line = some (words isspace line) := if_pos command
      rw [filterMap_cons_some wanted, filter_cons_of_pos command, map_cons, ih]
    | false =>
      have wanted : commandOn line = none := by
        unfold commandOn
        rw [command]
        rfl
      rw [filterMap_cons_none wanted, filter_cons_of_neg (by rw [command]; exact nofun), ih]

/-! ## The result -/

/--
**The commands on the lines of a file, and nothing else, are submitted in the
order of the file exactly if `vty->buf` stays in place while there is something
to read, and no command has `#` as the second character of its line or a zero in
it.**

A command that is not accepted is submitted again at another node; the
submissions are therefore counted by lines.
-/
theorem submits_commands_iff (world : World) {file : List Char}
    (short : ∀ line ∈ lines file, line.length < vtyBufsiz) :
    (vtyshConfigFromFile shell file world).map submitted =
        some (((lines file).filter isCommand).map (words isspace)) ↔
      inPlace shell (buffers vtyBufsiz file.length file) world ∧
        ∀ line ∈ lines file, isCommand line → Regular line := by
  have nothingElse (line : List Char) (wanted : commandOn line = none) :
      readBuffer line = none := by
    apply readBuffer_eq_none
    by_contra command
    rw [Bool.not_eq_false] at command
    cases (if_pos command).symm.trans wanted
  have pointwise (line : List Char) : readBuffer line = commandOn line ↔
        (isCommand line → Regular line) := by
    unfold commandOn
    cases command : isCommand line with
    | true => simpa using readBuffer_eq_iff command
    | false => simpa using readBuffer_eq_none command
  unfold vtyshConfigFromFile
  rw [map_submitted_configLoop, filterMap_buffers (Nat.le_refl _) short, ← filterMap_commandOn]
  simp only [Option.ite_none_right_eq_some, Option.some_inj]
  rw [filterMap_eq_iff fun line _ => nothingElse line]
  exact and_congr_right fun _ => forall₂_congr fun line _ => pointwise line

/-- A shell that has a handler for `hostname`, and daemons for all other
commands.  Its world is the string at which `vty->buf` has been left. -/
def plainShell : Shell (Option CStr) where
  strict vline string :=
    if vline.head? = some "hostname".toList then (.success, some "hostname WORD".toList)
    else (.successDaemon, string)
  execute _ string := string
  exitRipdOnly string := string
  clientExecute _ string := string
  node _ := .configNode
  setNode _ string := string
  isFile _ := false
  string := id

def plainFile : List Char :=
  " !# note\n\nrouter bgp 1\nhostname r1\n"

theorem plainFile_submitted : (vtyshConfigFromFile plainShell plainFile none).map submitted =
      some (((lines plainFile).filter isCommand).map (words isspace)) := by
  have short : (lines plainFile).all (·.length < vtyBufsiz) := by decide
  have regular : (lines plainFile).all (fun line => isCommand line → Regular line) := by decide
  exact (submits_commands_iff plainShell none fun line member =>
      of_decide_eq_true (all_eq_true.mp short line member)).mpr
    ⟨by decide, fun line member => of_decide_eq_true (all_eq_true.mp regular line member)⟩

/-- `a#1` is a command, but is taken for a comment.  Behind a command with a
handler nothing can be read. -/
theorem second_hash_skipped :
    ((vtyshConfigFromFile plainShell "a#1\n" none).map submitted = some [] ∧
      ((lines "a#1\n".toList).filter isCommand).map (words isspace) = [["a#1".toList]]) ∧
    vtyshConfigFromFile plainShell "hostname a\nhostname b\n" none = none := by
  refine ⟨⟨?_, ?_⟩, ?_⟩
  · decide
  · decide
  · decide

end OpsCli.Vtysh.ConfigFile
