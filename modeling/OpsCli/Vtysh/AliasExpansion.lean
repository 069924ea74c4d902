import Mathlib.Data.List.GetD
import OpsCli.Vtysh.AliasReading

/-!
# The expansion of an alias

The documentation of `alias` says that `$1`, `$2` and so on are replaced by the
arguments and that extra arguments are appended at the end.  The callback keeps
to this exactly if the commands of the definition are of the form that its
buffer supports, the arguments that are referred to come before the others,
every numeral fits into an `int`, the buffer is not left, and no command is
taken for a call of the alias itself.
-/

namespace OpsCli.Vtysh.AliasExpansion

open CLib CString Words Command.Line Alias AliasPiece AliasBuffer
  AliasReading List

/-! ## The buffer and its text -/

variable {text line other : CStr} {buffer : Buffer} {extra lines : List CStr}
  {list : List (List Item)} {outcome : AliasOutcome} {items : List Item} {others args : List CStr}
  {name : CStr}

theorem skipBlanks_append_text (some : skipBlanks text ≠ []) (rest : CStr) :
    skipBlanks (text ++ rest) = skipBlanks text ++ rest := by
  unfold skipBlanks at some ⊢
  rw [dropWhile_append]
  split
  · rename_i empty
    exact absurd (List.isEmpty_iff.mp empty) some
  · rfl

theorem holds_strcat {str : CStr} (holds : Holds buffer text) (proper : nul ∉ str) :
    Holds (strcat buffer str) (text ++ str) := by
  obtain ⟨rfl, behind⟩ := holds
  refine ⟨cString_strcat buffer proper, ?_⟩
  rcases behind with blank | cut
  · exact .inl (blank_strcat blank proper)
  · right
    rw [skipBlanks_append_text (ne_nil_of_mem cut)]
    exact mem_append_left _ cut

def appended (extra : List CStr) : CStr :=
  extra.flatMap (' ' :: ·)

theorem holds_appendUnused (holds : Holds buffer text) (proper : ∀ arg ∈ extra, nul ∉ arg) :
    Holds (appendUnused buffer extra) (text ++ appended extra) := by
  induction extra generalizing buffer text with
  | nil =>
    rw [appended, flatMap_nil, append_nil]
    exact holds
  | cons arg extra ih =>
    obtain ⟨first, others⟩ := forall_mem_cons.mp proper
    have next := ih (holds_strcat (holds_strcat holds blank_ne_nul) first) others
    rw [append_assoc, append_assoc] at next
    exact next

theorem skipBlanks_eq_drop (buffer : Buffer) : ∃ n, skipBlanks buffer = buffer.drop n ∧
      skipBlanks (cString buffer) = (cString buffer).drop n ∧
      n ≤ (cString buffer).length := by
  induction buffer with
  | nil => exact ⟨0, rfl, rfl, Nat.le_refl 0⟩
  | cons c rest ih =>
    obtain ⟨n, whole, text, inside⟩ := ih
    by_cases blank : c = ' '
    · subst blank
      have split : cString (' ' :: rest) = ' ' :: cString rest := takeWhile_cons_of_pos (by decide)
      refine ⟨n + 1, ?_, ?_, ?_⟩
      · exact whole
      · rw [split]
        exact text
      · rw [split]
        exact Nat.succ_le_succ inside
    · have stop : ¬ decide (c = ' ') := by simpa using blank
      refine ⟨0, dropWhile_cons_of_neg stop, ?_, Nat.zero_le _⟩
      unfold cString
      rw [takeWhile_cons]
      split
      · exact dropWhile_cons_of_neg stop
      · rfl

theorem cString_skipBlanks (buffer : Buffer) :
    cString (skipBlanks buffer) = skipBlanks (cString buffer) := by
  obtain ⟨n, whole, text, inside⟩ := skipBlanks_eq_drop buffer
  have proper : nul ∉ (cString buffer).drop n :=
    fun member => nul_not_mem_cString buffer (mem_of_mem_drop member)
  rw [whole, text]
  rcases buffer_cases buffer with same | ⟨rest, same⟩
  · conv_lhs => rw [same]
    exact cString_text proper
  · conv_lhs => rw [same, drop_append_of_le_length inside]
    exact cString_append_nul proper rest

/-- A character of the buffer is one of its text, or a zero if nothing else
can be behind the text. -/
theorem getD_cString {k : Nat} (near : k ≤ (cString buffer).length ∨ Blank buffer) :
    buffer.getD k nul = (cString buffer).getD k nul := by
  by_cases inside : k < (cString buffer).length
  · rcases buffer_cases buffer with same | ⟨rest, same⟩
    · rw [← same]
    · conv_lhs => rw [same]
      exact getD_append _ _ _ _ inside
  · have behind : (cString buffer).length ≤ k := Nat.le_of_not_lt inside
    rw [getD_eq_default (cString buffer) nul behind]
    rcases near with close | blank
    · have last : k = (cString buffer).length := Nat.le_antisymm close behind
      subst last
      rcases buffer_cases buffer with same | ⟨rest, same⟩
      · rw [← same]
        exact getD_eq_default _ _ (Nat.le_refl _)
      · have zero : (cString buffer ++ nul :: rest).getD (cString buffer).length nul = nul := by
          rw [getD_append_right _ _ _ _ (Nat.le_refl _), Nat.sub_self]
          rfl
        rw [← same] at zero
        exact zero
    · rw [getD_eq_getElem?_getD]
      cases found : buffer[k]? with
      | none => rfl
      | some c =>
        apply blank c
        apply mem_of_getElem? (i := k - (cString buffer).length)
        rw [getElem?_drop, Nat.add_sub_cancel' behind]
        exact found

theorem length_lt_of_cut (word : IsWord name) (starts : name <+: text) (cut : ' ' ∈ text) :
    name.length < text.length := by
  obtain ⟨rest, rfl⟩ := starts
  rcases mem_append.mp cut with inside | behind
  · cases word.2 ' ' inside
  · rw [length_append]
    exact Nat.lt_add_of_pos_right (length_pos_of_mem behind)

/-- The test for a loop sees no more than the text. -/
theorem callsItself_holds (holds : Holds buffer text) (word : IsWord name) :
    callsItself name (skipBlanks buffer) = callsItself name (skipBlanks text) := by
  obtain ⟨rfl, behind⟩ := holds
  obtain ⟨n, whole, skipped, inside⟩ := skipBlanks_eq_drop buffer
  have proper : nul ∉ skipBlanks (cString buffer) := by
    rw [skipped]
    exact fun member => nul_not_mem_cString buffer (mem_of_mem_drop member)
  unfold callsItself
  rw [cString_skipBlanks, cString_text proper]
  cases starts : name.isPrefixOf (skipBlanks (cString buffer)) with
  | false => rfl
  | true =>
    have same : (skipBlanks buffer).getD (name.length + 1) nul =
        (skipBlanks (cString buffer)).getD (name.length + 1) nul := by
      have near : n + (name.length + 1) ≤ (cString buffer).length ∨ Blank buffer := by
        rcases behind with blank | cut
        · exact .inr blank
        · left
          have begins := isPrefixOf_iff_prefix.mp starts
          have longer := length_lt_of_cut word begins cut
          rw [skipped, length_drop] at longer
          omega
      rw [whole, skipped, getD_eq_getElem?_getD, getD_eq_getElem?_getD, getElem?_drop,
        getElem?_drop,
        ← getD_eq_getElem?_getD, ← getD_eq_getElem?_getD]
      exact getD_cString near
    rw [same]

/-! ## References and arguments -/

def numbers (items : List Item) : List Nat :=
  items.filterMap fun
    | .char _ => none
    | .reference k _ _ => some k

theorem maxArgCount_copyAll (assembly : Assembly) (chars : CStr) :
    (chars.foldl Assembly.copy assembly).maxArgCount = assembly.maxArgCount := by
  induction chars generalizing assembly with
  | nil => rfl
  | cons c chars ih => exact ih (assembly.copy c)

theorem maxArgCount_putAll (assembly : Assembly) (items : List Item) :
    (putAll assembly items).maxArgCount = (numbers items).foldl max assembly.maxArgCount := by
  induction items generalizing assembly with
  | nil => rfl
  | cons item items ih =>
    have step := ih (put assembly item)
    cases item with
    | char c => exact step
    | reference k arg numeral =>
      have kept := maxArgCount_copyAll (assembly.refer k arg) (surplus numeral)
      have next : (put assembly (.reference k arg numeral)).maxArgCount =
          max assembly.maxArgCount k := kept
      rw [next] at step
      exact step

/-- The largest number of an argument that is referred to. -/
def highest (list : List (List Item)) : Nat :=
  (numbers list.flatten).foldl max 0

/-- The arguments that are not referred to. -/
def unreferenced (list : List (List Item)) (args : List CStr) : List CStr :=
  ((args.zipIdx 1).filter (·.2 ∉ numbers list.flatten)).map Prod.fst

/-- The arguments that are not referred to, although a later one is. -/
def skipped (list : List (List Item)) (args : List CStr) : List CStr :=
  unreferenced list (args.take (highest list))

theorem mem_of_mem_skipped {arg : CStr} (member : arg ∈ skipped list args) : arg ∈ args := by
  obtain ⟨entry, kept, rfl⟩ := mem_map.mp member
  have inside := fst_mem_of_mem_zipIdx (mem_filter.mp kept).1
  exact mem_of_mem_take inside

theorem start_le_foldl_max (start : Nat) (list : List Nat) : start ≤ list.foldl max start := by
  induction list generalizing start with
  | nil => exact Nat.le_refl start
  | cons first list ih =>
    exact (Nat.le_max_left start first).trans (ih (max start first))

theorem le_foldl_max {k : Nat} {list : List Nat} (start : Nat) (member : k ∈ list) :
    k ≤ list.foldl max start := by
  induction list generalizing start with
  | nil => cases member
  | cons first list ih =>
    rcases mem_cons.mp member with same | later
    · subst same
      exact (Nat.le_max_right start k).trans (start_le_foldl_max _ list)
    · exact ih (max start first) later

theorem unreferenced_eq (list : List (List Item)) (args : List CStr) :
    unreferenced list args = skipped list args ++ args.drop (highest list) := by
  have behind : unreferenced list args = skipped list args ++ (((args.drop (highest list)).zipIdx
        (1 + (args.take (highest list)).length)).filter
          (·.2 ∉ numbers list.flatten)).map Prod.fst := by
    unfold skipped unreferenced
    rw [← map_append, ← filter_append, ← zipIdx_append, take_append_drop]
  have all : ((args.drop (highest list)).zipIdx (1 + (args.take (highest list)).length)).filter
        (·.2 ∉ numbers list.flatten) =
      (args.drop (highest list)).zipIdx (1 + (args.take (highest list)).length) := by
    rw [filter_eq_self]
    rintro ⟨arg, index⟩ member
    have lower := le_snd_of_mem_zipIdx member
    have inside : arg ∈ args.drop (highest list) := fst_mem_of_mem_zipIdx member
    have size := length_pos_of_mem inside
    rw [length_drop] at size
    rw [length_take, Nat.min_eq_left (by omega)] at lower
    apply decide_eq_true
    intro referred
    have bounded : index ≤ highest list := le_foldl_max 0 referred
    omega
  rw [behind, all, zipIdx_map_fst]

/-! ## Commands -/

/-- The commands that lines stand for: the words of every line that has
some. -/
def commands (lines : List CStr) : List (List CStr) :=
  (lines.map (words isspace)).filter (!·.isEmpty)

/-- The lines of a definition, with arguments appended to the last one. -/
def linesOf (text : List Item → CStr) (extra : List CStr) : List (List Item) → List CStr
  | [] => []
  | [items] => [text items ++ appended extra]
  | items :: next :: rest => text items :: linesOf text extra (next :: rest)

theorem words_appended (proper : ∀ arg ∈ extra, IsWord arg) (text : CStr) :
    words isspace (text ++ appended extra) = words isspace text ++ extra := by
  induction extra generalizing text with
  | nil =>
    rw [appended, flatMap_nil, append_nil, append_nil]
  | cons arg extra ih =>
    obtain ⟨first, others⟩ := forall_mem_cons.mp proper
    have split : text ++ appended (arg :: extra) = text ++ ' ' :: (arg ++ appended extra) := rfl
    rw [split, words_append_blank isspace_blank, ih others, words_word first]
    rfl

theorem words_skipBlanks (text : CStr) : words isspace (skipBlanks text) = words isspace text := by
  induction text with
  | nil => rfl
  | cons c rest ih =>
    by_cases blank : c = ' '
    · subst blank
      rw [words_cons_blank isspace_blank]
      exact ih
    · exact congrArg (words isspace) (dropWhile_cons_of_neg (by simpa using blank))

theorem commands_cons (line : CStr) (lines : List CStr) :
    commands (line :: lines) = if words isspace line = [] then commands lines
      else words isspace line :: commands lines := by
  unfold commands
  rw [map_cons, filter_cons]
  cases words isspace line with
  | nil => rfl
  | cons word rest => rfl

theorem commands_congr (first : words isspace line = words isspace other)
    (rest : commands lines = commands others) :
    commands (line :: lines) = commands (other :: others) := by
  rw [commands_cons, commands_cons, first, rest]

theorem commands_single_iff (line other : CStr) : commands [line] = commands [other] ↔
      words isspace line = words isspace other := by
  have front (line : CStr) : (commands [line]).headD [] = words isspace line := by
    rw [commands_cons]
    split
    · rename_i empty
      exact empty.symm
    · rfl
  refine ⟨fun same => ?_, fun same => commands_congr same rfl⟩
  rw [← front line, same, front]

theorem commands_cons_iff (blank : words isspace line = [] ↔ words isspace other = [])
    (lines others : List CStr) :
    commands (line :: lines) = commands (other :: others) ↔
      words isspace line = words isspace other ∧ commands lines = commands others := by
  constructor
  · intro same
    rw [commands_cons, commands_cons] at same
    by_cases left : words isspace line = []
    · have right := blank.mp left
      rw [if_pos left, if_pos right] at same
      exact ⟨left.trans right.symm, same⟩
    · have right := fun empty => left (blank.mpr empty)
      rw [if_neg left, if_neg right] at same
      exact List.cons.inj same
  · rintro ⟨first, rest⟩
    exact commands_congr first rest

/-! ## What is executed -/

/-- The callback executes lines that stand for the same commands. -/
def Executes (outcome : AliasOutcome) (lines : List CStr) : Prop :=
  ∃ executed buf, outcome = ⟨executed.map .execute, buf⟩ ∧ commands executed = commands lines

theorem Executes.after (executes : Executes outcome lines)
    (same : words isspace line = words isspace other) :
    Executes (outcome.after (.execute line)) (other :: lines) := by
  obtain ⟨executed, buf, rfl, equal⟩ := executes
  exact ⟨line :: executed, buf, rfl, commands_congr same equal⟩

theorem not_reports_of_executes (executes : Executes outcome lines) : ¬ Reports outcome := by
  rintro ⟨message, member⟩
  obtain ⟨executed, buf, rfl, _⟩ := executes
  obtain ⟨line, _, wrong⟩ := mem_map.mp member
  cases wrong

theorem executes_unique (first : Executes outcome lines) (second : Executes outcome others) :
    commands lines = commands others := by
  obtain ⟨executed, buf, rfl, equal⟩ := first
  obtain ⟨again, end', same, other⟩ := second
  have lists : executed = again := map_injective_iff.mpr (fun _ _ => AliasEvent.execute.inj)
      (congrArg AliasOutcome.events same)
  rw [← equal, lists, other]

theorem words_strt (holds : Holds buffer text) :
    words isspace (cString (skipBlanks buffer)) = words isspace text := by
  rw [cString_skipBlanks, holds.text_eq, words_skipBlanks]

theorem headD_eq_nul_iff (holds : Holds buffer text) : buffer.headD nul = nul ↔ text = [] := by
  obtain ⟨rfl, _⟩ := holds
  unfold cString
  cases buffer with
  | nil => exact ⟨fun _ => rfl, fun _ => rfl⟩
  | cons c rest =>
    rw [takeWhile_cons]
    by_cases zero : c = nul
    · rw [if_neg (by simpa using zero)]
      exact ⟨fun _ => rfl, fun _ => zero⟩
    · rw [if_pos (by simpa using zero)]
      exact ⟨fun same => absurd same zero, nofun⟩

/-- A line is taken for a call of the alias. -/
def Loops (name line : CStr) : Prop :=
  callsItself name (skipBlanks line)

theorem not_loops_nil (word : IsWord name) : ¬ Loops name [] := by
  intro loops
  cases name with
  | nil => exact word.1 rfl
  | cons c rest => cases loops

theorem length_skipBlanks_le (text : CStr) : (skipBlanks text).length ≤ text.length :=
  (dropWhile_suffix _).length_le

/-- A command can be executed: the buffer has not been left, its text has an
end in it, and is not taken for a call of the alias. -/
theorem selfTest_iff {assembly : Assembly} (word : IsWord name)
    (holds : Holds assembly.currentCmd text) : assembly.selfTest name = some false ↔
      assembly.inside ∧ text.length < vtyshMaxAliasListLen ∧ ¬ Loops name text := by
  have test := callsItself_holds holds word
  have proper : nul ∉ skipBlanks text := by
    rw [← holds.text_eq, ← cString_skipBlanks]
    exact nul_not_mem_cString _
  -- Where the character two behind the name is not in the buffer, the text is
  -- the name and nothing else.
  have beyond (starts : name.isPrefixOf (skipBlanks text)) (short : text.length <
        vtyshMaxAliasListLen) (far : vtyshMaxAliasListLen ≤
        text.length - (skipBlanks text).length + name.length + 1) : Loops name text := by
    have inside := length_skipBlanks_le text
    have behind : (skipBlanks text).getD (name.length + 1) nul = nul :=
      getD_eq_default _ _ (by omega)
    unfold Loops callsItself
    rw [cString_text proper, starts, behind]
    rfl
  unfold Assembly.selfTest
  dsimp only
  rw [cString_skipBlanks, holds.text_eq, test]
  split
  · rename_i left
    refine ⟨nofun, ?_⟩
    rintro ⟨written, short, _⟩
    rw [written] at left
    exact absurd (of_decide_eq_true left) (Nat.not_le_of_gt short)
  · rename_i right
    obtain ⟨written, short⟩ := not_or.mp (mt (Bool.or_eq_true _ _).mpr right)
    have room : text.length < vtyshMaxAliasListLen := by simpa using short
    split
    · rename_i far
      obtain ⟨starts, end'⟩ := (Bool.and_eq_true _ _).mp far
      exact ⟨nofun, fun both => absurd (beyond starts room (of_decide_eq_true end')) both.2.2⟩
    · unfold Loops
      rw [Option.some_inj, Bool.not_eq_true]
      exact ⟨fun other => ⟨by simpa using written, room, other⟩, fun all => all.2.2⟩

theorem selfTest_some {assembly : Assembly} (word : IsWord name)
    (holds : Holds assembly.currentCmd text) (itself : assembly.selfTest name = some true) :
    Loops name text := by
  unfold Assembly.selfTest at itself
  unfold Loops
  rw [← callsItself_holds holds word]
  dsimp only at itself
  split at itself
  · cases itself
  · split at itself
    · cases itself
    · exact Option.some.inj itself

theorem finishAlias_cases {assembly : Assembly} {text : CStr} (word : IsWord name)
    (proper : ∀ arg ∈ args, nul ∉ arg) (holds : Holds assembly.currentCmd text) (buf : VtyBuf) :
    let line := text ++ appended (args.drop assembly.maxArgCount)
    let right := assembly.inside ∧ line.length < vtyshMaxAliasListLen ∧ ¬ Loops name line
    (¬ right → ∀ outcome, finishAlias name args assembly buf = some outcome → Reports outcome) ∧
      (right → ∃ outcome, finishAlias name args assembly buf = some outcome ∧
        Executes outcome [line]) := by
  have whole := holds_appendUnused holds fun arg member =>
    proper arg (mem_of_mem_drop (i := assembly.maxArgCount) member)
  have empty := headD_eq_nul_iff whole
  have same := words_strt whole
  intro line right
  have test : Assembly.selfTest name { assembly with
      currentCmd := appendUnused assembly.currentCmd (args.drop assembly.maxArgCount) } =
        some false ↔ right := selfTest_iff word whole
  rw [← test]
  unfold finishAlias
  dsimp only
  split
  · rename_i left
    rw [left]
    exact ⟨fun _ => nofun, nofun⟩
  · rename_i itself found
    rw [found, Option.some_inj]
    cases itself with
    | true =>
      -- The empty text is no call of the alias.
      have some : ¬ (appendUnused assembly.currentCmd
          (args.drop assembly.maxArgCount)).headD nul = nul := by
        intro zero
        have none : line = [] := empty.mp zero
        exact not_loops_nil word (none ▸ selfTest_some word whole found)
      refine ⟨?_, nofun⟩
      rintro _ _ ⟨⟩
      rw [if_neg some]
      exact ⟨aliasLoopText, mem_singleton_self _⟩
    | false =>
      refine ⟨absurd rfl, fun _ => ⟨_, rfl, ?_⟩⟩
      split
      · rename_i zero
        have none : line = [] := empty.mp zero
        exact ⟨[], .entry, rfl, by rw [none, commands_cons, words_nil, if_pos rfl]⟩
      · exact ⟨[_], .entry, rfl, commands_congr same rfl⟩

/-- A command is executed as it is assembled: it is written and ends inside the
buffer, and is not taken for a call of the alias. -/
def Executable (name : CStr) (items : List Item) (line : CStr) : Prop :=
  insideFrom 0 0 items ∧ line.length < vtyshMaxAliasListLen ∧ ¬ Loops name line

theorem inside_start (printable : ∀ item ∈ items, Printable item) (maxArgCount : Nat) :
    (putAll ⟨[], 0, maxArgCount, true⟩ items).inside = insideFrom 0 0 items := by
  have start : Tracks ⟨[], 0, maxArgCount, true⟩ 0 := ⟨[], .inl ⟨rfl, rfl, blank_nil⟩, rfl⟩
  exact inside_putAll start printable

/-- All commands: either there is one that cannot be executed, or they are
executed as they are assembled. -/
theorem runPieces_cases {list : List (List Item)} (word : IsWord name)
    (proper : ∀ arg ∈ args, nul ∉ arg) (nonempty : list ≠ [])
    (printable : ∀ items ∈ list, ∀ item ∈ items, Printable item)
    (maxArgCount : Nat) (buf : VtyBuf) :
    let lines := linesOf assembled (args.drop ((numbers list.flatten).foldl max maxArgCount)) list
    let run := runPieces name args list ⟨[], 0, maxArgCount, true⟩ buf
    (¬ Forall₂ (Executable name) list lines → ∀ outcome, run = some outcome → Reports outcome) ∧
      (Forall₂ (Executable name) list lines →
        ∃ outcome, run = some outcome ∧ Executes outcome lines) := by
  induction list generalizing maxArgCount buf with
  | nil => exact absurd rfl nonempty
  | cons items rest ih =>
    obtain ⟨here, later⟩ := forall_mem_cons.mp printable
    have holds := putAll_assembled maxArgCount here
    have count := maxArgCount_putAll ⟨[], 0, maxArgCount, true⟩ items
    have written := inside_start here maxArgCount
    cases rest with
    | nil =>
      have last := finishAlias_cases word proper holds buf
      rw [count, written] at last
      have flat : numbers [items].flatten = numbers items := by
        rw [flatten_singleton]
      rw [flat]
      intro lines run
      have single : Forall₂ (Executable name) [items] lines ↔ Executable name items _ :=
        forall₂_cons.trans (and_iff_left .nil)
      rw [single]
      exact last
    | cons next rest =>
      have more := ih (cons_ne_nil _ _) later
        (putAll ⟨[], 0, maxArgCount, true⟩ items).maxArgCount .currentCmd
      have flat : numbers (items :: next :: rest).flatten =
          numbers items ++ numbers (next :: rest).flatten := by
        rw [flatten_cons]
        exact filterMap_append
      have test := selfTest_iff word holds
      rw [written] at test
      rw [flat, foldl_append, ← count]
      intro lines run
      dsimp only [run, lines]
      rw [runPieces, linesOf, forall₂_cons]
      unfold Executable
      rw [← test]
      split
      · rename_i left
        rw [left]
        refine ⟨?_, ?_⟩
        · rintro _ _ ⟨⟩
        · rintro ⟨⟨⟩, _⟩
      · rename_i itself
        rw [itself]
        refine ⟨?_, ?_⟩
        · rintro _ _ ⟨⟩
          exact ⟨aliasLoopText, mem_singleton_self _⟩
        · rintro ⟨⟨⟩, _⟩
      · rename_i other
        rw [other]
        refine ⟨fun wrong outcome found => ?_, fun both => ?_⟩
        · obtain ⟨later, run, rfl⟩ := Option.map_eq_some_iff.mp found
          exact (more.1 (fun right => wrong ⟨rfl, right⟩) later run).after _
        · obtain ⟨outcome, found, executes⟩ := more.2 both.2
          exact ⟨_, congrArg _ found, executes.after (words_strt holds)⟩

/-! ## What is meant -/

theorem words_cons_eq_nil_iff (c : Char) (rest : CStr) : words isspace (c :: rest) = [] ↔
      isspace c ∧ words isspace rest = [] := by
  cases blank : isspace c with
  | true =>
    rw [words_cons_blank blank]
    exact (and_iff_right rfl).symm
  | false =>
    have starts : startsSolid isspace (c :: rest) := by
      rw [startsSolid_cons, blank]
      rfl
    exact iff_of_false (words_ne_nil starts) (nomatch ·.1)

theorem words_kept_eq_nil_iff (proper : Proper items) :
    words isspace (kept items) = [] ↔ words isspace (expand items) = [] := by
  induction items with
  | nil => exact Iff.rfl
  | cons item rest ih =>
    cases item with
    | char c =>
      rw [kept, expand_char, words_cons_eq_nil_iff, words_cons_eq_nil_iff, ih proper.tail]
    | reference k arg numeral =>
      exact iff_of_false (words_ne_nil (startsSolid_append proper.head _))
        (words_ne_nil (startsSolid_append proper.head _))

theorem words_assembled_eq_nil_iff (proper : Proper items) : words isspace (assembled items) = [] ↔
      words isspace (expand items) = [] := by
  cases items with
  | nil => exact Iff.rfl
  | cons item rest =>
    cases item with
    | char c => exact words_kept_eq_nil_iff proper
    | reference k arg numeral =>
      exact iff_of_false (words_ne_nil (startsSolid_append proper.head _))
        (words_ne_nil (startsSolid_append proper.head _))

/-- Every command is right; skipped arguments are missing from the last. -/
def AllRight (skipped : List CStr) : List (List Item) → Prop
  | [] => True
  | [items] => Right items skipped
  | items :: next :: rest =>
    Right items [] ∧ AllRight skipped (next :: rest)

theorem commands_linesOf_iff (nonempty : list ≠ []) (proper : ∀ items ∈ list, Proper items)
    {skipped : List CStr} (before : ∀ arg ∈ skipped, IsWord arg)
    (behind : ∀ arg ∈ extra, IsWord arg) :
    commands (linesOf assembled extra list) = commands (linesOf expand (skipped ++ extra) list) ↔
      AllRight skipped list := by
  induction list with
  | nil => exact absurd rfl nonempty
  | cons items rest ih =>
    obtain ⟨here, later⟩ := forall_mem_cons.mp proper
    cases rest with
    | nil =>
      have both : ∀ arg ∈ skipped ++ extra, IsWord arg := forall_mem_append.mpr ⟨before, behind⟩
      rw [linesOf, linesOf, commands_single_iff, words_appended behind, words_appended both,
        ← append_assoc,
        append_cancel_right_eq, AllRight]
      exact words_assembled_eq_iff here fun arg member => (before arg member).1
    | cons next rest =>
      have more := ih (cons_ne_nil _ _) later
      have single := @words_assembled_eq_iff items [] here nofun
      rw [append_nil] at single
      rw [linesOf, linesOf, commands_cons_iff (words_assembled_eq_nil_iff here), single, more,
        AllRight]

/-! ## The parts of a definition -/

theorem printable_modifyHead {item : Item} (others : ∀ items ∈ list, ∀ item ∈ items, Printable item)
    (first : Printable item) :
    ∀ items ∈ list.modifyHead (item :: ·), ∀ item ∈ items, Printable item := by
  cases list with
  | nil => exact others
  | cons items rest =>
    obtain ⟨here, later⟩ := forall_mem_cons.mp others
    exact forall_mem_cons.mpr ⟨forall_mem_cons.mpr ⟨first, here⟩, later⟩

theorem printable_pieces (proper : ∀ arg ∈ args, IsWord arg ∧ nul ∉ arg) (solid : nul ∉ text)
    (skip : Nat) : ∀ items ∈ pieces args text skip, ∀ item ∈ items, Printable item := by
  induction text generalizing skip with
  | nil =>
    intro items member item inside
    rw [mem_singleton.mp member] at inside
    cases inside
  | cons c rest ih =>
    have others : nul ∉ rest := fun member => solid (mem_cons_of_mem c member)
    have first : Printable (.char c) := fun same => solid (same ▸ mem_cons_self)
    have next := ih others
    cases skip with
    | succ skip => exact next skip
    | zero =>
      rw [pieces]
      dsimp only
      split
      · split
        · rename_i valid
          have inside : digitsValue (rest.takeWhile isdigit) - 1 < args.length := by omega
          have arg := proper _ (getElem_mem inside)
          rw [← getD_eq_getElem args [] inside] at arg
          have numeral : nul ∉ rest.takeWhile isdigit :=
            fun member => others (takeWhile_subset _ member)
          exact printable_modifyHead (next _) ⟨arg.1, arg.2, numeral⟩
        · exact printable_modifyHead (next 0) first
      · split
        · exact forall_mem_cons.mpr ⟨forall_mem_nil _, next 0⟩
        · exact printable_modifyHead (next 0) first

theorem Printable.proper (printable : ∀ item ∈ items, Printable item) : Proper items :=
  fun _ _ _ member => (printable _ member).1

/-! ## The expansion -/

/-- An alias is run: its name is the first word of the line and fits into
`cmd_now`, it is configured, and the arguments are words. -/
structure Invocation where
  rows : List (CStr × CStr)
  buf : CStr
  args : List CStr
  definition : CStr
  found : rows.find? (·.1 = buf.takeWhile (· ≠ ' ')) = some (buf.takeWhile (· ≠ ' '), definition)
  name : IsWord (buf.takeWhile (· ≠ ' '))
  room : ¬ vtyshMaxAliasListLen ≤ (buf.takeWhile (· ≠ ' ')).length +
    if buf.takeWhile (· ≠ ' ') = buf then 1 else 0
  short : definition.length ≤ vtyshMaxAliasListLen
  text : nul ∉ definition
  words : ∀ arg ∈ args, IsWord arg ∧ nul ∉ arg

namespace Invocation

variable (invocation : Invocation)

def parts : List (List Item) :=
  pieces invocation.args invocation.definition 0

/-- The lines that the documentation promises. -/
def documented : List CStr :=
  linesOf expand (unreferenced invocation.parts invocation.args) invocation.parts

/-- The callback executes the commands that the documentation promises. -/
def Expands : Prop :=
  ∃ outcome, vtyshAliasCallback invocation.rows invocation.buf invocation.args =
      some outcome ∧ Executes outcome invocation.documented

/-- The lines as they are assembled. -/
def typed : List CStr :=
  linesOf assembled (invocation.args.drop (highest invocation.parts)) invocation.parts

/-- The definition is one that the callback can expand: the numerals fit into
an `int`, every command has a form that the buffer supports, no argument is
skipped, and every command is written inside the buffer and does not look like
a call of the alias. -/
structure Supported : Prop where
  numerals : NumeralsFit invocation.definition
  commands : AllRight (skipped invocation.parts invocation.args) invocation.parts
  executable : Forall₂ (Executable (invocation.buf.takeWhile (· ≠ ' ')))
    invocation.parts invocation.typed

theorem vtyshAliasCallback_eq : vtyshAliasCallback invocation.rows invocation.buf invocation.args =
      aliasLoop (invocation.buf.takeWhile (· ≠ ' ')) invocation.args
        invocation.definition 0 0 ⟨[], 0, 0, true⟩ .entry := by
  unfold vtyshAliasCallback
  dsimp only
  rw [if_neg invocation.room, invocation.found]

theorem short_start : 0 + invocation.definition.length ≤ vtyshMaxAliasListLen := by
  rw [Nat.zero_add]
  exact invocation.short

/-- The lines as they are assembled stand for the commands that are promised
exactly if every command is right. -/
theorem commands_typed_iff : AliasExpansion.commands invocation.typed =
        AliasExpansion.commands invocation.documented ↔
      AllRight (skipped invocation.parts invocation.args) invocation.parts := by
  have printable := printable_pieces invocation.words invocation.text 0
  unfold typed documented
  rw [unreferenced_eq]
  apply commands_linesOf_iff
  · exact pieces_ne_nil invocation.args invocation.definition 0
  · exact fun items member => Printable.proper (printable items member)
  · exact fun arg member => (invocation.words arg (mem_of_mem_skipped member)).1
  · exact fun arg member => (invocation.words arg (mem_of_mem_drop member)).1

end Invocation

/-- **The documentation is followed exactly for the definitions that the
callback supports.** -/
theorem expands_iff_supported (invocation : Invocation) :
    invocation.Expands ↔ invocation.Supported := by
  have entry := invocation.vtyshAliasCallback_eq
  obtain ⟨regular, irregular⟩ := @aliasLoop_reads invocation.definition
    (invocation.buf.takeWhile (· ≠ ' ')) invocation.args 0 _ (Nat.le_refl _)
    invocation.short_start ⟨[], 0, 0, true⟩ .entry
  obtain ⟨reports, executes⟩ := runPieces_cases invocation.name
    (fun arg member => (invocation.words arg member).2)
    (pieces_ne_nil invocation.args invocation.definition 0)
    (printable_pieces invocation.words invocation.text 0) 0 .entry
  constructor
  · rintro ⟨outcome, run, documented⟩
    have silent := not_reports_of_executes documented
    rw [entry] at run
    have fit : NumeralsFit invocation.definition := by
      by_contra large
      exact silent (irregular large outcome run)
    rw [regular fit] at run
    have executable : Forall₂ (Executable (invocation.buf.takeWhile (· ≠ ' ')))
        invocation.parts invocation.typed := by
      by_contra wrong
      exact silent (reports wrong outcome run)
    obtain ⟨same, found, assembled⟩ := executes executable
    cases found.symm.trans run
    refine ⟨fit, ?_, executable⟩
    rw [← invocation.commands_typed_iff]
    exact executes_unique assembled documented
  · intro supported
    obtain ⟨outcome, found, executed, buf, equal, same⟩ := executes supported.executable
    refine ⟨outcome, entry.trans ((regular supported.numerals).trans found), ?_⟩
    refine ⟨executed, buf, equal, same.trans ?_⟩
    exact invocation.commands_typed_iff.mpr supported.commands

/-- The alias `a` stands for `show $1 foo`, and is run with the argument
`x`. -/
def wordBehindReference : Invocation where
  rows := [("a", "show $1 foo")]
  buf := "a x"
  args := ["x"]
  definition := "show $1 foo"
  found := rfl
  name := ⟨by decide, forall_mem_singleton.mpr rfl⟩
  room := by decide
  short := by decide
  text := by decide
  words := forall_mem_singleton.mpr ⟨⟨by decide, forall_mem_singleton.mpr rfl⟩, by decide⟩

/-- The word behind the reference is lost. -/
theorem word_behind_reference_lost : ¬ wordBehindReference.Expands := by
  rintro ⟨outcome, run, executed, buf, rfl, same⟩
  have lines : vtyshAliasCallback wordBehindReference.rows
      wordBehindReference.buf wordBehindReference.args =
        some ⟨["show x "].map .execute, .entry⟩ := by decide
  rw [lines] at run
  have events := congrArg AliasOutcome.events (Option.some.inj run)
  have equal : ["show x ".toList] = executed :=
    map_injective_iff.mpr (fun _ _ => AliasEvent.execute.inj) events
  rw [← equal] at same
  revert same
  decide

end OpsCli.Vtysh.AliasExpansion
