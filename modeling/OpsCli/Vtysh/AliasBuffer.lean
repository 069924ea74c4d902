import OpsCli.Vtysh.Alias
import OpsCli.Vtysh.AliasPiece

/-!
# What the alias callback assembles

The definition of an alias is read as a list of commands made of characters
and references.  The callback goes through it character by character; this
module shows that it puts the parts of each command into its buffer one after
the other, which text the buffer then holds, and whether the index of the next
character has stayed inside it.
-/

namespace OpsCli.Vtysh.AliasBuffer

open CLib CString Command.Line Alias AliasPiece List

/-! ## Buffers -/

/-- A buffer is its text, and perhaps a terminator with anything behind it. -/
theorem buffer_cases (buffer : Buffer) : buffer = cString buffer ∨
      ∃ rest, buffer = cString buffer ++ nul :: rest := by
  have split : cString buffer ++ buffer.dropWhile (· ≠ nul) = buffer := takeWhile_append_dropWhile
  cases behind : buffer.dropWhile (· ≠ nul) with
  | nil =>
    rw [behind, append_nil] at split
    exact .inl split.symm
  | cons c rest =>
    have nonempty : buffer.dropWhile (· ≠ nul) ≠ [] := behind ▸ cons_ne_nil c rest
    have stop := head_dropWhile_not (· ≠ nul) nonempty
    simp only [behind, head_cons, decide_eq_false_iff_not, not_not] at stop
    rw [behind, stop] at split
    exact .inr ⟨rest, split.symm⟩

variable {assembly : Assembly} {items : List Item} {buffer : Buffer} {text word str : CStr}

theorem cString_strcat (buffer : Buffer) (proper : nul ∉ str) :
    cString (strcat buffer str) = cString buffer ++ str := by
  unfold strcat
  apply cString_append_nul
  intro member
  rcases mem_append.mp member with old | new
  · exact nul_not_mem_cString buffer old
  · exact proper new

theorem cString_write_behind {i : Nat} (c : Char) (behind : (cString buffer).length < i) :
    cString (write buffer i c) = cString buffer := by
  have proper := nul_not_mem_cString buffer
  rcases buffer_cases buffer with whole | ⟨rest, whole⟩
  · generalize cString buffer = text at *
    subst whole
    unfold write
    have gap : i - buffer.length = (i - buffer.length - 1) + 1 := by omega
    rw [take_of_length_le (by omega), gap, replicate_succ, append_assoc, cons_append]
    exact cString_append_nul proper _
  · generalize cString buffer = text at *
    subst whole
    unfold write
    have inside : i = text.length + ((i - text.length - 1) + 1) := by omega
    rw [inside, take_append, take_of_length_le (by omega), Nat.add_sub_cancel_left, take_succ_cons,
      append_assoc,
      append_assoc, cons_append]
    exact cString_append_nul proper _

/-- There is nothing behind the terminator. -/
def Blank (buffer : Buffer) : Prop :=
  ∀ c ∈ buffer.drop (cString buffer).length, c = nul

theorem blank_nil : Blank [] := nofun

theorem blank_strcat (blank : Blank buffer) (proper : nul ∉ str) : Blank (strcat buffer str) := by
  intro c member
  rw [cString_strcat buffer proper] at member
  unfold strcat at member
  rw [drop_left] at member
  rcases mem_cons.mp member with same | later
  · exact same
  · apply blank
    rw [Nat.add_assoc, ← drop_drop] at later
    exact mem_of_mem_drop later

theorem write_at_end (blank : Blank buffer) {c : Char} (solid : c ≠ nul) :
    cString (write buffer (cString buffer).length c) = cString buffer ++ [c] ∧
      Blank (write buffer (cString buffer).length c) := by
  have proper : nul ∉ cString buffer ++ [c] := by
    intro member
    rcases mem_append.mp member with old | new
    · exact nul_not_mem_cString buffer old
    · exact solid (mem_singleton.mp new).symm
  have shape : write buffer (cString buffer).length c =
      (cString buffer ++ [c]) ++ buffer.drop ((cString buffer).length + 1) := by
    unfold write
    have start : cString buffer <+: buffer := takeWhile_prefix _
    have inside : (cString buffer).length ≤ buffer.length := start.length_le
    have text : buffer.take (cString buffer).length = cString buffer :=
      (prefix_iff_eq_take.mp start).symm
    rw [text, Nat.sub_eq_zero_of_le inside, replicate_zero, append_nil, append_assoc]
    rfl
  have zeros : ∀ d ∈ buffer.drop ((cString buffer).length + 1), d = nul := by
    intro d member
    apply blank
    rw [← drop_drop] at member
    exact mem_of_mem_drop member
  have text : cString (write buffer (cString buffer).length c) = cString buffer ++ [c] := by
    rw [shape]
    cases behind : buffer.drop ((cString buffer).length + 1) with
    | nil =>
      rw [append_nil]
      exact cString_text proper
    | cons d rest =>
      rw [behind] at zeros
      rw [zeros d mem_cons_self]
      exact cString_append_nul proper rest
  refine ⟨text, ?_⟩
  intro d member
  rw [text, shape, drop_left] at member
  exact zeros d member

/-! ## Putting parts into the buffer -/

/-- The parts of a command have no terminator in them, and arguments are
words. -/
def Printable : Item → Prop
  | .char c => c ≠ nul
  | .reference _ arg numeral => IsWord arg ∧ nul ∉ arg ∧ nul ∉ numeral

/-- A part is put into the buffer; the digits that are left over are taken for
characters. -/
def put (assembly : Assembly) : Item → Assembly
  | .char c => assembly.copy c
  | .reference k arg numeral =>
    (surplus numeral).foldl Assembly.copy (assembly.refer k arg)

def putAll (assembly : Assembly) (items : List Item) : Assembly :=
  items.foldl put assembly

/-- The next character will be added to the text. -/
structure Synced (assembly : Assembly) (text : CStr) : Prop where
  text_eq : cString assembly.currentCmd = text
  index : assembly.i = text.length
  blank : Blank assembly.currentCmd

/-- The next character will be written behind the terminator; there has been a
reference, so that the text has a blank behind a word. -/
structure Stuck (assembly : Assembly) (text : CStr) : Prop where
  text_eq : cString assembly.currentCmd = text
  index : text.length < assembly.i
  cut : ' ' ∈ skipBlanks text

theorem blank_ne_nul : nul ∉ [' '] := by
  decide

theorem skipBlanks_append (solid : IsWord word) (text rest : CStr) :
    ∃ before, skipBlanks (text ++ (word ++ rest)) = before ++ (word ++ rest) := by
  induction text with
  | nil =>
    obtain ⟨nonempty, spaceless⟩ := solid
    cases word with
    | nil => exact absurd rfl nonempty
    | cons c word =>
      refine ⟨[], ?_⟩
      have other : decide (c = ' ') = false := by
        apply decide_eq_false
        rintro rfl
        cases spaceless ' ' mem_cons_self
      unfold skipBlanks
      rw [nil_append, cons_append, dropWhile_cons_of_neg (by rw [other]; exact nofun)]
  | cons c text ih =>
    unfold skipBlanks
    rw [cons_append, dropWhile_cons]
    split
    · exact ih
    · exact ⟨c :: text, rfl⟩

theorem cut_of_word (solid : IsWord word) (text rest : CStr) :
    ' ' ∈ skipBlanks (text ++ (word ++ ' ' :: rest)) := by
  obtain ⟨before, equal⟩ := skipBlanks_append solid text (' ' :: rest)
  rw [equal]
  exact mem_append_right _ (mem_append_right _ mem_cons_self)

section

theorem synced_copy (synced : Synced assembly text) {c : Char} (solid : c ≠ nul) :
    Synced (assembly.copy c) (text ++ [c]) := by
  obtain ⟨rfl, index, blank⟩ := synced
  unfold Assembly.copy
  rw [index]
  obtain ⟨added, still⟩ := write_at_end blank solid
  refine ⟨added, ?_, still⟩
  rw [length_append]
  rfl

theorem synced_copyAll (synced : Synced assembly text) {chars : CStr} (proper : nul ∉ chars) :
    Synced (chars.foldl Assembly.copy assembly) (text ++ chars) := by
  induction chars generalizing assembly text with
  | nil =>
    rw [append_nil]
    exact synced
  | cons c chars ih =>
    obtain ⟨first, others⟩ := not_or.mp (mt mem_cons.mpr proper)
    have next := ih (synced_copy synced (Ne.symm first)) others
    rw [append_assoc] at next
    exact next

variable (assembly) in
theorem cString_refer (k : Nat) {arg : CStr} (proper : nul ∉ arg) :
    cString (assembly.refer k arg).currentCmd = cString assembly.currentCmd ++ (arg ++ [' ']) := by
  unfold Assembly.refer
  rw [cString_strcat _ blank_ne_nul, cString_strcat _ proper, append_assoc]

theorem index_refer (k : Nat) {arg : CStr} : (assembly.refer k arg).i = assembly.i +
      (cString (assembly.refer k arg).currentCmd).length :=
  rfl

theorem synced_refer (synced : Synced assembly []) (k : Nat) {arg : CStr} (proper : nul ∉ arg) :
    Synced (assembly.refer k arg) (arg ++ [' ']) := by
  have added := cString_refer assembly k proper
  rw [synced.text_eq, nil_append] at added
  refine ⟨added, ?_, ?_⟩
  · rw [index_refer, added, synced.index]
    exact Nat.zero_add _
  · exact blank_strcat (blank_strcat synced.blank proper) blank_ne_nul

theorem stuck_of_index {k : Nat} {arg : CStr} (word : IsWord arg) (proper : nul ∉ arg)
    (text_eq : cString assembly.currentCmd = text) (positive : 0 < assembly.i) :
    Stuck (assembly.refer k arg) (text ++ (arg ++ [' '])) := by
  have added := cString_refer assembly k proper
  rw [text_eq] at added
  refine ⟨added, ?_, cut_of_word word text []⟩
  rw [index_refer, added]
  omega

theorem stuck_copy (stuck : Stuck assembly text) (c : Char) : Stuck (assembly.copy c) text := by
  obtain ⟨rfl, index, cut⟩ := stuck
  refine ⟨cString_write_behind c index, ?_, cut⟩
  exact Nat.lt_succ_of_lt index

theorem stuck_copyAll (stuck : Stuck assembly text) (chars : CStr) :
    Stuck (chars.foldl Assembly.copy assembly) text := by
  induction chars generalizing assembly with
  | nil => exact stuck
  | cons c chars ih => exact ih (stuck_copy stuck c)

theorem nul_not_mem_surplus {numeral : CStr} (proper : nul ∉ numeral) : nul ∉ surplus numeral :=
  fun member => proper (mem_of_mem_drop member)

/-- Behind a reference that does not open the command, only arguments are
added. -/
theorem stuck_putAll (stuck : Stuck assembly text) (printable : ∀ item ∈ items, Printable item) :
    Stuck (putAll assembly items) (text ++ argumentsOnly items) := by
  induction items generalizing assembly text with
  | nil =>
    rw [argumentsOnly, append_nil]
    exact stuck
  | cons item rest ih =>
    obtain ⟨first, others⟩ := forall_mem_cons.mp printable
    cases item with
    | char c => exact ih (stuck_copy stuck c) others
    | reference k arg numeral =>
      obtain ⟨word, proper, _⟩ := first
      have added := stuck_of_index (k := k) word proper stuck.text_eq
        (Nat.zero_lt_of_lt stuck.index)
      have next := ih (stuck_copyAll added (surplus numeral)) others
      rw [argumentsOnly]
      rw [append_assoc, append_assoc] at next
      exact next

end

/-- The buffer holds the text, and there is nothing behind the terminator
unless the text has a blank behind a word. -/
structure Holds (buffer : Buffer) (text : CStr) : Prop where
  text_eq : cString buffer = text
  behind : Blank buffer ∨ ' ' ∈ skipBlanks text

theorem Synced.holds (synced : Synced assembly text) : Holds assembly.currentCmd text :=
  ⟨synced.text_eq, .inl synced.blank⟩

theorem Stuck.holds (stuck : Stuck assembly text) : Holds assembly.currentCmd text :=
  ⟨stuck.text_eq, .inr stuck.cut⟩

theorem putAll_kept (synced : Synced assembly text) (nonempty : text ≠ [])
    (printable : ∀ item ∈ items, Printable item) :
    Holds (putAll assembly items).currentCmd (text ++ kept items) := by
  induction items generalizing assembly text with
  | nil =>
    rw [kept, append_nil]
    exact synced.holds
  | cons item rest ih =>
    obtain ⟨first, others⟩ := forall_mem_cons.mp printable
    cases item with
    | char c =>
      have next := ih (synced_copy synced first)
        (append_ne_nil_of_left_ne_nil nonempty [c]) others
      rw [append_assoc] at next
      exact next
    | reference k arg numeral =>
      obtain ⟨word, proper, _⟩ := first
      have positive : 0 < assembly.i := by
        rw [synced.index]
        exact length_pos_iff.mpr nonempty
      have added := stuck_of_index (k := k) word proper synced.text_eq positive
      have next := stuck_putAll (stuck_copyAll added (surplus numeral)) others
      rw [kept]
      rw [append_assoc, append_assoc] at next
      exact next.holds

theorem putAll_assembled (maxArgCount : Nat) (printable : ∀ item ∈ items, Printable item) :
    Holds (putAll ⟨[], 0, maxArgCount, true⟩ items).currentCmd (assembled items) := by
  have start : Synced ⟨[], 0, maxArgCount, true⟩ [] := ⟨rfl, rfl, blank_nil⟩
  cases items with
  | nil => exact start.holds
  | cons item rest =>
    obtain ⟨first, others⟩ := forall_mem_cons.mp printable
    cases item with
    | char c =>
      exact putAll_kept (synced_copy start first) (cons_ne_nil c []) others
    | reference k arg numeral =>
      obtain ⟨word, proper, digits⟩ := first
      have opened := synced_copyAll (synced_refer start k proper) (nul_not_mem_surplus digits)
      have next := putAll_kept opened (append_ne_nil_of_left_ne_nil
          (append_ne_nil_of_left_ne_nil word.1 [' ']) _) others
      rw [assembled]
      rw [append_assoc, append_assoc] at next
      exact next

/-! ## The end of the buffer -/

/-- Every part is written inside the buffer, from a text of this length and
from the index `i` on.  Behind a reference the index is ahead of the text by
all that was there before. -/
def insideFrom (length i : Nat) : List Item → Bool
  | [] => true
  | .char _ :: rest =>
    i < vtyshMaxAliasListLen && insideFrom (if i = length then length + 1 else length) (i + 1) rest
  | .reference _ arg numeral :: rest =>
    let text := length + (arg.length + 1)
    let left := (surplus numeral).length
    text < vtyshMaxAliasListLen && (left = 0 || i + text + left ≤ vtyshMaxAliasListLen) &&
      insideFrom (if i + text = text then text + left else text) (i + text + left) rest

/-- The length of the text is known, and where the next character goes. -/
def Tracks (assembly : Assembly) (length : Nat) : Prop :=
  ∃ text, (Synced assembly text ∨ Stuck assembly text) ∧ text.length = length

section

variable {length : Nat}

theorem tracks_copyAll (tracks : Tracks assembly length) {chars : CStr} (proper : nul ∉ chars) :
    Tracks (chars.foldl Assembly.copy assembly)
      (if assembly.i = length then length + chars.length else length) := by
  obtain ⟨text, synced | stuck, rfl⟩ := tracks
  · rw [if_pos synced.index]
    exact ⟨text ++ chars, .inl (synced_copyAll synced proper), length_append⟩
  · rw [if_neg (Nat.ne_of_gt stuck.index)]
    exact ⟨text, .inr (stuck_copyAll stuck chars), rfl⟩

theorem tracks_refer (tracks : Tracks assembly length) (k : Nat) {arg : CStr} (word : IsWord arg)
    (proper : nul ∉ arg) : Tracks (assembly.refer k arg) (length + (arg.length + 1)) := by
  obtain ⟨text, state, rfl⟩ := tracks
  have positive (ahead : 0 < assembly.i) (same : cString assembly.currentCmd = text) :
      Tracks (assembly.refer k arg) (text.length + (arg.length + 1)) :=
    ⟨_, .inr (stuck_of_index word proper same ahead), by simp⟩
  rcases state with synced | stuck
  · cases text with
    | nil => exact ⟨_, .inl (synced_refer synced k proper), by simp⟩
    | cons c text => exact positive (by rw [synced.index]; exact Nat.succ_pos _) synced.text_eq
  · exact positive (Nat.zero_lt_of_lt stuck.index) stuck.text_eq

theorem length_refer (tracks : Tracks assembly length) (k : Nat) {arg : CStr} (proper : nul ∉ arg) :
    (cString (assembly.refer k arg).currentCmd).length = length + (arg.length + 1) := by
  obtain ⟨text, state, rfl⟩ := tracks
  have same : cString assembly.currentCmd = text := state.elim (·.text_eq) (·.text_eq)
  rw [cString_refer assembly k proper, same, length_append, length_append]
  rfl

variable (assembly) in
theorem index_copyAll (chars : CStr) :
    (chars.foldl Assembly.copy assembly).i = assembly.i + chars.length := by
  induction chars generalizing assembly with
  | nil => rfl
  | cons c chars ih =>
    rw [foldl_cons, ih, length_cons, Nat.add_comm chars.length, ← Nat.add_assoc]
    rfl

variable (assembly) in
theorem inside_copyAll (chars : CStr) : (chars.foldl Assembly.copy assembly).inside =
      (assembly.inside &&
        (chars.length = 0 || assembly.i + chars.length ≤ vtyshMaxAliasListLen)) := by
  induction chars generalizing assembly with
  | nil => exact (Bool.and_true _).symm
  | cons c chars ih =>
    rw [foldl_cons, ih]
    unfold Assembly.copy
    rw [Bool.and_assoc, length_cons]
    congr 1
    rw [Bool.eq_iff_iff]
    simp only [Bool.and_eq_true, Bool.or_eq_true, decide_eq_true_eq]
    omega

/-- The parts of a command are written inside the buffer exactly if the
lengths of the arguments allow it. -/
theorem inside_putAll (tracks : Tracks assembly length)
    (printable : ∀ item ∈ items, Printable item) :
    (putAll assembly items).inside =
      (assembly.inside && insideFrom length assembly.i items) := by
  induction items generalizing assembly length with
  | nil => exact (Bool.and_true _).symm
  | cons item rest ih =>
    obtain ⟨first, others⟩ := forall_mem_cons.mp printable
    cases item with
    | char c =>
      have one : nul ∉ [c] := fun member => first (mem_singleton.mp member).symm
      have next := ih (tracks_copyAll tracks one) others
      rw [insideFrom, ← Bool.and_assoc]
      exact next
    | reference k arg numeral =>
      obtain ⟨word, proper, digits⟩ := first
      have size := length_refer tracks k proper
      have index : (assembly.refer k arg).i = assembly.i + (length + (arg.length + 1)) := by
        rw [index_refer, size]
      have room : (assembly.refer k arg).inside =
          (assembly.inside && length + (arg.length + 1) < vtyshMaxAliasListLen) := by
        rw [← size]
        rfl
      have next := ih (tracks_copyAll (tracks_refer tracks k word proper)
        (nul_not_mem_surplus digits)) others
      rw [inside_copyAll, index_copyAll, index, room] at next
      rw [insideFrom, ← Bool.and_assoc, ← Bool.and_assoc]
      exact next

end

end OpsCli.Vtysh.AliasBuffer
