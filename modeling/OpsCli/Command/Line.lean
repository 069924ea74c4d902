import OpsCli.CLib.CString
import OpsCli.CLib.Words

/-!
# Splitting a line

`cmd_make_strvec` breaks the text of a line into the words that the executor
receives.  A blank line and a comment have no words.  `argv_concat` joins words
with a blank between two of them, and the same words are found again.
-/

namespace OpsCli.Command.Line

open CLib CString Words List

/-- The loop of `cmd_make_strvec`: one word, and the white space behind it.
Every round consumes at least one character. -/
def splitWords : Nat → CStr → List CStr
  | 0, _ => []
  | fuel + 1, cp =>
    let word := cp.takeWhile (!isspace ·)
    match (cp.dropWhile (!isspace ·)).dropWhile isspace with
    | [] => [word]
    | next :: rest => word :: splitWords fuel (next :: rest)

/-- `cmd_make_strvec`. -/
def cmdMakeStrvec (string : CStr) : Option (List CStr) :=
  match string.dropWhile isspace with
  | [] => none
  | first :: rest =>
    if first = '!' || first = '#' then none
    else some (splitWords (rest.length + 1) (first :: rest))

/-! ## The words -/

/-- A word is not empty and has no white space in it. -/
def IsWord (word : CStr) : Prop :=
  word ≠ [] ∧ ∀ c ∈ word, isspace c = false

variable {first : Char} {rest : CStr}

theorem head_dropWhile_isspace {text : CStr} (equal : text.dropWhile isspace = first :: rest) :
    isspace first = false := by
  have nonempty : text.dropWhile isspace ≠ [] := equal ▸ cons_ne_nil first rest
  simpa only [equal, head_cons] using head_dropWhile_not isspace nonempty

theorem isWord_takeWhile (solid : isspace first = false) :
    IsWord ((first :: rest).takeWhile (!isspace ·)) := by
  refine ⟨?_, fun c member => ?_⟩
  · rw [takeWhile_cons_of_pos (by rw [solid]; rfl)]
    exact cons_ne_nil _ _
  · simpa using mem_takeWhile_imp member

theorem solid_takeWhile (text : CStr) : Solid isspace (text.takeWhile (!isspace ·)) := by
  intro c member
  simpa using mem_takeWhile_imp member

theorem words_dropWhile_isspace (text : CStr) :
    words isspace (text.dropWhile isspace) = words isspace text := by
  induction text with
  | nil => rfl
  | cons c rest ih =>
    cases sort : isspace c with
    | true =>
      rw [dropWhile_cons_of_pos sort, words_cons_blank sort]
      exact ih
    | false =>
      rw [dropWhile_cons_of_neg (by rw [sort]; exact nofun)]

theorem startsSolid_dropWhile (text : CStr) :
    startsSolid isspace (text.dropWhile (!isspace ·)) = false := by
  induction text with
  | nil => rfl
  | cons c rest ih =>
    cases sort : isspace c with
    | true =>
      rw [dropWhile_cons_of_neg (by rw [sort]; exact nofun), startsSolid_cons, sort]
      rfl
    | false =>
      rw [dropWhile_cons_of_pos (by rw [sort]; rfl)]
      exact ih

theorem words_eq_cons (solid : isspace first = false) (rest : CStr) :
    words isspace (first :: rest) = (first :: rest).takeWhile (!isspace ·) ::
        words isspace (((first :: rest).dropWhile (!isspace ·)).dropWhile isspace) := by
  have nonempty : (first :: rest).takeWhile (!isspace ·) ≠ [] := (isWord_takeWhile solid).1
  have apart := words_append_solid (solid_takeWhile (first :: rest)) nonempty
    ((first :: rest).dropWhile (!isspace ·))
  rw [takeWhile_append_dropWhile, startsSolid_dropWhile, if_neg Bool.false_ne_true] at apart
  rw [words_dropWhile_isspace]
  exact apart

theorem splitWords_eq_words {fuel : Nat}
    (solid : isspace first = false) (enough : rest.length < fuel) :
    splitWords fuel (first :: rest) = words isspace (first :: rest) := by
  induction fuel generalizing first rest with
  | zero => cases enough
  | succ fuel ih =>
    rw [words_eq_cons solid]
    unfold splitWords
    split
    · rename_i finished
      rw [finished, words_nil]
    · rename_i next more equal
      have shorter : more.length < fuel := by
        have inner : ((first :: rest).dropWhile (!isspace ·)).length ≤ rest.length := by
          rw [dropWhile_cons_of_pos (by rw [solid]; rfl)]
          exact (dropWhile_suffix _).length_le
        have outer : (next :: more).length ≤ ((first :: rest).dropWhile (!isspace ·)).length :=
          equal ▸ (dropWhile_suffix _).length_le
        rw [length_cons] at outer
        omega
      rw [equal, ih (head_dropWhile_isspace equal) shorter]

/-- A line has its words, unless it is blank or a comment. -/
theorem cmdMakeStrvec_eq (string : CStr) : cmdMakeStrvec string =
      match (string.dropWhile isspace).head? with
      | none => none
      | some first =>
        if first = '!' || first = '#' then none
        else some (words isspace string) := by
  rw [← words_dropWhile_isspace string]
  unfold cmdMakeStrvec
  cases equal : string.dropWhile isspace with
  | nil => rfl
  | cons first rest =>
    have found : splitWords (rest.length + 1) (first :: rest) = words isspace (first :: rest) :=
      splitWords_eq_words (head_dropWhile_isspace equal) (Nat.lt_succ_self rest.length)
    dsimp only [head?_cons]
    rw [found]

example : cmdMakeStrvec " show  ip route " =
    some ["show".toList, "ip".toList, "route".toList] := by
  decide

/-! ## Joining words -/

variable {string : CStr}

theorem head_dropWhile_eq (string : CStr) :
    (string.dropWhile isspace).head? = (words isspace string).flatten.head? := by
  rw [flatten_words, head?_filter, find?_eq_head?_dropWhile_not]
  simp

/-- What is found on a line depends only on its words. -/
theorem cmdMakeStrvec_congr {other : CStr} (same : words isspace string = words isspace other) :
    cmdMakeStrvec string = cmdMakeStrvec other := by
  rw [cmdMakeStrvec_eq, cmdMakeStrvec_eq, head_dropWhile_eq, head_dropWhile_eq, same]

theorem cmdMakeStrvec_cases (line : CStr) : cmdMakeStrvec line = none ∨
      cmdMakeStrvec line = some (words isspace line) := by
  rw [cmdMakeStrvec_eq]
  split
  · exact .inl rfl
  · split
    · exact .inl rfl
    · exact .inr rfl

/-- `argv_concat`; the terminator takes the place of the last blank. -/
def argvConcat (argv : List CStr) (shift : Nat) : Option CStr :=
  let args := argv.drop shift
  if (args.map (·.length + 1)).sum = 0 then none
  else some (args.flatMap (· ++ [' '])).dropLast

theorem isspace_blank : isspace ' ' :=
  rfl

theorem words_word {word : CStr} (solid : IsWord word) : words isspace word = [word] := by
  have split : words isspace (word ++ []) = [word] := words_append_solid solid.2 solid.1 []
  rw [append_nil] at split
  exact split

theorem words_argument {arg : CStr} (word : IsWord arg) (rest : CStr) :
    words isspace (arg ++ ' ' :: rest) = arg :: words isspace rest := by
  rw [words_append_blank isspace_blank, words_word word]
  rfl

theorem words_argvConcat {list : List CStr} (proper : ∀ word ∈ list, IsWord word)
    (nonempty : list ≠ []) :
    ∃ text, argvConcat list 0 = some text ∧ words isspace text = list := by
  obtain ⟨init, last, rfl⟩ := list.eq_nil_or_concat'.resolve_left nonempty
  refine ⟨init.flatMap (· ++ [' ']) ++ last, by simp [argvConcat, ← append_assoc], ?_⟩
  clear nonempty
  induction init with
  | nil => exact words_word (proper last mem_cons_self)
  | cons word init ih =>
    obtain ⟨first, others⟩ := forall_mem_cons.mp proper
    rw [flatMap_cons, append_assoc, append_assoc, singleton_append, words_argument first,
      ih others, cons_append]

/-- **The words that are joined are found again**, unless they are a comment,
**and every line has the words of its joined words.** -/
theorem tokenizing_inverts_joining :
    (∀ (c : Char) (first : CStr) (rest : List CStr), (∀ word ∈ (c :: first) :: rest, IsWord word) →
      c ≠ '!' → c ≠ '#' →
      (argvConcat ((c :: first) :: rest) 0).bind cmdMakeStrvec = some ((c :: first) :: rest)) ∧
    ∀ string list, cmdMakeStrvec string = some list →
      (argvConcat list 0).bind cmdMakeStrvec = some list := by
  refine ⟨fun c first rest proper notBang notHash => ?_, fun string list found => ?_⟩
  · obtain ⟨text, joined, same⟩ := words_argvConcat proper (cons_ne_nil _ _)
    rw [joined, Option.bind_some, cmdMakeStrvec_eq, head_dropWhile_eq, same]
    exact if_neg (by simp [notBang, notHash])
  · have equal : words isspace string = list := by
      rcases cmdMakeStrvec_cases string with none | some
      · cases none.symm.trans found
      · exact Option.some.inj (some.symm.trans found)
    have nonempty : list ≠ [] := by
      rintro rfl
      rw [cmdMakeStrvec_eq, head_dropWhile_eq, equal] at found
      cases found
    have proper (word : CStr) (member : word ∈ list) : IsWord word := by
      rw [← equal] at member
      refine ⟨ne_nil_of_mem_words member, fun c inside => ?_⟩
      have kept := mem_flatten_of_mem member inside
      rw [flatten_words, mem_filter] at kept
      simpa using kept.2
    obtain ⟨text, joined, same⟩ := words_argvConcat proper nonempty
    rw [joined, Option.bind_some, cmdMakeStrvec_congr (same.trans equal.symm), found]

end OpsCli.Command.Line
