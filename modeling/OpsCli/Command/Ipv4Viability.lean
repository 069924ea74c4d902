import Mathlib.Tactic.Ring
import OpsCli.Command.Ipv4

/-!
# What the IPv4 matchers foresee

A matcher foresees what becomes of a word if it refuses the word exactly when no
continuation is accepted.  At a dot that ends the word the matchers answer
before they have looked at the number before the dot.  The matcher for a prefix
also refuses a length above 32 that becomes negative when more digits follow.
-/

namespace OpsCli.Command.Ipv4Viability

open CLib CString Cells Token Address Ipv4Scan Ipv4 List

/-! ## Foresight -/

/-- Some continuation of the word is accepted. -/
def Viable (matcher : CStr → MatchType) (word : CStr) : Prop :=
  ∃ more, matcher (word ++ more) = .exactMatch

/-- The matcher refuses the word exactly if no continuation is accepted. -/
def Foresees (matcher : CStr → MatchType) (word : CStr) : Prop :=
  matcher word ≠ .noMatch ↔ Viable matcher word

variable {word first field : CStr} {cells : List (Cell Char)} {left : Nat}
  {matcher : CStr → MatchType} {slash : Bool}

theorem foresees_of_viable (taken : matcher word ≠ .noMatch) (viable : Viable matcher word) :
    Foresees matcher word :=
  iff_of_true taken viable

theorem foresees_of_not_viable (refused : matcher word = .noMatch) (lost : ¬ Viable matcher word) :
    Foresees matcher word :=
  iff_of_false (not_not.mpr refused) lost

/-! ## Numbers -/

theorem digitsValue_append (first second : CStr) : digitsValue (first ++ second) =
      digitsValue first * 10 ^ second.length + digitsValue second := by
  have shifted (value : Nat) : second.foldl (fun value c => 10 * value + digitValue c) value =
        value * 10 ^ second.length + digitsValue second := by
    unfold digitsValue
    induction second generalizing value with
    | nil =>
      rw [length_nil, pow_zero, Nat.mul_one]
      rfl
    | cons c second ih =>
      rw [foldl_cons, foldl_cons, ih, ih (10 * 0 + digitValue c), length_cons, pow_succ]
      ring
  rw [← shifted]
  unfold digitsValue
  rw [foldl_append]

theorem digitsValue_append_le (first second : CStr) :
    digitsValue first ≤ digitsValue (first ++ second) := by
  rw [digitsValue_append]
  exact (Nat.le_mul_of_pos_right _ (Nat.pow_pos (by decide))).trans (Nat.le_add_right _ _)

theorem sound_of_append {second : CStr} (sound : Sound (first ++ second)) : Sound first := by
  refine ⟨?_, (digitsValue_append_le first second).trans sound.2⟩
  have short := sound.1
  rw [length_append] at short
  omega

def zero : CStr :=
  "0"

theorem digits_zero : Digits zero :=
  isdigit_of_isNumeral (by decide)

/-- So many dots with a number behind each. -/
def zeros (count : Nat) : List (Cell Char) :=
  List.replicate count ('.', zero)

theorem cut_zeros (count : Nat) : Cut isdigit (zeros count) := by
  intro cell member
  cases eq_of_mem_replicate member
  exact ⟨rfl, digits_zero⟩

/-! ## Overruns -/

/-- The text ends with a dot behind a number that is too large; `slash` says
whether slashes may stand between the numbers. -/
def Overruns (slash : Bool) : Nat → CStr → List (Cell Char) → Prop
  | _, _, [] => False
  | left, field, (c, next) :: cells =>
    left ≠ 0 ∧ ((slash ∧ c = '/' ∧ Sound field ∧ Overruns slash left next cells) ∨
        (c = '.' ∧ next = [] ∧ cells = [] ∧ ¬ Sound field) ∨
        (c = '.' ∧ next ≠ [] ∧ Sound field ∧ Overruns slash (left - 1) next cells))

/-- The word ends with a dot behind a number that is too large. -/
def Overrun (slash : Bool) (word : CStr) : Prop :=
  ∃ field cells, Digits field ∧ Cut isdigit cells ∧ word = text field cells ∧
    Overruns slash 3 field cells

theorem overrun_text (digits : Digits field) (cut : Cut isdigit cells) :
    Overrun slash (text field cells) ↔ Overruns slash 3 field cells := by
  constructor
  · rintro ⟨other, others, digits', cut', same, overruns⟩
    obtain ⟨rfl, rfl⟩ := text_inj digits cut digits' cut' same
    exact overruns
  · intro overruns
    exact ⟨field, cells, digits, cut, rfl, overruns⟩

/-! ## Addresses -/

theorem sound_of_whole (whole : Whole left field cells) : Sound field := by
  cases left with
  | zero =>
    cases cells with
    | nil => exact whole
    | cons => cases whole
  | succ left =>
    cases cells with
    | nil => cases whole
    | cons => exact whole.1

theorem extend_eq_nil_iff (first : CStr) (more : List (Cell Char)) :
    (extend field cells first more).1 = [] ↔ field = [] ∧ (cells = [] → first = []) := by
  cases cells with
  | nil => simp [extend]
  | cons cell cells => simp [extend]

theorem whole_zeros {field : CStr} (sound : Sound field) : Whole left field (zeros left) := by
  induction left generalizing field with
  | zero => exact sound
  | succ left ih =>
    exact ⟨sound, rfl, nofun, ih (by decide)⟩

/-- A text can be continued to an address. -/
def Continuable (left : Nat) (field : CStr) (cells : List (Cell Char)) : Prop :=
  ∃ first more, Digits first ∧ Cut isdigit more ∧ Whole left (extend field cells first more).1
    (extend field cells first more).2

/-- A text is refused exactly if it cannot be completed, unless it overruns. -/
theorem ipv4Scan_iff (left : Nat) (field : CStr) (cells : List (Cell Char)) :
    (ipv4Scan left field cells ≠ .noMatch ↔ Continuable left field cells) ↔
      ¬ Overruns false left field cells := by
  induction cells generalizing left field with
  | nil =>
    refine iff_of_true ?_ not_false
    rw [ipv4Scan]
    by_cases sound : Sound field
    · rw [if_pos sound]
      refine iff_of_true (by split <;> rintro ⟨⟩) ?_
      refine ⟨[], zeros left, filled_nil, cut_zeros left, ?_⟩
      rw [extend, append_nil]
      exact whole_zeros sound
    · rw [if_neg sound]
      refine iff_of_false (not_not.mpr rfl) ?_
      rintro ⟨first, more, _, _, whole⟩
      exact sound (sound_of_append (sound_of_whole whole))
  | cons cell cells ih =>
    obtain ⟨c, next⟩ := cell
    cases left with
    | zero =>
      refine iff_of_true (iff_of_false (not_not.mpr rfl) ?_) fun overruns => overruns.1 rfl
      rintro ⟨_, _, _, _, ⟨⟩⟩
    | succ left =>
      rw [ipv4Scan]
      by_cases regular : c = '.' ∧ Sound field
      · obtain ⟨rfl, sound⟩ := regular
        rw [if_pos rfl, if_pos sound]
        by_cases missing : next = []
        · subst missing
          rw [if_pos rfl]
          by_cases last : cells = []
          · subst last
            refine iff_of_true (iff_of_true (by rintro ⟨⟩) ?_) (by simp [Overruns, sound])
            exact ⟨zero, zeros left, digits_zero, cut_zeros left, sound, rfl, (by rintro ⟨⟩),
              @whole_zeros left zero (by decide)⟩
          · rw [if_neg last]
            refine iff_of_true (iff_of_false (not_not.mpr rfl) ?_) (by simp [Overruns, last])
            rintro ⟨first, more, _, _, _, _, present, _⟩
            exact present ((extend_eq_nil_iff first more).mpr ⟨rfl, fun ends => absurd ends last⟩)
        · have later : Continuable (left + 1) field (('.', next) :: cells) ↔
              Continuable left next cells := by
            refine exists_congr fun first => exists_congr fun more => ?_
            refine and_congr_right fun _ => and_congr_right fun _ => ?_
            refine ⟨fun whole => whole.2.2.2, fun whole => ⟨sound, rfl, ?_, whole⟩⟩
            exact fun empty => missing ((extend_eq_nil_iff first more).mp empty).1
          rw [if_neg missing, later, ih]
          simp [Overruns, missing, sound]
      · have lost : ¬ Continuable (left + 1) field ((c, next) :: cells) := by
          rintro ⟨_, _, _, _, sound, dot, _⟩
          exact regular ⟨dot, sound⟩
        rw [iff_false_right lost, not_not]
        by_cases dot : c = '.'
        · have unsound : ¬ Sound field := fun sound => regular ⟨dot, sound⟩
          rw [if_pos dot, if_neg unsound]
          by_cases missing : next = []
          · by_cases last : cells = []
            · simp [Overruns, missing, last, dot, unsound]
            · simp [Overruns, missing, last]
          · simp [Overruns, missing, unsound]
        · simp [Overruns, dot]

theorem viable_ipv4_iff (digits : Digits field) (cut : Cut isdigit cells) :
    Viable cmdIpv4Match (text field cells) ↔ Continuable 3 field cells := by
  have extended {first : CStr} {more : List (Cell Char)}
      (digits' : Digits first) (cut' : Cut isdigit more) :
      cmdIpv4Match (text field cells ++ text first more) = .exactMatch ↔
        Whole 3 (extend field cells first more).1 (extend field cells first more).2 := by
    obtain ⟨both, all⟩ := cut_extend digits cut digits' cut'
    rw [← text_extend, cmdIpv4Match_text both all, ipv4Scan_eq_exactMatch_iff]
  constructor
  · rintro ⟨str, accepted⟩
    obtain ⟨first, more, digits', cut', rfl⟩ := exists_cut isdigit str
    exact ⟨first, more, digits', cut', (extended digits' cut').mp accepted⟩
  · rintro ⟨first, more, digits', cut', whole⟩
    exact ⟨text first more, (extended digits' cut').mpr whole⟩

/-- **`cmd_ipv4_match` foresees everything but an overrun.** -/
theorem foresees_ipv4_iff (word : CStr) : Foresees cmdIpv4Match word ↔ ¬ Overrun false word := by
  obtain ⟨field, cells, digits, cut, rfl⟩ := exists_cut isdigit word
  rw [Foresees, overrun_text digits cut, viable_ipv4_iff digits cut, cmdIpv4Match_text digits cut]
  exact ipv4Scan_iff 3 field cells

/-! ## The address before the slash -/

/-- What becomes of a text before the slash: what its continuations are scanned
to, what it is scanned to itself, and whether it overruns. -/
inductive Verdict (mask : CStr × List (Cell Char))
    (extended : CStr → List (Cell Char) → Except MatchType (CStr × List (Cell Char))) :
    Except MatchType (CStr × List (Cell Char)) → Prop → Prop
  | refused (lost : ∀ first more mask, extended first more ≠ .ok mask) :
      Verdict mask extended (.error .noMatch) False
  | overrun (lost : ∀ first more mask, extended first more ≠ .ok mask) :
      Verdict mask extended (.error .partlyMatch) True
  | continued {first : CStr} {more : List (Cell Char)} (digits : Digits first)
      (cut : Cut isdigit more) (reaches : extended first more = .ok mask) :
      Verdict mask extended (.error .partlyMatch) False
  | passed (found : CStr × List (Cell Char)) : Verdict mask extended (.ok found) False

theorem headScan_zeros {field mask : CStr} {more : List (Cell Char)} (sound : Sound field)
    (some : ¬ (mask = [] ∧ more = [])) :
    headScan left field (zeros left ++ ('/', mask) :: more) = .ok (mask, more) := by
  induction left generalizing field with
  | zero =>
    rw [zeros, replicate_zero, nil_append, headScan, if_pos rfl, if_pos sound, if_pos rfl,
      if_neg some]
  | succ left ih =>
    rw [zeros, replicate_succ, cons_append, headScan, if_neg (by decide),
      if_pos ⟨rfl, Nat.succ_ne_zero left⟩, if_neg (by decide), if_pos sound]
    exact ih (by decide)

theorem verdict {mask : CStr} {others : List (Cell Char)} (digits : Digits mask)
    (cut : Cut isdigit others) (some : ¬ (mask = [] ∧ others = [])) (left : Nat) (field : CStr)
    (cells : List (Cell Char)) :
    Verdict (mask, others) (fun first more => headScan left (extend field cells first more).1
      (extend field cells first more).2) (headScan left field cells)
      (Overruns true left field cells) := by
  have tail (count : Nat) : Cut isdigit (zeros count ++ ('/', mask) :: others) :=
    forall_mem_append.mpr ⟨cut_zeros count, forall_mem_cons.mpr ⟨⟨rfl, digits⟩, cut⟩⟩
  induction cells generalizing left field with
  | nil =>
    by_cases sound : Sound field
    · simp only [headScan, if_pos sound, Overruns, extend]
      refine .continued filled_nil (tail left) ?_
      rw [append_nil]
      exact headScan_zeros sound some
    · simp only [headScan, if_neg sound, Overruns, extend]
      exact .refused fun _ _ _ found => sound (sound_of_append (sound_of_headScan found))
  | cons cell cells ih =>
    obtain ⟨c, next⟩ := cell
    by_cases slash : c = '/' ∧ Sound field
    · obtain ⟨rfl, sound⟩ := slash
      by_cases last : left = 0
      · subst last
        by_cases ends : next = [] ∧ cells = []
        · obtain ⟨rfl, rfl⟩ := ends
          simp only [headScan, Overruns, extend, sound, ne_eq, not_true, false_and, and_self,
            if_true]
          exact .continued digits cut (if_neg some)
        · simp only [headScan, Overruns, sound, ends, ne_eq, not_true, false_and, if_true, if_false]
          exact .passed _
      · simpa [headScan, Overruns, extend, sound, last] using ih left next
    by_cases dot : c = '.' ∧ left ≠ 0
    · obtain ⟨rfl, more⟩ := dot
      have lost (unsound : ¬ Sound field) (first : CStr) (others : List (Cell Char))
          (mask : CStr × List (Cell Char)) :
          headScan left field (extend field (('.', next) :: cells) first others).2 ≠ .ok mask :=
        fun found => unsound (sound_of_headScan found)
      by_cases missing : next = []
      · subst missing
        by_cases last : cells = []
        · subst last
          have partly : headScan left field [('.', [])] = .error .partlyMatch := by
            simp [headScan, more]
          rw [partly]
          by_cases sound : Sound field
          · have fits : ¬ Overruns true left field [('.', [])] := by
              simp [Overruns, sound]
            rw [eq_false fits]
            refine .continued digits_zero (tail (left - 1)) ?_
            rw [extend, headScan, if_neg (by decide), if_pos ⟨rfl, more⟩, if_pos sound]
            exact (if_neg (by rintro ⟨⟩)).trans (@headScan_zeros _ zero _ _ (by decide) some)
          · have overruns : Overruns true left field [('.', [])] :=
              ⟨more, .inr (.inl ⟨rfl, rfl, rfl, sound⟩)⟩
            rw [eq_true overruns]
            exact .overrun (lost sound)
        · have refuses : headScan left field (('.', []) :: cells) = .error .noMatch := by
            simp [headScan, more, last]
          have fits : ¬ Overruns true left field (('.', []) :: cells) := by
            simp [Overruns, last]
          rw [refuses, eq_false fits]
          refine .refused fun first others mask found => ?_
          simp [extend, headScan, more, extend_eq_nil_iff, last] at found
      · by_cases sound : Sound field
        · simpa [headScan, Overruns, extend, more, sound, missing, extend_eq_nil_iff] using
            ih (left - 1) next
        · have refuses : headScan left field (('.', next) :: cells) = .error .noMatch := by
            simp [headScan, more, missing, sound]
          have fits : ¬ Overruns true left field (('.', next) :: cells) := by
            simp [Overruns, missing, sound]
          rw [refuses, eq_false fits]
          exact .refused (lost sound)
    · have refuses (next : CStr) (cells : List (Cell Char)) :
          headScan left field ((c, next) :: cells) = .error .noMatch := by
        rw [headScan, if_neg dot]
        split
        · exact if_neg fun sound => slash ⟨‹_›, sound⟩
        · rfl
      have fits : ¬ Overruns true left field ((c, next) :: cells) := by
        rintro ⟨more, ⟨_, rfl, sound, _⟩ | ⟨rfl, _⟩ | ⟨rfl, _⟩⟩
        · exact slash ⟨rfl, sound⟩
        · exact dot ⟨rfl, more⟩
        · exact dot ⟨rfl, more⟩
      simp only [extend, refuses, fits]
      exact .refused fun _ _ _ found => by cases found

/-! ## Matchers with a mask -/

/-- The matcher reads an address up to the slash and leaves the text behind it
to another one. -/
def Delegates (matcher judge : CStr → MatchType) : Prop :=
  ∀ {field : CStr} {cells : List (Cell Char)}, Digits field → Cut isdigit cells →
    matcher (text field cells) = match headScan 3 field cells with
      | .error answer => answer
      | .ok (mask, more) => judge (text mask more)

section

variable {judge : CStr → MatchType} (delegates : Delegates matcher judge)

include delegates

variable {mask : CStr}

theorem matcher_error (digits : Digits field) (cut : Cut isdigit cells) {answer : MatchType}
    (ends : headScan 3 field cells = .error answer) : matcher (text field cells) = answer := by
  rw [delegates digits cut, ends]

theorem matcher_ok (digits : Digits field) (cut : Cut isdigit cells)
    {mask : CStr × List (Cell Char)} (found : headScan 3 field cells = .ok mask) :
    matcher (text field cells) = judge (text mask.1 mask.2) := by
  rw [delegates digits cut, found]

theorem matcher_slash (head : LooseHead) (some : mask ≠ []) :
    matcher (head.word ++ '/' :: mask) = judge mask := by
  obtain ⟨field, cells, digits, cut, rfl⟩ := exists_cut isdigit mask
  rw [← head.text_slash]
  exact matcher_ok delegates head.a.areDigits (cut_slash digits cut) (headScan_word digits cut some)

theorem headScan_of_exactMatch (digits : Digits field) (cut : Cut isdigit cells)
    (accepted : matcher (text field cells) = .exactMatch) :
    ∃ mask, headScan 3 field cells = .ok mask := by
  cases found : headScan 3 field cells with
  | error answer =>
    rw [matcher_error delegates digits cut found] at accepted
    exact absurd accepted (headScan_ne_exactMatch found)
  | ok mask => exact ⟨mask, rfl⟩

theorem not_viable_of_lost (digits : Digits field) (cut : Cut isdigit cells)
    (lost : ∀ first more mask, headScan 3 (extend field cells first more).1
      (extend field cells first more).2 ≠ .ok mask) : ¬ Viable matcher (text field cells) := by
  rintro ⟨str, accepted⟩
  obtain ⟨first, more, digits', cut', rfl⟩ := exists_cut isdigit str
  obtain ⟨both, all⟩ := cut_extend digits cut digits' cut'
  rw [← text_extend] at accepted
  obtain ⟨mask, found⟩ := headScan_of_exactMatch delegates both all accepted
  exact lost first more mask found

theorem viable_of_reached (digits : Digits field) (cut : Cut isdigit cells) {next : CStr}
    {more : List (Cell Char)} {mask : CStr × List (Cell Char)} (nextDigits : Digits next)
    (moreCut : Cut isdigit more) (found : headScan 3 (extend field cells next more).1
      (extend field cells next more).2 = .ok mask)
    (accepted : judge (text mask.1 mask.2) = .exactMatch) : Viable matcher (text field cells) := by
  obtain ⟨both, all⟩ := cut_extend digits cut nextDigits moreCut
  refine ⟨text next more, ?_⟩
  rw [← text_extend, matcher_ok delegates both all found]
  exact accepted

theorem viable_slash_iff (head : LooseHead) (some : mask ≠ []) :
    Viable matcher (head.word ++ '/' :: mask) ↔ Viable judge mask := by
  have continued (more : CStr) :
      matcher (head.word ++ '/' :: mask ++ more) = judge (mask ++ more) := by
    rw [append_assoc, cons_append]
    exact matcher_slash delegates head (append_ne_nil_of_left_ne_nil some more)
  constructor
  · rintro ⟨more, accepted⟩
    exact ⟨more, (continued more).symm.trans accepted⟩
  · rintro ⟨more, accepted⟩
    exact ⟨more, (continued more).trans accepted⟩

/-- **A matcher with a mask foresees everything but an overrun of its address
and what is not foreseen of its mask.** -/
theorem foresees_mask_iff {sample : CStr} (some : sample ≠ [])
    (accepted : judge sample = .exactMatch) (word : CStr) :
    Foresees matcher word ↔ ¬ Overrun true word ∧
        ∀ (head : LooseHead) (mask : CStr), word = head.word ++ '/' :: mask →
          mask ≠ [] → Foresees judge mask := by
  obtain ⟨field, cells, digits, cut, equal, parts⟩ := exists_headScan word
  obtain ⟨first, others, digits', cut', rfl⟩ := exists_cut isdigit sample
  have cases := verdict digits' cut'
    (fun empty => some ((text_eq_nil_iff first others).mpr empty)) 3 field cells
  rw [equal, overrun_text digits cut]
  generalize Overruns true 3 field cells = overruns at cases ⊢
  cases found : headScan 3 field cells with
  | error answer =>
    have noSlash (head : LooseHead) (mask : CStr)
        (same : text field cells = head.word ++ '/' :: mask) (present : mask ≠ []) :
        False := by
      obtain ⟨first, more, digits', cut', rfl⟩ := exists_cut isdigit mask
      rw [← head.text_slash] at same
      obtain ⟨rfl, rfl⟩ := text_inj digits cut head.a.areDigits (cut_slash digits' cut') same
      rw [headScan_word digits' cut' present] at found
      cases found
    rw [and_iff_left fun head mask same present => (noSlash head mask same present).elim]
    rw [Foresees, matcher_error delegates digits cut found]
    rw [found] at cases
    cases cases with
    | refused lost =>
      have lost := not_viable_of_lost delegates digits cut lost
      exact iff_of_true (iff_of_false (not_not.mpr rfl) lost) not_false
    | overrun lost =>
      have lost := not_viable_of_lost delegates digits cut lost
      exact iff_of_false (fun agree => lost (agree.mp nofun)) (not_not.mpr trivial)
    | continued nextDigits moreCut reaches =>
      have viable := viable_of_reached delegates digits cut nextDigits moreCut reaches accepted
      exact iff_of_true (iff_of_true nofun viable) not_false
  | ok mask =>
    obtain ⟨present, head, same⟩ := parts mask.1 mask.2 found
    rw [found] at cases
    cases cases
    rw [equal] at same
    have result : matcher (text field cells) = judge (text mask.1 mask.2) := by
      rw [same]
      exact matcher_slash delegates head present
    have both : Foresees matcher (text field cells) ↔ Foresees judge (text mask.1 mask.2) := by
      rw [Foresees, result, same, viable_slash_iff delegates head present, Foresees]
    rw [both, and_iff_right not_false]
    constructor
    · intro foresees other following same' _
      rw [← (LooseHead.unique (same.symm.trans same')).2]
      exact foresees
    · intro all
      exact all head _ same present

end

/-! ## Prefixes and netmasks -/

variable (length : CStr)

/-- What `cmd_ipv4_prefix_match` does with the text behind the slash. -/
def lengthMatch : MatchType :=
  if !length.all isdigit then .noMatch
  else if 32 < digitsInt length then .noMatch
  else .exactMatch

theorem prefix_delegates : Delegates cmdIpv4PrefixMatch lengthMatch :=
  fun digits cut => masked_text digits cut lengthMatch

theorem netmask_delegates : Delegates cmdIpv4NetmaskMatch cmdIpv4Match :=
  fun digits cut => masked_text digits cut cmdIpv4Match

/-- So many digits that any number that ends with them is too large for a
`long`. -/
def nines : CStr :=
  List.replicate 19 '9'

/-- The length becomes -1 when enough digits follow. -/
theorem digitsInt_nines : digitsInt (length ++ nines) = -1 := by
  have value : digitsValue nines = 10 ^ 19 - 1 := by decide
  have large : 2 ^ 63 - 1 ≤ digitsValue (length ++ nines) := by
    rw [digitsValue_append, value]
    omega
  unfold digitsInt
  rw [Int.min_eq_right (by omega)]
  decide

theorem lengthMatch_eq_exactMatch_iff : lengthMatch length = .exactMatch ↔
      Digits length ∧ digitsInt length ≤ 32 :=
  length_accepted_iff length

theorem lengthMatch_ne_noMatch_iff :
    lengthMatch length ≠ .noMatch ↔ lengthMatch length = .exactMatch := by
  unfold lengthMatch
  split
  · exact iff_of_false (not_not.mpr rfl) nofun
  · split
    · exact iff_of_false (not_not.mpr rfl) nofun
    · exact iff_of_true nofun rfl

theorem viable_lengthMatch_iff : Viable lengthMatch length ↔ Digits length := by
  constructor
  · rintro ⟨more, accepted⟩
    have digits := ((lengthMatch_eq_exactMatch_iff _).mp accepted).1
    exact (forall_mem_append.mp digits).1
  · intro digits
    refine ⟨nines, (lengthMatch_eq_exactMatch_iff _).mpr ⟨?_, ?_⟩⟩
    · refine forall_mem_append.mpr ⟨digits, fun c member => ?_⟩
      cases eq_of_mem_replicate member
      rfl
    · rw [digitsInt_nines]
      decide

theorem foresees_lengthMatch_iff : Foresees lengthMatch length ↔
      ¬ (Digits length ∧ 32 < digitsInt length) := by
  rw [Foresees, lengthMatch_ne_noMatch_iff, lengthMatch_eq_exactMatch_iff, viable_lengthMatch_iff]
  constructor
  · rintro agree ⟨digits, large⟩
    exact (agree.mpr digits).2.not_gt large
  · intro small
    refine ⟨And.left, fun digits => ⟨digits, ?_⟩⟩
    exact Int.not_lt.mp fun large => small ⟨digits, large⟩

def LongPrefix (word : CStr) : Prop :=
  ∃ (head : LooseHead) (length : CStr), word = head.word ++ '/' :: length ∧
    isNumeral length ∧ 32 < digitsInt length

def LongNetmask (word : CStr) : Prop :=
  ∃ (head : LooseHead) (mask : CStr), word = head.word ++ '/' :: mask ∧ Overrun false mask

/-- **`cmd_ipv4_prefix_match` foresees everything but an overrun and a length
that is too large.** -/
theorem foresees_ipv4Prefix_iff (word : CStr) : Foresees cmdIpv4PrefixMatch word ↔
      ¬ Overrun true word ∧ ¬ LongPrefix word := by
  have accepted : lengthMatch zero = .exactMatch := by decide
  rw [foresees_mask_iff prefix_delegates (by decide) accepted]
  refine and_congr_right fun _ => ?_
  simp only [foresees_lengthMatch_iff]
  constructor
  · rintro all ⟨head, length, equal, numeral, large⟩
    exact all head length equal (ne_nil_of_isNumeral numeral) ⟨isdigit_of_isNumeral numeral, large⟩
  · rintro small head length equal present ⟨digits, large⟩
    exact small ⟨head, length, equal, isNumeral_of_forall present digits, large⟩

theorem ne_nil_of_overrun (overrun : Overrun slash word) : word ≠ [] := by
  rintro rfl
  obtain ⟨field, cells, _, _, same, overruns⟩ := overrun
  obtain ⟨rfl, rfl⟩ := (text_eq_nil_iff field cells).mp same.symm
  exact overruns

/-- **`cmd_ipv4_netmask_match` foresees everything but an overrun of the address
or of the mask.** -/
theorem foresees_ipv4Netmask_iff (word : CStr) : Foresees cmdIpv4NetmaskMatch word ↔
      ¬ Overrun true word ∧ ¬ LongNetmask word := by
  have accepted : cmdIpv4Match "0.0.0.0" = .exactMatch := by decide
  rw [foresees_mask_iff netmask_delegates (by decide) accepted]
  refine and_congr_right fun _ => ?_
  simp only [foresees_ipv4_iff]
  constructor
  · rintro all ⟨head, mask, equal, overrun⟩
    exact all head mask equal (ne_nil_of_overrun overrun) overrun
  · rintro fits head mask equal _ overrun
    exact fits ⟨head, mask, equal, overrun⟩

end OpsCli.Command.Ipv4Viability
