import OpsCli.CLib.Cells
import OpsCli.Command.Address

/-!
# Dotted addresses as lists of cells

A text is cut at every character that is not a digit.  On the cells the loops of
the address matchers are plain recursions.
-/

namespace OpsCli.Command.Ipv4Scan

open CLib CString Cells Token Address List

/-! ## Fields -/

abbrev Digits (field : CStr) : Prop :=
  Filled isdigit field

def Sound (field : CStr) : Prop :=
  field.length ≤ 3 ∧ digitsValue field ≤ 255

instance (field : CStr) : Decidable (Sound field) :=
  inferInstanceAs (Decidable (_ ∧ _))

variable {field : CStr} {cells : List (Cell Char)} {left : Nat}

theorem octetValid_iff (digits : Digits field) : octetValid field ↔ Sound field := by
  unfold octetValid Sound
  rw [Bool.and_eq_true, decide_eq_true_eq, decide_eq_true_eq]
  refine and_congr_right fun short => ?_
  have bound := digitsValue_lt digits
  have power : 10 ^ field.length ≤ 10 ^ 3 := Nat.pow_le_pow_right (by decide) short
  unfold digitsInt
  rw [Int.bmod_eq_of_le (by omega) (by omega)]
  omega

theorem if_octetValid {α : Type} (digits : Digits field) (refused taken : α) :
    (if !octetValid field then refused else taken) = if Sound field then taken else refused := by
  by_cases sound : Sound field
  · rw [if_pos sound, (octetValid_iff digits).mpr sound]
    rfl
  · have invalid : octetValid field = false := Bool.eq_false_iff.mpr fun valid =>
        sound ((octetValid_iff digits).mp valid)
    rw [if_neg sound, invalid]
    rfl

/-! ## Numbers -/

theorem scanOctet_text (slash : Bool) (dots : Nat) (octet : CStr) (digits : Digits field)
    (rest : CStr) :
    scanOctet slash dots octet (field ++ rest) = scanOctet slash dots (octet ++ field) rest := by
  induction field generalizing octet with
  | nil => rw [nil_append, append_nil]
  | cons c field ih =>
    obtain ⟨digit, others⟩ := forall_mem_cons.mp digits
    have noSlash : ¬ (slash && decide (c = '/')) := by
      rw [decide_eq_false (ne_of_isdigit digit (by decide)), Bool.and_false]
      exact Bool.false_ne_true
    rw [cons_append, scanOctet, if_neg noSlash, if_neg (ne_of_isdigit digit (by decide)),
      if_pos digit,
      ih (octet ++ [c]) others, append_assoc]
    rfl

section

variable (digits : Digits field) (slash : Bool) (dots : Nat)

include digits

theorem scanOctet_end : scanOctet slash dots [] field = .ok (field, [], dots) := by
  have scan := scanOctet_text slash dots [] digits []
  rw [append_nil] at scan
  rw [scan, scanOctet, nil_append]

theorem scanOctet_slash (rest : CStr) : scanOctet true dots [] (field ++ '/' :: rest) =
      .ok (field, '/' :: rest, dots) := by
  rw [scanOctet_text true dots [] digits, scanOctet, if_pos (by decide), nil_append]

theorem scanOctet_dot (rest : CStr) : scanOctet slash dots [] (field ++ '.' :: rest) =
      if 3 ≤ dots then .error .noMatch
      else if rest.head? = some '.' || slash && rest.head? = some '/' then
        .error .noMatch
      else if rest = [] then .error .partlyMatch
      else .ok (field, '.' :: rest, dots + 1) := by
  rw [scanOctet_text slash dots [] digits, scanOctet, if_neg (by simp), if_pos rfl, nil_append]

theorem scanOctet_foreign {c : Char} (notDigit : isdigit c = false) (notDot : c ≠ '.')
    (notSlash : slash → c ≠ '/') (rest : CStr) :
    scanOctet slash dots [] (field ++ c :: rest) = .error .noMatch := by
  have noSlash : ¬ (slash && decide (c = '/')) := by
    rw [Bool.and_eq_true, decide_eq_true_eq]
    rintro ⟨wanted, same⟩
    exact notSlash wanted same
  rw [scanOctet_text slash dots [] digits, scanOctet, if_neg noSlash, if_neg notDot, notDigit]
  rfl

end

variable {dots fuel : Nat} {answer : MatchType}

/-- Behind a dot another number begins.  Where it has no digits the text ends,
or the scan of the dot or that of the number refuses it. -/
theorem scanOctet_dot_text {next : CStr} (slash : Bool) (digits : Digits field)
    (nextDigits : Digits next) (cut : Cut isdigit cells) (few : ¬ 3 ≤ dots) :
    (scanOctet slash dots [] (field ++ '.' :: text next cells) =
      if next = [] then .error (if cells = [] then .partlyMatch else .noMatch)
      else .ok (field, '.' :: text next cells, dots + 1)) ∨
    next = [] ∧ cells ≠ [] ∧
      scanOctet slash dots [] (field ++ '.' :: text next cells) =
        .ok (field, '.' :: text next cells, dots + 1) ∧
      scanOctet slash (dots + 1) [] (text next cells) = .error .noMatch := by
  rw [scanOctet_dot digits slash, if_neg few]
  by_cases missing : next = []
  · subst missing
    cases cells with
    | nil => cases slash <;> exact .inl rfl
    | cons cell cells =>
      obtain ⟨c, next⟩ := cell
      rw [text_cons, nil_append, head?_cons, if_pos rfl, if_neg (cons_ne_nil _ _)]
      split
      · exact .inl rfl
      · rename_i other
        simp only [Option.some.injEq, Bool.or_eq_true, Bool.and_eq_true, decide_eq_true_eq,
          not_or, not_and] at other
        rw [if_neg (cons_ne_nil _ _)]
        exact .inr ⟨rfl, cons_ne_nil _ _, rfl, scanOctet_foreign filled_nil slash _
          (cut _ mem_cons_self).1 other.1 other.2 _⟩
  · have other {c : Char} (notDigit : isdigit c = false) : (text next cells).head? ≠ some c :=
      fun starts => missing (head_text nextDigits notDigit starts)
    have behind : text next cells ≠ [] := fun empty =>
      missing ((text_eq_nil_iff next cells).mp empty).1
    rw [decide_eq_false (other (by decide)), decide_eq_false (other (by decide)), Bool.and_false,
      Bool.or_self, if_neg Bool.false_ne_true, if_neg behind, if_neg missing]
    exact .inl rfl

/-! ## Addresses -/

/-- `cmd_ipv4_match` on cells, with so many dots left. -/
def ipv4Scan : Nat → CStr → List (Cell Char) → MatchType
  | left, field, [] =>
    if Sound field then
      if left = 0 then .exactMatch else .partlyMatch
    else .noMatch
  | 0, _, _ :: _ => .noMatch
  | left + 1, field, (c, next) :: cells =>
    if c = '.' then
      if next = [] then if cells = [] then .partlyMatch else .noMatch
      else if Sound field then ipv4Scan left next cells
      else .noMatch
    else .noMatch

theorem ipv4Loop_text (digits : Digits field) (cut : Cut isdigit cells)
    (enough : cells.length < fuel) (total : dots + left = 3) :
    ipv4Loop fuel dots dots (text field cells) = ipv4Scan left field cells := by
  induction cells generalizing field fuel dots left with
  | nil =>
    cases fuel with
    | zero => cases enough
    | succ fuel =>
      rw [text_nil, ipv4Loop, scanOctet_end digits, ipv4Scan]
      dsimp only
      rw [if_octetValid digits]
      by_cases last : left = 0
      · rw [if_neg (show ¬ dots + 1 < 4 by omega), if_pos last]
      · rw [if_pos (show dots + 1 < 4 by omega), if_neg last]
  | cons cell cells ih =>
    obtain ⟨c, next⟩ := cell
    obtain ⟨⟨notDigit, nextDigits⟩, later⟩ := forall_mem_cons.mp cut
    cases fuel with
    | zero => cases enough
    | succ fuel =>
      rw [text_cons, ipv4Loop]
      by_cases dot : c = '.'
      · subst dot
        cases left with
        | zero =>
          rw [scanOctet_dot digits false, if_pos (show 3 ≤ dots by omega)]
          rfl
        | succ left =>
          rw [ipv4Scan, if_pos rfl]
          rcases scanOctet_dot_text false digits nextDigits later (show ¬ 3 ≤ dots by omega) with
            scan | ⟨rfl, last, scan, refused⟩
          · rw [scan]
            by_cases missing : next = []
            · rw [if_pos missing, if_pos missing]
            · rw [if_neg missing, if_neg missing]
              dsimp only
              rw [if_octetValid digits, ih nextDigits later (Nat.lt_of_succ_lt_succ enough)
                (show dots + 1 + left = 3 by omega)]
          · have ends : ipv4Loop fuel (dots + 1) (dots + 1) (text [] cells) = .noMatch := by
              cases fuel with
              | zero => rfl
              | succ fuel => rw [ipv4Loop, refused]
            rw [scan, if_pos rfl, if_neg last]
            dsimp only
            rw [if_octetValid digits, ends, ite_self]
      · rw [scanOctet_foreign digits false dots notDigit dot (by rintro ⟨⟩)]
        cases left with
        | zero => rfl
        | succ left => exact (if_neg dot).symm

/-! ## Prefixes -/

/-- The address before the slash on cells, with so many dots left: the cells of
the mask or the answer. -/
def headScan : Nat → CStr → List (Cell Char) → Except MatchType (CStr × List (Cell Char))
  | _, field, [] =>
    .error (if Sound field then .partlyMatch else .noMatch)
  | left, field, (c, next) :: cells =>
    if c = '/' then
      if Sound field then
        if left = 0 then
          if next = [] ∧ cells = [] then .error .partlyMatch
          else .ok (next, cells)
        else headScan left next cells
      else .error .noMatch
    else if c = '.' ∧ left ≠ 0 then
      if next = [] then
        .error (if cells = [] then .partlyMatch else .noMatch)
      else if Sound field then headScan (left - 1) next cells
      else .error .noMatch
    else .error .noMatch

theorem ipv4PrefixLoop_text (digits : Digits field) (cut : Cut isdigit cells)
    (enough : cells.length < fuel) (total : dots + left = 3) :
    ipv4PrefixLoop fuel dots (text field cells) =
      (headScan left field cells).map fun mask => text mask.1 mask.2 := by
  induction cells generalizing field fuel dots left with
  | nil =>
    cases fuel with
    | zero => cases enough
    | succ fuel =>
      rw [text_nil, ipv4PrefixLoop, scanOctet_end digits, headScan]
      dsimp only
      rw [if_octetValid digits]
      split
      · rfl
      · rfl
  | cons cell cells ih =>
    obtain ⟨c, next⟩ := cell
    obtain ⟨⟨notDigit, nextDigits⟩, later⟩ := forall_mem_cons.mp cut
    cases fuel with
    | zero => cases enough
    | succ fuel =>
      have shorter : cells.length < fuel := Nat.lt_of_succ_lt_succ enough
      rw [text_cons, ipv4PrefixLoop, headScan]
      by_cases slash : c = '/'
      · subst slash
        rw [scanOctet_slash digits, if_pos rfl]
        dsimp only
        rw [if_octetValid digits]
        by_cases sound : Sound field
        · rw [if_pos sound, if_pos sound]
          by_cases last : left = 0
          · have three : dots = 3 := by omega
            rw [three, last, if_pos (show (decide (3 = 3) &&
              decide ('/' = '/')) from rfl), if_pos rfl]
            simp only [text_eq_nil_iff]
            split
            · rfl
            · rfl
          · have more : ¬ (decide (dots = 3) && decide ('/' = '/')) =
                true := by
              rw [decide_eq_false (show ¬ dots = 3 by omega)]
              exact Bool.false_ne_true
            rw [if_neg more, if_neg last]
            exact ih nextDigits later shorter total
        · rw [if_neg sound, if_neg sound]
          rfl
      · rw [if_neg slash]
        by_cases dot : c = '.' ∧ left ≠ 0
        · rw [if_pos dot]
          obtain ⟨rfl, more⟩ := dot
          have few : ¬ 3 ≤ dots := by omega
          have goesOn : ¬ (decide (dots + 1 = 3) && decide ('.' = '/')) := by simp
          rcases scanOctet_dot_text true digits nextDigits later few with
            scan | ⟨rfl, last, scan, refused⟩
          · rw [scan]
            by_cases missing : next = []
            · rw [if_pos missing, if_pos missing]
              rfl
            · rw [if_neg missing, if_neg missing]
              dsimp only
              rw [if_octetValid digits, if_neg goesOn, ih nextDigits later shorter
                (show dots + 1 + (left - 1) = 3 by omega)]
              split
              · rfl
              · rfl
          · have ends : ipv4PrefixLoop fuel (dots + 1) (text [] cells) = .error .noMatch := by
              cases fuel with
              | zero => rfl
              | succ fuel => rw [ipv4PrefixLoop, refused]
            rw [scan, if_pos rfl, if_neg last]
            dsimp only
            rw [if_octetValid digits, if_neg goesOn, ends, ite_self]
            rfl
        · rw [if_neg dot]
          by_cases same : c = '.'
          · subst same
            have none : left = 0 := by
              by_contra some
              exact dot ⟨rfl, some⟩
            rw [scanOctet_dot digits true, if_pos (show 3 ≤ dots by omega)]
            rfl
          · rw [scanOctet_foreign digits true dots notDigit same fun _ => slash]
            rfl

theorem headScan_answer (ends : headScan left field cells = .error answer) :
    answer = .noMatch ∨ answer = .partlyMatch := by
  have reason {c : Prop} [Decidable c] (same : .error (if c then .partlyMatch else .noMatch) =
      (.error answer : Except MatchType (CStr × List (Cell Char)))) :
      answer = .noMatch ∨ answer = .partlyMatch := by
    cases same
    split
    · exact .inr rfl
    · exact .inl rfl
  fun_induction headScan left field cells with
  | case1 | case6 => exact reason ends
  | case2 =>
    cases ends
    exact .inr rfl
  | case3 => cases ends
  | case4 _ _ _ _ _ _ ih | case7 _ _ _ _ _ _ _ _ _ ih => exact ih ends
  | case5 | case8 | case9 =>
    cases ends
    exact .inl rfl

theorem headScan_ne_exactMatch (ends : headScan left field cells = .error answer) :
    answer ≠ .exactMatch := by
  rcases headScan_answer ends with rfl | rfl
  · exact nofun
  · exact nofun

/-! ## The matchers -/

/-- A matcher that reads an address and leaves the text behind the slash to
another one. -/
def masked (judge : CStr → MatchType) (str : CStr) : MatchType :=
  match ipv4PrefixLoop (str.length + 1) 0 str with
  | .error answer => answer
  | .ok mask => judge mask

section

variable (digits : Digits field) (cut : Cut isdigit cells)

include digits cut

theorem cmdIpv4Match_text : cmdIpv4Match (text field cells) = ipv4Scan 3 field cells :=
  ipv4Loop_text digits cut (length_cells_lt field cells) rfl

theorem masked_text (judge : CStr → MatchType) : masked judge (text field cells) =
      match headScan 3 field cells with
      | .error answer => answer
      | .ok (mask, more) => judge (text mask more) := by
  unfold masked
  rw [ipv4PrefixLoop_text digits cut (length_cells_lt field cells) (show 0 + 3 = 3 from rfl)]
  cases headScan 3 field cells with
  | error answer => rfl
  | ok mask => rfl

end

end OpsCli.Command.Ipv4Scan
