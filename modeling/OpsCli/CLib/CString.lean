import Mathlib.Algebra.Order.Ring.Int
import Mathlib.Data.Char
import Mathlib.Data.List.TakeWhile

/-!
# C strings and the string functions of the C library

A C string is the list of its characters before the terminating NUL.  The
functions below follow the ISO C description of the library functions of the
same name, on a machine with a 64-bit `unsigned long`.  A result that in C is
a pointer into the argument is the remaining suffix of the list.
-/

namespace OpsCli.CLib.CString

open List

/-- The characters of a C string before its terminator. -/
abbrev CStr := List Char

instance : Coe String CStr :=
  ⟨String.toList⟩

/-! ## Character classes -/

/-- `isspace` in the C locale. -/
def isspace (c : Char) : Bool :=
  c = ' ' || c = '\t' || c = '\n' || c = '\x0b' || c = '\x0c' || c = '\r'

/-- `isdigit` in the C locale. -/
def isdigit (c : Char) : Bool :=
  '0' ≤ c && c ≤ '9'

variable {c : Char} {str second first : CStr}

theorem isspace_eq_false_of_isdigit (digit : isdigit c) : isspace c = false := by
  simp only [isdigit, Bool.and_eq_true, decide_eq_true_eq] at digit
  rcases digit with ⟨lower, _⟩
  by_contra space
  simp only [isspace, Bool.not_eq_false, Bool.or_eq_true, decide_eq_true_eq] at space
  rcases space with ((((rfl | rfl) | rfl) | rfl) | rfl) | rfl <;> exact absurd lower (by decide)

theorem ne_of_isdigit {d : Char} (digit : isdigit c) (other : isdigit d = false) :
    c ≠ d := by
  rintro rfl
  rw [digit] at other
  cases other

/-! ## Searching and splitting -/

/-- `strchr`: the text before the first `c` and the text after it. -/
def strchr : CStr → Char → Option (CStr × CStr)
  | [], _ => none
  | head :: tail, c =>
    if head = c then some ([], tail)
    else (strchr tail c).map fun (before, after) => (head :: before, after)

/-- `strcmp`: the order of the first characters that differ. -/
def strcmp : CStr → CStr → Int
  | [], [] => 0
  | [], _ :: _ => -1
  | _ :: _, [] => 1
  | c :: first, d :: second =>
    if c < d then -1 else if d < c then 1 else strcmp first second

/-- The tokens that successive calls of `strtok` with one delimiter yield. -/
def strtok (str : CStr) (delimiter : Char) : List CStr :=
  (str.splitOn delimiter).filter fun piece => !piece.isEmpty

theorem strcmp_nil_le (str : CStr) : strcmp [] str ≤ 0 := by
  cases str with
  | nil => exact Int.le_refl 0
  | cons c rest => exact show (-1 : Int) ≤ 0 by decide

theorem not_strcmp_cons_nil_le (c : Char) (rest : CStr) : ¬ strcmp (c :: rest) [] ≤ 0 :=
  show ¬ (1 : Int) ≤ 0 by decide

theorem strcmp_cons_le_iff {d : Char} :
    strcmp (c :: first) (d :: second) ≤ 0 ↔ c < d ∨ c = d ∧ strcmp first second ≤ 0 := by
  rw [strcmp]
  rcases lt_trichotomy c d with less | rfl | greater
  · rw [if_pos less]
    exact iff_of_true (by decide) (.inl less)
  · rw [if_neg (lt_irrefl c), if_neg (lt_irrefl c)]
    simp
  · rw [if_neg greater.not_gt, if_pos greater]
    refine iff_of_false (by decide) ?_
    rintro (less | ⟨rfl, _⟩)
    · exact lt_asymm less greater
    · exact lt_irrefl c greater

theorem strcmp_total (first second : CStr) : strcmp first second ≤ 0 ∨ strcmp second first ≤ 0 := by
  induction first generalizing second with
  | nil => exact .inl (strcmp_nil_le second)
  | cons c first ih =>
    cases second with
    | nil => exact .inr (strcmp_nil_le _)
    | cons d second =>
      rw [strcmp_cons_le_iff, strcmp_cons_le_iff]
      rcases lt_trichotomy c d with less | rfl | greater
      · exact .inl (.inl less)
      · exact (ih second).imp (fun le => .inr ⟨rfl, le⟩) fun le => .inr ⟨rfl, le⟩
      · exact .inr (.inl greater)

theorem strcmp_trans {third : CStr} (before : strcmp first second ≤ 0)
    (after : strcmp second third ≤ 0) : strcmp first third ≤ 0 := by
  induction first generalizing second third with
  | nil => exact strcmp_nil_le third
  | cons c first ih =>
    cases second with
    | nil => exact absurd before (not_strcmp_cons_nil_le c first)
    | cons d second =>
      cases third with
      | nil => exact absurd after (not_strcmp_cons_nil_le d second)
      | cons e third =>
        rw [strcmp_cons_le_iff] at before after ⊢
        rcases before with less | ⟨rfl, before⟩
        · rcases after with less' | ⟨rfl, _⟩
          · exact .inl (less.trans less')
          · exact .inl less
        · rcases after with less' | ⟨rfl, after⟩
          · exact .inl less'
          · exact .inr ⟨rfl, ih before after⟩

theorem strchr_append {before : CStr} (absent : c ∉ before) (after : CStr) :
    strchr (before ++ c :: after) c = some (before, after) := by
  induction before with
  | nil => simp [strchr]
  | cons head tail ih =>
    rw [mem_cons, not_or] at absent
    simp [strchr, Ne.symm absent.1, ih absent.2]

theorem strchr_eq_none (absent : c ∉ str) : strchr str c = none := by
  induction str with
  | nil => rfl
  | cons head tail ih =>
    rw [mem_cons, not_or] at absent
    simp [strchr, Ne.symm absent.1, ih absent.2]

/-! ## Decimal numerals -/

def digitValue (c : Char) : Nat :=
  c.toNat - '0'.toNat

def digitsValue (digits : CStr) : Nat :=
  digits.foldl (fun value c => 10 * value + digitValue c) 0

def isNumeral (str : CStr) : Bool :=
  !str.isEmpty && str.all isdigit

/-- The largest `unsigned long`. -/
def ulongMax : Nat :=
  2 ^ 64 - 1

/-- A number that is too large for an `unsigned long` is cut off. -/
def saturate (value : Nat) : Nat :=
  min value ulongMax

/-- Skip one sign; the flag says that it was a minus sign. -/
def skipSign : CStr → Bool × CStr
  | '-' :: rest => (true, rest)
  | '+' :: rest => (false, rest)
  | body => (false, body)

/-- The `unsigned long` that stands for a possibly negated numeral. -/
def toUlong (negative : Bool) (value : Nat) : Nat :=
  if ulongMax < value then ulongMax
  else if negative then (2 ^ 64 - value) % 2 ^ 64
  else value

/--
`strtoul (str, &endptr, 10)`: the value and the text at `endptr`.

White space and one sign are skipped.  Without a digit the value is zero and
`endptr` is `str` itself; a value that is too large is `ULONG_MAX`; a minus
sign negates the value in `unsigned long`.
-/
def strtoul (str : CStr) : Nat × CStr :=
  match skipSign (str.dropWhile isspace) with
  | (negative, body) =>
    if (body.takeWhile isdigit).isEmpty then
      (0, str)
    else
      (toUlong negative (digitsValue (body.takeWhile isdigit)), body.dropWhile isdigit)

/-- The `int` that a conversion from `strtol` makes of a string of
decimal digits: the value is cut off at `LONG_MAX` and then reduced to 32
bits. -/
def digitsInt (digits : CStr) : Int :=
  (min (digitsValue digits) (2 ^ 63 - 1) : Int).bmod (2 ^ 32)

/-- `atoi`: white space and one sign are skipped, the digits behind them are
cut off at the limits of a `long` and reduced to 32 bits. -/
def atoi (str : CStr) : Int :=
  match skipSign (str.dropWhile isspace) with
  | (negative, body) =>
    let value := digitsValue (body.takeWhile isdigit)
    if negative then (-(min value (2 ^ 63) : Int)).bmod (2 ^ 32)
    else digitsInt (body.takeWhile isdigit)

/-- The number of `sscanf` with `%d`, in an unsigned variable. -/
def scanned (str : CStr) : Int :=
  atoi str % 2 ^ 32

/-- `printf ("%lu")`. -/
def decimal (value : Nat) : CStr :=
  Nat.toDigits 10 value

/-- The four octets of an address. -/
def dotted (ip : Nat) : CStr :=
  decimal (ip / 2 ^ 24 % 256) ++ '.' :: (decimal (ip / 2 ^ 16 % 256) ++
    '.' :: (decimal (ip / 2 ^ 8 % 256) ++ '.' :: decimal (ip % 256)))

theorem digitsValue_decimal (value : Nat) : digitsValue (decimal value) = value :=
  Nat.ofDigitChars_toDigits (by decide) (by decide)

theorem length_decimal_le {value length : Nat} (nonzero : 0 < length) :
    (decimal value).length ≤ length ↔ value < 10 ^ length :=
  Nat.length_toDigits_le_iff (by decide) nonzero

theorem isdigit_of_isNumeral (numeral : isNumeral str) : ∀ c ∈ str, isdigit c := by
  simp only [isNumeral, Bool.and_eq_true, all_eq_true] at numeral
  exact numeral.2

theorem not_mem_of_isNumeral (numeral : isNumeral str) (other : isdigit c = false) :
    c ∉ str := by
  intro member
  rw [isdigit_of_isNumeral numeral c member] at other
  cases other

theorem ne_nil_of_isNumeral (numeral : isNumeral str) : str ≠ [] := by
  rintro rfl
  cases numeral

theorem isNumeral_of_forall (nonempty : str ≠ []) (digits : ∀ c ∈ str, isdigit c) :
    isNumeral str := by
  simpa [isNumeral, nonempty] using digits

theorem isNumeral_decimal (value : Nat) : isNumeral (decimal value) := by
  refine isNumeral_of_forall ?_ ?_
  · exact ne_nil_of_length_pos Nat.length_toDigits_pos
  · intro c member
    have digit := Nat.isDigit_of_mem_toDigits (by decide) (by decide) member
    simp only [Char.isDigit, Bool.and_eq_true, decide_eq_true_eq] at digit
    simp only [isdigit, Bool.and_eq_true, decide_eq_true_eq]
    exact digit

theorem digitValue_le (digit : isdigit c) : digitValue c ≤ 9 := by
  simp only [isdigit, Bool.and_eq_true, decide_eq_true_eq] at digit
  have upper : c.toNat ≤ '9'.toNat := digit.2
  change c.toNat - 48 ≤ 9
  change c.toNat ≤ 57 at upper
  omega

theorem digitsValue_lt {digits : CStr} (areDigits : ∀ c ∈ digits, isdigit c) :
    digitsValue digits < 10 ^ digits.length := by
  have bound (init : Nat) : digits.foldl (fun value c => 10 * value + digitValue c) init <
        (init + 1) * 10 ^ digits.length := by
    induction digits generalizing init with
    | nil => simp
    | cons head tail ih =>
      have small := digitValue_le (areDigits head (by simp))
      have tailBound := ih (fun c member => areDigits c (by simp [member]))
          (10 * init + digitValue head)
      refine Nat.lt_of_lt_of_le tailBound ?_
      rw [length_cons, Nat.pow_succ', ← Nat.mul_assoc]
      exact Nat.mul_le_mul_right _ (by omega)
  simpa [digitsValue] using bound 0

theorem skipSign_of_isdigit {head : Char} (digit : isdigit head) (tail : CStr) :
    skipSign (head :: tail) = (false, head :: tail) := by
  have notMinus : head ≠ '-' := ne_of_isdigit digit (by decide)
  have notPlus : head ≠ '+' := ne_of_isdigit digit (by decide)
  unfold skipSign
  split
  · exact absurd (cons.inj ‹_›).1 notMinus
  · exact absurd (cons.inj ‹_›).1 notPlus
  · rfl

theorem strtoul_numeral (numeral : isNumeral str) :
    strtoul str = (saturate (digitsValue str), []) := by
  cases str with
  | nil => simp [isNumeral] at numeral
  | cons head tail =>
    simp only [isNumeral, isEmpty_cons, Bool.not_false, Bool.true_and] at numeral
    have allDigits : ∀ c ∈ head :: tail, isdigit c := all_eq_true.mp numeral
    have headDigit : isdigit head := allDigits head (by simp)
    have takeAll : (head :: tail).takeWhile isdigit = head :: tail :=
      takeWhile_eq_self_iff.mpr allDigits
    have dropAll : (head :: tail).dropWhile isdigit = [] := dropWhile_eq_nil_iff.mpr allDigits
    have noSpace : (head :: tail).dropWhile isspace = head :: tail := by
      simp [isspace_eq_false_of_isdigit headDigit]
    simp only [strtoul, noSpace, skipSign_of_isdigit headDigit, takeAll, dropAll, isEmpty_cons,
      toUlong, saturate, Bool.false_eq_true,
      if_false]
    congr 1
    split <;> omega

end OpsCli.CLib.CString
