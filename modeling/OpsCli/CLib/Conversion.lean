import OpsCli.CLib.CString

/-!
# The texts that `strtoul` reads completely

Besides the empty text these are the numerals with white space and a sign
before them.  `strtoll` and `atoi` read the same texts, but cut off a number
below the limits of a `long` instead of negating it modulo `2^64`.
-/

namespace OpsCli.CLib.Conversion

open CString List

inductive Sign where
  | absent
  | plus
  | minus
deriving DecidableEq, Repr

def Sign.text : Sign → CStr
  | .absent => []
  | .plus => ['+']
  | .minus => ['-']

structure Signed where
  blanks : CStr
  sign : Sign
  digits : CStr
  spaces : ∀ c ∈ blanks, isspace c
  numeral : isNumeral digits

namespace Signed

variable (signed : Signed)

def text : CStr :=
  signed.blanks ++ (signed.sign.text ++ signed.digits)

/-- The `unsigned long` that the text stands for. -/
def value : Nat :=
  toUlong (signed.sign = .minus) (digitsValue signed.digits)

end Signed

variable {digits str : CStr}

theorem skipSign_text (sign : Sign) (numeral : isNumeral digits) :
    skipSign (sign.text ++ digits) = (decide (sign = .minus), digits) := by
  cases sign with
  | plus => rfl
  | minus => rfl
  | absent =>
    cases digits with
    | nil => cases numeral
    | cons c rest =>
      exact skipSign_of_isdigit (isdigit_of_isNumeral numeral c mem_cons_self) rest

theorem dropWhile_isspace_signed (sign : Sign) (numeral : isNumeral digits) :
    (sign.text ++ digits).dropWhile isspace = sign.text ++ digits := by
  cases sign with
  | plus | minus => exact dropWhile_cons_of_neg (by decide)
  | absent =>
    cases digits with
    | nil => rfl
    | cons c rest =>
      have digit := isdigit_of_isNumeral numeral c mem_cons_self
      apply dropWhile_cons_of_neg
      rw [isspace_eq_false_of_isdigit digit]
      exact Bool.false_ne_true

theorem dropWhile_isspace_text (signed : Signed) :
    signed.text.dropWhile isspace = signed.sign.text ++ signed.digits := by
  unfold Signed.text
  rw [dropWhile_append_of_pos signed.spaces]
  exact dropWhile_isspace_signed signed.sign signed.numeral

theorem strtoul_signed (signed : Signed) : strtoul signed.text = (signed.value, []) := by
  have digits := isdigit_of_isNumeral signed.numeral
  have all : signed.digits.takeWhile isdigit = signed.digits := takeWhile_eq_self_iff.mpr digits
  have rest : signed.digits.dropWhile isdigit = [] := dropWhile_eq_nil_iff.mpr digits
  have some : signed.digits.isEmpty = false := by
    rw [isEmpty_eq_false_iff]
    exact ne_nil_of_isNumeral signed.numeral
  unfold strtoul
  rw [dropWhile_isspace_text, skipSign_text signed.sign signed.numeral]
  dsimp only
  rw [all, rest, some]
  rfl

theorem exists_sign (body : CStr) : ∃ sign : Sign, body = sign.text ++ (skipSign body).2 := by
  unfold skipSign
  split
  · exact ⟨.minus, rfl⟩
  · exact ⟨.plus, rfl⟩
  · exact ⟨.absent, rfl⟩

theorem exists_signed (complete : (strtoul str).2 = []) :
    str = [] ∨ ∃ signed : Signed, str = signed.text := by
  unfold strtoul at complete
  obtain ⟨sign, body⟩ := exists_sign (str.dropWhile isspace)
  generalize skipSign (str.dropWhile isspace) = skipped at complete body
  obtain ⟨negative, digits⟩ := skipped
  dsimp only at complete body
  split at complete
  · exact .inl complete
  · rename_i some
    dsimp only at complete
    have split : digits.takeWhile isdigit = digits := by
      have whole := takeWhile_append_dropWhile (p := isdigit) (l := digits)
      rw [complete, append_nil] at whole
      exact whole
    rw [split, List.isEmpty_iff] at some
    refine .inr ⟨⟨str.takeWhile isspace, sign, digits, ?_, ?_⟩, ?_⟩
    · exact fun c member => mem_takeWhile_imp member
    · exact isNumeral_of_forall some (takeWhile_eq_self_iff.mp split)
    · unfold Signed.text
      rw [← body]
      exact takeWhile_append_dropWhile.symm

/-! ## Signed conversions -/

/-- `strtoll (str, NULL, 10)`: white space and one sign are skipped, and the
digits behind them are cut off at the limits of a `long long`. -/
def strtoll (str : CStr) : Int :=
  match skipSign (str.dropWhile isspace) with
  | (negative, body) =>
    let value := digitsValue (body.takeWhile isdigit)
    if negative then -(min value (2 ^ 63) : Int)
    else (min value (2 ^ 63 - 1) : Int)

theorem atoi_eq_bmod (str : CStr) : atoi str = (strtoll str).bmod (2 ^ 32) := by
  unfold atoi strtoll digitsInt
  obtain ⟨negative, body⟩ := skipSign (str.dropWhile isspace)
  cases negative with
  | true => rfl
  | false => rfl

theorem strtoll_signed (signed : Signed) : strtoll signed.text = if signed.sign = .minus then
        -(min (digitsValue signed.digits) (2 ^ 63) : Int)
      else (min (digitsValue signed.digits) (2 ^ 63 - 1) : Int) := by
  have digits := isdigit_of_isNumeral signed.numeral
  have all : signed.digits.takeWhile isdigit = signed.digits := takeWhile_eq_self_iff.mpr digits
  unfold strtoll
  rw [dropWhile_isspace_text, skipSign_text signed.sign signed.numeral]
  dsimp only
  rw [all]
  simp

theorem atoi_append {rest : CStr} (numeral : isNumeral digits)
    (small : digitsValue digits < 2 ^ 31) (stops : rest.takeWhile isdigit = []) :
    atoi (digits ++ rest) = digitsValue digits := by
  have areDigits := isdigit_of_isNumeral numeral
  have cut : (digits ++ rest).takeWhile isdigit = digits := by
    rw [takeWhile_append_of_pos areDigits, stops, append_nil]
  obtain ⟨c, more, rfl⟩ := exists_cons_of_ne_nil (ne_nil_of_isNumeral numeral)
  have digit := areDigits c mem_cons_self
  rw [cons_append] at cut ⊢
  rw [atoi_eq_bmod, strtoll, dropWhile_cons, isspace_eq_false_of_isdigit digit,
    if_neg Bool.false_ne_true, skipSign_of_isdigit digit]
  dsimp only
  rw [cut, if_neg Bool.false_ne_true, Int.min_eq_left (by omega)]
  exact Int.bmod_eq_of_le (by omega) (by omega)

theorem atoi_numeral (numeral : isNumeral digits) (small : digitsValue digits < 2 ^ 31) :
    atoi digits = digitsValue digits := by
  have read := atoi_append numeral small takeWhile_nil
  rw [append_nil] at read
  exact read

/-- What is read as a small `unsigned long` is the same number as a
`long long`, or else the smallest one. -/
theorem strtoll_eq_or (complete : (strtoul str).2 = []) (small : (strtoul str).1 < 2 ^ 63) :
    strtoll str = (strtoul str).1 ∨ strtoll str = -2 ^ 63 := by
  rcases exists_signed complete with rfl | ⟨signed, rfl⟩
  · exact .inl rfl
  · rw [strtoul_signed] at small ⊢
    rw [strtoll_signed]
    unfold Signed.value toUlong ulongMax at small ⊢
    by_cases minus : signed.sign = .minus
    · simp only [minus, decide_true, if_true] at small ⊢
      split at small
      · omega
      · rename_i fits
        rw [if_neg fits]
        omega
    · simp only [minus, decide_false, if_false, Bool.false_eq_true] at small ⊢
      split at small
      · omega
      · rename_i fits
        rw [if_neg fits]
        omega

end OpsCli.CLib.Conversion
