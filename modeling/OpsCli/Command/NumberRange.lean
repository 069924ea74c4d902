import OpsCli.CLib.Conversion
import OpsCli.Command.WordMatch

/-!
# Range tokens

A token `<min-max>` stands for the numerals with a value between the limits.
`cmd_range_match` leaves the reading of the word to `strtoul`, which also takes
the empty word, white space and signs, and negates modulo `2^64`.
-/

namespace OpsCli.Command.NumberRange

open CLib CString Conversion RangeList WordMatch List

/-- A range token: two numerals of at most ten digits, the smaller one
first. -/
structure RangeToken where
  min : CStr
  max : CStr
  minNumeral : isNumeral min
  maxNumeral : isNumeral max
  minLength : min.length ≤ decimalStrlenMax
  maxLength : max.length ≤ decimalStrlenMax
  ordered : digitsValue min ≤ digitsValue max

namespace RangeToken

variable (token : RangeToken)

def text : CStr :=
  '<' :: (token.min ++ '-' :: (token.max ++ ['>']))

/-- The value is between the limits. -/
def Within (value : Nat) : Prop :=
  digitsValue token.min ≤ value ∧ value ≤ digitsValue token.max

/-- The words that the token stands for. -/
def Denotes (word : CStr) : Prop :=
  isNumeral word ∧ token.Within (digitsValue word)

/-- A word that is no numeral, but is read as a number between the limits. -/
def Disguised (word : CStr) : Prop :=
  word = [] ∧ digitsValue token.min = 0 ∨ ∃ signed : Signed, word = signed.text ∧
      (signed.blanks ≠ [] ∨ signed.sign ≠ .absent) ∧
      token.Within signed.value

end RangeToken

variable {word numeral : CStr} {token : RangeToken} {signed : Signed}

theorem digitsValue_lt_ulongMax (digits : isNumeral numeral)
    (short : numeral.length ≤ decimalStrlenMax) : digitsValue numeral < ulongMax := by
  have bound := digitsValue_lt (isdigit_of_isNumeral digits)
  have power : 10 ^ numeral.length ≤ 10 ^ decimalStrlenMax := Nat.pow_le_pow_right (by decide) short
  have large : 10 ^ decimalStrlenMax < ulongMax := by decide
  omega

theorem strtoul_limit (digits : isNumeral numeral) (short : numeral.length ≤ decimalStrlenMax) :
    strtoul numeral = (digitsValue numeral, []) := by
  have small := digitsValue_lt_ulongMax digits short
  rw [strtoul_numeral digits, saturate, Nat.min_eq_left small.le]

theorem cmdRangeMatch_text (token : RangeToken) (word : CStr) :
    cmdRangeMatch token.text word ↔
      (strtoul word).2 = [] ∧ token.Within (strtoul word).1 := by
  have noDash : '-' ∉ token.min := not_mem_of_isNumeral token.minNumeral (by decide)
  have noClose : '>' ∉ token.max := not_mem_of_isNumeral token.maxNumeral (by decide)
  unfold cmdRangeMatch RangeToken.text
  by_cases complete : (strtoul word).2 = []
  · rw [if_neg (not_not_intro complete), tail_cons, strchr_append noDash]
    dsimp only
    rw [if_neg token.minLength.not_gt, strtoul_limit token.minNumeral token.minLength,
      if_neg (not_not_intro rfl), strchr_append noClose]
    dsimp only
    rw [if_neg token.maxLength.not_gt, strtoul_limit token.maxNumeral token.maxLength,
      if_neg (not_not_intro rfl)]
    simp [outside, RangeToken.Within, complete]
  · rw [if_pos complete]
    exact iff_of_false Bool.false_ne_true fun both => complete both.1

theorem atoi_of_cmdRangeMatch (small : digitsValue token.max < 2 ^ 31)
    (admitted : cmdRangeMatch token.text word) :
    0 ≤ atoi word ∧ atoi word ≤ digitsValue token.max := by
  obtain ⟨complete, _, upper⟩ := (cmdRangeMatch_text token word).mp admitted
  rw [atoi_eq_bmod]
  rcases strtoll_eq_or complete (by omega) with same | smallest
  · rw [same, Int.bmod_eq_of_le (by omega) (by omega)]
    omega
  · have zero : ((-2 ^ 63 : Int)).bmod (2 ^ 32) = 0 := by decide
    rw [smallest, zero]
    omega

theorem within_strtoul_iff (token : RangeToken) (numeral : isNumeral word) :
    (strtoul word).2 = [] ∧ token.Within (strtoul word).1 ↔ token.Within (digitsValue word) := by
  have large := digitsValue_lt_ulongMax token.maxNumeral token.maxLength
  rw [strtoul_numeral numeral]
  unfold RangeToken.Within saturate
  constructor
  · rintro ⟨_, lower, upper⟩
    constructor
    · omega
    · omega
  · rintro ⟨lower, upper⟩
    refine ⟨rfl, ?_, ?_⟩
    · omega
    · omega

theorem isNumeral_text (noBlanks : signed.blanks = []) (noSign : signed.sign = .absent) :
    isNumeral signed.text := by
  unfold Signed.text
  rw [noBlanks, noSign]
  exact signed.numeral

theorem not_isNumeral_text (more : signed.blanks ≠ [] ∨ signed.sign ≠ .absent) :
    ¬ isNumeral signed.text := by
  intro numeral
  have digits := isdigit_of_isNumeral numeral
  unfold Signed.text at digits
  rcases more with blanks | sign
  · obtain ⟨c, rest, equal⟩ := exists_cons_of_ne_nil blanks
    have member : c ∈ signed.blanks := equal ▸ mem_cons_self
    have digit := digits c (mem_append_left _ member)
    have space := signed.spaces c member
    rw [isspace_eq_false_of_isdigit digit] at space
    cases space
  · cases written : signed.sign with
    | absent => exact sign written
    | plus =>
      rw [written] at digits
      cases digits '+' (mem_append_right _ mem_cons_self)
    | minus =>
      rw [written] at digits
      cases digits '-' (mem_append_right _ mem_cons_self)

/-- What is accepted is denoted by the token or disguised. -/
theorem cmdRangeMatch_iff (token : RangeToken) (word : CStr) :
    cmdRangeMatch token.text word ↔ token.Denotes word ∨ token.Disguised word := by
  rw [cmdRangeMatch_text]
  constructor
  · rintro ⟨complete, within⟩
    rcases exists_signed complete with rfl | ⟨signed, rfl⟩
    · exact .inr (.inl ⟨rfl, Nat.le_zero.mp within.1⟩)
    · by_cases plain : signed.blanks = [] ∧ signed.sign = .absent
      · have numeral := isNumeral_text plain.1 plain.2
        exact .inl ⟨numeral, (within_strtoul_iff token numeral).mp ⟨complete, within⟩⟩
      · rw [strtoul_signed] at within
        exact .inr (.inr ⟨signed, rfl, not_and_or.mp plain, within⟩)
  · rintro (⟨numeral, within⟩ | ⟨rfl, zero⟩ | ⟨signed, rfl, _, within⟩)
    · exact (within_strtoul_iff token numeral).mpr within
    · exact ⟨rfl, zero.le, Nat.zero_le _⟩
    · rw [strtoul_signed]
      exact ⟨rfl, within⟩

theorem not_denotes_of_disguised (disguised : token.Disguised word) : ¬ token.Denotes word := by
  rintro ⟨numeral, _⟩
  rcases disguised with ⟨rfl, _⟩ | ⟨signed, rfl, more, _⟩
  · cases numeral
  · exact not_isNumeral_text more numeral

/-- **A range token accepts exactly the numerals between its limits, unless the
word is disguised.** -/
theorem range_match_iff_not_disguised (token : RangeToken) (word : CStr) :
    (cmdRangeMatch token.text word ↔ token.Denotes word) ↔ ¬ token.Disguised word := by
  rw [cmdRangeMatch_iff]
  constructor
  · intro exact_ disguised
    exact not_denotes_of_disguised disguised (exact_.mp (.inr disguised))
  · intro plain
    exact or_iff_left plain

/-- The token `<1-5>`. -/
def oneToFive : RangeToken where
  min := "1"
  max := "5"
  minNumeral := rfl
  maxNumeral := rfl
  minLength := by decide
  maxLength := by decide
  ordered := by decide

/-- A negative number is accepted for the number that it wraps to. -/
theorem negative_word_accepted :
    cmdRangeMatch oneToFive.text "-18446744073709551613" ∧
      ¬ oneToFive.Denotes "-18446744073709551613" := by
  refine ⟨by decide, ?_⟩
  rintro ⟨numeral, _⟩
  cases numeral

end OpsCli.Command.NumberRange
