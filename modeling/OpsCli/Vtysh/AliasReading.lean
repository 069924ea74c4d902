import Mathlib.Data.List.Induction
import OpsCli.Vtysh.AliasBuffer

/-!
# How the alias callback reads a definition

The commands of a definition are separated by semicolons, and a reference is a
dollar sign with a numeral behind it.  The callback reads the same commands, if
no numeral is too large for an `int`.
-/

namespace OpsCli.Vtysh.AliasReading

open CLib.CString Alias AliasPiece AliasBuffer List

/-! ## Numerals -/

def valueFrom (ret : Nat) (digits : CStr) : Nat :=
  digits.foldl (fun value c => 10 * value + digitValue c) ret

theorem le_valueFrom (ret : Nat) (digits : CStr) : ret ≤ valueFrom ret digits := by
  induction digits generalizing ret with
  | nil => exact Nat.le_refl ret
  | cons c digits ih =>
    have later := ih (10 * ret + digitValue c)
    have step : ret ≤ 10 * ret + digitValue c := by omega
    exact step.trans later

theorem toNat_of_isdigit {c : Char} (digit : isdigit c) :
    c.toNat = digitValue c + '0'.toNat := by
  simp only [isdigit, Bool.and_eq_true, decide_eq_true_eq] at digit
  have lower : '0'.toNat ≤ c.toNat := digit.1
  unfold digitValue
  omega

theorem vtyshAliasStringToInt_eq (str : CStr) (ret : Nat) :
    vtyshAliasStringToInt str ret = if str.takeWhile isdigit = [] ∨
          valueFrom ret (str.takeWhile isdigit) + '0'.toNat ≤ intMax then
        some (valueFrom ret (str.takeWhile isdigit))
      else none := by
  induction str generalizing ret with
  | nil => rfl
  | cons c rest ih =>
    rw [vtyshAliasStringToInt]
    cases digit : isdigit c with
    | false =>
      rw [if_neg Bool.false_ne_true, takeWhile_cons_of_neg (by
        rw [digit]; exact nofun), if_pos (.inl rfl)]
      rfl
    | true =>
      have code := toNat_of_isdigit digit
      have step : ret * 10 + c.toNat - '0'.toNat = 10 * ret + digitValue c := by omega
      have value : valueFrom ret (c :: rest.takeWhile isdigit) =
          valueFrom (10 * ret + digitValue c) (rest.takeWhile isdigit) := rfl
      have larger := le_valueFrom (10 * ret + digitValue c) (rest.takeWhile isdigit)
      rw [if_pos rfl, takeWhile_cons_of_pos digit, value, step]
      by_cases fits : ret * 10 + c.toNat ≤ intMax
      · rw [if_pos fits, ih]
        by_cases last : rest.takeWhile isdigit = []
        · have small : valueFrom (10 * ret + digitValue c) [] + '0'.toNat ≤ intMax := by
            show 10 * ret + digitValue c + '0'.toNat ≤ intMax
            omega
          rw [last, if_pos (.inl rfl), if_pos (.inr small)]
        · simp only [last, false_or, cons_ne_nil]
      · have beyond : ¬ valueFrom (10 * ret + digitValue c)
            (rest.takeWhile isdigit) + '0'.toNat ≤ intMax := by omega
        rw [if_neg fits, if_neg]
        rintro (none | small)
        · cases none
        · exact beyond small

variable {rest text digits : CStr} {value : Nat}

theorem divideRounds_congr {first second : Nat} (left : value ≤ first) (right : value ≤ second) :
    divideRounds first value = divideRounds second value := by
  induction first generalizing second value with
  | zero =>
    cases Nat.le_zero.mp left
    cases second with
    | zero => rfl
    | succ second => rfl
  | succ first ih =>
    cases value with
    | zero =>
      cases second with
      | zero => rfl
      | succ second => rfl
    | succ value =>
      cases second with
      | zero => exact absurd right (Nat.not_succ_le_zero value)
      | succ second =>
        have later := ih (show (value + 1) / 10 ≤ first by omega)
          (show (value + 1) / 10 ≤ second by omega)
        rw [divideRounds, divideRounds, if_neg (Nat.succ_ne_zero value),
          if_neg (Nat.succ_ne_zero value), later]

theorem digitCount_of_ne_zero (nonzero : value ≠ 0) :
    digitCount value = digitCount (value / 10) + 1 := by
  unfold digitCount
  cases value with
  | zero => exact absurd rfl nonzero
  | succ value =>
    rw [divideRounds, if_neg nonzero, divideRounds_congr (show (value + 1) / 10 ≤ value by omega)
        (Nat.le_refl _)]

theorem digitsValue_append (digits : CStr) (c : Char) :
    digitsValue (digits ++ [c]) = 10 * digitsValue digits + digitValue c := by
  unfold digitsValue
  rw [foldl_append]
  rfl

theorem digitsValue_cons_zero (digits : CStr) : digitsValue ('0' :: digits) = digitsValue digits :=
  rfl

theorem digitCount_digitsValue {first : Char} (numeral : ∀ c ∈ first :: digits, isdigit c)
    (significant : first ≠ '0') :
    digitsValue (first :: digits) ≠ 0 ∧
      digitCount (digitsValue (first :: digits)) = digits.length + 1 := by
  induction digits using List.reverseRecOn with
  | nil =>
    have digit := numeral first mem_cons_self
    have small := digitValue_le digit
    have code := toNat_of_isdigit digit
    have value : digitsValue [first] = digitValue first := Nat.zero_add (digitValue first)
    have nonzero : digitValue first ≠ 0 := by
      intro zero
      rw [zero, Nat.zero_add] at code
      exact significant (Char.toNat_inj.mp code)
    rw [value]
    refine ⟨nonzero, ?_⟩
    rw [digitCount_of_ne_zero nonzero, Nat.div_eq_of_lt (by omega)]
    rfl
  | append_singleton digits c ih =>
    obtain ⟨nonzero, count⟩ := ih fun d member => numeral d (mem_append_left [c] member)
    have digit := digitValue_le (numeral c
      (mem_append_right (first :: digits) (mem_singleton_self c)))
    have value := digitsValue_append (first :: digits) c
    rw [cons_append] at value
    have more : digitsValue (first :: (digits ++ [c])) ≠ 0 := by omega
    have quotient : digitsValue (first :: (digits ++ [c])) / 10 =
        digitsValue (first :: digits) := by omega
    refine ⟨more, ?_⟩
    rw [digitCount_of_ne_zero more, quotient, count, length_append]
    rfl

/-- As many digits are skipped as are significant. -/
theorem digitCount_eq_significant {numeral : CStr} (digits : ∀ c ∈ numeral, isdigit c) :
    digitCount (digitsValue numeral) = (numeral.dropWhile (· = '0')).length := by
  induction numeral with
  | nil => rfl
  | cons first rest ih =>
    by_cases zero : first = '0'
    · subst zero
      rw [digitsValue_cons_zero, dropWhile_cons_of_pos (by decide)]
      exact ih fun c member => digits c (mem_cons_of_mem _ member)
    · rw [dropWhile_cons_of_neg (by simpa using zero)]
      exact (digitCount_digitsValue digits zero).2

/-! ## Commands -/

/-- The commands of a definition; `skip` more characters belong to a
reference. -/
def pieces (args : List CStr) : CStr → Nat → List (List Item)
  | [], _ => [[]]
  | _ :: rest, skip + 1 => pieces args rest skip
  | c :: rest, 0 =>
    if c = '$' then
      let numeral := rest.takeWhile isdigit
      let k := digitsValue numeral
      if 1 ≤ k ∧ k ≤ args.length then
        (pieces args rest numeral.length).modifyHead
          (.reference k (args.getD (k - 1) []) numeral :: ·)
      else (pieces args rest 0).modifyHead (.char c :: ·)
    else if c = ';' then [] :: pieces args rest 0
    else (pieces args rest 0).modifyHead (.char c :: ·)

theorem pieces_skip (args : List CStr) (text : CStr) (skip : Nat) :
    pieces args text skip = pieces args (text.drop skip) 0 := by
  induction text generalizing skip with
  | nil =>
    rw [drop_nil]
    rfl
  | cons c rest ih =>
    cases skip with
    | zero => rfl
    | succ skip => exact ih skip

theorem pieces_ne_nil (args : List CStr) (text : CStr) (skip : Nat) :
    pieces args text skip ≠ [] := by
  induction text generalizing skip with
  | nil => exact cons_ne_nil _ _
  | cons c rest ih =>
    cases skip with
    | succ skip => exact ih skip
    | zero =>
      rw [pieces]
      dsimp only
      split
      · split
        · exact fun empty => ih _ (modifyHead_eq_nil_iff.mp empty)
        · exact fun empty => ih _ (modifyHead_eq_nil_iff.mp empty)
      · split
        · exact cons_ne_nil _ _
        · exact fun empty => ih _ (modifyHead_eq_nil_iff.mp empty)

theorem numeral_append (rest : CStr) : rest.takeWhile isdigit ++ rest.dropWhile isdigit = rest :=
  takeWhile_append_dropWhile

theorem pieces_numeral (args : List CStr) (rest : CStr) :
    pieces args rest (rest.takeWhile isdigit).length = pieces args (rest.dropWhile isdigit) 0 := by
  have dropped : (rest.takeWhile isdigit ++ rest.dropWhile isdigit).drop
      (rest.takeWhile isdigit).length = rest.dropWhile isdigit :=
    drop_left
  rw [numeral_append] at dropped
  rw [pieces_skip, dropped]

/-! ## The loop -/

/-- No numeral behind a dollar sign is too large for an `int`. -/
def NumeralsFit (text : CStr) : Prop :=
  ∀ rest, '$' :: rest <:+ text → digitsValue (rest.takeWhile isdigit) + '0'.toNat ≤ intMax

/-- The callback goes through the commands. -/
def runPieces (cmdNow : CStr) (args : List CStr) :
    List (List Item) → Assembly → VtyBuf → Option AliasOutcome
  | [], assembly, buf => finishAlias cmdNow args assembly buf
  | [items], assembly, buf =>
    finishAlias cmdNow args (putAll assembly items) buf
  | items :: next :: rest, assembly, buf =>
    match (putAll assembly items).selfTest cmdNow with
    | none => none
    | some true => some ⟨[.output aliasLoopText], buf⟩
    | some false =>
      (runPieces cmdNow args (next :: rest)
          ⟨[], 0, (putAll assembly items).maxArgCount, true⟩ .currentCmd).map
        (·.after (.execute (cString (skipBlanks (putAll assembly items).currentCmd))))

section

variable {cmdNow : CStr} {args : List CStr} {len bound : Nat}

theorem runPieces_put (item : Item) {list : List (List Item)} (nonempty : list ≠ [])
    (assembly : Assembly) (buf : VtyBuf) :
    runPieces cmdNow args (list.modifyHead (item :: ·)) assembly buf =
      runPieces cmdNow args list (put assembly item) buf := by
  cases list with
  | nil => exact absurd rfl nonempty
  | cons items rest =>
    cases rest with
    | nil => rfl
    | cons next rest => rfl

theorem aliasLoop_skip {skip : Nat} (inside : skip ≤ text.length) (len : Nat) (assembly : Assembly)
    (buf : VtyBuf) :
    aliasLoop cmdNow args text len skip assembly buf =
      aliasLoop cmdNow args (text.drop skip) (len + skip) 0 assembly buf := by
  induction text generalizing skip len with
  | nil =>
    cases Nat.le_zero.mp inside
    rfl
  | cons c rest ih =>
    cases skip with
    | zero => rfl
    | succ skip =>
      rw [aliasLoop, ih (Nat.le_of_succ_le_succ inside)]
      rw [drop_succ_cons, Nat.add_assoc, Nat.add_comm 1 skip]

theorem aliasLoop_digits (numeral : ∀ c ∈ digits, isdigit c) (rest : CStr)
    (short : len + digits.length ≤ vtyshMaxAliasListLen) (assembly : Assembly) (buf : VtyBuf) :
    aliasLoop cmdNow args (digits ++ rest) len 0 assembly buf =
      aliasLoop cmdNow args rest (len + digits.length) 0
        (digits.foldl Assembly.copy assembly) buf := by
  induction digits generalizing len assembly with
  | nil => rfl
  | cons c digits ih =>
    obtain ⟨digit, others⟩ := forall_mem_cons.mp numeral
    rw [length_cons] at short
    have next := ih others (show len + 1 + digits.length ≤ vtyshMaxAliasListLen by omega)
      (assembly.copy c)
    rw [cons_append, aliasLoop, if_neg (by omega), if_neg (ne_of_isdigit digit (by decide)),
      if_neg (ne_of_isdigit digit (by decide)), next, length_cons,
      Nat.add_assoc, Nat.add_comm 1 digits.length]
    rfl

theorem isdigit_of_mem_numeral (rest : CStr) : ∀ c ∈ rest.takeWhile isdigit, isdigit c :=
  fun _ member => mem_takeWhile_imp member

theorem vtyshAliasStringToInt_numeral (rest : CStr) : vtyshAliasStringToInt rest 0 =
      if digitsValue (rest.takeWhile isdigit) + '0'.toNat ≤ intMax then
        some (digitsValue (rest.takeWhile isdigit))
      else none := by
  have value : valueFrom 0 (rest.takeWhile isdigit) = digitsValue (rest.takeWhile isdigit) := rfl
  rw [vtyshAliasStringToInt_eq, value]
  by_cases empty : rest.takeWhile isdigit = []
  · rw [empty]
    rfl
  · simp only [empty, false_or]

theorem aliasLoop_reference (short : len + rest.length < vtyshMaxAliasListLen)
    (fits : digitsValue (rest.takeWhile isdigit) + '0'.toNat ≤ intMax)
    (valid : 1 ≤ digitsValue (rest.takeWhile isdigit) ∧
      digitsValue (rest.takeWhile isdigit) ≤ args.length) (assembly : Assembly) (buf : VtyBuf) :
    aliasLoop cmdNow args ('$' :: rest) len 0 assembly buf =
      aliasLoop cmdNow args (rest.dropWhile isdigit) (len + 1 + (rest.takeWhile isdigit).length) 0
        (put assembly (.reference (digitsValue (rest.takeWhile isdigit))
          (args.getD (digitsValue (rest.takeWhile isdigit) - 1) [])
          (rest.takeWhile isdigit))) buf := by
  have known : digitsValue (rest.takeWhile isdigit) ≠ 0 ∧
      digitsValue (rest.takeWhile isdigit) ≤ args.length :=
    ⟨by omega, valid.2⟩
  have digits := isdigit_of_mem_numeral rest
  have split := numeral_append rest
  rw [aliasLoop, if_neg (by omega), if_pos rfl, vtyshAliasStringToInt_numeral, if_pos fits]
  dsimp only
  rw [if_pos known]
  generalize rest.takeWhile isdigit = numeral at *
  generalize rest.dropWhile isdigit = behind at *
  subst split
  have inside : (numeral.dropWhile (· = '0')).length ≤ numeral.length :=
    (dropWhile_suffix _).length_le
  have left : (surplus numeral).length = numeral.length - (numeral.dropWhile (· = '0')).length :=
    length_drop
  rw [length_append] at short
  rw [digitCount_eq_significant digits, aliasLoop_skip (by rw [length_append]; omega),
    drop_append_of_le_length inside,
    aliasLoop_digits (fun c member => digits c (mem_of_mem_drop member))
      behind (by rw [← surplus, left]; omega)]
  have total : len + 1 + (numeral.dropWhile (· = '0')).length +
      (numeral.drop (numeral.dropWhile (· = '0')).length).length = len + 1 + numeral.length := by
    rw [← surplus, left]
    omega
  rw [total]
  rfl

theorem dollar_suffix {behind : CStr} (numeral : ∀ c ∈ digits, isdigit c)
    (found : '$' :: behind <:+ digits ++ rest) : '$' :: behind <:+ rest := by
  induction digits with
  | nil => exact found
  | cons c digits ih =>
    obtain ⟨digit, others⟩ := forall_mem_cons.mp numeral
    rcases suffix_cons_iff.mp found with same | later
    · exact absurd (List.cons.inj same).1.symm (ne_of_isdigit digit (by decide))
    · exact ih others later

/-- The callback has reported an error. -/
def Reports (outcome : AliasOutcome) : Prop :=
  ∃ message, .output message ∈ outcome.events

theorem Reports.after {outcome : AliasOutcome} (reports : Reports outcome) (event : AliasEvent) :
    Reports (outcome.after event) := by
  obtain ⟨message, member⟩ := reports
  exact ⟨message, mem_cons_of_mem event member⟩

theorem numeralsFit_cons_iff (c : Char) : NumeralsFit (c :: rest) ↔
    (c = '$' → digitsValue (rest.takeWhile isdigit) + '0'.toNat ≤ intMax) ∧ NumeralsFit rest := by
  constructor
  · intro fit
    refine ⟨?_, fun behind found => fit behind (found.trans (suffix_cons c rest))⟩
    rintro rfl
    exact fit rest suffix_rfl
  · rintro ⟨here, later⟩ behind found
    rcases suffix_cons_iff.mp found with same | inside
    · obtain ⟨first, others⟩ := List.cons.inj same
      rw [others]
      exact here first.symm
    · exact later behind inside

theorem numeralsFit_numeral : NumeralsFit (rest.dropWhile isdigit) ↔ NumeralsFit rest := by
  constructor
  · intro later behind found
    rw [← numeral_append rest] at found
    exact later behind (dollar_suffix (isdigit_of_mem_numeral rest) found)
  · exact fun fit behind found => fit behind (found.trans (dropWhile_suffix _))

/-- The callback goes through the commands of the definition; with a numeral
that is too large, it does not come to a regular end. -/
theorem aliasLoop_reads (size : text.length ≤ bound)
    (short : len + text.length ≤ vtyshMaxAliasListLen) (assembly : Assembly) (buf : VtyBuf) :
    (NumeralsFit text → aliasLoop cmdNow args text len 0 assembly buf =
        runPieces cmdNow args (pieces args text 0) assembly buf) ∧
      (¬ NumeralsFit text → ∀ outcome,
        aliasLoop cmdNow args text len 0 assembly buf = some outcome → Reports outcome) := by
  have empty : NumeralsFit [] := fun _ found => by cases suffix_nil.mp found
  induction bound generalizing text len assembly buf with
  | zero =>
    cases length_eq_zero_iff.mp (Nat.le_zero.mp size)
    exact ⟨fun _ => rfl, absurd empty⟩
  | succ bound ih =>
    cases text with
    | nil => exact ⟨fun _ => rfl, absurd empty⟩
    | cons c rest =>
      rw [length_cons] at size short
      have next := ih (show rest.length ≤ bound by omega)
        (show len + 1 + rest.length ≤ vtyshMaxAliasListLen by omega)
      rw [pieces, numeralsFit_cons_iff]
      by_cases dollar : c = '$'
      · subst dollar
        by_cases fits : digitsValue (rest.takeWhile isdigit) + '0'.toNat ≤ intMax
        · rw [if_pos rfl]
          simp only [fits, implies_true, true_and]
          split
          · rename_i valid
            have total := congrArg List.length (numeral_append rest)
            rw [length_append] at total
            rw [aliasLoop_reference (by omega) fits valid, ← numeralsFit_numeral,
              runPieces_put _ (pieces_ne_nil _ _ _), pieces_numeral]
            exact ih (by omega) (by omega) _ buf
          · rename_i invalid
            have unknown : ¬ (digitsValue (rest.takeWhile isdigit) ≠ 0 ∧
                digitsValue (rest.takeWhile isdigit) ≤ args.length) :=
              fun both => invalid ⟨Nat.one_le_iff_ne_zero.mpr both.1, both.2⟩
            rw [aliasLoop, if_neg (by omega), if_pos rfl, vtyshAliasStringToInt_numeral,
              if_pos fits]
            dsimp only
            rw [if_neg unknown, runPieces_put _ (pieces_ne_nil _ _ _)]
            exact next _ buf
        · rw [aliasLoop, if_neg (by omega), if_pos rfl, vtyshAliasStringToInt_numeral, if_neg fits]
          exact ⟨fun fit => absurd (fit.1 rfl) fits, nofun⟩
      · rw [if_neg dollar, aliasLoop, if_neg (by omega), if_neg dollar]
        simp only [dollar, false_implies, true_and]
        by_cases semicolon : c = ';'
        · rw [if_pos semicolon, if_pos semicolon]
          obtain ⟨first, others, equal⟩ := exists_cons_of_ne_nil (pieces_ne_nil args rest 0)
          obtain ⟨regular, irregular⟩ := next ⟨[], 0, assembly.maxArgCount, true⟩ .currentCmd
          have same : putAll assembly [] = assembly := rfl
          rw [equal, runPieces, ← equal, same]
          cases assembly.selfTest cmdNow with
          | none => exact ⟨fun _ => rfl, nofun⟩
          | some itself =>
            cases itself with
            | true =>
              refine ⟨fun _ => rfl, ?_⟩
              rintro _ _ ⟨⟩
              exact ⟨aliasLoopText, mem_singleton_self _⟩
            | false =>
              refine ⟨fun fit => ?_, fun large outcome run => ?_⟩
              · rw [regular fit]
              · obtain ⟨rounds, more, rfl⟩ := Option.map_eq_some_iff.mp run
                exact (irregular large rounds more).after _
        · rw [if_neg semicolon, if_neg semicolon, runPieces_put _ (pieces_ne_nil _ _ _)]
          exact next _ buf

end

end OpsCli.Vtysh.AliasReading
