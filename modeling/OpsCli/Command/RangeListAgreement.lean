import OpsCli.Command.RangeList

/-!
# When the list validator and the list expander agree

A list word denotes a sequence of items, each a number or a range.  The
validator accepts every word whose items are in range, but also words that
denote no list at all, and numerals for which the expander has no room.  The
theorem at the end says which of the accepted words are expanded to the
numbers they denote.
-/

namespace OpsCli.Command.RangeListAgreement

open CLib.CString RangeList List

/-! ## List words -/

inductive Item where
  | number (n : CStr)
  | range (n m : CStr)
deriving DecidableEq, Repr

def Item.text : Item → CStr
  | .number n => n
  | .range n m => n ++ '-' :: m

def Item.numerals : Item → List CStr
  | .number n => [n]
  | .range n m => [n, m]

def Item.values : Item → List Nat
  | .number n => [digitsValue n]
  | .range n m =>
    List.range' (digitsValue n) (digitsValue m + 1 - digitsValue n)

def Item.Ascending : Item → Prop
  | .number _ => True
  | .range n m => digitsValue n < digitsValue m

def itemsText (items : List Item) : CStr :=
  [','].intercalate (items.map Item.text)

/-- The items that each operator allows. -/
def HasShape : CliIntType → List Item → Prop
  | .commaOperator, items =>
    items ≠ [] ∧ ∀ item ∈ items, ∃ n, item = .number n
  | .rangeOperator, items => ∃ n m, items = [.range n m]
  | .bothOperator, items => items ≠ []

/-- The limits of a list token: decimal numerals of at most ten digits, the
smaller one first. -/
structure Limits where
  min : CStr
  max : CStr
  minNumeral : isNumeral min
  maxNumeral : isNumeral max
  minLength : min.length ≤ decimalStrlenMax
  maxLength : max.length ≤ decimalStrlenMax
  increasing : digitsValue min < digitsValue max

/-- The letter by which a token names its operator. -/
def operatorLetter : CliIntType → Char
  | .commaOperator => 'C'
  | .rangeOperator => 'L'
  | .bothOperator => 'A'

def Limits.token (limits : Limits) (type : CliIntType) : CStr :=
  '<' :: operatorLetter type :: ':' :: (limits.min ++ '-' :: (limits.max ++ ['>']))

def Limits.Within (limits : Limits) (n : CStr) : Prop :=
  digitsValue limits.min ≤ digitsValue n ∧ digitsValue n ≤ digitsValue limits.max

/-- An item of numerals between the limits, with ranges going upwards. -/
structure Limits.Allows (limits : Limits) (item : Item) : Prop where
  numerals : ∀ n ∈ item.numerals, isNumeral n
  ascending : item.Ascending
  within : ∀ n ∈ item.numerals, limits.Within n

/-- The word is a list of the operator's shape, in range, and is expanded to
the numbers its items denote. -/
def DenotesExpansion (ifname : CStr → Bool) (type : CliIntType)
    (limits : Limits) (word : CStr) : Prop :=
  ∃ items, word = itemsText items ∧ HasShape type items ∧ (∀ item ∈ items, limits.Allows item) ∧
    ∃ list, cmdGetRangeValue ifname word 0 = some list ∧ (∀ value ∈ list, isNumeral value) ∧
      list.map digitsValue = items.flatMap Item.values

/-- What an accepted word needs to be expanded as it is read. -/
def ExpandsAsRead (limits : Limits) (word : CStr) : CliIntType → Prop
  | .commaOperator =>
    ∀ piece ∈ word.splitOn ',', piece.length ≤ decimalStrlenMax
  | .bothOperator =>
    ∀ piece ∈ word.splitOn ',', (piece.splitOn '-').length ≤ 2 ∧
      ('-' ∉ piece → piece.length ≤ decimalStrlenMax)
  | .rangeOperator =>
    ∃ n m, word = n ++ '-' :: m ∧ limits.Allows (.range n m) ∧ n.length ≤ decimalStrlenMax

/-! ## The character scan -/

theorem isSeparator_of_isdigit {c : Char} (digit : isdigit c) (type : CliIntType) :
    isSeparator type c = false := by
  have notComma : c ≠ ',' := ne_of_isdigit digit (by decide)
  have notDash : c ≠ '-' := ne_of_isdigit digit (by decide)
  simp [isSeparator, notComma, notDash]

variable {type : CliIntType} {items : List Item} {word : CStr} {value : Nat}

theorem splitOnP_cons_digit {c : Char} {rest : CStr} {first : CStr}
    {others : List CStr} (digit : isdigit c)
    (split : rest.splitOnP (isSeparator type) = first :: others) :
    (c :: rest).splitOnP (isSeparator type) = (c :: first) :: others := by
  rw [splitOnP_cons_eq_if_modifyHead, isSeparator_of_isdigit digit, split]
  rfl

theorem splitOnP_of_commaStrScan (type : CliIntType) (rest : CStr) (scan : commaStrScan type rest) :
    ∃ first others, rest.splitOnP (isSeparator type) = first :: others ∧
        (∀ c ∈ first, isdigit c) ∧
        ∀ part ∈ others, isNumeral part := by
  fun_induction commaStrScan type rest with
  | case1 => exact ⟨[], [], rfl, by simp, by simp⟩
  | case2 c =>
    simp only [Bool.and_eq_true] at scan
    exact ⟨[c], [], splitOnP_cons_digit scan.2 rfl, by simp [scan.2], by simp⟩
  | case3 c d rest separator digit ih =>
    obtain ⟨first, others, split, digits, numerals⟩ := ih scan
    refine ⟨[], (d :: first) :: others, ?_, by simp, ?_⟩
    · rw [splitOnP_cons_eq_if_modifyHead, if_pos separator, splitOnP_cons_digit digit split]
    · intro part member
      rcases mem_cons.mp member with rfl | later
      · refine isNumeral_of_forall (cons_ne_nil _ _) ?_
        simpa [digit] using digits
      · exact numerals part later
  | case4 => cases scan
  | case5 c d rest separator digit ih =>
    obtain ⟨first, others, split, digits, numerals⟩ := ih scan
    refine ⟨c :: first, others, splitOnP_cons_digit digit split, ?_, numerals⟩
    simpa [digit] using digits
  | case6 => cases scan

theorem isNumeral_of_valid (valid : cmdInputCommaStrIsValid type word) :
    ∀ part ∈ word.splitOnP (isSeparator type), isNumeral part := by
  cases word with
  | nil => cases valid
  | cons c rest =>
    rw [cmdInputCommaStrIsValid] at valid
    split at valid
    · cases valid
    rename_i digit
    split at valid
    · cases valid
    obtain ⟨first, others, split, digits, numerals⟩ := splitOnP_of_commaStrScan type rest valid
    have digit : isdigit c := by simpa using digit
    rw [splitOnP_cons_digit digit split]
    intro part member
    rcases mem_cons.mp member with rfl | later
    · refine isNumeral_of_forall (cons_ne_nil _ _) ?_
      simpa [digit] using digits
    · exact numerals part later

theorem splitOn_comma_dash (word : CStr) : (word.splitOn ',').flatMap (·.splitOn '-') =
      word.splitOnP (isSeparator .bothOperator) := by
  induction word with
  | nil => rfl
  | cons c rest ih =>
    obtain ⟨first, others, split⟩ := exists_cons_of_ne_nil (splitOn_ne_nil ',' rest)
    rw [splitOnP_cons_eq_if_modifyHead, ← ih, splitOn_cons_eq_if_modifyHead, split]
    by_cases comma : c = ','
    · subst comma
      rfl
    by_cases dash : c = '-'
    · subst dash
      simp [isSeparator, splitOn_cons_eq_if_modifyHead]
    · obtain ⟨head, tail, inner⟩ := exists_cons_of_ne_nil (splitOn_ne_nil '-' first)
      simp [isSeparator, splitOn_cons_eq_if_modifyHead, comma, dash, inner]

theorem splitOnP_comma (word : CStr) :
    word.splitOnP (isSeparator .commaOperator) = word.splitOn ',' := by
  have same : isSeparator .commaOperator = (· == ',') := by
    funext c
    simp [isSeparator, Bool.beq_eq_decide_eq]
  rw [same]
  rfl

/-! ## From pieces to items -/

theorem Item.text_eq (item : Item) : item.text = ['-'].intercalate item.numerals := by
  cases item <;> simp [Item.text, Item.numerals]

variable {item : Item} {n : CStr} {limits : Limits} {ifname : CStr → Bool}

theorem Item.text_split (numerals : ∀ n ∈ item.numerals, isNumeral n) :
    item.text.splitOn '-' = item.numerals := by
  have noDash : ∀ n ∈ item.numerals, '-' ∉ n := fun n member =>
    not_mem_of_isNumeral (numerals n member) (by decide)
  rw [Item.text_eq]
  refine splitOn_intercalate '-' noDash ?_
  cases item <;> exact cons_ne_nil _ _

theorem exists_item {piece : CStr} (numerals : ∀ part ∈ piece.splitOn '-', isNumeral part)
    (short : (piece.splitOn '-').length ≤ 2) :
    ∃ item : Item, piece = item.text ∧ ∀ n ∈ item.numerals, isNumeral n := by
  have joined : ['-'].intercalate (piece.splitOn '-') = piece := intercalate_splitOn '-'
  match parts : piece.splitOn '-', short with
  | [], _ => exact absurd parts (splitOn_ne_nil _ _)
  | [n], _ =>
    rw [parts] at joined numerals
    exact ⟨.number n, joined.symm.trans (Item.text_eq (.number n)).symm, numerals⟩
  | [n, m], _ =>
    rw [parts] at joined numerals
    exact ⟨.range n m, joined.symm.trans (Item.text_eq (.range n m)).symm, numerals⟩

/-- The first number of a range fits into the buffer of `get_list_value`. -/
def Item.FirstFits : Item → Prop
  | .number _ => True
  | .range n _ => n.length ≤ decimalStrlenMax

theorem exists_items (pieces : List CStr)
    (each : ∀ piece ∈ pieces, ∃ item : Item, piece = item.text ∧ ∀ n ∈ item.numerals, isNumeral n) :
    ∃ items : List Item, pieces = items.map Item.text ∧
      ∀ item ∈ items, ∀ n ∈ item.numerals, isNumeral n := by
  induction pieces with
  | nil => exact ⟨[], rfl, by simp⟩
  | cons piece rest ih =>
    obtain ⟨item, text, numerals⟩ := each piece (by simp)
    obtain ⟨items, texts, all⟩ := ih fun piece member => each piece (by simp [member])
    refine ⟨item :: items, by rw [text, texts]; rfl, ?_⟩
    intro other member
    rcases mem_cons.mp member with rfl | later
    · exact numerals
    · exact all other later

/-! ## The loop over the items -/

theorem getListValue_range {m : CStr} (first : isNumeral n) (second : isNumeral m)
    (numRange : Nat × Nat) :
    getListValue (n ++ '-' :: m) numRange = if decimalStrlenMax < n.length then none
      else
        some (decide (saturate (digitsValue n) < saturate (digitsValue m)),
          saturate (digitsValue n), saturate (digitsValue m)) := by
  have noDash : '-' ∉ n := not_mem_of_isNumeral first (by decide)
  simp [getListValue, strchr_append noDash, strtoul_numeral first, strtoul_numeral second,
    ne_nil_of_isNumeral second]

theorem Limits.max_lt (limits : Limits) : digitsValue limits.max < ulongMax := by
  have bound := digitsValue_lt (isdigit_of_isNumeral limits.maxNumeral)
  have power : 10 ^ limits.max.length ≤ 10 ^ decimalStrlenMax :=
    Nat.pow_le_pow_right (by decide) limits.maxLength
  have large : 10 ^ decimalStrlenMax < ulongMax := by decide
  omega

/-- The limits as the validator reads them. -/
def Limits.values (limits : Limits) : Nat × Nat :=
  (digitsValue limits.min, digitsValue limits.max)

theorem not_outside_iff {minMax : Nat × Nat} :
    ¬ outside minMax value ↔ minMax.1 ≤ value ∧ value ≤ minMax.2 := by
  simp [outside]

theorem Limits.within_of_not_outside (inside : ¬ outside limits.values (saturate (digitsValue n))) :
    limits.Within n ∧ saturate (digitsValue n) = digitsValue n := by
  have large := limits.max_lt
  obtain ⟨lower, upper⟩ := not_outside_iff.mp inside
  simp only [Limits.values, saturate] at lower upper
  refine ⟨⟨?_, ?_⟩, ?_⟩
  · omega
  · omega
  · rw [saturate]
    omega

/-- Whatever was left in `temp_min_max`, the loop checks every item. -/
theorem allows_of_withinRangeLoop
    (numerals : ∀ item ∈ items, ∀ n ∈ item.numerals, isNumeral n) {temp : Nat × Nat}
    (accepted : withinRangeLoop limits.values temp (items.map Item.text) = some true) :
    ∀ item ∈ items, limits.Allows item ∧ item.FirstFits := by
  induction items generalizing temp with
  | nil => simp
  | cons item rest ih =>
    have here := numerals item (by simp)
    have restNumerals : ∀ item ∈ rest, ∀ n ∈ item.numerals, isNumeral n :=
      fun item member => numerals item (by simp [member])
    rw [forall_mem_cons]
    cases item with
    | number n =>
      have numeral := here n (by simp [Item.numerals])
      have noDash : '-' ∉ n := not_mem_of_isNumeral numeral (by decide)
      rw [map_cons, Item.text, withinRangeLoop, if_neg noDash, strtoul_numeral numeral,
        if_neg (by simp)] at accepted
      split at accepted
      · cases accepted
      rename_i inside
      obtain ⟨within, _⟩ := Limits.within_of_not_outside inside
      refine ⟨⟨⟨here, trivial, ?_⟩, trivial⟩, ih restNumerals accepted⟩
      simpa [Item.numerals] using within
    | range n m =>
      have first := here n (by simp [Item.numerals])
      have second := here m (by simp [Item.numerals])
      have dash : '-' ∈ n ++ '-' :: m := by simp
      rw [map_cons, Item.text, withinRangeLoop, if_pos dash,
        getListValue_range first second] at accepted
      by_cases fits : decimalStrlenMax < n.length
      · rw [if_pos fits] at accepted
        cases accepted
      rw [if_neg fits] at accepted
      dsimp only at accepted
      split at accepted
      · cases accepted
      rename_i insideFirst
      split at accepted
      · cases accepted
      rename_i insideSecond
      split at accepted
      · cases accepted
      rename_i ascending
      obtain ⟨withinFirst, exactFirst⟩ := Limits.within_of_not_outside insideFirst
      obtain ⟨withinSecond, exactSecond⟩ := Limits.within_of_not_outside insideSecond
      rw [exactFirst, exactSecond, Nat.not_le] at ascending
      refine ⟨⟨⟨here, ascending, ?_⟩, Nat.le_of_not_lt fits⟩, ih restNumerals accepted⟩
      simpa [Item.numerals] using ⟨withinFirst, withinSecond⟩

theorem limitsText_token (limits : Limits) (type : CliIntType) :
    limitsText ('<' :: (limits.token type).drop 3) = some (limits.min ++ '-' :: limits.max) := by
  have noClose : '>' ∉ limits.min ++ '-' :: limits.max := by
    simp [not_mem_of_isNumeral limits.minNumeral (show isdigit '>' = false from rfl),
      not_mem_of_isNumeral limits.maxNumeral (show isdigit '>' = false from rfl)]
  have text : '<' :: (limits.token type).drop 3 =
      ('<' :: (limits.min ++ '-' :: limits.max)) ++ '>' :: [] := by
    simp [Limits.token]
  have close : strchr ('<' :: (limits.token type).drop 3) '>' =
      some ('<' :: (limits.min ++ '-' :: limits.max), []) := by
    rw [text]
    exact strchr_append (by simpa using noClose) []
  have stop : (limits.min ++ '-' :: limits.max ++ ['>']).takeWhile
      (· ≠ '>') = limits.min ++ '-' :: limits.max := by
    rw [takeWhile_append_of_pos (by
      intro c member
      simpa using fun same : c = '>' => noClose (same ▸ member))]
    simp
  rw [limitsText, close, text]
  simpa [strchr] using stop

/-- On a list token the validator scans the characters and, unless the
operator is a range, compares the items with the limits. -/
theorem validate_token (uninit : Uninitialised) (limits : Limits)
    (type : CliIntType) (word : CStr) :
    cmdRangeCommaCliParserValidate uninit (some word) (limits.token type) type =
      if cmdInputCommaStrIsValid type word then
        if type = .rangeOperator then some true
        else withinRangeLoop limits.values uninit.tempMinMax (strtok word ',')
      else some false := by
  have long : ¬ (limits.token type).length < 2 := by
    simp [Limits.token]
  have longer : ¬ (limits.token type).length = 2 := by
    simp [Limits.token]
  have read : getListValue (limits.min ++ '-' :: limits.max) uninit.minMax =
        some (true, limits.values) := by
    have upper := limits.max_lt
    have increasing := limits.increasing
    rw [getListValue_range limits.minNumeral limits.maxNumeral,
      if_neg (Nat.not_lt.mpr limits.minLength)]
    have exactMin : saturate (digitsValue limits.min) = digitsValue limits.min := by
      rw [saturate]
      omega
    have exactMax : saturate (digitsValue limits.max) = digitsValue limits.max := by
      rw [saturate]
      omega
    simp [exactMin, exactMax, increasing, Limits.values]
  rw [cmdRangeCommaCliParserValidate, if_neg long, if_neg longer, cmdInputRangeMatch]
  cases type <;> simp [cmdInputIsWithinRange, limitsText_token, read]

/-! ## Expansion -/

def Item.expansion : Item → List CStr
  | .number n => [n]
  | .range n m =>
    (List.range' (digitsValue n) (digitsValue m + 1 - digitsValue n)).map decimal

/-- The expander has room for the numbers of an item. -/
def Item.Fits : Item → Prop
  | .number n => n.length ≤ decimalStrlenMax
  | .range n _ => n.length ≤ decimalStrlenMax

theorem insertAll (values : List Nat) (small : ∀ value ∈ values, value < 10 ^ decimalStrlenMax)
    (node : List CStr) :
    values.foldlM (fun node i => cmdInsertValueList node ((decimal i).take decimalStrlenMax)) node =
      some (node ++ values.map decimal) := by
  induction values generalizing node with
  | nil => simp
  | cons value rest ih =>
    have short : (decimal value).length ≤ decimalStrlenMax :=
      (length_decimal_le (by decide)).mpr (small value (by simp))
    have whole : (decimal value).take decimalStrlenMax = decimal value := take_of_length_le short
    rw [foldlM_cons, whole, cmdInsertValueList, if_neg (Nat.not_lt.mpr short)]
    simpa using ih (fun value member => small value (by simp [member])) (node ++ [decimal value])

theorem Limits.lt_of_within (within : limits.Within n) : digitsValue n < 10 ^ decimalStrlenMax := by
  have bound := digitsValue_lt (isdigit_of_isNumeral limits.maxNumeral)
  have power : 10 ^ limits.max.length ≤ 10 ^ decimalStrlenMax :=
    Nat.pow_le_pow_right (by decide) limits.maxLength
  exact Nat.lt_of_le_of_lt within.2 (Nat.lt_of_lt_of_le bound power)

theorem saturate_of_lt (small : value < 10 ^ decimalStrlenMax) : saturate value = value := by
  have large : 10 ^ decimalStrlenMax < ulongMax := by decide
  rw [saturate]
  omega

theorem cmdGetListFromRangeStr_range {m : CStr} (allows : limits.Allows (.range n m)) :
    cmdGetListFromRangeStr ifname (n ++ '-' :: m) 0 = if decimalStrlenMax < n.length then none
      else some (Item.range n m).expansion := by
  have first := allows.numerals n (by simp [Item.numerals])
  have second := allows.numerals m (by simp [Item.numerals])
  have smallFirst := Limits.lt_of_within (allows.within n (by simp [Item.numerals]))
  have smallSecond := Limits.lt_of_within (allows.within m (by simp [Item.numerals]))
  have ascending : digitsValue n < digitsValue m := allows.ascending
  have dash : '-' ∈ n ++ '-' :: m := by simp
  rw [cmdGetListFromRangeStr, if_pos dash, if_neg (by simp), getListValue_range first second]
  by_cases fits : decimalStrlenMax < n.length
  · rw [if_pos fits, if_pos fits]
  · have notLast : digitsValue m ≠ ulongMax := by
      have large : 10 ^ decimalStrlenMax < ulongMax := by decide
      omega
    have small : ∀ value ∈ List.range' (digitsValue n) (digitsValue m + 1 - digitsValue n),
        value < 10 ^ decimalStrlenMax := by
      intro value member
      rw [mem_range'_1] at member
      omega
    rw [if_neg fits, if_neg fits, saturate_of_lt smallFirst, saturate_of_lt smallSecond,
      decide_eq_true ascending]
    simpa [notLast, Item.expansion] using insertAll _ small []

theorem appendItem_eq_some_iff (ifname : CStr → Bool) (allows : limits.Allows item)
    (node result : List CStr) :
    appendItem ifname 0 node item.text = some result ↔
      item.Fits ∧ result = node ++ item.expansion := by
  cases item with
  | number n =>
    have numeral := allows.numerals n (by simp [Item.numerals])
    have noDash : '-' ∉ n := not_mem_of_isNumeral numeral (by decide)
    rw [Item.text, appendItem, if_neg noDash, cmdInsertValueList]
    by_cases fits : decimalStrlenMax < n.length
    · simp [fits, Item.Fits, Nat.not_le_of_lt fits]
    · simp [fits, Item.Fits, Item.expansion, Nat.le_of_not_lt fits, eq_comm]
  | range n m =>
    have dash : '-' ∈ n ++ '-' :: m := by simp
    rw [Item.text, appendItem, if_pos dash, cmdGetListFromRangeStr_range allows]
    by_cases fits : decimalStrlenMax < n.length
    · simp [fits, Item.Fits, Nat.not_le_of_lt fits]
    · simp [fits, Item.Fits, Nat.le_of_not_lt fits, eq_comm]

theorem appendItems_eq_some_iff (allows : ∀ item ∈ items, limits.Allows item)
    (node result : List CStr) :
    (items.map Item.text).foldlM (appendItem ifname 0) node = some result ↔
      (∀ item ∈ items, item.Fits) ∧ result = node ++ items.flatMap Item.expansion := by
  induction items generalizing node with
  | nil => simp [eq_comm]
  | cons item rest ih =>
    have here := appendItem_eq_some_iff ifname (allows item (by simp)) node
    have later := ih fun item member => allows item (by simp [member])
    rw [map_cons, foldlM_cons, Option.bind_eq_bind, Option.bind_eq_some_iff, forall_mem_cons,
      flatMap_cons]
    constructor
    · rintro ⟨middle, first, tail⟩
      obtain ⟨fits, rfl⟩ := (here middle).mp first
      obtain ⟨restFits, rfl⟩ := (later _).mp tail
      exact ⟨⟨fits, restFits⟩, append_assoc _ _ _⟩
    · rintro ⟨⟨fits, restFits⟩, rfl⟩
      refine ⟨node ++ item.expansion, (here _).mpr ⟨fits, rfl⟩, ?_⟩
      exact (later _).mpr ⟨restFits, (append_assoc _ _ _).symm⟩

theorem cmdGetRangeValue_eq (nonempty : ∀ piece ∈ word.splitOn ',', piece ≠ []) :
    cmdGetRangeValue ifname word 0 = (word.splitOn ',').foldlM (appendItem ifname 0) [] := by
  have tokens : strtok word ',' = word.splitOn ',' := by
    rw [strtok, filter_eq_self]
    intro piece member
    simp [nonempty piece member]
  rw [cmdGetRangeValue, tokens]
  by_cases comma : ',' ∈ word
  · rw [if_pos comma]
  · rw [if_neg comma, splitOn_eq_singleton comma]
    simp

theorem Item.isNumeral_of_mem_expansion (numerals : ∀ n ∈ item.numerals, isNumeral n) :
    ∀ value ∈ item.expansion, isNumeral value := by
  cases item with
  | number n => exact numerals
  | range n m =>
    intro value member
    obtain ⟨number, _, rfl⟩ := mem_map.mp member
    exact isNumeral_decimal number

theorem Item.map_digitsValue_expansion (item : Item) :
    item.expansion.map digitsValue = item.values := by
  cases item with
  | number n => rfl
  | range n m =>
    simp [Item.expansion, Item.values, Function.comp_def, digitsValue_decimal]

theorem Item.text_plain (numerals : ∀ n ∈ item.numerals, isNumeral n) :
    ',' ∉ item.text ∧ item.text ≠ [] := by
  have noComma : ∀ n ∈ item.numerals, ',' ∉ n := fun n member =>
    not_mem_of_isNumeral (numerals n member) (by decide)
  cases item with
  | number n =>
    exact ⟨noComma n (by simp [Item.numerals]),
      ne_nil_of_isNumeral (numerals n (by simp [Item.numerals]))⟩
  | range n m =>
    have first := noComma n (by simp [Item.numerals])
    have second := noComma m (by simp [Item.numerals])
    simp [Item.text, first, second]

theorem splitOn_itemsText (nonempty : items ≠ []) (allows : ∀ item ∈ items, limits.Allows item) :
    (itemsText items).splitOn ',' = items.map Item.text := by
  refine splitOn_intercalate ',' ?_ (by simpa using nonempty)
  intro piece member
  obtain ⟨item, present, rfl⟩ := mem_map.mp member
  exact (Item.text_plain (allows item present).numerals).1

theorem cmdGetRangeValue_items (nonempty : items ≠ []) (allows : ∀ item ∈ items, limits.Allows item)
    (list : List CStr) :
    cmdGetRangeValue ifname (itemsText items) 0 = some list ↔
      (∀ item ∈ items, item.Fits) ∧ list = items.flatMap Item.expansion := by
  have pieces := splitOn_itemsText nonempty allows
  rw [cmdGetRangeValue_eq, pieces]
  · exact appendItems_eq_some_iff allows [] list
  · rw [pieces]
    intro piece member
    obtain ⟨item, present, rfl⟩ := mem_map.mp member
    exact (Item.text_plain (allows item present).numerals).2

theorem HasShape.ne_nil (shape : HasShape type items) : items ≠ [] := by
  cases type with
  | commaOperator => exact shape.1
  | rangeOperator =>
    obtain ⟨n, m, rfl⟩ := shape
    exact cons_ne_nil _ _
  | bothOperator => exact shape

/-- A word denotes its expansion exactly if it is a list of items in range
for which there is room. -/
theorem denotesExpansion_iff :
    DenotesExpansion ifname type limits word ↔
      ∃ items, word = itemsText items ∧ HasShape type items ∧
        ∀ item ∈ items, limits.Allows item ∧ item.Fits := by
  constructor
  · rintro ⟨items, rfl, shape, allows, list, expanded, _, _⟩
    have fits := ((cmdGetRangeValue_items shape.ne_nil allows list).mp expanded).1
    exact ⟨items, rfl, shape, fun item member => ⟨allows item member, fits item member⟩⟩
  · rintro ⟨items, rfl, shape, each⟩
    have allows : ∀ item ∈ items, limits.Allows item := fun item member => (each item member).1
    refine ⟨items, rfl, shape, allows, items.flatMap Item.expansion,
      (cmdGetRangeValue_items shape.ne_nil allows _).mpr
        ⟨fun item member => (each item member).2, rfl⟩, ?_, ?_⟩
    · intro value member
      obtain ⟨item, present, inside⟩ := mem_flatMap.mp member
      exact Item.isNumeral_of_mem_expansion (allows item present).numerals value inside
    · simp [map_flatMap, Item.map_digitsValue_expansion]

/-! ## Accepted words -/

section

variable {uninit : Uninitialised} {limits : Limits} {type : CliIntType} {word : CStr}

section

variable (accepted :
    cmdRangeCommaCliParserValidate uninit (some word) (limits.token type) type = some true)
include accepted

theorem valid_of_accepted : cmdInputCommaStrIsValid type word := by
  rw [validate_token] at accepted
  by_contra invalid
  rw [if_neg invalid] at accepted
  cases accepted

theorem allows_of_accepted (commas : type ≠ .rangeOperator)
    (pieces : word.splitOn ',' = items.map Item.text)
    (numerals : ∀ item ∈ items, ∀ n ∈ item.numerals, isNumeral n) :
    ∀ item ∈ items, limits.Allows item ∧ item.FirstFits := by
  have tokens : strtok word ',' = items.map Item.text := by
    rw [strtok, pieces, filter_eq_self]
    intro piece member
    obtain ⟨item, present, rfl⟩ := mem_map.mp member
    simp [(Item.text_plain (numerals item present)).2]
  have valid := valid_of_accepted accepted
  rw [validate_token, if_pos valid, if_neg commas, tokens] at accepted
  exact allows_of_withinRangeLoop numerals accepted

theorem items_of_accepted (commas : type ≠ .rangeOperator)
    (each : ∀ piece ∈ word.splitOn ',', (∀ part ∈ piece.splitOn '-', isNumeral part) ∧
        (piece.splitOn '-').length ≤ 2) :
    ∃ items, word = itemsText items ∧ items ≠ [] ∧ word.splitOn ',' = items.map Item.text ∧
      ∀ item ∈ items, limits.Allows item ∧ item.FirstFits := by
  obtain ⟨items, pieces, numerals⟩ := exists_items (word.splitOn ',')
    fun piece member => exists_item (each piece member).1 (each piece member).2
  refine ⟨items, ?_, ?_, pieces, allows_of_accepted accepted commas pieces numerals⟩
  · rw [itemsText, ← pieces, intercalate_splitOn]
  · rintro rfl
    exact splitOn_ne_nil _ _ pieces

end

theorem comma_iff (accepted : cmdRangeCommaCliParserValidate uninit (some word)
      (limits.token .commaOperator) .commaOperator = some true) :
    DenotesExpansion ifname .commaOperator limits word ↔
      ExpandsAsRead limits word .commaOperator := by
  have numerals := isNumeral_of_valid (valid_of_accepted accepted)
  rw [splitOnP_comma] at numerals
  have whole : ∀ piece ∈ word.splitOn ',', piece.splitOn '-' = [piece] := by
    intro piece member
    exact splitOn_eq_singleton (not_mem_of_isNumeral (numerals piece member) (by decide))
  rw [denotesExpansion_iff]
  constructor
  · rintro ⟨items, rfl, shape, good⟩ piece member
    rw [splitOn_itemsText shape.1 fun item member => (good item member).1] at member
    obtain ⟨item, present, rfl⟩ := mem_map.mp member
    obtain ⟨n, rfl⟩ := shape.2 item present
    exact (good _ present).2
  · intro short
    obtain ⟨items, text, nonempty, pieces, allows⟩ := items_of_accepted accepted (by decide) (by
        intro piece member
        rw [whole piece member]
        simpa using numerals piece member)
    have number : ∀ item ∈ items, ∃ n, item = .number n := by
      intro item member
      have piece : item.text ∈ word.splitOn ',' := by
        rw [pieces]
        exact mem_map_of_mem member
      cases item with
      | number n => exact ⟨n, rfl⟩
      | range n m =>
        have noDash := not_mem_of_isNumeral (c := '-') (numerals _ piece) (by decide)
        simp [Item.text] at noDash
    refine ⟨items, text, ⟨nonempty, number⟩, ?_⟩
    intro item member
    refine ⟨(allows item member).1, ?_⟩
    obtain ⟨n, rfl⟩ := number item member
    refine short n ?_
    rw [pieces]
    exact mem_map_of_mem (f := Item.text) member

theorem both_iff (accepted : cmdRangeCommaCliParserValidate uninit (some word)
      (limits.token .bothOperator) .bothOperator = some true) :
    DenotesExpansion ifname .bothOperator limits word ↔
      ExpandsAsRead limits word .bothOperator := by
  have numerals := isNumeral_of_valid (valid_of_accepted accepted)
  rw [← splitOn_comma_dash] at numerals
  rw [denotesExpansion_iff]
  constructor
  · rintro ⟨items, rfl, nonempty, good⟩ piece member
    rw [splitOn_itemsText nonempty fun item member => (good item member).1] at member
    obtain ⟨item, present, rfl⟩ := mem_map.mp member
    have parts := Item.text_split (good item present).1.numerals
    have fits := (good item present).2
    rw [parts]
    cases item with
    | number n => exact ⟨by simp [Item.numerals], fun _ => fits⟩
    | range n m =>
      exact ⟨by simp [Item.numerals], fun noDash => absurd (by simp [Item.text]) noDash⟩
  · intro short
    obtain ⟨items, text, nonempty, pieces, allows⟩ :=
      items_of_accepted accepted (by decide) fun piece member =>
        ⟨fun part inside => numerals part (mem_flatMap.mpr ⟨piece, member, inside⟩),
          (short piece member).1⟩
    refine ⟨items, text, nonempty, fun item member => ⟨(allows item member).1, ?_⟩⟩
    have piece : item.text ∈ word.splitOn ',' := by
      rw [pieces]
      exact mem_map_of_mem member
    cases item with
    | number n =>
      have numeral := (allows _ member).1.numerals n (by simp [Item.numerals])
      exact (short _ piece).2 (not_mem_of_isNumeral numeral (by decide))
    | range n m => exact (allows _ member).2

theorem range_iff : DenotesExpansion ifname .rangeOperator limits word ↔
      ExpandsAsRead limits word .rangeOperator := by
  rw [denotesExpansion_iff]
  constructor
  · rintro ⟨items, rfl, ⟨n, m, rfl⟩, good⟩
    obtain ⟨allows, fits⟩ := good _ (mem_singleton_self _)
    exact ⟨n, m, by simp [itemsText, Item.text], allows, fits⟩
  · rintro ⟨n, m, rfl, allows, fits⟩
    refine ⟨[.range n m], by simp [itemsText, Item.text], ⟨n, m, rfl⟩, ?_⟩
    intro item member
    rw [mem_singleton.mp member]
    exact ⟨allows, fits⟩

/-- An accepted word is a list of the operator's shape, in range, and is
expanded to the numbers it denotes, exactly under `ExpandsAsRead`. -/
theorem accepted_denotesExpansion_iff (ifname : CStr → Bool)
    (accepted : cmdRangeCommaCliParserValidate uninit (some word)
      (limits.token type) type = some true) :
    DenotesExpansion ifname type limits word ↔ ExpandsAsRead limits word type := by
  cases type with
  | commaOperator => exact comma_iff accepted
  | rangeOperator => exact range_iff
  | bothOperator => exact both_iff accepted

end

/-- The limits of `<A:1-10>` and `<L:1-10>`. -/
def oneToTen : Limits where
  min := "1"
  max := "10"
  minNumeral := Eq.refl true
  maxNumeral := Eq.refl true
  minLength := (by decide : 1 ≤ decimalStrlenMax)
  maxLength := by decide
  increasing := by decide

/-- Nothing was written to the arrays yet. -/
def zeroed : Uninitialised :=
  ⟨(0, 0), (0, 0)⟩

theorem mixed_list_denotesExpansion : cmdRangeCommaCliParserValidate zeroed (some "1-3,5")
        "<A:1-10>" .bothOperator = some true ∧
      DenotesExpansion (fun _ => false) .bothOperator oneToTen "1-3,5" := by
  have accepted : cmdRangeCommaCliParserValidate zeroed (some "1-3,5")
        (oneToTen.token .bothOperator) .bothOperator = some true := by
    decide
  refine ⟨accepted, (accepted_denotesExpansion_iff _ accepted).mpr ?_⟩
  intro piece member
  have pieces : "1-3,5".toList.splitOn ',' = ["1-3".toList, "5".toList] := by
    decide
  rw [pieces] at member
  revert piece
  decide

/-- The range operator accepts a range outside of the limits. -/
theorem range_outside_limits_accepted : cmdRangeCommaCliParserValidate zeroed (some "20-30")
        "<L:1-10>" .rangeOperator = some true ∧
      ¬ DenotesExpansion (fun _ => false) .rangeOperator oneToTen "20-30" := by
  refine ⟨by decide, ?_⟩
  rw [range_iff]
  rintro ⟨n, m, text, allows, _⟩
  have split := Item.text_split allows.numerals
  rw [Item.text, ← text] at split
  have parts : "20-30".toList.splitOn '-' = ["20".toList, "30".toList] := by
    decide
  obtain rfl : "20" = n := (List.cons.inj (parts.symm.trans split)).1
  have within := allows.within "20" (by simp [Item.numerals])
  exact absurd within.2 (by decide)

end OpsCli.Command.RangeListAgreement
