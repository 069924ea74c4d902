import OpsCli.CLib.CString

/-!
# Lists of numbers as arguments

The tokens `<C:min-max>`, `<L:min-max>` and `<A:min-max>` take a list of
numbers: separated by commas, one range, or both.  A word is checked by
`cmd_range_comma_cli_parser_validate` when the command is matched, and
expanded by `cmd_get_range_value` when it is executed.  The two scan the word
independently.

A result `none` is undefined behaviour: a write past the end of a buffer, a
null pointer that is dereferenced, a loop that does not end.
-/

namespace OpsCli.Command.RangeList

open CLib.CString

/-- `DECIMAL_STRLEN_MAX`. -/
def decimalStrlenMax : Nat := 10

/-- `enum cli_int_type`. -/
inductive CliIntType where
  | commaOperator
  | rangeOperator
  | bothOperator
deriving DecidableEq, Repr

/-! ## Validation -/

/-- `get_list_value`: the status and the contents of `num_range`.  The buffer
for the first number has room for ten characters. -/
def getListValue (str : CStr) (numRange : Nat × Nat) : Option (Bool × Nat × Nat) :=
  match strchr str '-' with
  | none => some (false, numRange)
  | some (before, after) =>
    if decimalStrlenMax < before.length then none
    else if (strtoul before).2 ≠ [] then some (false, numRange)
    else if after = [] then some (false, numRange)
    else if (strtoul after).2 ≠ [] then some (false, numRange)
    else
      some (decide ((strtoul before).1 < (strtoul after).1), (strtoul before).1, (strtoul after).1)

def isSeparator (type : CliIntType) (c : Char) : Bool :=
  type = .bothOperator && (c = ',' || c = '-') ||
    type = .commaOperator && c = ',' || type = .rangeOperator && c = '-'

/-- The loop of `cmd_input_comma_str_is_valid`. -/
def commaStrScan (type : CliIntType) : CStr → Bool
  | [] => true
  | [c] => !isSeparator type c && isdigit c
  | c :: d :: rest =>
    if isSeparator type c then
      if isdigit d then commaStrScan type rest else false
    else if isdigit c then commaStrScan type (d :: rest)
    else false

/-- `cmd_input_comma_str_is_valid` on a string that is not null; true is
`COMMA_STR_VALID`. -/
def cmdInputCommaStrIsValid (type : CliIntType) : CStr → Bool
  | [] => false
  | c :: rest =>
    if !isdigit c then false
    else if rest = [] && type = .rangeOperator then false
    else commaStrScan type rest

/-- What the arrays `min_max` and `temp_min_max` hold before they are
written. -/
structure Uninitialised where
  minMax : Nat × Nat
  tempMinMax : Nat × Nat

/-- A number is outside of the limits. -/
def outside (minMax : Nat × Nat) (value : Nat) : Bool :=
  value < minMax.1 || minMax.2 < value

/-- The loop of `cmd_input_is_within_range` over the tokens of the input. -/
def withinRangeLoop (minMax : Nat × Nat) : Nat × Nat → List CStr → Option Bool
  | _, [] => some true
  | temp, tmp :: rest =>
    if '-' ∈ tmp then
      match getListValue tmp temp with
      | none => none
      | some (_, temp) =>
        if outside minMax temp.1 then some false
        else if outside minMax temp.2 then some false
        else if temp.2 ≤ temp.1 then some false
        else withinRangeLoop minMax temp rest
    else if (strtoul tmp).2 ≠ [] then some false
    else if outside minMax (strtoul tmp).1 then some false
    else withinRangeLoop minMax temp rest

/-- The text of the limits: from the first `<` to the first `>`. -/
def limitsText (range : CStr) : Option CStr :=
  match strchr range '<', strchr range '>' with
  | some (before, after), some _ =>
    some (if '>' ∈ before then after else after.takeWhile (· ≠ '>'))
  | _, _ => none

/-- `cmd_input_is_within_range` on strings that are not null; `range` is
`none` when the text is not terminated. -/
def cmdInputIsWithinRange (uninit : Uninitialised) (str : CStr)
    (range : Option CStr) : Option Bool :=
  match range.bind limitsText with
  | none => none
  | some limits =>
    match getListValue limits uninit.minMax with
    | none => none
    | some (_, minMax) =>
      withinRangeLoop minMax uninit.tempMinMax (strtok str ',')

/-- `cmd_input_range_match`. -/
def cmdInputRangeMatch (uninit : Uninitialised) (range str : Option CStr)
    (type : CliIntType) : Option Bool :=
  match str with
  | none => some true
  | some str =>
    if cmdInputCommaStrIsValid type str then
      if type = .commaOperator || type = .bothOperator then
        cmdInputIsWithinRange uninit str range
      else some true
    else some false

/-- `cmd_range_comma_cli_parser_validate`: the third character of a copy of
`dst` becomes the `<` of the limits.  A caller that passes `match` counts the
word when the result is true. -/
def cmdRangeCommaCliParserValidate (uninit : Uninitialised) (src : Option CStr) (dst : CStr)
    (type : CliIntType) : Option Bool :=
  if dst.length < 2 then none
  else
    cmdInputRangeMatch uninit (if dst.length = 2 then none else some ('<' :: dst.drop 3)) src type

/-! ## Expansion -/

/-- `cmd_insert_value_list`; a node has room for ten characters. -/
def cmdInsertValueList (node : List CStr) (str : CStr) : Option (List CStr) :=
  if decimalStrlenMax < str.length then none else some (node ++ [str])

/-- `cmd_get_list_from_range_str`; `ifname` says which words
`cmd_ifname_match` accepts. -/
def cmdGetListFromRangeStr (ifname : CStr → Bool) (str : CStr)
    (flagIntf : Int) : Option (List CStr) :=
  if '-' ∈ str then
    if flagIntf = 1 && ifname str then cmdInsertValueList [] str
    else
      match getListValue str (0, 0) with
      | none => none
      | some (false, _) => some []
      | some (true, start, stop) =>
        if stop = ulongMax then none
        else
          (List.range' start (stop + 1 - start)).foldlM (fun node i => cmdInsertValueList node
              ((decimal i).take decimalStrlenMax)) []
  else some []

def appendItem (ifname : CStr → Bool) (flagIntf : Int)
    (node : List CStr) (tmp : CStr) : Option (List CStr) :=
  if '-' ∈ tmp then
    (cmdGetListFromRangeStr ifname tmp flagIntf).map (node ++ ·)
  else cmdInsertValueList node tmp

/-- `cmd_get_range_value`. -/
def cmdGetRangeValue (ifname : CStr → Bool) (value : CStr) (flagIntf : Int) : Option (List CStr) :=
  if ',' ∈ value then
    (strtok value ',').foldlM (appendItem ifname flagIntf) []
  else appendItem ifname flagIntf [] value

end OpsCli.Command.RangeList
