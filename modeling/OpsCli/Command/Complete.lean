import OpsCli.CLib.CommonPrefix
import OpsCli.CLib.Qsort
import OpsCli.Command.Selection

/-!
# Completion of a line

`cmd_complete_command_real` collects the fixed words that may stand at the
last word of a line and begin with it.  The words before the last one filter
the commands of the node; a vararg does not end this loop, and the answer two
of `is_cmd_ambiguous` is not looked at.
-/

namespace OpsCli.Command.Complete

open CLib CString Qsort CommonPrefix Token WordMatch Selection

/-! ## The filter loop -/

/-- The commands that `is_cmd_ambiguous` leaves when it returns two: from the
incomplete token on it has not touched them. -/
def incompleteLeft (env : MatchEnv) (type : MatchType) (command : CStr) :
    List Slot → Option CStr → List (Option CmdElement)
  | [], _ => []
  | slot :: rest, matched =>
    match slot.matched with
    | none => slot.command :: incompleteLeft env type command rest matched
    | some tokens =>
      match judgeTokens env type command tokens 0 matched with
      | some (.done count matched) =>
        (if count = 0 then none else slot.command) :: incompleteLeft env type command rest matched
      | _ => slot.command :: rest.map Slot.command

/-- How the rounds end: with a status, or with the filter at the last word,
before which `commands` were left. -/
inductive Finish where
  | stopped (status : CmdStatus) (szToken : CStr)
  | last (commands : List (Option CmdElement)) (next : FilterOutcome)
deriving DecidableEq, Repr

/-- The loop over the words of the line; an empty line has no match. -/
def completeRounds (env : MatchEnv) (vline : List (Option CStr)) :
    Nat → List (Option CStr) → List (Option CmdElement) → CStr → Option Finish
  | _, [], _, szToken => some (.stopped .errNoMatch szToken)
  | index, word :: words, commands, szToken =>
    match cmdVectorFilter ⟨env, .relaxed, vline, some index⟩ commands .noMatch szToken with
    | none => none
    | some next =>
      if next.status ≠ .success then
        some (.stopped next.status next.szToken)
      else if words = [] then some (.last commands next)
      else
        match isCmdAmbiguous env next.matchType (word.getD []) next.slots none with
        | none => none
        | some .ambiguous => some (.stopped .errAmbiguous next.szToken)
        | some .incomplete =>
          completeRounds env vline (index + 1) words
            (incompleteLeft env next.matchType (word.getD []) next.slots none) next.szToken
        | some (.left commands) =>
          completeRounds env vline (index + 1) words commands next.szToken

/-! ## The collected words -/

/-- `cmd_entry_function`: whether the token `dst` completes the word `src`. -/
def cmdEntryFunction (src : Option CStr) (dst : CStr) : Bool :=
  !(cmdOption dst || cmdVariable dst || cmdVararg dst || cmdIpv4 dst ||
      cmdIpv4Prefix dst || cmdRange dst) &&
    src.all (·.isPrefixOf dst)

/-- `cmd_unique_string`: the text is not in the vector. -/
def cmdUniqueString (matchvec : List CStr) (str : CStr) : Bool :=
  matchvec.all (· ≠ str)

/-- One round of the loop that collects the words. -/
def collect (word : Option CStr) (matchvec : List CStr) (token : Terminal) : List CStr :=
  if cmdEntryFunction word token.cmd && cmdUniqueString matchvec token.cmd
  then matchvec ++ [token.cmd]
  else matchvec

/-- `cmd_lcd`: what all words share, found by comparing neighbours. -/
def cmdLcd : List CStr → Nat
  | [] => 0
  | [_] => 0
  | first :: second :: rest =>
    chainLength second rest (commonLength first second)

/-- `cmd_complete_cmp`: the null pointer comes last. -/
def cmdCompleteCmp : Option CStr → Option CStr → Int
  | none, none => 0
  | none, some _ => 1
  | some _, none => -1
  | some first, some second => strcmp first second

/-- The strings of an array that ends with a null pointer. -/
def readStrings : List (Option CStr) → List CStr
  | [] => []
  | none :: _ => []
  | some str :: rest => str :: readStrings rest

inductive Completed where
  | refused (status : CmdStatus)
  | strings (status : CmdStatus) (list : List CStr)
deriving DecidableEq, Repr

def completeStrings (qsort : Sorter (Option CStr)) (word : Option CStr)
    (matchvec : List CStr) : Completed :=
  match matchvec with
  | [] => .refused (if word = none then .errNothingTodo else .errNoMatch)
  | [single] => .strings .completeFullMatch [single]
  | first :: second :: rest =>
    let lcd := cmdLcd (first :: second :: rest)
    if word.any fun text => lcd ≠ 0 && text.length < lcd then
      .strings .completeMatch [first.take lcd]
    else
      .strings .completeListMatch (readStrings (qsort.sort cmdCompleteCmp
        ((first :: second :: rest).map some ++ [none])))

/-- `cmd_complete_command_real`, with the static buffer before and after. -/
def cmdCompleteCommandReal (qsort : Sorter (Option CStr)) (env : MatchEnv)
    (vline : List (Option CStr)) (commands : List CmdElement)
    (szToken : CStr) : Option (Completed × CStr) :=
  match completeRounds env vline 0 vline (commands.map some) szToken with
  | none => none
  | some (.stopped status szToken) => some (.refused status, szToken)
  | some (.last _ next) =>
    some (completeStrings qsort (vline.getLast?.getD none)
      ((next.slots.flatMap (·.matched.getD [])).foldl
        (collect (vline.getLast?.getD none)) []), next.szToken)

end OpsCli.Command.Complete
