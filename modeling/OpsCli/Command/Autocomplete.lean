import OpsCli.Command.Matcher

/-!
# The completed text of a command

`autocomplete_command_tokens` goes over the line once more and writes every
word, or the text of the token behind it, into the record of the command.  Its
pointer `cmd_token` is moved while a word is compared and keeps its place from
one word to the next.
-/

namespace OpsCli.Command.Autocomplete

open CLib.CString Token WordMatch

/-- The pointer `cmd_token`, the buffer and the words from
`matcher.word_index` on. -/
structure Completion where
  cmdToken : Option CStr
  cmdString : CStr
  words : List (Option CStr)
deriving DecidableEq, Repr

/-- The comparison of the word with the text at `cmd_token`: the flag, and
what the pointer is left at. -/
def advance : CStr → CStr → Bool × CStr
  | [], token => (true, token)
  | _ :: _, [] => (false, [])
  | c :: word, d :: token =>
    if c = d then advance word token else (false, d :: token)

/-- The pointer is at the text `alias`. -/
def atAlias (cmdToken : Option CStr) : Bool :=
  cmdToken = some "alias".toList

/-- The code behind the label `JUMP`, for a word that is not skipped.  A null
pointer is dereferenced or handed to `strcat`. -/
def completeWord (cmdToken : Option CStr) (cmdString : CStr) (word : Option CStr)
    (words : List (Option CStr)) : Option Completion :=
  match cmdToken, word with
  | some token, some text =>
    let compared := advance text token
    some { cmdToken := some compared.2
           cmdString := cmdString ++ (if compared.1 then token else text) ++ [' ']
           words }
  | _, _ => none

/-- The loop over alternatives or keywords: the last one that matches stays
in `cmd_token`. -/
def lastMatch (env : MatchEnv) (word : Option CStr) :
    List Terminal → Option CStr → Option (Option CStr)
  | [], cmdToken => some cmdToken
  | token :: rest, cmdToken =>
    match cmdWordMatch env token .relaxed word with
    | none => none
    | some type =>
      lastMatch env word rest (if type = .noMatch then cmdToken else some token.cmd)

/-- One word: nothing is written once the pointer is at `alias`. -/
def jump (cmdToken : Option CStr) (cmdString : CStr) (word : Option CStr)
    (words : List (Option CStr)) : Option Completion :=
  if atAlias cmdToken then some ⟨cmdToken, cmdString, word :: words⟩
  else completeWord cmdToken cmdString word words

/-- The loop of a keyword token, which takes every word that is left. -/
def keywordLoop (env : MatchEnv) (keywords : List Terminal) :
    List (Option CStr) → Option CStr → CStr → Option Completion
  | [], cmdToken, cmdString => some ⟨cmdToken, cmdString, []⟩
  | word :: words, cmdToken, cmdString =>
    match lastMatch env word keywords cmdToken with
    | none => none
    | some cmdToken =>
      if atAlias cmdToken then some ⟨cmdToken, cmdString, word :: words⟩
      else
        match completeWord cmdToken cmdString word words with
        | none => none
        | some next =>
          keywordLoop env keywords words next.cmdToken next.cmdString

/-- The `switch` over the type of a token. -/
def completeToken (env : MatchEnv) (token : CmdToken) (state : Completion) : Option Completion :=
  match token, state.words with
  | .terminal _, [] => some state
  | .multiple _, [] => some state
  | .terminal terminal, word :: words =>
    jump (some terminal.cmd) state.cmdString word words
  | .multiple alternatives, word :: words =>
    match lastMatch env word alternatives state.cmdToken with
    | none => none
    | some cmdToken => jump cmdToken state.cmdString word words
  | .keyword parts, words =>
    keywordLoop env (parts.map KeywordPart.keyword) words state.cmdToken state.cmdString

def completeTokens (env : MatchEnv) : List CmdToken → Completion → Option Completion
  | [], state => some state
  | token :: tokens, state =>
    match completeToken env token state with
    | none => none
    | some next =>
      if atAlias next.cmdToken then some next
      else completeTokens env tokens next

def appendWords : List (Option CStr) → CStr → Option CStr
  | [], cmdString => some cmdString
  | none :: _, _ => none
  | some word :: words, cmdString =>
    appendWords words (cmdString ++ word ++ [' '])

/-- `autocomplete_command_tokens` for an element with these tokens. -/
def autocompleteCommandTokens (env : MatchEnv) (tokens : List CmdToken) (vline : List (Option CStr))
    (cmdString : CStr) : Option CStr :=
  match completeTokens env tokens ⟨none, cmdString, vline⟩ with
  | none => none
  | some state =>
    match state.cmdToken with
    | none => none
    | some cmdToken =>
      if cmdToken = ".LINE" then
        appendWords state.words state.cmdString
      else some state.cmdString

end OpsCli.Command.Autocomplete
