import OpsCli.CLib.VectorHeap
import OpsCli.Command.Token

/-!
# The command format parser

`cmd_parse_format` reads a command format character by character and builds
the token vectors of the command.  It keeps a pointer to the vector that
takes the next token (`curvect`) and a second pointer (`intvect`) to the
vector to go back to after a multiple inside a keyword part.

Vectors are mutable and shared through pointers, so the model keeps them in a
heap and the parser state holds references.  A call of `format_parser_error`
leaves the program and is an error with its message and offset; so is a null
pointer dereference.
-/

namespace OpsCli.Command.Format.Parser

open CLib CString VectorHeap Token

/-! ## Parser state -/

/--
What one slot of a token vector points to: a token of one of the three types,
or, in the `keyword` vector of a keyword token, the vector of one part.
-/
inductive Cell where
  | terminal (token : Terminal)
  | multiple (multiple : Nat)
  | keyword (keyword : Nat)
  | part (vector : Nat)
deriving DecidableEq, Repr

inductive FormatError where
  | reported (message : String) (offset : Nat)
  | nullDereference
deriving DecidableEq, Repr

/-- `struct format_parser_state`, with the vectors it points to. -/
structure FormatParserState where
  heap : Heap Cell
  topvect : Nat
  intvect : Option Nat
  curvect : Nat
  string : CStr
  cp : CStr
  dp : Option CStr
  dynCbp : Option CStr
  inKeyword : Nat
  inMultiple : Bool
  justReadWord : Bool
deriving DecidableEq, Repr

/-- `format_parser_error`: report the message at the current offset. -/
def formatParserError {α : Type} (state : FormatParserState)
    (message : String) : Except FormatError α :=
  .error (.reported message (state.string.length - state.cp.length + 1))

/-! ## Description and callback strings -/

/-- A character that ends a description line. -/
def isLineEnd (c : Char) : Bool :=
  c = '\r' || c = '\n'

/-- `format_parser_desc_str`: the next description line and the new `dp`. -/
def formatParserDescStr : Option CStr → Option CStr × Option CStr
  | none => (none, none)
  | some dp =>
    let start := dp.dropWhile isspace
    if start.isEmpty then
      (none, some dp)
    else
      (some (start.takeWhile (!isLineEnd ·)), some (start.dropWhile (!isLineEnd ·)))

/-- `format_parser_dyn_cb_str`: the next callback name and the new `dyn_cbp`. -/
def formatParserDynCbStr : Option CStr → Option CStr × Option CStr
  | none => (none, none)
  | some dynCbp =>
    let start := dynCbp.dropWhile (· = ' ')
    if start.isEmpty then
      (none, some dynCbp)
    else
      let token := start.takeWhile (!isLineEnd ·)
      let cp := start.dropWhile (!isLineEnd ·)
      (if token.isEmpty then none else some token,
        some (if cp.head? = some '\n' then cp.tail else cp))

/-! ## Parser actions -/

variable (state : FormatParserState)

/-- `format_parser_begin_keyword`. -/
def formatParserBeginKeyword : Except FormatError FormatParserState :=
  if state.inKeyword ≠ 0 || state.inMultiple then
    formatParserError state "Unexpected '\x7b'"
  else
    let keyword := state.heap.length
    let keywordVect := keyword + 1
    let heap := push (alloc (alloc state.heap)) keyword (.part keywordVect)
    .ok
      { state with
        cp := state.cp.tail
        inKeyword := 1
        heap := push heap state.curvect (.keyword keyword)
        curvect := keywordVect }

/-- `format_parser_begin_multiple`. -/
def formatParserBeginMultiple : Except FormatError FormatParserState :=
  if state.inKeyword = 1 then
    formatParserError state "Keyword starting with '('"
  else if state.inMultiple then
    formatParserError state "Nested group"
  else
    let multiple := state.heap.length
    .ok
      { state with
        cp := state.cp.tail
        inMultiple := true
        justReadWord := false
        heap := push (alloc state.heap) state.curvect (.multiple multiple)
        intvect :=
          if state.curvect ≠ state.topvect then some state.curvect
          else state.intvect
        curvect := multiple }

/-- `format_parser_end_keyword`. -/
def formatParserEndKeyword : Except FormatError FormatParserState :=
  if state.inMultiple || state.inKeyword = 0 then
    formatParserError state "Unexpected '\x7d'"
  else if state.inKeyword = 1 then
    formatParserError state "Empty keyword group"
  else
    .ok
      { state with
        cp := state.cp.tail
        inKeyword := 0
        curvect := state.topvect }

/-- `format_parser_end_multiple`. -/
def formatParserEndMultiple : Except FormatError FormatParserState :=
  if !state.inMultiple then
    formatParserError state "Unepexted ')'"
  else if (state.heap.getD state.curvect []).isEmpty then
    formatParserError state "Empty multiple section"
  else
    .ok
      { state with
        dp :=
          if state.justReadWord then state.dp
          else (formatParserDescStr state.dp).2
        cp := state.cp.tail
        inMultiple := false
        curvect := state.intvect.getD state.topvect }

/--
`format_parser_handle_pipe`.  Inside a keyword group the new part goes to the
last token of the top level vector, whatever that token is.
-/
def formatParserHandlePipe : Except FormatError FormatParserState :=
  if state.inMultiple then
    .ok { state with justReadWord := false, cp := state.cp.tail }
  else if state.inKeyword ≠ 0 then
    match (state.heap.getD state.topvect []).getLast? with
    | some (.keyword keyword) =>
      let keywordVect := state.heap.length
      .ok
        { state with
          inKeyword := 1
          cp := state.cp.tail
          heap := push (alloc state.heap) keyword (.part keywordVect)
          curvect := keywordVect }
    | _ => .error .nullDereference
  else
    formatParserError state "Unexpected '|'"

/-- A character that `format_parser_read_word` takes into the word. -/
def isWordChar (c : Char) : Bool :=
  !("\r\n()\x7b\x7d|".toList.contains c) && !isspace c

/-- `format_parser_read_word`. -/
def formatParserReadWord : FormatParserState :=
  let cmd := state.cp.takeWhile isWordChar
  let desc := formatParserDescStr state.dp
  let dynCb := formatParserDynCbStr state.dynCbp
  { state with
    cp := state.cp.dropWhile isWordChar
    dp := desc.2
    dynCbp := dynCb.2
    heap := push state.heap state.curvect (.terminal ⟨cmd, desc.1, dynCb.1⟩)
    inKeyword := if state.inKeyword = 1 then 2 else state.inKeyword
    justReadWord := true }

/-- The `switch` of `cmd_parse_format` on a character that is not a space. -/
def formatParserDispatch (c : Char) (state : FormatParserState) :
    Except FormatError FormatParserState :=
  if c = '\x7b' then formatParserBeginKeyword state
  else if c = '(' then formatParserBeginMultiple state
  else if c = '\x7d' then formatParserEndKeyword state
  else if c = ')' then formatParserEndMultiple state
  else if c = '|' then formatParserHandlePipe state
  else .ok (formatParserReadWord state)

/--
The loop of `cmd_parse_format`.  Every round consumes a character, so a fuel
above the length of the remaining text is never used up.
-/
def cmdParseFormatLoop : Nat → FormatParserState → Except FormatError FormatParserState
  | 0, _ => .error .nullDereference
  | fuel + 1, state =>
    match state.cp.dropWhile isspace with
    | [] =>
      let state := { state with cp := [] }
      if state.inKeyword ≠ 0 || state.inMultiple then
        formatParserError state "Unclosed group/keyword"
      else
        .ok state
    | c :: rest =>
      match formatParserDispatch c { state with cp := c :: rest } with
      | .error error => .error error
      | .ok next => cmdParseFormatLoop fuel next

def formatParserInit (string : CStr) (descstr dynCbStr : Option CStr) : FormatParserState where
  heap := alloc []
  topvect := 0
  intvect := none
  curvect := 0
  string := string
  cp := string
  dp := descstr
  dynCbp := dynCbStr
  inKeyword := 0
  inMultiple := false
  justReadWord := false

/-- A vector of tokens together with the vectors its tokens point to. -/
structure TokenVector where
  heap : Heap Cell
  vector : Nat
deriving DecidableEq, Repr

/-- `cmd_parse_format` on a format that is not null. -/
def cmdParseFormat (string : CStr) (descstr dynCbStr : Option CStr) :
    Except FormatError TokenVector :=
  match cmdParseFormatLoop (string.length + 1) (formatParserInit string descstr dynCbStr) with
  | .error error => .error error
  | .ok state => .ok ⟨state.heap, state.topvect⟩

/-! ## The token tree behind a vector -/

def Cell.terminal? : Cell → Option Terminal
  | .terminal token => some token
  | _ => none

def readTerminals (heap : Heap Cell) (vector : Nat) : Option (List Terminal) :=
  (heap[vector]?).bind fun cells => cells.mapM Cell.terminal?

def readKeywordArg (heap : Heap Cell) : Cell → Option KeywordArg
  | .terminal token => some (.terminal token)
  | .multiple vector => (readTerminals heap vector).map .multiple
  | _ => none

def readKeywordPart (heap : Heap Cell) : Cell → Option KeywordPart
  | .part vector =>
    match heap[vector]? with
    | some (.terminal keyword :: args) =>
      (args.mapM (readKeywordArg heap)).map (⟨keyword, ·⟩)
    | _ => none
  | _ => none

def readToken (heap : Heap Cell) : Cell → Option CmdToken
  | .terminal token => some (.terminal token)
  | .multiple vector => (readTerminals heap vector).map .multiple
  | .keyword vector =>
    (heap[vector]?).bind fun cells => (cells.mapM (readKeywordPart heap)).map .keyword
  | .part _ => none

def TokenVector.tokens (tokens : TokenVector) : Option (List CmdToken) :=
  (tokens.heap[tokens.vector]?).bind fun cells => cells.mapM (readToken tokens.heap)

end OpsCli.Command.Format.Parser
