import OpsCli.Command.Format.Parser

/-!
# The documented grammar of command formats

`command.h` documents the command string of `DEFUN` by a grammar.  This module
states that grammar as data types: a value is a derivation, `text` is the
string it derives, and `tokens` is the token tree the derivation stands for.

Description and callback strings are handed out in reading order, one to each
terminal; the form `(x|)` uses up one more description.
-/

namespace OpsCli.Command.Format.Grammar

open CLib.CString Token Format.Parser

/-! ## Words -/

/-- `lowercase`. -/
def isLowercase (c : Char) : Bool :=
  'a' ≤ c && c ≤ 'z'

/-- `uppercase`. -/
def isUppercase (c : Char) : Bool :=
  'A' ≤ c && c ≤ 'Z'

/-- `fixed_string`. -/
def isFixedString : CStr → Bool
  | [] => false
  | head :: tail =>
    (isLowercase head || isdigit head) && tail.all fun c =>
        isLowercase c || isdigit c || isUppercase c || c = '-' || c = '_'

/-- `variable`. -/
def isVariable : CStr → Bool
  | [] => false
  | head :: tail =>
    isUppercase head && tail.all fun c => isUppercase c || c = '_'

structure FixedString where
  text : CStr
  valid : isFixedString text

structure VariableName where
  text : CStr
  valid : isVariable text

structure Number where
  text : CStr
  valid : isNumeral text

/-- `cmd_terminal_fixed`. -/
inductive TerminalFixed where
  | fixedString (string : FixedString)
  | variableName (name : VariableName)
  | range (min max : Number)
  | ipv4
  | ipv4Prefix
  | ipv4Netmask
  | ipv6
  | ipv6Prefix

/-- `cmd_terminal`. -/
inductive Terminal where
  | fixed (terminal : TerminalFixed)
  | option (name : VariableName)
  | vararg (name : VariableName)

def TerminalFixed.text : TerminalFixed → CStr
  | .fixedString string => string.text
  | .variableName name => name.text
  | .range min max => '<' :: min.text ++ '-' :: max.text ++ ['>']
  | .ipv4 => "A.B.C.D"
  | .ipv4Prefix => "A.B.C.D/M"
  | .ipv4Netmask => "A.B.C.D/W.X.Y.Z"
  | .ipv6 => "X:X::X:X"
  | .ipv6Prefix => "X:X::X:X/M"

def Terminal.text : Terminal → CStr
  | .fixed word => word.text
  | .option name => '[' :: name.text ++ [']']
  | .vararg name => '.' :: name.text

/-! ## Groups and command strings -/

/-- `cmd_multiple`: one alternative and a bare `|`, or all alternatives. -/
inductive Multiple where
  | trailing (alternative : TerminalFixed)
  | alternatives (first : TerminalFixed) (rest : List TerminalFixed)

/-- What may follow the fixed string of a `keyword_part`. -/
inductive PartItem where
  | terminal (terminal : TerminalFixed)
  | multiple (multiple : Multiple)

/-- `keyword_part`. -/
structure Part where
  keyword : FixedString
  items : List PartItem

/-- `cmd_token`; a `cmd_keyword` is a non-empty list of parts. -/
inductive Token where
  | terminal (terminal : Terminal)
  | multiple (multiple : Multiple)
  | keyword (first : Part) (rest : List Part)

/-- `cmdstr`. -/
structure CmdStr where
  first : Token
  rest : List Token

def CmdStr.all (cmdstr : CmdStr) : List Token :=
  cmdstr.first :: cmdstr.rest

def Multiple.words : Multiple → List CStr
  | .trailing alternative => [alternative.text]
  | .alternatives first rest => first.text :: rest.map TerminalFixed.text

/-- Each word preceded by a `|`. -/
def barred : List CStr → CStr
  | [] => []
  | word :: rest => '|' :: word ++ barred rest

def Multiple.text : Multiple → CStr
  | .trailing alternative => '(' :: alternative.text ++ ['|', ')']
  | .alternatives first rest =>
    '(' :: first.text ++ barred (rest.map TerminalFixed.text) ++ [')']

def PartItem.text : PartItem → CStr
  | .terminal word => word.text
  | .multiple group => group.text

def itemsText : List PartItem → CStr
  | [] => []
  | item :: rest => ' ' :: item.text ++ itemsText rest

def Part.text (part : Part) : CStr :=
  part.keyword.text ++ itemsText part.items

/-- Keyword parts, each preceded by a `|`. -/
def partsText : List Part → CStr
  | [] => []
  | part :: rest => '|' :: part.text ++ partsText rest

def Token.text : Token → CStr
  | .terminal word => word.text
  | .multiple group => group.text
  | .keyword first rest => '\x7b' :: first.text ++ partsText rest ++ ['\x7d']

def tokensText : List Token → CStr
  | [] => []
  | token :: rest => ' ' :: token.text ++ tokensText rest

def CmdStr.text (cmdstr : CmdStr) : CStr :=
  cmdstr.first.text ++ tokensText cmdstr.rest

/-! ## The token tree of a derivation -/

/-- The help strings that are still to be handed out. -/
structure Help where
  desc : Option CStr
  dynCb : Option CStr

/-- A terminal takes the next description and the next callback name. -/
def Help.terminal (help : Help) (cmd : CStr) : Token.Terminal :=
  ⟨cmd, (formatParserDescStr help.desc).1, (formatParserDynCbStr help.dynCb).1⟩

/-- The help strings after one terminal. -/
def Help.next (help : Help) : Help :=
  ⟨(formatParserDescStr help.desc).2, (formatParserDynCbStr help.dynCb).2⟩

/-- The help strings after the empty alternative of `(x|)`. -/
def Help.dropDesc (help : Help) : Help :=
  { help with desc := (formatParserDescStr help.desc).2 }

def terminals : List CStr → Help → List Token.Terminal × Help
  | [], help => ([], help)
  | word :: rest, help =>
    let tail := terminals rest help.next
    (help.terminal word :: tail.1, tail.2)

def Multiple.terminals (multiple : Multiple) (help : Help) : List Token.Terminal × Help :=
  match multiple with
  | .trailing alternative =>
    ([help.terminal alternative.text], help.next.dropDesc)
  | .alternatives _ _ => Grammar.terminals multiple.words help

def itemArgs : List PartItem → Help → List KeywordArg × Help
  | [], help => ([], help)
  | .terminal word :: rest, help =>
    let tail := itemArgs rest help.next
    (.terminal (help.terminal word.text) :: tail.1, tail.2)
  | .multiple group :: rest, help =>
    let head := group.terminals help
    let tail := itemArgs rest head.2
    (.multiple head.1 :: tail.1, tail.2)

def Part.tokenPart (part : Part) (help : Help) : KeywordPart × Help :=
  let args := itemArgs part.items help.next
  (⟨help.terminal part.keyword.text, args.1⟩, args.2)

def tokenParts : List Part → Help → List KeywordPart × Help
  | [], help => ([], help)
  | part :: rest, help =>
    let head := part.tokenPart help
    let tail := tokenParts rest head.2
    (head.1 :: tail.1, tail.2)

def Token.cmdToken (token : Token) (help : Help) : CmdToken × Help :=
  match token with
  | .terminal word => (.terminal (help.terminal word.text), help.next)
  | .multiple group =>
    let alternatives := group.terminals help
    (.multiple alternatives.1, alternatives.2)
  | .keyword first rest =>
    let parts := tokenParts (first :: rest) help
    (.keyword parts.1, parts.2)

def cmdTokens : List Token → Help → List CmdToken × Help
  | [], help => ([], help)
  | token :: rest, help =>
    let head := token.cmdToken help
    let tail := cmdTokens rest head.2
    (head.1 :: tail.1, tail.2)

/-- The token tree of a command string with its help strings. -/
def CmdStr.tokens (cmdstr : CmdStr) (descstr dynCbStr : Option CStr) : List CmdToken :=
  (cmdTokens cmdstr.all ⟨descstr, dynCbStr⟩).1

end OpsCli.Command.Format.Grammar
