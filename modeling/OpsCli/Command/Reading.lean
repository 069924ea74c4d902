import OpsCli.Command.Matcher

/-!
# Readings of a command line

A reading says which words of the line each token of a command takes, and
which keyword parts are used in which order.  It mentions neither positions
nor the arguments collected so far.  When the matcher accepts a line, the line
has a reading, and the arguments are those of the reading.
-/

namespace OpsCli.Command.Reading

open CLib.CString Token WordMatch Matcher

/-! ## Offers -/

abbrev Word := Option CStr

/-- A token that matches a word, and how. -/
abbrev Offer := Terminal × MatchType

/-- The tokens among `tokens` that match the word. -/
def offers (env : MatchEnv) (filter : FilterType) (tokens : List Terminal)
    (word : Word) : List Offer :=
  tokens.filterMap fun token =>
    match cmdWordMatch env token filter word with
    | none => none
    | some type => if type = .noMatch then none else some (token, type)

def better (best : Option Offer) (offer : Offer) : Option Offer :=
  match best with
  | none => some offer
  | some old => if old.2 < offer.2 then some offer else some old

/-- The first of the best offers. -/
def bestOffer (list : List Offer) : Option Offer :=
  list.foldl better none

/-- The argument for a multiple: the full text of an abbreviated alternative,
otherwise the word. -/
def offerArg (word : Word) (offer : Offer) : Arg :=
  if offer.2 = .partlyMatch then Arg.ofWord (some offer.1.cmd)
  else Arg.ofWord word

def keywordOffers (env : MatchEnv) (filter : FilterType) (mask : List Nat)
    (word : Word) : Nat → List KeywordPart → List (Nat × Offer)
  | _, [] => []
  | i, part :: rest =>
    (if i ∈ mask then []
      else (offers env filter [part.keyword] word).map (i, ·)) ++
      keywordOffers env filter mask word (i + 1) rest

/-- The keyword that is read: the first of the best offers, unless an offer
ties with the best one before it. -/
def pickKeyword : List (Nat × Offer) → Option Nat → MatchType → Option (Option Nat)
  | [], found, _ => some found
  | (i, offer) :: rest, found, best =>
    if best < offer.2 then pickKeyword rest (some i) offer.2
    else if offer.2 = best then none
    else pickKeyword rest found best

/-! ## Readings -/

inductive ArgReading where
  | terminal (token : Terminal) (word : Word)
  | option (token : Terminal) (word : Word) (arg : Arg)
  | missing (token : Terminal)
  | vararg (token : Terminal) (word : Word) (rest : List Word)
  | multiple (alternatives : List Terminal) (word : Word)
deriving DecidableEq, Repr

/-- The use of a keyword part: its number, the word for the keyword and how
its arguments are read. -/
structure KeywordUse where
  index : Nat
  word : Word
  args : List ArgReading
deriving DecidableEq, Repr

inductive TokenReading where
  | arg (reading : ArgReading)
  | keyword (parts : List KeywordPart) (uses : List KeywordUse)
deriving DecidableEq, Repr

section

variable (env : MatchEnv) (filter : FilterType)

def Matches (token : Terminal) (word : Word) : Prop :=
  ∃ type, cmdWordMatch env token filter word = some type ∧ type ≠ .noMatch

/-- A terminal or a multiple takes words from the front of the line. -/
inductive ReadsArg : KeywordArg → List Word → ArgReading → List Word → Prop where
  | terminal {token : Terminal} {word : Word} {rest : List Word}
      (notVararg : cmdVararg token.cmd = false)
      (notOption : cmdOption token.cmd = false)
      (matched : Matches env filter token word) :
      ReadsArg (.terminal token) (word :: rest) (.terminal token word) rest
  | option {token : Terminal} {word : Word} {arg : Arg} {rest : List Word}
      (option : cmdOption token.cmd)
      (matched : Matches env filter token word) :
      ReadsArg (.terminal token) (word :: rest) (.option token word arg) rest
  | missing {token : Terminal} (option : cmdOption token.cmd) :
      ReadsArg (.terminal token) [] (.missing token) []
  | vararg {token : Terminal} {word : Word} {rest : List Word} (vararg : cmdVararg token.cmd)
      (matched : Matches env filter token word) :
      ReadsArg (.terminal token) (word :: rest) (.vararg token word rest) []
  | multiple {alternatives : List Terminal} {word : Word} {rest : List Word}
      (matched : offers env filter alternatives word ≠ []) :
      ReadsArg (.multiple alternatives) (word :: rest) (.multiple alternatives word) rest

inductive ReadsArgs : List KeywordArg → List Word → List ArgReading → List Word → Prop where
  | nil {words : List Word} : ReadsArgs [] words [] words
  | cons {arg : KeywordArg} {args : List KeywordArg}
      {words middle rest : List Word} {reading : ArgReading}
      {readings : List ArgReading}
      (head : ReadsArg env filter arg words reading middle)
      (tail : ReadsArgs args middle readings rest) :
      ReadsArgs (arg :: args) words (reading :: readings) rest

inductive ReadsUses (parts : List KeywordPart) : List Nat → List Word → List KeywordUse → Prop where
  | done {mask : List Nat} : ReadsUses parts mask [] []
  | use {mask : List Nat} {word : Word} {words rest : List Word} {i : Nat}
      {part : KeywordPart} {args : List ArgReading} {uses : List KeywordUse}
      (picked : pickKeyword (keywordOffers env filter mask word 0 parts) none
        .noMatch = some (some i))
      (found : parts[i]? = some part)
      (reads : ReadsArgs env filter part.args words args rest)
      (tail : ReadsUses parts (i :: mask) rest uses) :
      ReadsUses parts mask (word :: words) (⟨i, word, args⟩ :: uses)

inductive ReadsTokens : List CmdToken → List Word → List TokenReading → Prop where
  | nil : ReadsTokens [] [] []
  | terminal {token : Terminal} {tokens : List CmdToken}
      {words rest : List Word} {reading : ArgReading}
      {readings : List TokenReading}
      (head : ReadsArg env filter (.terminal token) words reading rest)
      (tail : ReadsTokens tokens rest readings) :
      ReadsTokens (.terminal token :: tokens) words (.arg reading :: readings)
  | multiple {alternatives : List Terminal} {tokens : List CmdToken}
      {words rest : List Word} {reading : ArgReading}
      {readings : List TokenReading}
      (head : ReadsArg env filter (.multiple alternatives) words reading rest)
      (tail : ReadsTokens tokens rest readings) :
      ReadsTokens (.multiple alternatives :: tokens) words (.arg reading :: readings)
  | keyword {parts : List KeywordPart} {tokens : List CmdToken}
      {words : List Word} {uses : List KeywordUse}
      {readings : List TokenReading}
      (head : ReadsUses env filter parts [] words uses)
      (tail : ReadsTokens tokens [] readings) :
      ReadsTokens (.keyword parts :: tokens) words (.keyword parts uses :: readings)

end

/-! ## The arguments of a reading -/

/-- The words that are not empty, as arguments. -/
def wordArgs (words : List Word) : List Arg :=
  (words.map Arg.ofWord).filter (· ≠ .null)

def ArgReading.args (env : MatchEnv) (filter : FilterType) : ArgReading → List Arg
  | .terminal token word =>
    if cmdVariable token.cmd then [Arg.ofWord word] else []
  | .option _ _ arg => [arg]
  | .missing _ => []
  | .vararg _ word rest => Arg.ofWord word :: wordArgs rest
  | .multiple alternatives word =>
    ((bestOffer (offers env filter alternatives word)).map (offerArg word)).toList

/-- The arguments of a keyword part; its vector is limited like any other. -/
def KeywordUse.argv (env : MatchEnv) (filter : FilterType) (use : KeywordUse) : List Arg :=
  (use.args.flatMap (ArgReading.args env filter)).take cmdArgcMax

def TokenReading.args (env : MatchEnv) (filter : FilterType) : TokenReading → List Arg
  | .arg reading => reading.args env filter
  | .keyword parts uses =>
    groupArgs parts (uses.map fun use => (use.index, use.argv env filter))

/-! ## The offers of a reading -/

section

variable (env : MatchEnv) (filter : FilterType)

def ArgReading.wordOffers : ArgReading → List (List Offer)
  | .terminal token word => [offers env filter [token] word]
  | .option token _ _ => [[(token, .extendMatch)]]
  | .missing _ => []
  | .vararg token word rest =>
    offers env filter [token] word :: rest.map fun _ => []
  | .multiple alternatives word => [offers env filter alternatives word]

def usesOffers (parts : List KeywordPart) : List Nat → List KeywordUse → List (List Offer)
  | _, [] => []
  | mask, use :: rest =>
    (keywordOffers env filter mask use.word 0 parts).map Prod.snd ::
      use.args.flatMap (ArgReading.wordOffers env filter) ++
      usesOffers parts (use.index :: mask) rest

def TokenReading.wordOffers : TokenReading → List (List Offer)
  | .arg reading => reading.wordOffers env filter
  | .keyword parts uses => usesOffers env filter parts [] uses

end

end OpsCli.Command.Reading
