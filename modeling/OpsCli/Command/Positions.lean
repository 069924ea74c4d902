import Mathlib.Algebra.Order.BigOperators.Group.List
import Mathlib.Algebra.Order.Ring.Nat
import OpsCli.Command.Binding
import OpsCli.Command.Execute
import OpsCli.Command.Origin

/-!
# The positions of arguments

A command without options and varargs has a fixed number of argument slots.
Every slot belongs to a token of the command, and an accepted line fills it
with the word that the token took, with the full text of an abbreviated
alternative or of a keyword, or with null where the keyword part of the slot
is not used.
-/

namespace OpsCli.Command.Positions

open CLib.CString Token WordMatch Matcher Selection Execute Reading Acceptance
  Binding Choice Origin List

/-! ## Slots -/

def argSlots : KeywordArg → Nat
  | .terminal token => if cmdVariable token.cmd then 1 else 0
  | .multiple _ => 1

def argsSlots (args : List KeywordArg) : Nat :=
  (args.map argSlots).sum

/-- The slots of a keyword part; a keyword without arguments has one itself. -/
def partSlots (part : KeywordPart) : Nat :=
  if part.args = [] then 1 else argsSlots part.args

def tokenSlots : CmdToken → Nat
  | .terminal token => argSlots (.terminal token)
  | .multiple alternatives => argSlots (.multiple alternatives)
  | .keyword parts => (parts.map partSlots).sum

def slots (tokens : List CmdToken) : Nat :=
  (tokens.map tokenSlots).sum

/-- What fills a slot. -/
inductive Filling where
  | word (text : CStr)
  | alternative (text : CStr)
  | keyword (text : CStr)
  | absent
deriving DecidableEq, Repr

def Filling.arg : Filling → Arg
  | .word text => .text text
  | .alternative text => .text text
  | .keyword text => .text text
  | .absent => .null

theorem Filling.arg_eq_null_iff (filling : Filling) : filling.arg = .null ↔ filling = .absent := by
  cases filling <;> simp [Filling.arg]

section

variable (env : MatchEnv)

def argFillings : ArgReading → List Filling
  | .terminal token (some word) =>
    if cmdVariable token.cmd then [.word word] else []
  | .multiple alternatives (some word) =>
    ((bestOffer (offers env .relaxed alternatives (some word))).map fun offer =>
        if offer.2 = .partlyMatch then .alternative offer.1.cmd
        else .word word).toList
  | _ => []

def partFillings (part : KeywordPart) : Option KeywordUse → List Filling
  | none => List.replicate (partSlots part) .absent
  | some use =>
    if part.args = [] then [.keyword part.keyword.cmd]
    else use.args.flatMap (argFillings env)

def tokenFillings : TokenReading → List Filling
  | .arg reading => argFillings env reading
  | .keyword parts uses =>
    parts.zipIdx.flatMap fun (part, i) => partFillings env part (uses.find? (·.index = i))

end

/-- No terminal of the command is an option or a vararg, and each has a
text. -/
structure Positional (list : List Terminal) : Prop where
  plain : ∀ token ∈ list, cmdOption token.cmd = false ∧ cmdVararg token.cmd = false
  named : ∀ token ∈ list, token.cmd ≠ []

instance (list : List Terminal) : Decidable (Positional list) :=
  decidable_of_iff ((∀ token ∈ list, cmdOption token.cmd = false ∧ cmdVararg token.cmd = false) ∧
      ∀ token ∈ list, token.cmd ≠ [])
    ⟨fun both => ⟨both.1, both.2⟩, fun both => ⟨both.plain, both.named⟩⟩

theorem Positional.mono {first second : List Terminal} (positional : Positional second)
    (subset : first ⊆ second) : Positional first :=
  ⟨fun token member => positional.plain token (subset member),
    fun token member => positional.named token (subset member)⟩

/-! ## The fillings of a reading -/

section

variable {env : MatchEnv}

theorem ofWord_of_nonempty {word : Word} (nonempty : isEmptyWord word = false) :
    ∃ text, word = some text ∧ Arg.ofWord word = .text text := by
  match word, nonempty with
  | some (c :: rest), _ => exact ⟨c :: rest, rfl, rfl⟩

theorem ofWord_of_ne_nil {text : CStr} (named : text ≠ []) :
    Arg.ofWord (some text) = .text text := by
  cases text with
  | nil => exact absurd rfl named
  | cons c rest => rfl

variable {words : List Word} {readings : List TokenReading} {parts : List KeywordPart}
  {uses : List KeywordUse}

theorem nonemptyWords_drop (nonempty : NonemptyWords words) (count : Nat) :
    NonemptyWords (words.drop count) :=
  fun word member => nonempty word (mem_of_mem_drop member)

theorem argFillings_of_reads {arg : KeywordArg} {rest : List Word} {reading : ArgReading}
    (reads : ReadsArg env .relaxed arg words reading rest) (nonempty : NonemptyWords words)
    (positional : Positional (argTerminals arg)) :
    reading.args env .relaxed = (argFillings env reading).map Filling.arg ∧
      (argFillings env reading).length = argSlots arg := by
  cases reads with
  | @terminal token word rest _ _ _ =>
    obtain ⟨text, rfl, same⟩ := ofWord_of_nonempty (nonempty word (mem_cons_self ..))
    rw [ArgReading.args, argFillings, argSlots, same]
    split <;> exact ⟨rfl, rfl⟩
  | @option token _ _ _ option _ | @missing token option =>
    rw [(positional.plain token (mem_singleton_self _)).1] at option
    cases option
  | @vararg token _ _ vararg _ =>
    rw [(positional.plain token (mem_singleton_self _)).2] at vararg
    cases vararg
  | @multiple alternatives word rest matched =>
    obtain ⟨text, rfl, same⟩ := ofWord_of_nonempty (nonempty word (mem_cons_self ..))
    obtain ⟨offer, best⟩ := bestOffer_ne_none matched
    have named := positional.named offer.1 (mem_offers.mp (bestOffer_spec best).1).1
    rw [ArgReading.args, argFillings, best]
    refine ⟨?_, rfl⟩
    simp only [Option.map_some, Option.toList_some, map_singleton, offerArg]
    split
    · rw [ofWord_of_ne_nil named]
      rfl
    · rw [same]
      rfl

theorem argsFillings_of_reads {list : List KeywordArg} {rest : List Word}
    {readings : List ArgReading} (positional : Positional (list.flatMap argTerminals))
    (nonempty : NonemptyWords words) (reads : ReadsArgs env .relaxed list words readings rest) :
    readings.flatMap (ArgReading.args env .relaxed) =
        (readings.flatMap (argFillings env)).map Filling.arg ∧
      (readings.flatMap (argFillings env)).length = argsSlots list := by
  induction reads with
  | nil => exact ⟨rfl, rfl⟩
  | @cons arg args words middle rest reading readings head tail ih =>
    rw [flatMap_cons] at positional
    obtain ⟨here, width⟩ := argFillings_of_reads head nonempty
      (positional.mono (subset_append_left _ _))
    obtain ⟨later, widths⟩ := ih (positional.mono (subset_append_right _ _))
      (readsArg_drop head ▸ nonemptyWords_drop nonempty _)
    simp only [flatMap_cons, map_append, length_append, here, later, width, widths, argsSlots,
      map_cons, sum_cons]
    exact ⟨trivial, trivial⟩

theorem readsArgs_of_mem_uses {mask : List Nat} (nonempty : NonemptyWords words)
    (reads : ReadsUses env .relaxed parts mask words uses) {use : KeywordUse}
    (member : use ∈ uses) :
    ∃ part taken rest, parts[use.index]? = some part ∧ NonemptyWords taken ∧
      ReadsArgs env .relaxed part.args taken use.args rest := by
  induction reads with
  | done => cases member
  | @use mask word words rest i part args uses _ found args tail ih =>
    have later : NonemptyWords words := fun word member => nonempty word (mem_cons_of_mem _ member)
    rcases mem_cons.mp member with rfl | member
    · exact ⟨part, words, rest, found, later, args⟩
    · exact ih (readsArgs_drop args ▸ nonemptyWords_drop later _) member

theorem lookup_useRows (uses : List KeywordUse) (i : Nat) : (useRows env .relaxed uses).lookup i =
      (uses.find? (·.index = i)).map (KeywordUse.argv env .relaxed) := by
  induction uses with
  | nil => rfl
  | cons use rest ih =>
    rw [useRows, map_cons, lookup_cons, find?_cons]
    by_cases same : use.index = i
    · simp [same]
    · rw [show (i == use.index) = false from by simpa using Ne.symm same,
        show decide (use.index = i) = false from decide_eq_false same]
      exact ih

theorem length_filter_takesNull {args : List KeywordArg}
    (positional : Positional (args.flatMap argTerminals)) :
    (args.filter takesNull).length = argsSlots args := by
  induction args with
  | nil => rfl
  | cons arg rest ih =>
    rw [flatMap_cons] at positional
    have later := ih (positional.mono (subset_append_right _ _))
    have here : (if takesNull arg then 1 else 0) = argSlots arg := by
      cases arg with
      | multiple alternatives => rfl
      | terminal token =>
        obtain ⟨option, vararg⟩ := positional.plain token (mem_append_left _ (mem_singleton_self _))
        rw [takesNull, option, vararg, Bool.false_or, Bool.or_false]
        rfl
    rw [argsSlots, map_cons, sum_cons, ← here, ← argsSlots, ← later, filter_cons]
    split <;> simp [Nat.add_comm]

theorem partFillings_of_reads {part : KeywordPart} {use : Option KeywordUse}
    (positional : Positional (partTerminals part)) (room : argsSlots part.args ≤ cmdArgcMax)
    (reads : ∀ use' ∈ use, ∃ taken rest, NonemptyWords taken ∧
      ReadsArgs env .relaxed part.args taken use'.args rest) :
    keywordArgs part (use.map (KeywordUse.argv env .relaxed)) =
        (partFillings env part use).map Filling.arg ∧
      (partFillings env part use).length = partSlots part := by
  have arguments : Positional (part.args.flatMap argTerminals) :=
    positional.mono (subset_cons_self _ _)
  cases use with
  | none =>
    rw [partFillings, length_replicate, map_replicate]
    refine ⟨?_, rfl⟩
    unfold keywordArgs partSlots
    split
    · rfl
    · rw [← length_filter_takesNull arguments]
      exact map_const'
  | some use =>
    obtain ⟨taken, rest, nonempty, reads⟩ := reads use rfl
    obtain ⟨same, width⟩ := argsFillings_of_reads arguments nonempty reads
    rw [partFillings]
    unfold keywordArgs partSlots
    split
    · rw [Option.isSome_map, Option.isSome_some, if_pos rfl,
        ofWord_of_ne_nil (positional.named part.keyword (mem_cons_self ..))]
      exact ⟨rfl, rfl⟩
    · refine ⟨?_, width⟩
      change (use.args.flatMap (ArgReading.args env .relaxed)).take cmdArgcMax = _
      rw [same, take_of_length_le]
      rw [length_map, width]
      exact room

theorem argsSlots_le_partSlots (part : KeywordPart) : argsSlots part.args ≤ partSlots part := by
  unfold partSlots
  split
  · rename_i none
    rw [none]
    exact Nat.zero_le _
  · exact le_rfl

theorem groupFillings_of_reads (positional : Positional (parts.flatMap partTerminals))
    (nonempty : NonemptyWords words) (room : (parts.map partSlots).sum ≤ cmdArgcMax)
    (reads : ReadsUses env .relaxed parts [] words uses) :
    groupArgs parts (useRows env .relaxed uses) =
        (tokenFillings env (.keyword parts uses)).map Filling.arg ∧
      (tokenFillings env (.keyword parts uses)).length = (parts.map partSlots).sum := by
  have each : ∀ pair ∈ parts.zipIdx,
      keywordArgs pair.1 ((useRows env .relaxed uses).lookup pair.2) = (partFillings env pair.1
            (uses.find? (·.index = pair.2))).map Filling.arg ∧
        (partFillings env pair.1 (uses.find? (·.index = pair.2))).length = partSlots pair.1 := by
    rintro ⟨part, i⟩ member
    have found : parts[i]? = some part := mem_zipIdx_iff_getElem?.mp member
    have present : part ∈ parts := mem_of_getElem? found
    rw [lookup_useRows]
    refine partFillings_of_reads (positional.mono fun token inside =>
        mem_flatMap.mpr ⟨part, present, inside⟩) ?_ ?_
    · exact (argsSlots_le_partSlots part).trans ((single_le_sum
        (fun _ _ => Nat.zero_le _) _ (mem_map_of_mem present)).trans room)
    · intro use isUse
      have index : use.index = i := by
        simpa using find?_some isUse
      obtain ⟨other, taken, rest, at_, words, reads⟩ :=
        readsArgs_of_mem_uses nonempty reads (mem_of_find?_eq_some isUse)
      rw [index, found] at at_
      cases at_
      exact ⟨taken, rest, words, reads⟩
  constructor
  · rw [tokenFillings, map_flatMap, groupArgs]
    exact congrArg List.flatten (map_congr_left fun pair member => (each pair member).1)
  · rw [tokenFillings, length_flatMap]
    have widths : parts.zipIdx.map (fun pair =>
        (partFillings env pair.1 (uses.find? (·.index = pair.2))).length) =
      parts.zipIdx.map fun pair => partSlots pair.1 :=
      map_congr_left fun pair member => (each pair member).2
    rw [widths]
    change (parts.zipIdx.map (partSlots ∘ Prod.fst)).sum = _
    rw [← map_map, zipIdx_map_fst]

theorem fillings_cons {token : CmdToken} {tokens : List CmdToken} {reading : TokenReading}
    (positional : Positional (terminals (token :: tokens)))
    (room : slots (token :: tokens) ≤ cmdArgcMax)
    (head : Positional (tokenTerminals token) → reading.args env .relaxed =
          (tokenFillings env reading).map Filling.arg ∧
        (tokenFillings env reading).length = tokenSlots token)
    (tail : Positional (terminals tokens) → slots tokens ≤ cmdArgcMax →
      readings.flatMap (TokenReading.args env .relaxed) =
          (readings.flatMap (tokenFillings env)).map Filling.arg ∧
        (readings.flatMap (tokenFillings env)).length = slots tokens) :
    (reading :: readings).flatMap (TokenReading.args env .relaxed) =
        ((reading :: readings).flatMap (tokenFillings env)).map Filling.arg ∧
      ((reading :: readings).flatMap (tokenFillings env)).length = slots (token :: tokens) := by
  rw [terminals, flatMap_cons] at positional
  rw [slots, map_cons, sum_cons] at room
  obtain ⟨here, width⟩ := head (positional.mono (subset_append_left _ _))
  obtain ⟨later, widths⟩ := tail (positional.mono (subset_append_right _ _))
      ((Nat.le_add_left _ _).trans room)
  constructor
  · rw [flatMap_cons, flatMap_cons, map_append, here, later]
  · rw [flatMap_cons, length_append, width, widths]
    rfl

theorem fillings_of_reads {tokens : List CmdToken} (positional : Positional (terminals tokens))
    (nonempty : NonemptyWords words) (room : slots tokens ≤ cmdArgcMax)
    (reads : ReadsTokens env .relaxed tokens words readings) :
    readings.flatMap (TokenReading.args env .relaxed) =
        (readings.flatMap (tokenFillings env)).map Filling.arg ∧
      (readings.flatMap (tokenFillings env)).length = slots tokens := by
  induction reads with
  | nil => exact ⟨rfl, rfl⟩
  | @terminal token tokens words rest reading readings head tail ih =>
    exact fillings_cons positional room (argFillings_of_reads head nonempty)
      (ih · (readsArg_drop head ▸ nonemptyWords_drop nonempty _) ·)
  | @multiple alternatives tokens words rest reading readings head tail ih =>
    exact fillings_cons positional room (argFillings_of_reads head nonempty)
      (ih · (readsArg_drop head ▸ nonemptyWords_drop nonempty _) ·)
  | @keyword parts tokens words uses readings head tail ih =>
    have fits : (parts.map partSlots).sum ≤ cmdArgcMax := by
      rw [slots, map_cons, sum_cons] at room
      exact (Nat.le_add_right _ _).trans room
    exact fillings_cons positional room
      (groupFillings_of_reads · nonempty fits head) (ih · nofun ·)

end

variable {rows : List (Nat × List Arg)}

theorem mem_of_lookup {i : Nat} {args : List Arg} (found : rows.lookup i = some args) :
    (i, args) ∈ rows := by
  obtain ⟨before, after, equal, _⟩ := lookup_eq_some_iff.mp found
  rw [equal]
  exact mem_append_right _ (mem_cons_self ..)

/-! ## Room for the arguments -/

/-- There is room for this many more arguments. -/
def Room (args : Args) (count : Nat) : Prop :=
  ∀ list ∈ args, list.length + count ≤ cmdArgcMax

variable {args : Args} {m : CmdMatcher} {state : MatcherState} {next : Outcome}

theorem room_of_pushArgument {next : Args} {arg : Arg}
    (pushed : pushArgument args arg = some next) : Room args 1 := by
  rintro list rfl
  rw [pushArgument] at pushed
  split at pushed
  · cases pushed
  · rename_i room
    omega

theorem Room.grow {next : Args} {new : List Arg} {width count : Nat} (grown : next = grow args new)
    (same : new.length = width) (room : Room args width) (later : Room next count) :
    Room args (width + count) := by
  rintro list rfl
  subst same
  have short := room list rfl
  have grown := later ((list ++ new).take cmdArgcMax) grown
  rw [take_of_length_le (by rw [length_append]; exact short), length_append] at grown
  omega

section

variable (noError : next.rv.isError = false)
include noError

theorem room_matchTerminal {token : Terminal} (fits : Fits args) (positional : Positional [token])
    (run : cmdMatcherMatchTerminal m token state args = some next) :
    Room args (argSlots (.terminal token)) := by
  obtain ⟨notOption, notVararg⟩ := positional.plain token (mem_singleton_self _)
  unfold cmdMatcherMatchTerminal at run
  rw [notOption] at run
  split at run
  · cases run
    cases noError
  · split at run
    · cases run
    · split at run
      · cases run
        cases noError
      · unfold takeTerminal at run
        rw [notVararg, notOption, Bool.false_or] at run
        rw [argSlots]
        by_cases isVariable : cmdVariable token.cmd
        · rw [if_pos isVariable] at run ⊢
          split at run
          · cases run
            cases noError
          · rename_i pushed
            exact room_of_pushArgument pushed
        · rw [if_neg isVariable]
          exact fits

theorem room_matchMultiple {alternatives : List Terminal}
    (run : cmdMatcherMatchMultiple m alternatives state args = some next) : Room args 1 := by
  unfold cmdMatcherMatchMultiple at run
  split at run
  · cases run
    cases noError
  · split at run
    · cases run
    · split at run
      · cases run
        cases noError
      · split at run
        · cases run
          cases noError
        · rename_i pushed
          exact room_of_pushArgument pushed

theorem room_matchKeywordArg {arg : KeywordArg} (fits : Fits args)
    (positional : Positional (argTerminals arg))
    (run : matchKeywordArg m arg state args = some next) :
    Room args (argSlots arg) := by
  cases arg with
  | terminal token => exact room_matchTerminal noError fits positional run
  | multiple alternatives => exact room_matchMultiple noError run

end

section

variable (whole : m.index = none) (relaxed : m.filter = .relaxed)
  (nonempty : NonemptyWords m.vline)

include whole relaxed nonempty

variable {parts : List KeywordPart}

omit whole in
theorem length_argReading {arg : KeywordArg} {reading : ArgReading} {rest : List Word}
    (reads : ReadsArg m.env m.filter arg (m.vline.drop state.wordIndex)
      reading rest) (positional : Positional (argTerminals arg)) :
    (reading.args m.env m.filter).length = argSlots arg := by
  rw [relaxed] at reads ⊢
  obtain ⟨same, width⟩ := argFillings_of_reads reads (nonemptyWords_drop nonempty _) positional
  rw [same, length_map, width]

theorem room_matchKeywordArgs {list : List KeywordArg} (fits : Fits args)
    (positional : Positional (list.flatMap argTerminals))
    (run : matchKeywordArgs m list state args = some next) (noError : next.rv.isError = false) :
    Room args (argsSlots list) := by
  induction list generalizing state args with
  | nil => exact fits
  | cons arg rest ih =>
    rw [flatMap_cons] at positional
    have here := positional.mono (subset_append_left _ _)
    obtain ⟨middle, step, later⟩ := matchKeywordArgs_cons run
    obtain ⟨fine, later⟩ := goes_of_whole whole later fun same => same ▸ noError
    obtain ⟨reading, words, reads, took⟩ := matchKeywordArg_reads fits step fine
    rw [argsSlots, map_cons, sum_cons, ← argsSlots]
    exact Room.grow took.args (length_argReading relaxed nonempty reads here)
      (room_matchKeywordArg fine fits here step)
      (ih (took.args ▸ fits_grow _ _) (positional.mono (subset_append_right _ _)) later)

theorem length_matchKeywordArgs {list : List KeywordArg}
    (positional : Positional (list.flatMap argTerminals))
    (run : matchKeywordArgs m list state (some []) = some next)
    (noError : next.rv.isError = false) : (next.args.getD []).length = argsSlots list := by
  have fits : Fits (some []) := fits_emptied (some [])
  obtain ⟨readings, reads, grown⟩ := matchKeywordArgs_reads whole fits run noError
  have room : 0 + argsSlots list ≤ cmdArgcMax :=
    room_matchKeywordArgs whole relaxed nonempty fits positional run noError [] rfl
  rw [relaxed] at reads grown
  obtain ⟨same, width⟩ := argsFillings_of_reads positional (nonemptyWords_drop nonempty _) reads
  rw [grown, same]
  change (([] ++ List.map Filling.arg _).take cmdArgcMax).length = _
  rw [nil_append, length_take, length_map, width]
  omega

/-- The rows of the keyword table are as long as their parts say. -/
def RowsFit (parts : List KeywordPart) (rows : List (Nat × List Arg)) : Prop :=
  ∀ row ∈ rows, ∃ part, parts[row.1]? = some part ∧ row.2.length = argsSlots part.args

theorem rowsFit_readKeywords {fuel : Nat} {mask : List Nat} {next : KeywordOutcome}
    (positional : Positional (parts.flatMap partTerminals)) (fit : RowsFit parts rows)
    (run : cmdMatcherReadKeywords m parts fuel mask state (some rows) =
      some next) (noError : next.rv.isError = false) :
    ∃ last, next.table = some last ∧ RowsFit parts last := by
  induction fuel generalizing mask state rows with
  | zero => cases run
  | succ fuel ih =>
    cases round_of_readKeywords run with
    | finished => exact ⟨rows, rfl, fit⟩
    | @refused _ ambiguous => cases ambiguous <;> cases noError
    | @keyword _ _ i part _ _ _ _ found later =>
      have arguments := positional.mono (args_subset_parts found)
      rw [beyondIndex_whole whole] at later
      obtain ⟨middle, step, later⟩ := later
      obtain ⟨fine, later⟩ := goes_of_whole whole later fun same => by
        rw [same] at noError
        exact noError
      have width := length_matchKeywordArgs whole relaxed nonempty arguments step fine
      refine ih ?_ later
      intro row member
      rcases mem_append.mp member with old | new
      · exact fit row old
      · rw [mem_singleton.mp new]
        exact ⟨part, found, width⟩

omit whole relaxed nonempty in
theorem length_groupArgs (positional : Positional (parts.flatMap partTerminals))
    (fit : RowsFit parts rows) : (groupArgs parts rows).length = (parts.map partSlots).sum := by
  have each : ∀ pair ∈ parts.zipIdx,
      (keywordArgs pair.1 (rows.lookup pair.2)).length = partSlots pair.1 := by
    rintro ⟨part, i⟩ member
    have found : parts[i]? = some part := mem_zipIdx_iff_getElem?.mp member
    have arguments := positional.mono (args_subset_parts found)
    unfold keywordArgs partSlots
    split
    · rfl
    · cases row : rows.lookup i with
      | none =>
        exact (length_map _).trans (length_filter_takesNull arguments)
      | some args =>
        obtain ⟨other, same, width⟩ := fit (i, args) (mem_of_lookup row)
        rw [found] at same
        cases same
        exact width
  rw [groupArgs, length_flatMap, map_congr_left each]
  change (parts.zipIdx.map (partSlots ∘ Prod.fst)).sum = _
  rw [← map_map, zipIdx_map_fst]

/-- A keyword group pushes an argument for every slot of its parts. -/
theorem room_matchKeyword {list : List Arg} (positional : Positional (parts.flatMap partTerminals))
    (run : cmdMatcherMatchKeyword m parts state (some list) = some next)
    (noError : next.rv.isError = false) :
    ∃ new, next.args = grow (some list) new ∧ new.length = (parts.map partSlots).sum ∧
      Room (some list) (parts.map partSlots).sum := by
  obtain ⟨reader, readerRun, rfl⟩ := matchKeyword_reader run
  have fine := fine_of_reader noError
  obtain ⟨rows, table, fit⟩ := rowsFit_readKeywords whole relaxed nonempty
    positional (fun _ member => absurd member not_mem_nil) readerRun fine
  have width := length_groupArgs positional fit
  rw [table] at noError ⊢
  refine ⟨groupArgs parts rows, pushAll_grow list _, width, ?_⟩
  rintro _ ⟨⟩
  rw [← width]
  by_contra full
  have overflow : (cmdMatcherBuildKeywordArgs parts (some list)
      (some rows)).1 = .exceedArgcMax := by
    simp [cmdMatcherBuildKeywordArgs, pushAll, full]
  rw [fine, overflow] at noError
  cases noError

theorem room_matchTokens {tokens : List CmdToken} (fits : Fits args)
    (positional : Positional (terminals tokens)) (run : matchTokens m tokens state args = some next)
    (noError : next.rv.isError = false) : Room args (slots tokens) := by
  induction tokens generalizing state args with
  | nil => exact fits
  | cons token rest ih =>
    rw [terminals, flatMap_cons] at positional
    have here := positional.mono (subset_append_left _ _)
    have there := positional.mono (subset_append_right _ _)
    obtain ⟨middle, step, later⟩ := matchTokens_cons run
    obtain ⟨fine, later⟩ := goes_of_whole whole later fun same => same ▸ noError
    rw [slots, map_cons, sum_cons, ← slots]
    cases token with
    | terminal token =>
      obtain ⟨reading, words, reads, took⟩ := matchTerminal_reads fine fits step
      exact Room.grow took.args (length_argReading relaxed nonempty reads here)
        (room_matchTerminal fine fits here step)
        (ih (took.args ▸ fits_grow _ _) there later)
    | multiple alternatives =>
      obtain ⟨reading, words, reads, took⟩ := matchMultiple_reads fine step
      exact Room.grow took.args (length_argReading relaxed nonempty reads here)
        (room_matchMultiple fine step)
        (ih (took.args ▸ fits_grow _ _) there later)
    | keyword parts =>
      cases args with
      | none => rintro _ ⟨⟩
      | some list =>
        obtain ⟨new, grown, width, room⟩ := room_matchKeyword whole relaxed nonempty here step fine
        exact Room.grow grown width room (ih (grown ▸ fits_grow _ _) there later)

end

/-! ## The result -/

/-- For every line of non-empty words that `cmd_parse` accepts on a command
without options and varargs, the number of arguments is that of the slots of
the command, and every slot is filled from the reading of the line: with null
exactly where the slot belongs to a keyword part that is not used. -/
theorem parse_fills_slots {env : MatchEnv} {vline : List Word} {command : CmdElement}
    {szToken after : CStr} {argv : List Arg} (positional : Positional (terminals command.tokens))
    (nonempty : NonemptyWords vline)
    (parsed : cmdParse env vline command szToken = some (.success, argv, after)) :
    argv.length = slots command.tokens ∧
      ∃ readings, ReadsTokens env .relaxed command.tokens vline readings ∧
        argv = (readings.flatMap (tokenFillings env)).map Filling.arg ∧
        ∀ (i : Nat) (filling : Filling), (readings.flatMap (tokenFillings env))[i]? = some filling →
            (argv[i]? = some .null ↔ filling = .absent) := by
  obtain ⟨next, run, same⟩ := Option.map_eq_some_iff.mp parsed
  have status : parseStatus next.rv = .success := congrArg Prod.fst same
  have arguments : next.args.getD [] = argv := congrArg (fun triple => triple.2.1) same
  have noError : next.rv.isError = false := by
    cases rv : next.rv with
    | complete => rfl
    | _ =>
      rw [rv] at status
      cases status
  have fits : Fits (some []) := fits_emptied (some [])
  have room : 0 + slots command.tokens ≤ cmdArgcMax :=
    room_matchTokens rfl rfl nonempty fits positional run noError [] rfl
  rw [Nat.zero_add] at room
  obtain ⟨readings, reads, _, grown⟩ := matchTokens_reads rfl nonempty fits run noError
  obtain ⟨values, width⟩ := fillings_of_reads positional nonempty room reads
  have filled : argv = (readings.flatMap (tokenFillings env)).map Filling.arg := by
    rw [← arguments, grown]
    change ([] ++ _).take cmdArgcMax = _
    rw [nil_append, values, take_of_length_le]
    rw [length_map, width]
    exact room
  refine ⟨by rw [filled, length_map, width], readings, reads, filled, fun i filling at_ => ?_⟩
  rw [filled, getElem?_map, at_, Option.map_some, Option.some.injEq]
  exact Filling.arg_eq_null_iff filling

def defaultInformation : CmdElement where
  string := ("default-information originate " ++
    "\x7balways|metric <0-16777214>|metric-type (1|2)|route-map WORD\x7d").toList
  tokens :=
    [.terminal ⟨"default-information", none, none⟩,
      .terminal ⟨"originate", none, none⟩,
      .keyword [⟨⟨"always", none, none⟩, []⟩, ⟨⟨"metric", none, none⟩,
            [.terminal ⟨"<0-16777214>", none, none⟩]⟩,
          ⟨⟨"metric-type", none, none⟩, [.multiple [⟨"1", none, none⟩, ⟨"2", none, none⟩]]⟩,
          ⟨⟨"route-map", none, none⟩, [.terminal ⟨"WORD", none, none⟩]⟩]]

def defaultInformationLine : List Word :=
  ["default-information", "originate", "metric-type", "1", "metric",
    "1000"].map fun word => some word.toList

theorem default_information_fills_slots :
    cmdParse plainEnv defaultInformationLine defaultInformation [] = some (.success,
          [.null, .text "1000", .text "1", .null], []) ∧
      [Arg.null, .text "1000", .text "1", .null].length = slots defaultInformation.tokens :=
  ⟨by decide, (parse_fills_slots (by decide) (by decide)
    (show cmdParse plainEnv defaultInformationLine defaultInformation [] =
      some (.success, [.null, .text "1000", .text "1", .null], [])
      by decide)).1⟩

end OpsCli.Command.Positions
