import Mathlib.Data.List.Destutter
import OpsCli.Vty.LineBuffer

/-!
# The command history

The lines that were executed are kept in a ring.  `vty_hist_add` writes at
`hindex`, `vty_previous_line` walks back from there, and `show_history` walks
from behind `hindex` to before it, so that it leaves out one place of the ring.
A line that comes to a handler is not kept: the session ends with it.
-/

namespace OpsCli.Vty.History

open CLib CString Command.Selection Command.Execute LineBuffer List

/-- `VTY_MAXHIST`. -/
abbrev vtyMaxhist : Nat := 20

/-- The line and the history of a `struct vty`. -/
structure State where
  buf : CStr
  hist : Fin vtyMaxhist → Option CStr
  hindex : Fin vtyMaxhist
  hp : Fin vtyMaxhist

def before (index : Fin vtyMaxhist) : Fin vtyMaxhist :=
  if index = 0 then 19 else index - 1

def behind (index : Fin vtyMaxhist) : Fin vtyMaxhist :=
  if index = 19 then 0 else index + 1

/-- `vty_hist_add`. -/
def vtyHistAdd (vty : State) : State :=
  if vty.buf = [] then vty
  else if vty.hist (before vty.hindex) = some vty.buf then { vty with hp := vty.hindex }
  else
    { vty with
      hist := Function.update vty.hist vty.hindex (some vty.buf)
      hindex := behind vty.hindex
      hp := behind vty.hindex }

/-- A line is added to the history and cleared. -/
def addLine (vty : State) (line : CStr) : State :=
  { vtyHistAdd { vty with buf := line } with buf := [] }

/-- `vty_previous_line`. -/
def vtyPreviousLine (vty : State) : State :=
  match vty.hist (before vty.hp) with
  | none => vty
  | some line => { vty with buf := line, hp := before vty.hp }

/-- The places that the loop of `show_history` comes by. -/
def showLoop (hindex : Nat) : Nat → Nat → Option (List (Fin vtyMaxhist))
  | 0, _ => none
  | fuel + 1, index =>
    if index = hindex then some []
    else if index = vtyMaxhist then showLoop hindex fuel 0
    else (showLoop hindex fuel (index + 1)).map (Fin.ofNat vtyMaxhist index :: ·)

def shown (line : CStr) : CStr :=
  "  " ++ line ++ "\r\n"

/-- The texts that `show_history` prints. -/
def showHistory (vty : State) : Option (List CStr) :=
  (showLoop vty.hindex (vtyMaxhist + 1) (vty.hindex + 1)).map fun places =>
    (places.filterMap vty.hist).map shown

def session (lines : List CStr) : State :=
  lines.foldl addLine ⟨[], fun _ => none, 0, 0⟩

/-- The lines without consecutive repetitions. -/
def distinct (lines : List CStr) : List CStr :=
  lines.destutter (· ≠ ·)

/-! ## The places of the ring -/

theorem before_behind : ∀ index, before (behind index) = index := by
  decide

theorem iterate_before_ne : ∀ (index : Fin vtyMaxhist) (k : Fin 19),
    before^[k.val + 1] index ≠ index := by
  decide

theorem showLoop_eq : ∀ hindex : Fin vtyMaxhist,
    showLoop hindex (vtyMaxhist + 1) (hindex + 1) =
      some ((range 19).map fun k => before^[k + 1] hindex).reverse := by
  decide

/-- The lines stand before the place for the next one, the latest one first. -/
def Holds (vty : State) (recent : List CStr) : Prop :=
  ∀ k < vtyMaxhist, vty.hist (before^[k + 1] vty.hindex) = recent[k]?

variable {vty : State} {line : CStr}

theorem holds_add {recent : List CStr} (holds : Holds vty recent) :
    Holds { vty with
        hist := Function.update vty.hist vty.hindex (some vty.buf)
        hindex := behind vty.hindex
        hp := behind vty.hindex } (vty.buf :: recent) := by
  intro k bound
  rw [Function.iterate_succ_apply, before_behind]
  cases k with
  | zero => exact Function.update_self ..
  | succ k =>
    have other := iterate_before_ne vty.hindex ⟨k, Nat.lt_of_succ_lt_succ bound⟩
    exact (Function.update_of_ne other ..).trans (holds k (Nat.lt_of_succ_lt bound))

theorem holds_addLine {recent : List CStr} (nonempty : line ≠ []) (holds : Holds vty recent) :
    Holds (addLine vty line) (if recent.head? = some line then recent else line :: recent) := by
  have latest : vty.hist (before vty.hindex) = recent.head? :=
    (holds 0 (by decide)).trans head?_eq_getElem?.symm
  unfold addLine vtyHistAdd
  rw [if_neg nonempty]
  rw [latest]
  split
  · exact holds
  · exact @holds_add { vty with buf := line } recent holds

theorem hp_addLine (nonempty : line ≠ []) :
    (addLine vty line).hp = (addLine vty line).hindex := by
  unfold addLine vtyHistAdd
  rw [if_neg nonempty]
  split <;> rfl

/-! ## Sessions -/

theorem distinct_concat (lines : List CStr) (line : CStr) :
    distinct (lines ++ [line]) = if (distinct lines).getLast? = some line then distinct lines
      else distinct lines ++ [line] := by
  cases lines with
  | nil => rfl
  | cons first rest =>
    unfold distinct
    rw [cons_append, destutter_cons', destutter_cons']
    induction rest generalizing first with
    | nil => simp [destutter'_singleton, ite_not]
    | cons second rest ih =>
      rw [cons_append]
      by_cases other : first ≠ second
      · rw [destutter'_cons_pos _ other, destutter'_cons_pos _ other, ih,
          getLast?_cons_of_ne_nil (destutter'_ne_nil _ _)]
        split <;> rfl
      · rw [destutter'_cons_neg _ other, destutter'_cons_neg _ other, ih]

theorem holds_session {lines : List CStr} (nonempty : ∀ line ∈ lines, line ≠ []) :
    Holds (session lines) (distinct lines).reverse ∧
      (session lines).hp = (session lines).hindex := by
  induction lines using reverseRecOn with
  | nil => exact ⟨fun _ _ => rfl, rfl⟩
  | append_singleton lines line ih =>
    have holds := (ih fun line member => nonempty line (mem_append_left _ member)).1
    have added := nonempty line (mem_append_right _ (mem_singleton_self line))
    rw [session, foldl_append, distinct_concat]
    refine ⟨?_, hp_addLine added⟩
    have next := holds_addLine added holds
    rw [head?_reverse] at next
    split at next
    · rename_i latest
      rw [if_pos latest]
      exact next
    · rename_i latest
      rw [if_neg latest, reverse_concat]
      exact next

theorem filterMap_range (recent : List CStr) (n : Nat) :
    (range n).filterMap (recent[·]?) = recent.take n := by
  induction n with
  | zero => rfl
  | succ n ih =>
    rw [range_succ, filterMap_append, ih, take_add_one]
    cases found : recent[n]? <;> simp [found]

theorem showHistory_eq {recent : List CStr} (holds : Holds vty recent) :
    showHistory vty = some ((recent.take 19).reverse.map shown) := by
  have places : ((range 19).map fun k => before^[k + 1] vty.hindex).filterMap vty.hist =
      recent.take 19 := by
    rw [filterMap_map, ← filterMap_range]
    refine filterMap_congr fun k member => ?_
    exact holds k ((mem_range.mp member).trans (by decide))
  rw [showHistory, showLoop_eq, Option.map_some, filterMap_reverse, places]

theorem recalled {recent : List CStr} (holds : Holds vty recent)
    (fresh : vty.hp = vty.hindex) {k : Nat} (there : k ≤ recent.length) (bound : k ≤ vtyMaxhist) :
    vtyPreviousLine^[k] vty =
      { vty with buf := (vty.buf :: recent)[k]?.getD [], hp := before^[k] vty.hindex } := by
  induction k with
  | zero =>
    cases vty
    cases fresh
    rfl
  | succ k ih =>
    have line := holds k bound
    rw [getElem?_eq_getElem there, Function.iterate_succ_apply'] at line
    rw [Function.iterate_succ_apply', ih (Nat.le_of_lt there) (Nat.le_of_lt bound), vtyPreviousLine]
    rw [line, Function.iterate_succ_apply', getElem?_cons_succ, getElem?_eq_getElem there,
      Option.getD_some]

/-! ## Terminals -/

section

variable {World : Type} (services : Services World) (protocolname : CStr)

/-- `vty_execute` for the lines that are typed at the prompt of a terminal. -/
def execute : List CStr → State × Session World → Option (State × Session World)
  | [], vty => some vty
  | line :: lines, (vty, session) =>
    match LineBuffer.vtyExecute services protocolname "\r\n" line session with
    | none => none
    | some (_, session) => execute lines (addLine vty line, session)

/-- No line comes to a handler. -/
def unhandled : List CStr → Session World → Bool
  | [], _ => true
  | line :: lines, session =>
    (vtyCommand services protocolname "\r\n" line session).any fun next =>
      !repointed next.2 && unhandled lines next.2

theorem execute_iff (lines : List CStr) (vty last : State) (start : Session World) :
    (∃ final, execute services protocolname lines (vty, start) = some (last, final)) ↔
      unhandled services protocolname lines start ∧ last = lines.foldl addLine vty := by
  induction lines generalizing vty start with
  | nil => simp [execute, unhandled, eq_comm]
  | cons line lines ih =>
    rw [execute, unhandled, LineBuffer.vtyExecute, foldl_cons]
    cases vtyCommand services protocolname "\r\n" line start with
    | none => simp
    | some next =>
      cases called : repointed next.2 with
      | true => simp [Option.filter_some, called]
      | false => simp [Option.filter_some, called, ih]

/-- The session takes all lines, those that the ring can keep are shown, and all of them
are recalled. -/
def Meant (start : Session World) (lines : List CStr) : Prop :=
  ∃ vty, (∃ final, execute services protocolname lines (⟨[], fun _ => none, 0, 0⟩, start) =
      some (vty, final)) ∧
    showHistory vty =
      some (((distinct lines).drop ((distinct lines).length - vtyMaxhist)).map shown) ∧
    ∀ k, 1 ≤ k → k ≤ min (distinct lines).length vtyMaxhist →
      (distinct lines)[(distinct lines).length - k]? = some (vtyPreviousLine^[k] vty).buf

/-- The history is shown and recalled as it is meant if and only if no line
comes to a handler and the ring is not full. -/
theorem history_meant_iff (start : Session World) {lines : List CStr}
    (nonempty : ∀ line ∈ lines, line ≠ []) :
    Meant services protocolname start lines ↔
      unhandled services protocolname lines start ∧ (distinct lines).length < vtyMaxhist := by
  obtain ⟨holds, fresh⟩ := holds_session nonempty
  unfold Meant
  simp only [execute_iff, and_assoc, exists_and_left, exists_eq_left]
  refine and_congr_right fun _ => ?_
  change showHistory (session lines) = _ ∧ _ ↔ _
  unfold vtyMaxhist
  rw [showHistory_eq holds, take_reverse, reverse_reverse, Option.some_inj]
  constructor
  · rintro ⟨all, -⟩
    have lengths := congrArg length all
    simp only [length_map, length_drop] at lengths
    omega
  · intro room
    constructor
    · rw [Nat.sub_eq_zero_of_le (by omega), Nat.sub_eq_zero_of_le (by omega)]
    · intro k positive bound
      obtain ⟨j, rfl⟩ := Nat.exists_eq_add_of_le' positive
      have there : j + 1 ≤ (distinct lines).reverse.length := by
        rw [length_reverse]
        omega
      change _ = some (vtyPreviousLine^[j + 1] (session lines)).buf
      rw [recalled holds fresh there (by omega : j + 1 ≤ 20), getElem?_cons_succ,
        getElem?_reverse (by omega), Nat.sub_sub, Nat.add_comm 1 j,
        getElem?_eq_getElem (by omega), Option.getD_some]

end

/-- Incomplete and unknown lines, one of them typed twice. -/
theorem refused_lines_meant : Meant versionServices "NONE" (plainSession .viewNode)
    ["show", "help", "help", "show", "version"] :=
  (history_meant_iff _ _ _ (by decide)).mpr (by decide)

/-- Of twenty different lines the first one is not shown. -/
theorem oldest_line_hidden : ¬ ∀ lines : List CStr, (∀ line ∈ lines, line ≠ []) →
    unhandled versionServices "NONE" lines (plainSession .viewNode) →
      Meant versionServices "NONE" (plainSession .viewNode) lines := by
  intro meant
  obtain ⟨vty, ran, all, -⟩ := meant ((range 20).map decimal) (by decide) (by decide)
  obtain ⟨-, rfl⟩ := (execute_iff ..).mp ran
  revert all
  decide

/-! ## Browsing -/

/-- `vty_next_line`. -/
def vtyNextLine (vty : State) : State :=
  if vty.hp = vty.hindex then vty
  else match vty.hist (behind vty.hp) with
    | none => vty
    | some line => { vty with buf := line, hp := behind vty.hp }

def press (vty : State) (previous : Bool) : State :=
  if previous then vtyPreviousLine vty else vtyNextLine vty

theorem exists_iterate_before : ∀ hindex index : Fin vtyMaxhist,
    ∃ k < vtyMaxhist, before^[k + 1] hindex = index := by
  decide

/-- A key changes nothing, or it goes to a place that holds a line. -/
theorem press_eq (vty : State) (previous : Bool) : press vty previous = vty ∨
    ∃ index line, vty.hist index = some line ∧
      press vty previous = { vty with buf := line, hp := index } := by
  unfold press vtyPreviousLine vtyNextLine
  grind

/-- Whichever keys are pressed, the line is one that going back alone recalls. -/
theorem browsing_recalls {lines : List CStr} (nonempty : ∀ line ∈ lines, line ≠ [])
    (keys : List Bool) : ∃ k ≤ min (distinct lines).length vtyMaxhist,
      keys.foldl press (session lines) = vtyPreviousLine^[k] (session lines) := by
  obtain ⟨holds, fresh⟩ := holds_session nonempty
  rw [← length_reverse]
  induction keys using reverseRecOn with
  | nil => exact ⟨0, Nat.zero_le _, rfl⟩
  | append_singleton keys key ih =>
    obtain ⟨k, kept, same⟩ := ih
    have here := recalled holds fresh (show k ≤ _ by omega) (by omega)
    rw [foldl_concat, same]
    obtain stays | ⟨index, line, found, moves⟩ := press_eq (vtyPreviousLine^[k] (session lines)) key
    · exact ⟨k, kept, stays⟩
    · rw [here] at found
      -- going back leads to every place, and this one holds a line
      obtain ⟨j, bound, rfl⟩ := exists_iterate_before (session lines).hindex index
      have there := (holds j bound).symm.trans found
      obtain ⟨inside, _⟩ := List.getElem?_eq_some_iff.mp there
      refine ⟨j + 1, by omega, ?_⟩
      rw [moves, here, recalled holds fresh inside bound, getElem?_cons_succ, there,
        Option.getD_some]

theorem keys_after_three_lines :
    ∃ k ≤ min (distinct ["show", "help", "help", "end"]).length vtyMaxhist,
      [true, true, false, true, true].foldl press (session ["show", "help", "help", "end"]) =
        vtyPreviousLine^[k] (session ["show", "help", "help", "end"]) :=
  browsing_recalls (by decide) _

end OpsCli.Vty.History
