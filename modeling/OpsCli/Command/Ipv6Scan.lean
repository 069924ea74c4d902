import OpsCli.CLib.Cells
import OpsCli.Command.Address

/-!
# IPv6 prefixes as lists of cells

`cmd_ipv6_prefix_match` is a machine with seven states that reads one character
at a time.  Here its text is cut at the characters `:`, `.` and `/`, and the
machine becomes a recursion over the groups between them.
-/

namespace OpsCli.Command.Ipv6Scan

open CLib CString Cells Token Address List

/-! ## The machine without fuel -/

/-- The counters are in their limits. -/
def inLimits (scan : Ipv6Scan) : Bool :=
  !(11 < scan.nums) && !(7 < scan.colons)

/-- The machine behind its first state. -/
def run (scan : Ipv6Scan) : CStr → Except MatchType CStr
  | [] => if scan.state = .mask then .ok [] else .error .partlyMatch
  | c :: rest =>
    if scan.state = .mask then .ok (c :: rest)
    else
      match ipv6Step scan c rest with
      | .error answer => .error answer
      | .ok (next, _) =>
        if inLimits next then run next rest else .error .noMatch

/-- Only the first state is left without taking a character, and it does not
come again. -/
theorem ipv6Step_later {scan next : Ipv6Scan} {c : Char} {rest : CStr} {again : Bool}
    (later : scan.state ≠ .start) (step : ipv6Step scan c rest = .ok (next, again)) :
    next.state ≠ .start ∧ again = false := by
  revert step
  fun_cases ipv6Step scan c rest with
  | case1 start | case2 start | case3 start => exact absurd start later
  | case4 | case7 | case8 | case10 | case11 | case14 | case19 => rintro ⟨⟩
  | case9 =>
    rintro ⟨⟩
    refine ⟨?_, rfl⟩
    dsimp only
    split
    · rintro ⟨⟩
    · rintro ⟨⟩
  | case16 =>
    intro step
    rw [← (Prod.mk.inj (Except.ok.inj step)).1]
    exact ⟨later, (Prod.mk.inj (Except.ok.inj step)).2.symm⟩
  | case17 | case21 =>
    rintro ⟨⟩
    exact ⟨later, rfl⟩
  | _ =>
    rintro ⟨⟩
    exact ⟨by rintro ⟨⟩, rfl⟩

theorem ipv6PrefixLoop_eq_run {scan : Ipv6Scan} {str : CStr} {fuel : Nat}
    (later : scan.state ≠ .start) (enough : str.length < fuel) :
    ipv6PrefixLoop fuel scan str = run scan str := by
  induction str generalizing scan fuel with
  | nil =>
    cases fuel with
    | zero => cases enough
    | succ fuel => rfl
  | cons c rest ih =>
    cases fuel with
    | zero => cases enough
    | succ fuel =>
      have shorter : rest.length < fuel := Nat.lt_of_succ_lt_succ enough
      rw [ipv6PrefixLoop, run]
      split
      · rfl
      · cases step : ipv6Step scan c rest with
        | error answer => rfl
        | ok result =>
          obtain ⟨next, again⟩ := result
          obtain ⟨nextLater, rfl⟩ := ipv6Step_later later step
          have follow := ih nextLater shorter
          dsimp only
          unfold inLimits
          by_cases many : 11 < next.nums
          · rw [if_pos many, if_neg (by simp [many])]
          · rw [if_neg many]
            by_cases colons : 7 < next.colons
            · rw [if_pos colons, if_neg (by simp [colons])]
            · rw [if_neg colons, if_pos (by simp [many, colons]), follow]

/-! ## Groups -/

def inGroup (c : Char) : Bool :=
  c ≠ ':' && c ≠ '.' && c ≠ '/'

theorem inGroup_eq_false {c : Char} : inGroup c = false ↔ c = ':' ∨ c = '.' ∨ c = '/' := by
  simp only [inGroup, Bool.and_eq_false_iff, decide_eq_false_iff_not, not_not, ne_eq, or_assoc]

def slashScan (mask : CStr) (cells : List (Cell Char)) :
    Except MatchType (CStr × List (Cell Char)) :=
  if mask = [] ∧ cells = [] then .error .partlyMatch else .ok (mask, cells)

def headOf (field : CStr) (cells : List (Cell Char)) : Option Char :=
  (text field cells).head?

mutual

/-- The machine at the start of a group of at most `limit` characters, on
cells: the cells of the mask or the answer.  The first character of a group may
be any one. -/
def groupScan (colons nums : Nat) (double : Bool) (limit : Nat) (field : CStr)
    (cells : List (Cell Char)) : Except MatchType (CStr × List (Cell Char)) :=
  match field, cells with
  | [], [] => .error .partlyMatch
  | [], (c, next) :: cells =>
    groupEnd colons nums double limit (c :: next) cells
  | c :: field, cells => groupEnd colons nums double limit (c :: field) cells
termination_by (cells.length, 1)

/-- The machine at the end of a group. -/
def groupEnd (colons nums : Nat) (double : Bool) (limit : Nat) (group : CStr)
    (cells : List (Cell Char)) : Except MatchType (CStr × List (Cell Char)) :=
  if limit < group.length ∨ '/' ∈ group ∨ 11 < nums + 1 then .error .noMatch
  else
    match cells with
    | [] => .error .partlyMatch
    | (c, next) :: cells =>
      if c = '/' then slashScan next cells
      else if c = '.' then
        if colons ≠ 0 ∨ double then
          groupScan colons (nums + 1) double 3 next cells
        else .error .noMatch
      else colonScan colons (nums + 1) double next cells
termination_by (cells.length, 0)

/-- The machine behind a colon. -/
def colonScan (colons nums : Nat) (double : Bool) (field : CStr) (cells : List (Cell Char)) :
    Except MatchType (CStr × List (Cell Char)) :=
  if 7 < colons + 1 ∨ headOf field cells = some '/' then .error .noMatch
  else
    match field, cells with
    | [], [] => .error .partlyMatch
    | [], (c, next) :: cells =>
      if c = ':' then doubleScan (colons + 1) nums double next cells
      else groupScan (colons + 1) nums double 4 [] ((c, next) :: cells)
    | c :: field, cells =>
      groupScan (colons + 1) nums double 4 (c :: field) cells
termination_by (cells.length, 2)

def doubleScan (colons nums : Nat) (double : Bool) (field : CStr) (cells : List (Cell Char)) :
    Except MatchType (CStr × List (Cell Char)) :=
  if double ∨ headOf field cells = some ':' ∨ 11 < nums + 1 then
    .error .noMatch
  else
    match field, cells with
    | [], [] => .error .partlyMatch
    | [], (c, next) :: cells =>
      if c = '/' then slashScan next cells
      else if 7 < colons + 1 then .error .noMatch
      else groupScan (colons + 1) (nums + 1) true 4 [] ((c, next) :: cells)
    | c :: field, cells =>
      if 7 < colons + 1 then .error .noMatch
      else groupScan (colons + 1) (nums + 1) true 4 (c :: field) cells
termination_by (cells.length, 2)

end

/-! ## The machine on groups -/

/-- The counter of double colons. -/
def mark (double : Bool) : Nat :=
  if double then 1 else 0

theorem inLimits_iff (state : Ipv6State) (colons : Int) (nums mark : Nat) (sp : CStr) :
    inLimits ⟨state, colons, nums, mark, sp⟩ ↔ nums ≤ 11 ∧ colons ≤ 7 := by
  simp [inLimits]

theorem within_limits {next : Ipv6Scan} {many : Prop} [Decidable many]
    {goesOn : Except MatchType CStr} (limits : inLimits next ↔ ¬ many) :
    (if inLimits next then goesOn else .error .noMatch) =
      if many then .error .noMatch else goesOn :=
  (if_congr limits rfl rfl).trans (ite_not many _ _)

/-- What the machine does behind a group. -/
def afterGroup (colons : Int) (nums : Nat) (double : Bool) (tail : CStr) : Except MatchType CStr :=
  match tail with
  | [] => .error .partlyMatch
  | c :: rest =>
    if c = '/' then
      if rest = [] then .error .partlyMatch else .ok rest
    else if c = '.' then
      if colons ≠ 0 ∨ double then
        run ⟨.addr, colons, nums, mark double, '.' :: rest⟩ rest
      else .error .noMatch
    else run ⟨.colon, colons, nums, mark double, c :: rest⟩ (c :: rest)

section

variable {colons : Int} {nums : Nat} {double : Bool} {sp : CStr} (few : nums ≤ 11)
  (low : colons ≤ 7)

include few low

theorem run_slash (rest : CStr) : run ⟨.slash, colons, nums, mark double, sp⟩ ('/' :: rest) =
      if rest = [] then .error .partlyMatch else .ok rest := by
  rw [run, if_neg nofun, ipv6Step]
  by_cases last : rest = []
  · rw [if_pos last, if_pos last]
  · rw [if_neg last, if_neg last]
    dsimp only
    rw [if_pos ((inLimits_iff _ _ _ _ _).mpr ⟨few, low⟩)]
    cases rest with
    | nil => exact absurd rfl last
    | cons c rest => rfl

theorem run_dot (c : Char) (rest : CStr) : run ⟨.dot, colons, nums, mark double, sp⟩ (c :: rest) =
      run ⟨.addr, colons, nums, mark double, sp⟩ rest := by
  rw [run, if_neg nofun, ipv6Step]
  dsimp only
  rw [if_pos ((inLimits_iff _ _ _ _ _).mpr ⟨few, low⟩)]

theorem run_inside {c d : Char} (solid : inGroup d) (rest : CStr) :
    run ⟨.addr, colons, nums, mark double, sp⟩ (c :: d :: rest) =
      run ⟨.addr, colons, nums, mark double, sp⟩ (d :: rest) := by
  simp only [inGroup, ne_eq, decide_not, Bool.and_eq_true, Bool.not_eq_true',
    decide_eq_false_iff_not] at solid
  rw [run, if_neg nofun, ipv6Step]
  dsimp only
  rw [if_neg (by simp [solid])]
  dsimp only
  rw [if_pos ((inLimits_iff _ _ _ _ _).mpr ⟨few, low⟩)]

omit few in
theorem run_last (before : CStr) (c : Char) {tail : CStr}
    (stops : ∀ d ∈ tail.head?, inGroup d = false) :
    run ⟨.addr, colons, nums, mark double, before ++ c :: tail⟩ (c :: tail) =
      if 3 < before.length ∨ '/' ∈ before ++ [c] ∨ 11 < nums + 1 then
        .error .noMatch
      else afterGroup colons (nums + 1) double tail := by
  have ends : (tail.head? = some ':' || tail.head? = some '.' || tail = [] ||
      tail.head? = some '/') := by
    cases tail with
    | nil => rfl
    | cons d tail =>
      rcases inGroup_eq_false.mp (stops d rfl) with rfl | rfl | rfl
      · rfl
      · rfl
      · rfl
  have length : (before ++ c :: tail).length - (tail.length + 1) = before.length := by
    rw [length_append, length_cons, Nat.add_sub_cancel]
  have taken : (before ++ c :: tail).take
      ((before ++ c :: tail).length - tail.length) = before ++ [c] := by
    have size : (before ++ c :: tail).length - tail.length = (before ++ [c]).length := by
      simp only [length_append, length_cons, length_nil]
      omega
    rw [size, append_cons before c tail, take_left]
  have limits (state : Ipv6State) (sp : CStr) :
      inLimits ⟨state, colons, nums + 1, mark double, sp⟩ ↔ ¬ 11 < nums + 1 := by
    rw [inLimits_iff, Nat.not_lt]
    exact and_iff_left low
  rw [run, if_neg nofun, ipv6Step]
  rw [if_pos ends, length, taken]
  by_cases long : 3 < before.length
  · rw [if_pos long]
    exact (if_pos (.inl long)).symm
  rw [if_neg long]
  by_cases slash : '/' ∈ before ++ [c]
  · rw [if_pos slash]
    exact (if_pos (.inr (.inl slash))).symm
  rw [if_neg slash]
  have condition : (3 < before.length ∨ '/' ∈ before ++ [c] ∨ 11 < nums + 1) ↔ 11 < nums + 1 := by
    rw [or_iff_right long, or_iff_right slash]
  simp only [condition]
  cases tail with
  | nil => exact within_limits (limits .addr [])
  | cons d rest =>
    rcases inGroup_eq_false.mp (stops d rfl) with rfl | rfl | rfl
    · exact within_limits (limits .colon (':' :: rest))
    · have allowed : (decide (colons ≠ 0) || decide (mark double ≠ 0)) =
          decide (colons ≠ 0 ∨ double) := by
        unfold mark
        cases double <;> simp
      simp only [head?_cons, afterGroup, allowed, Option.some.injEq, Char.reduceEq, if_false,
        if_true, decide_eq_true_eq]
      by_cases inside : colons ≠ 0 ∨ double
      · rw [if_pos inside, if_pos inside]
        refine (within_limits (limits .dot ('.' :: rest))).trans ?_
        split
        · rfl
        · rename_i room
          exact run_dot (Nat.le_of_not_lt room) low '.' rest
      · rw [if_neg inside, if_neg inside, ite_self]
    · refine (within_limits (limits .slash ('/' :: rest))).trans ?_
      split
      · rfl
      · rename_i room
        exact run_slash (Nat.le_of_not_lt room) low rest

theorem run_group (before : CStr) (c : Char) {group tail : CStr} (solid : Filled inGroup group)
    (stops : ∀ d ∈ tail.head?, inGroup d = false) :
    run ⟨.addr, colons, nums, mark double, before ++ c :: (group ++ tail)⟩ (c :: (group ++ tail)) =
      if 3 < before.length + group.length ∨ '/' ∈ before ++ c :: group ∨ 11 < nums + 1 then
        .error .noMatch
      else afterGroup colons (nums + 1) double tail := by
  induction group generalizing before c with
  | nil => exact run_last low before c stops
  | cons d group ih =>
    obtain ⟨here, later⟩ := forall_mem_cons.mp solid
    have step := ih (before ++ [c]) d later
    rw [length_append, length_singleton, append_assoc, append_assoc, singleton_append,
      singleton_append,
      Nat.add_assoc, Nat.add_comm 1] at step
    rw [cons_append, run_inside few low here, step, length_cons]

omit low in
theorem run_colon (rest : CStr) : run ⟨.colon, colons, nums, mark double, sp⟩ (':' :: rest) =
      if 7 < colons + 1 ∨ rest.head? = some '/' then .error .noMatch
      else if rest.head? = some ':' then
        run ⟨.double, colons + 1, nums, mark double, sp⟩ rest
      else run ⟨.addr, colons + 1, nums, mark double, rest⟩ rest := by
  have limits (state : Ipv6State) (sp : CStr) :
      inLimits ⟨state, colons + 1, nums, mark double, sp⟩ ↔ ¬ 7 < colons + 1 := by
    rw [inLimits_iff, Int.not_lt]
    exact and_iff_right few
  rw [run, if_neg nofun, ipv6Step]
  by_cases slash : rest.head? = some '/'
  · rw [if_pos slash]
    exact (if_pos (.inr slash)).symm
  rw [if_neg slash]
  simp only [slash, or_false]
  by_cases more : rest.head? = some ':'
  · rw [if_pos more, if_pos more]
    exact within_limits (limits .double sp)
  · rw [if_neg more, if_neg more]
    exact within_limits (limits .addr rest)

omit few in
theorem run_double (c : Char) (rest : CStr) :
    run ⟨.double, colons, nums, mark double, sp⟩ (c :: rest) =
      if double ∨ rest.head? = some ':' ∨ 11 < nums + 1 then .error .noMatch
      else if rest = [] then .error .partlyMatch
      else if rest.head? = some '/' then
        run ⟨.slash, colons, nums + 1, mark true, rest⟩ rest
      else if 7 < colons + 1 then .error .noMatch
      else run ⟨.addr, colons + 1, nums + 1, mark true, rest⟩ rest := by
  rw [run, if_neg nofun, ipv6Step]
  dsimp only
  cases double with
  | true => rfl
  | false =>
    rw [if_neg (by decide)]
    by_cases more : rest.head? = some ':'
    · rw [if_pos more]
      exact (if_pos (.inr (.inl more))).symm
    rw [if_neg more]
    simp only [more, false_or, Bool.false_eq_true]
    by_cases many : 11 < nums + 1
    · rw [if_pos many, if_neg]
      rw [inLimits_iff]
      exact fun inside => inside.1.not_gt many
    rw [if_neg many]
    have few' : nums + 1 ≤ 11 := Nat.le_of_not_lt many
    by_cases last : rest = []
    · subst last
      rw [if_pos rfl, if_pos]
      · rfl
      · exact (inLimits_iff _ _ _ _ _).mpr ⟨few', low⟩
    rw [if_neg last]
    by_cases slash : rest.head? = some '/'
    · rw [if_pos slash, if_pos slash, if_pos, if_neg (by simp [slash])]
      · rfl
      · rw [if_neg (by simp [slash])]
        exact (inLimits_iff _ _ _ _ _).mpr ⟨few', low⟩
    · have counted : (decide (rest ≠ []) &&
          decide (rest.head? ≠ some '/')) := by
        simp [slash, last]
      rw [if_neg slash, if_neg slash, if_pos counted]
      by_cases high : 7 < colons + 1
      · rw [if_pos high, if_neg]
        rw [inLimits_iff]
        exact fun inside => inside.2.not_gt high
      · rw [if_neg high, if_pos]
        · rfl
        · exact (inLimits_iff _ _ _ _ _).mpr
            ⟨few', Int.not_lt.mp high⟩

end

/-! ## The machine on cells -/

/-- The text of the cells that are left. -/
def joined (result : Except MatchType (CStr × List (Cell Char))) : Except MatchType CStr :=
  result.map fun mask => text mask.1 mask.2

variable {cells : List (Cell Char)} {field : CStr} {colons nums : Nat}

theorem stops_of_cut (cut : Cut inGroup cells) :
    ∀ d ∈ (text [] cells).head?, inGroup d = false := by
  intro d member
  cases cells with
  | nil => cases member
  | cons cell cells =>
    obtain ⟨c, next⟩ := cell
    cases member
    exact (cut _ mem_cons_self).1

theorem slashScan_joined (mask : CStr) (cells : List (Cell Char)) : joined (slashScan mask cells) =
      if text mask cells = [] then .error .partlyMatch
      else .ok (text mask cells) := by
  unfold slashScan
  simp only [text_eq_nil_iff]
  split
  · rfl
  · rfl

/-- The machine reads the cells from the start of a group on. -/
def Reads (field : CStr) (cells : List (Cell Char)) : Prop :=
  ∀ (before : CStr) (colons nums : Nat) (double : Bool),
    before.length ≤ 4 → '/' ∉ before → colons ≤ 7 → nums ≤ 11 →
    run ⟨.addr, colons, nums, mark double, before ++ text field cells⟩ (text field cells) =
      joined (groupScan colons nums double (4 - before.length) field cells)

theorem Reads.fresh {field : CStr} {cells : List (Cell Char)} (reads : Reads field cells)
    {colons nums : Nat} (low : colons ≤ 7) (few : nums ≤ 11) (double : Bool) :
    run ⟨.addr, colons, nums, mark double, text field cells⟩ (text field cells) =
      joined (groupScan colons nums double 4 field cells) :=
  reads [] colons nums double (Nat.zero_le 4) (nomatch ·) low few

theorem Reads.behindDot (reads : Reads field cells) (low : colons ≤ 7) (few : nums ≤ 11)
    (double : Bool) :
    run ⟨.addr, colons, nums, mark double, '.' :: text field cells⟩ (text field cells) =
      joined (groupScan colons nums double 3 field cells) :=
  reads ['.'] colons nums double (by decide) (by decide) low few

theorem run_doubleScan (filled : Filled inGroup field) (reads : Reads field cells)
    (low : colons ≤ 7) (double : Bool) (sp : CStr) :
    run ⟨.double, colons, nums, mark double, sp⟩ (':' :: text field cells) =
      joined (doubleScan colons nums double field cells) := by
  have low' : (colons : Int) ≤ 7 := by exact_mod_cast low
  have high : (7 : Int) < (colons : Int) + 1 ↔ 7 < colons + 1 := by omega
  rw [run_double low']
  unfold doubleScan headOf
  by_cases refused : double ∨ (text field cells).head? = some ':' ∨ 11 < nums + 1
  · rw [if_pos refused, if_pos refused]
    rfl
  rw [if_neg refused, if_neg refused]
  simp only [not_or, Nat.not_lt] at refused
  have next := @Reads.fresh field cells reads (colons + 1) (nums + 1)
  simp only [high]
  have goesOn : (text field cells ≠ []) → (text field cells).head? ≠ some '/' →
      (if text field cells = [] then .error .partlyMatch
        else if (text field cells).head? = some '/' then
          run ⟨.slash, colons, nums + 1, mark true, text field cells⟩ (text field cells)
        else if 7 < colons + 1 then .error .noMatch
        else run ⟨.addr, colons + 1, nums + 1, mark true, text field cells⟩ (text field cells)) =
        joined (if 7 < colons + 1 then .error .noMatch
          else groupScan (colons + 1) (nums + 1) true 4 field cells) := by
    intro some notSlash
    rw [if_neg some, if_neg notSlash]
    split
    · rfl
    · rename_i fits
      exact next (Nat.le_of_not_lt fits) refused.2.2 true
  cases field with
  | cons c field =>
    refine goesOn nofun ?_
    intro starts
    exact nomatch (head_text filled rfl starts)
  | nil =>
    cases cells with
    | nil => rfl
    | cons cell cells =>
      obtain ⟨c, following⟩ := cell
      dsimp only
      by_cases slash : c = '/'
      · subst slash
        rw [if_pos rfl, slashScan_joined]
        exact run_slash refused.2.2 low' (text following cells)
      · rw [if_neg slash]
        refine goesOn nofun ?_
        intro starts
        exact slash (Option.some.inj starts)

theorem run_colonScan {next : CStr} (filled : Filled inGroup next) (reads : Reads next cells)
    (later : ∀ c following others, cells = (c, following) :: others →
      Filled inGroup following ∧ Reads following others) (few : nums ≤ 11)
    (double : Bool) (sp : CStr) :
    run ⟨.colon, colons, nums, mark double, sp⟩ (':' :: text next cells) =
      joined (colonScan colons nums double next cells) := by
  have high : (7 : Int) < (colons : Int) + 1 ↔ 7 < colons + 1 := by omega
  rw [run_colon few]
  unfold colonScan headOf
  simp only [high]
  by_cases refused : 7 < colons + 1 ∨ (text next cells).head? = some '/'
  · rw [if_pos refused, if_pos refused]
    rfl
  rw [if_neg refused, if_neg refused]
  have low : colons + 1 ≤ 7 := Nat.le_of_not_lt (not_or.mp refused).1
  have plain := reads.fresh low few double
  cases next with
  | cons c next =>
    rw [if_neg fun starts => nomatch (head_text filled rfl starts)]
    exact plain
  | nil =>
    cases cells with
    | nil => rfl
    | cons cell cells =>
      obtain ⟨c, following⟩ := cell
      obtain ⟨solid, behind⟩ := later c following cells rfl
      by_cases colon : c = ':'
      · subst colon
        have starts : (text [] ((':', following) :: cells)).head? = some ':' := rfl
        rw [if_pos starts]
        dsimp only
        rw [if_pos rfl]
        exact run_doubleScan solid behind low double sp
      · have noColon : ¬ (text [] ((c, following) :: cells)).head? = some ':' :=
          fun starts => colon (Option.some.inj starts)
        rw [if_neg noColon]
        dsimp only
        rw [if_neg colon]
        exact plain

theorem run_groupEnd (cut : Cut inGroup cells)
    (reads : ∀ field others, others.length < cells.length →
      Filled inGroup field → Cut inGroup others → Reads field others)
    (before : CStr) (c : Char) {group : CStr} (solid : Filled inGroup group)
    (double : Bool) (short : before.length ≤ 4) (noSlash : '/' ∉ before)
    (low : colons ≤ 7) (few : nums ≤ 11) :
    run ⟨.addr, colons, nums, mark double, before ++ c :: (group ++ text [] cells)⟩
        (c :: (group ++ text [] cells)) =
      joined (groupEnd colons nums double (4 - before.length) (c :: group) cells) := by
  have low' : (colons : Int) ≤ 7 := by exact_mod_cast low
  have refused : (4 - before.length < (c :: group).length ∨ '/' ∈ c :: group ∨ 11 < nums + 1) ↔
      3 < before.length + group.length ∨ '/' ∈ before ++ c :: group ∨ 11 < nums + 1 := by
    rw [length_cons, mem_append, or_iff_right noSlash]
    refine or_congr_left ?_
    omega
  rw [run_group few low' before c solid (stops_of_cut cut)]
  unfold groupEnd
  simp only [refused]
  by_cases ends : 3 < before.length + group.length ∨ '/' ∈ before ++ c :: group ∨ 11 < nums + 1
  · rw [if_pos ends, if_pos ends]
    rfl
  rw [if_neg ends, if_neg ends]
  have few' : nums + 1 ≤ 11 := by
    simp only [not_or, Nat.not_lt] at ends
    exact ends.2.2
  cases cells with
  | nil => rfl
  | cons cell cells =>
    obtain ⟨d, next⟩ := cell
    obtain ⟨⟨notSolid, filled⟩, others⟩ := forall_mem_cons.mp cut
    have behind : Reads next cells := reads next cells (Nat.lt_succ_self _) filled others
    unfold afterGroup
    rw [text_cons, nil_append]
    dsimp only
    by_cases slash : d = '/'
    · rw [if_pos slash, if_pos slash, slashScan_joined]
    rw [if_neg slash, if_neg slash]
    by_cases dot : d = '.'
    · rw [if_pos dot, if_pos dot]
      have zero : ((colons : Int) ≠ 0 ∨ double) ↔ (colons ≠ 0 ∨ double) := by
        rw [ne_eq, Int.natCast_eq_zero]
      simp only [zero]
      split
      · exact behind.behindDot low few' double
      · rfl
    · cases (inGroup_eq_false.mp notSolid).resolve_right (not_or.mpr ⟨dot, slash⟩)
      refine run_colonScan filled behind ?_ few' double _
      rintro c following others' rfl
      obtain ⟨⟨_, solid'⟩, cut'⟩ := forall_mem_cons.mp others
      refine ⟨solid', reads following others' ?_ solid' cut'⟩
      simp only [length_cons]
      omega

/-- **The machine reads a text as its cells are read.** -/
theorem reads_of_cut (filled : Filled inGroup field) (cut : Cut inGroup cells) :
    Reads field cells := by
  refine induction_cut ?_ filled cut
  intro field cells filled cut ih before colons nums double short noSlash low few
  cases field with
  | nil =>
    cases cells with
    | nil =>
      rw [groupScan]
      rfl
    | cons cell cells =>
      obtain ⟨c, next⟩ := cell
      obtain ⟨⟨_, solid⟩, later⟩ := forall_mem_cons.mp cut
      rw [groupScan]
      refine run_groupEnd later ?_ before c solid double short noSlash low few
      intro other others less
      exact ih other others (Nat.lt_succ_of_lt less)
  | cons c field =>
    rw [groupScan]
    exact run_groupEnd cut ih before c
      (forall_mem_cons.mp filled).2 double short noSlash low few

/-! ## The matcher -/

def openingScan (field : CStr) (cells : List (Cell Char)) :
    Except MatchType (CStr × List (Cell Char)) :=
  match field, cells with
  | [], [] => .error .partlyMatch
  | [], (c, next) :: cells =>
    if c = ':' then doubleScan 0 0 false next cells else .error .noMatch
  | _ :: _, _ => .error .noMatch

/-- The machine from its first state on: the cells of the mask or the
answer. -/
def prefixScan (field : CStr) (cells : List (Cell Char)) :
    Except MatchType (CStr × List (Cell Char)) :=
  match field, cells with
  | [], [] => .error .partlyMatch
  | [], (c, next) :: cells =>
    if c = ':' then openingScan next cells
    else groupScan 0 0 false 4 [] ((c, next) :: cells)
  | c :: field, cells => groupScan 0 0 false 4 (c :: field) cells

theorem ipv6PrefixLoop_group {c : Char} {rest : CStr} (notColon : c ≠ ':') (fuel : Nat) :
    ipv6PrefixLoop (fuel + 1) ⟨.start, 0, 0, 0, []⟩ (c :: rest) =
      ipv6PrefixLoop fuel ⟨.addr, 0, 0, 0, c :: rest⟩ (c :: rest) := by
  rw [ipv6PrefixLoop, if_neg (by rintro ⟨⟩), ipv6Step]
  rw [if_neg notColon]

theorem ipv6PrefixLoop_colon (rest : CStr) (fuel : Nat) :
    ipv6PrefixLoop (fuel + 1) ⟨.start, 0, 0, 0, []⟩ (':' :: rest) =
      if rest.head? ≠ some ':' && rest ≠ [] then .error .noMatch
      else ipv6PrefixLoop fuel ⟨.colon, -1, 0, 0, []⟩ (':' :: rest) := by
  rw [ipv6PrefixLoop, if_neg (by rintro ⟨⟩), ipv6Step]
  rw [if_pos rfl]
  by_cases wrong : (decide (rest.head? ≠ some ':') && decide (rest ≠ []))
  · rw [if_pos wrong, if_pos wrong]
  · rw [if_neg wrong, if_neg wrong]
    rfl

theorem ipv6PrefixLoop_text (filled : Filled inGroup field) (cut : Cut inGroup cells) :
    ipv6PrefixLoop ((text field cells).length + 2) ⟨.start, 0, 0, 0, []⟩
        (text field cells) = joined (prefixScan field cells) := by
  have reads := reads_of_cut filled cut
  have plain := reads.fresh (Nat.zero_le 7) (Nat.zero_le 11) false
  cases field with
  | cons c field =>
    have notColon : c ≠ ':' := by
      rintro rfl
      cases filled ':' mem_cons_self
    refine (ipv6PrefixLoop_group notColon _).trans ?_
    exact (@ipv6PrefixLoop_eq_run ⟨.addr, 0, 0, 0, _⟩ _ _ nofun (Nat.lt_succ_self _)).trans plain
  | nil =>
    cases cells with
    | nil => rfl
    | cons cell cells =>
      obtain ⟨c, next⟩ := cell
      obtain ⟨⟨_, solid⟩, later⟩ := forall_mem_cons.mp cut
      unfold prefixScan
      dsimp only
      by_cases colon : c = ':'
      · subst colon
        rw [if_pos rfl]
        refine (ipv6PrefixLoop_colon (text next cells) _).trans ?_
        cases next with
        | cons d next =>
          refine if_pos ?_
          have other : d ≠ ':' := by
            rintro rfl
            cases solid ':' mem_cons_self
          simp [text, other]
        | nil =>
          cases cells with
          | nil => rfl
          | cons cell cells =>
            obtain ⟨d, following⟩ := cell
            obtain ⟨⟨_, filled'⟩, cut'⟩ := forall_mem_cons.mp later
            have behind := reads_of_cut filled' cut'
            unfold openingScan
            dsimp only
            by_cases double : d = ':'
            · subst double
              rw [if_pos rfl, if_neg (by simp [text])]
              refine (@ipv6PrefixLoop_eq_run ⟨.colon, -1, 0, 0, []⟩ _
                _ nofun (Nat.lt_succ_self _)).trans ?_
              refine (@run_colon (-1) 0 false [] (Nat.zero_le 11)
                (text [] ((':', following) :: cells))).trans ?_
              refine (if_neg (by simp [text])).trans ((if_pos rfl).trans ?_)
              exact run_doubleScan filled' behind (Nat.zero_le 7) false []
            · rw [if_neg double]
              refine if_pos ?_
              simp [text, double]
      · rw [if_neg colon]
        refine (ipv6PrefixLoop_group colon _).trans ?_
        exact (@ipv6PrefixLoop_eq_run ⟨.addr, 0, 0, 0, _⟩ _ _ nofun
          (Nat.lt_succ_self _)).trans plain

/-- The mask of a prefix. -/
def IsMask (mask : CStr) : Prop :=
  isNumeral mask ∧ 0 ≤ digitsInt mask ∧ digitsInt mask ≤ 128

instance (mask : CStr) : Decidable (IsMask mask) :=
  inferInstanceAs (Decidable (_ ∧ _))

def Allowed (word : CStr) : Prop :=
  ∀ c ∈ word, c ∈ ipv6PrefixStr

instance (word : CStr) : Decidable (Allowed word) :=
  List.decidableBAll (· ∈ ipv6PrefixStr) word

theorem cmdIpv6PrefixMatch_eq (str : CStr) : cmdIpv6PrefixMatch str = if Allowed str then
        match ipv6PrefixLoop (str.length + 2) ⟨.start, 0, 0, 0, []⟩ str with
        | .error answer => answer
        | .ok mask => if IsMask mask then .exactMatch else .noMatch
      else .noMatch := by
  unfold cmdIpv6PrefixMatch
  have allowed : str.all (ipv6PrefixStr.contains ·) ↔ Allowed str := by
    rw [all_eq_true]
    simp only [contains_iff_mem]
    rfl
  by_cases fine : Allowed str
  · rw [if_pos fine, allowed.mpr fine, if_neg (by decide)]
    cases ipv6PrefixLoop (str.length + 2) ⟨.start, 0, 0, 0, []⟩ str with
    | error answer => rfl
    | ok mask =>
      dsimp only
      by_cases mark : IsMask mask
      · rw [if_pos mark, mark.1]
        have bounds := mark.2
        simp only [Bool.not_true, Bool.false_eq_true, if_false]
        rw [if_neg]
        simp only [Bool.or_eq_true, decide_eq_true_eq]
        omega
      · rw [if_neg mark]
        by_cases numeral : isNumeral mask
        · rw [numeral]
          have outside : ¬(0 ≤ digitsInt mask ∧ digitsInt mask ≤ 128) :=
            fun bounds => mark ⟨numeral, bounds⟩
          simp only [Bool.not_true, Bool.false_eq_true, if_false]
          rw [if_pos]
          simp only [Bool.or_eq_true, decide_eq_true_eq]
          omega
        · rw [Bool.eq_false_iff.mpr numeral]
          rfl
  · have refused : str.all (ipv6PrefixStr.contains ·) = false :=
      Bool.eq_false_iff.mpr fun all => fine (allowed.mp all)
    rw [if_neg fine, refused]
    rfl

end OpsCli.Command.Ipv6Scan
