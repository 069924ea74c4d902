import OpsCli.Command.Ipv4
import OpsCli.Command.Ipv6Scan

/-!
# The words that the IPv6 prefix matcher accepts

`cmd_ipv6_match` leaves an address to `inet_pton`.  `cmd_ipv6_prefix_match`
counts the colons and the groups of the address itself, bounds the counters
from above only, and takes any character at the start of a group.
-/

namespace OpsCli.Command.Ipv6

open CLib CString Cells Token Address Ipv4 Ipv6Scan List

/-! ## Textual addresses -/

def isxdigit (c : Char) : Bool :=
  isdigit c || 'a' ≤ c && c ≤ 'f' || 'A' ≤ c && c ≤ 'F'

structure IsHextet (group : CStr) : Prop where
  present : group ≠ []
  short : group.length ≤ 4
  hexadecimal : ∀ c ∈ group, isxdigit c

/-- So many groups with colons between them; where `quad` allows it, an IPv4
address may stand for the last two of them. -/
inductive Groups (quad : Bool) : Nat → CStr → Prop
  | one {group : CStr} : IsHextet group → Groups quad 1 group
  | dotted {address : CStr} : quad → IsAddress address → Groups quad 2 address
  | more {group rest : CStr} {count : Nat} : IsHextet group →
      Groups quad count rest → Groups quad (count + 1) (group ++ ':' :: rest)

/-- What may stand at one side of a double colon. -/
def Side (quad : Bool) (count : Nat) (side : CStr) : Prop :=
  count = 0 ∧ side = [] ∨ Groups quad count side

/-- The texts of IPv6 addresses: eight groups, or fewer around a double
colon. -/
def Textual (address : CStr) : Prop :=
  Groups true 8 address ∨ ∃ before after first second, address = before ++ ':' :: ':' :: after ∧
      Side false first before ∧ Side true second after ∧ first + second ≤ 7

/-- An address that `inet_pton` takes and the length of a prefix. -/
def IsPrefix (inetPton : CStr → Bool) (word : CStr) : Prop :=
  ∃ address length, word = address ++ '/' :: length ∧
    inetPton address ∧ isNumeral length ∧
    digitsValue length ≤ 128

/-! ## Tolerated addresses -/

/-- A group that the matcher takes: its first character may be a colon or a
dot. -/
inductive IsGroup (limit : Nat) : CStr → Prop
  | mk {first : Char} {rest : CStr} : first ≠ '/' → Filled inGroup rest →
      (first :: rest).length ≤ limit → IsGroup limit (first :: rest)

/-- What may stand behind the last group when so many colons and groups have
been counted, with or without a double colon. -/
abbrev Ends := Nat → Nat → Bool → CStr → Prop

/-- The texts that the matcher goes through from the start of a group of at most
`limit` characters on, when it has counted so many colons and groups and knows
whether there was a double colon; `ends` says what may stand behind the last
group. -/
inductive Through (ends : Ends) : Nat → Nat → Bool → Nat → CStr → Prop
  | ends {colons nums : Nat} {double : Bool} {limit : Nat} {group ending : CStr} :
      IsGroup limit group → nums + 1 ≤ 11 →
      ends colons (nums + 1) double ending →
      Through ends colons nums double limit (group ++ ending)
  | dot {colons nums : Nat} {double : Bool} {limit : Nat} {group rest : CStr} :
      IsGroup limit group → nums + 1 ≤ 11 → colons ≠ 0 ∨ double →
      Through ends colons (nums + 1) double 3 rest →
      Through ends colons nums double limit (group ++ '.' :: rest)
  | colon {colons nums : Nat} {double : Bool} {limit : Nat} {group rest : CStr} :
      IsGroup limit group → nums + 1 ≤ 11 → colons + 1 ≤ 7 →
      rest.head? ≠ some ':' →
      Through ends (colons + 1) (nums + 1) double 4 rest →
      Through ends colons nums double limit (group ++ ':' :: rest)
  | double {colons nums limit : Nat} {group rest : CStr} :
      IsGroup limit group → nums + 2 ≤ 11 → colons + 2 ≤ 7 →
      rest.head? ≠ some ':' →
      Through ends (colons + 2) (nums + 2) true 4 rest →
      Through ends colons nums false limit (group ++ ':' :: ':' :: rest)

/-- The texts that the matcher goes through from their start on. -/
def Opens (ends : Ends) (address : CStr) : Prop :=
  (∃ rest, address = ':' :: ':' :: rest ∧ rest.head? ≠ some ':' ∧ Through ends 1 1 true 4 rest) ∨
  (address.head? ≠ some ':' ∧ Through ends 0 0 false 4 address)

/-- An address may end behind a group or behind a double colon. -/
def Complete : Ends := fun colons nums double ending =>
  ending = [] ∨ (ending = [':', ':'] ∧ double = false ∧ nums + 1 ≤ 11 ∧ colons + 1 ≤ 7)

/-- The addresses that the matcher takes from the start of a group on. -/
abbrev Tolerated := Through Complete

/-- The addresses that the matcher takes. -/
def Opened (address : CStr) : Prop :=
  address = [':', ':'] ∨ Opens Complete address

section

variable {colons nums limit : Nat} {group : CStr}

theorem Tolerated.last {double : Bool} (isGroup : IsGroup limit group) (few : nums + 1 ≤ 11) :
    Tolerated colons nums double limit group := by
  have whole : Tolerated colons nums double limit (group ++ []) := .ends isGroup few (.inl rfl)
  rwa [append_nil] at whole

theorem Tolerated.doubleLast (isGroup : IsGroup limit group) (few : nums + 2 ≤ 11)
    (low : colons + 1 ≤ 7) : Tolerated colons nums false limit (group ++ [':', ':']) :=
  .ends isGroup (Nat.le_of_succ_le few) (.inr ⟨rfl, rfl, few, low⟩)

end

/-! ## What is read is tolerated -/

/-- The text of the cells up to the mask. -/
def Before (accepted : CStr → Prop) (str : CStr) (mask : CStr × List (Cell Char)) : Prop :=
  ∃ address, str = address ++ '/' :: text mask.1 mask.2 ∧ text mask.1 mask.2 ≠ [] ∧ accepted address

variable {mask address rest field group groups : CStr} {cells : List (Cell Char)} {c : Char}
  {colons nums limit count : Nat} {double quad : Bool} {result : Except MatchType CStr}
  {tail str length : CStr} {ends : Ends}

theorem slashScan_eq_ok {found : CStr × List (Cell Char)}
    (taken : slashScan mask cells = .ok found) : found = (mask, cells) ∧ text mask cells ≠ [] := by
  unfold slashScan at taken
  split at taken
  · cases taken
  · rename_i some
    cases taken
    exact ⟨rfl, fun empty => some ((text_eq_nil_iff mask cells).mp empty)⟩

theorem head_address (equal : str = address ++ rest) (other : str.head? ≠ some c) :
    address.head? ≠ some c := by
  rintro starts
  cases address with
  | nil => cases starts
  | cons d address =>
    cases starts
    exact other (by rw [equal]; rfl)

/-- The cells are read from the start of a group on as tolerated ones. -/
def Tolerates (field : CStr) (cells : List (Cell Char)) : Prop :=
  ∀ (colons nums : Nat) (double : Bool) (limit : Nat) (mask : CStr × List (Cell Char)),
    groupScan colons nums double limit field cells = .ok mask →
    Before (Tolerated colons nums double limit) (text field cells) mask

/-- What is left behind the last group when the scan answers there. -/
def Stops (answer : Except MatchType (CStr × List (Cell Char))) : Ends :=
  fun colons nums double ending =>
    (∃ front mask later, Complete colons nums double front ∧
        ending = front ++ '/' :: text mask later ∧ slashScan mask later = answer) ∨
      answer = .error .partlyMatch ∧ (Complete colons nums double ending ∨
        (ending = ['.'] ∧ (colons ≠ 0 ∨ double)) ∨ (ending = [':'] ∧ colons + 1 ≤ 7))

/-- The scan goes through the cells from the start of a group on. -/
def Traced (field : CStr) (cells : List (Cell Char)) : Prop :=
  ∀ (colons nums : Nat) (double : Bool) (limit : Nat)
    (answer : Except MatchType (CStr × List (Cell Char))), answer ≠ .error .noMatch →
    groupScan colons nums double limit field cells = answer → text field cells ≠ [] →
    Through (Stops answer) colons nums double limit (text field cells)

section

variable {answer : Except MatchType (CStr × List (Cell Char))}
  (taken : answer ≠ .error .noMatch)
include taken

theorem doubleScan_cases (scanned : doubleScan colons nums double field cells = answer) :
    double = false ∧ nums + 1 ≤ 11 ∧
      (text field cells = [] ∧ answer = .error .partlyMatch ∨
        (∃ mask later, text field cells = '/' :: text mask later ∧ slashScan mask later = answer) ∨
        text field cells ≠ [] ∧ (text field cells).head? ≠ some ':' ∧ colons + 1 ≤ 7 ∧
          groupScan (colons + 1) (nums + 1) true 4 field cells = answer) := by
  unfold doubleScan headOf at scanned
  split at scanned
  · exact absurd scanned.symm taken
  rename_i refused
  simp only [not_or, Nat.not_lt, Bool.not_eq_true] at refused
  obtain ⟨fresh, single, few⟩ := refused
  refine ⟨fresh, few, ?_⟩
  have goesOn (group : (if 7 < colons + 1 then .error .noMatch
      else groupScan (colons + 1) (nums + 1) true 4 field cells) = answer) :
      colons + 1 ≤ 7 ∧ groupScan (colons + 1) (nums + 1) true 4 field cells = answer := by
    split at group
    · exact absurd group.symm taken
    · exact ⟨Nat.le_of_not_lt ‹_›, group⟩
  cases field with
  | cons c field => exact .inr (.inr ⟨nofun, single, goesOn scanned⟩)
  | nil =>
    cases cells with
    | nil => exact .inl ⟨rfl, scanned.symm⟩
    | cons cell cells =>
      obtain ⟨c, next⟩ := cell
      dsimp only at scanned
      split at scanned
      · rename_i slash
        subst slash
        exact .inr (.inl ⟨next, cells, rfl, scanned⟩)
      · exact .inr (.inr ⟨nofun, single, goesOn scanned⟩)

theorem colonScan_traced {next : CStr} (filled : Filled inGroup next) (traced : Traced next cells)
    (later : ∀ c following others, cells = (c, following) :: others → Traced following others)
    (isGroup : IsGroup limit group) (few : nums + 1 ≤ 11)
    (scanned : colonScan colons (nums + 1) double next cells = answer) :
    Through (Stops answer) colons nums double limit (group ++ ':' :: text next cells) := by
  unfold colonScan headOf at scanned
  split at scanned
  · exact absurd scanned.symm taken
  rename_i refused
  simp only [not_or, Nat.not_lt] at refused
  obtain ⟨low, _⟩ := refused
  have goesOn (present : text next cells ≠ []) (single : (text next cells).head? ≠ some ':')
      (group : groupScan (colons + 1) (nums + 1) double 4 next cells = answer) :=
    Through.colon isGroup few low single (traced _ _ _ _ _ taken group present)
  cases next with
  | cons c next =>
    refine goesOn nofun ?_ scanned
    intro starts
    exact nomatch (head_text filled rfl starts)
  | nil =>
    cases cells with
    | nil => exact .ends isGroup few (.inr ⟨scanned.symm, .inr (.inr ⟨rfl, low⟩)⟩)
    | cons cell cells =>
      obtain ⟨c, following⟩ := cell
      dsimp only at scanned
      split at scanned
      · rename_i colon
        subst colon
        rw [text_cons]
        obtain ⟨rfl, few', ⟨empty, partly⟩ | ⟨mask, rest, slash, behind⟩ |
          ⟨present, single, low', group⟩⟩ := doubleScan_cases taken scanned
        · rw [empty]
          exact .ends isGroup few (.inr ⟨partly, .inl (.inr ⟨rfl, rfl, few', low⟩)⟩)
        · rw [slash]
          exact .ends isGroup few
            (.inl ⟨[':', ':'], mask, rest, .inr ⟨rfl, rfl, few', low⟩, rfl, behind⟩)
        · have through := later _ _ _ rfl _ _ _ _ _ taken group present
          exact .double isGroup few' low' single through
      · rename_i other
        refine goesOn nofun ?_ scanned
        intro starts
        exact other (Option.some.inj starts)

theorem groupEnd_traced (cut : Cut inGroup cells)
    (traced : ∀ field others, others.length < cells.length →
      Filled inGroup field → Cut inGroup others → Traced field others)
    (solid : Filled inGroup group)
    (scanned : groupEnd colons nums double limit (c :: group) cells = answer) :
    Through (Stops answer) colons nums double limit (text (c :: group) cells) := by
  unfold groupEnd at scanned
  split at scanned
  · exact absurd scanned.symm taken
  rename_i refused
  simp only [not_or, Nat.not_lt, mem_cons] at refused
  obtain ⟨short, ⟨notSlash, _⟩, few⟩ := refused
  have isGroup : IsGroup limit (c :: group) := ⟨Ne.symm notSlash, solid, short⟩
  cases cells with
  | nil => exact .ends isGroup few (.inr ⟨scanned.symm, .inl (.inl rfl)⟩)
  | cons cell cells =>
    obtain ⟨d, next⟩ := cell
    obtain ⟨⟨notSolid, filled⟩, others⟩ := forall_mem_cons.mp cut
    have behind := traced next cells (Nat.lt_succ_self _) filled others
    rw [text_cons]
    dsimp only at scanned
    split at scanned
    · rename_i slash
      subst slash
      exact .ends isGroup few (.inl ⟨[], next, cells, .inl rfl, rfl, scanned⟩)
    rename_i notSlash'
    split at scanned
    · rename_i dot
      subst dot
      split at scanned
      · rename_i allowed
        by_cases empty : text next cells = []
        · obtain ⟨rfl, rfl⟩ := (text_eq_nil_iff next cells).mp empty
          rw [groupScan] at scanned
          exact .ends isGroup few (.inr ⟨scanned.symm, .inr (.inl ⟨rfl, allowed⟩)⟩)
        · exact .dot isGroup few allowed (behind _ _ _ _ _ taken scanned empty)
      · exact absurd scanned.symm taken
    · rename_i notDot
      cases (inGroup_eq_false.mp notSolid).resolve_right (not_or.mpr ⟨notDot, notSlash'⟩)
      refine colonScan_traced taken filled behind ?_ isGroup few scanned
      rintro c following others' rfl
      obtain ⟨⟨_, solid'⟩, cut'⟩ := forall_mem_cons.mp others
      refine traced following others' ?_ solid' cut'
      simp only [length_cons]
      omega

theorem prefixScan_cases (filled : Filled inGroup field) (cut : Cut inGroup cells)
    (scanned : prefixScan field cells = answer) :
    answer = .error .partlyMatch ∧ text field cells ∈ [[], [':'], [':', ':']] ∨
      (∃ mask later, text field cells = ':' :: ':' :: '/' :: text mask later ∧
        slashScan mask later = answer) ∨
      (∃ next others, text field cells = ':' :: ':' :: text next others ∧ Filled inGroup next ∧
        Cut inGroup others ∧ text next others ≠ [] ∧ (text next others).head? ≠ some ':' ∧
        groupScan 1 1 true 4 next others = answer) ∨
      text field cells ≠ [] ∧ (text field cells).head? ≠ some ':' ∧
        groupScan 0 0 false 4 field cells = answer := by
  unfold prefixScan at scanned
  cases field with
  | cons c field =>
    refine .inr (.inr (.inr ⟨nofun, ?_, scanned⟩))
    intro starts
    exact nomatch (head_text filled rfl starts)
  | nil =>
    cases cells with
    | nil => exact .inl ⟨scanned.symm, by decide⟩
    | cons cell cells =>
      obtain ⟨c, next⟩ := cell
      obtain ⟨⟨_, solid⟩, later⟩ := forall_mem_cons.mp cut
      dsimp only at scanned
      by_cases colon : c = ':'
      · rw [if_pos colon] at scanned
        subst colon
        unfold openingScan at scanned
        cases next with
        | cons d next => exact absurd scanned.symm taken
        | nil =>
          cases cells with
          | nil => exact .inl ⟨scanned.symm, by decide⟩
          | cons cell cells =>
            obtain ⟨d, following⟩ := cell
            obtain ⟨⟨_, filled'⟩, cut'⟩ := forall_mem_cons.mp later
            dsimp only at scanned
            split at scanned
            · rename_i again
              subst again
              rw [text_cons, text_cons]
              obtain ⟨_, _, ⟨empty, partly⟩ | ⟨mask, rest, slash, behind⟩ |
                ⟨present, single, _, group⟩⟩ := doubleScan_cases taken scanned
              · rw [empty]
                exact .inl ⟨partly, by decide⟩
              · rw [slash]
                exact .inr (.inl ⟨mask, rest, rfl, behind⟩)
              · exact .inr (.inr (.inl
                  ⟨following, cells, rfl, filled', cut', present, single, group⟩))
            · exact absurd scanned.symm taken
      · rw [if_neg colon] at scanned
        refine .inr (.inr (.inr ⟨nofun, ?_, scanned⟩))
        intro starts
        exact colon (Option.some.inj starts)

end

theorem traced_of_cut (filled : Filled inGroup field) (cut : Cut inGroup cells) :
    Traced field cells := by
  refine induction_cut ?_ filled cut
  intro field cells filled cut ih colons nums double limit answer taken scanned present
  cases field with
  | nil =>
    cases cells with
    | nil => exact absurd rfl present
    | cons cell cells =>
      obtain ⟨c, next⟩ := cell
      obtain ⟨⟨_, solid⟩, later⟩ := forall_mem_cons.mp cut
      rw [groupScan] at scanned
      refine groupEnd_traced taken later ?_ solid scanned
      intro other others less
      exact ih other others (Nat.lt_succ_of_lt less)
  | cons c field =>
    rw [groupScan] at scanned
    exact groupEnd_traced taken cut ih (forall_mem_cons.mp filled).2 scanned

theorem before_of_through {mask : CStr × List (Cell Char)}
    (through : Through (Stops (.ok mask)) colons nums double limit str) :
    Before (Tolerated colons nums double limit) str mask := by
  induction through with
  | ends isGroup few stops =>
    rcases stops with ⟨front, _, _, complete, rfl, slash⟩ | ⟨impossible, _⟩
    · obtain ⟨rfl, some⟩ := slashScan_eq_ok slash
      exact ⟨_, (append_assoc ..).symm, some, .ends isGroup few complete⟩
    · cases impossible
  | dot isGroup few allowed _ ih =>
    obtain ⟨address, rfl, some, fine⟩ := ih
    exact ⟨_, (append_assoc _ ('.' :: address) _).symm, some, .dot isGroup few allowed fine⟩
  | colon isGroup few low single _ ih =>
    obtain ⟨address, rfl, some, fine⟩ := ih
    have starts := head_address rfl single
    exact ⟨_, (append_assoc _ (':' :: address) _).symm, some, .colon isGroup few low starts fine⟩
  | double isGroup few low single _ ih =>
    obtain ⟨address, rfl, some, fine⟩ := ih
    have starts := head_address rfl single
    exact ⟨_, (append_assoc _ (':' :: ':' :: address) _).symm, some,
      .double isGroup few low starts fine⟩

theorem tolerates_of_cut (filled : Filled inGroup field) (cut : Cut inGroup cells) :
    Tolerates field cells := by
  intro colons nums double limit mask found
  refine before_of_through (traced_of_cut filled cut _ _ _ _ _ nofun found ?_)
  intro empty
  obtain ⟨rfl, rfl⟩ := (text_eq_nil_iff field cells).mp empty
  rw [groupScan] at found
  cases found

theorem opened_of_prefixScan (filled : Filled inGroup field) (cut : Cut inGroup cells)
    {mask : CStr × List (Cell Char)} (found : prefixScan field cells = .ok mask) :
    Before Opened (text field cells) mask := by
  have taken : Except.ok mask ≠ .error MatchType.noMatch := nofun
  obtain ⟨impossible, _⟩ | ⟨_, _, slash, behind⟩ | ⟨next, others, equal, solid, cut', _, single,
    group⟩ | ⟨_, single, group⟩ := prefixScan_cases taken filled cut found
  · cases impossible
  · obtain ⟨rfl, some⟩ := slashScan_eq_ok behind
    exact ⟨[':', ':'], slash, some, .inl rfl⟩
  · obtain ⟨address, whole, some, fine⟩ := tolerates_of_cut solid cut' _ _ _ _ _ group
    refine ⟨':' :: ':' :: address, ?_, some, ?_⟩
    · rw [equal, whole]
      rfl
    · exact .inr (.inl ⟨address, rfl, head_address whole single, fine⟩)
  · obtain ⟨address, whole, some, fine⟩ := tolerates_of_cut filled cut _ _ _ _ _ group
    exact ⟨address, whole, some, .inr (.inr ⟨head_address whole single, fine⟩)⟩

/-! ## What is tolerated is read -/

theorem mem_of_isGroup (isGroup : IsGroup limit group) : '/' ∉ group := by
  cases isGroup with
  | mk notSlash solid short =>
    rw [mem_cons, not_or]
    refine ⟨Ne.symm notSlash, fun member => ?_⟩
    cases solid '/' member

theorem run_isGroup {before : CStr} (isGroup : IsGroup limit group)
    (room : limit + before.length ≤ 4) (noSlash : '/' ∉ before)
    (low : colons ≤ 7) (few : nums + 1 ≤ 11) (double : Bool)
    (stops : ∀ d ∈ tail.head?, inGroup d = false) :
    run ⟨.addr, colons, nums, mark double, before ++ (group ++ tail)⟩ (group ++ tail) =
      afterGroup colons (nums + 1) double tail := by
  have clean := mem_of_isGroup isGroup
  cases isGroup with
  | @mk c rest notSlash solid short =>
    have low' : (colons : Int) ≤ 7 := by exact_mod_cast low
    refine (run_group (Nat.le_of_succ_le few) low' before c solid stops).trans (if_neg ?_)
    rw [length_cons] at short
    rw [not_or, not_or, mem_append, not_or]
    refine ⟨by omega, ⟨noSlash, clean⟩, by omega⟩

section

variable {groups : Nat}

section

variable (through : Through ends colons nums double limit address)
include through

theorem Through.exists_head : ∃ first rest, address = first :: rest ∧ first ≠ '/' := by
  have starts {group tail : CStr} (isGroup : IsGroup limit group) :
      ∃ first rest, group ++ tail = first :: rest ∧ first ≠ '/' := by
    cases isGroup with
    | mk notSlash => exact ⟨_, _, rfl, notSlash⟩
  cases through with
  | ends isGroup | dot isGroup | colon isGroup | double isGroup =>
    exact starts isGroup

theorem run_single (single : address.head? ≠ some ':') {before : Int}
    (low : before + 1 ≤ 7) (few : groups ≤ 11) (again : Bool) (sp tail : CStr) :
    run ⟨.colon, before, groups, mark again, sp⟩ (':' :: (address ++ tail)) =
      run ⟨.addr, before + 1, groups, mark again, address ++ tail⟩ (address ++ tail) := by
  obtain ⟨first, rest, rfl, notSlash⟩ := through.exists_head
  have notColon : first ≠ ':' := fun same => single (congrArg some same)
  rw [run_colon few, if_neg, if_neg]
  · exact fun same => notColon (Option.some.inj same)
  · rintro (high | same)
    · exact high.not_ge low
    · exact notSlash (Option.some.inj same)

theorem run_double_address (single : address.head? ≠ some ':') {before : Nat}
    (low : before + 1 ≤ 7) (few : groups + 1 ≤ 11) (sp tail : CStr) :
    run ⟨.double, before, groups, mark false, sp⟩ (':' :: (address ++ tail)) =
      run ⟨.addr, (before + 1 : Nat), groups + 1, mark true, address ++ tail⟩
        (address ++ tail) := by
  obtain ⟨first, rest, rfl, notSlash⟩ := through.exists_head
  have notColon : first ≠ ':' := fun same => single (congrArg some same)
  have low' : (before : Int) ≤ 7 := by omega
  have high : ¬ (7 : Int) < (before : Int) + 1 := by omega
  rw [run_double low', if_neg, if_neg nofun, if_neg, if_neg high]
  · rfl
  · exact fun same => notSlash (Option.some.inj same)
  · rintro (double | same | many)
    · cases double
    · exact notColon (Option.some.inj same)
    · exact many.not_ge few

end

end

theorem afterGroup_double (low : colons + 1 ≤ 7) (few : nums ≤ 11) (double : Bool) (rest : CStr) :
    afterGroup colons nums double (':' :: ':' :: rest) =
      run ⟨.double, (colons + 1 : Nat), nums, mark double, ':' :: ':' :: rest⟩ (':' :: rest) := by
  refine (@run_colon colons nums double (':' :: ':' :: rest) few (':' :: rest)).trans ?_
  refine (if_neg ?_).trans (if_pos rfl)
  rintro (high | slash)
  · omega
  · cases slash

/-- The machine comes to the same result from everything that may end a
text. -/
def Finishes (ends : Ends) (tail : CStr) (result : Except MatchType CStr) : Prop :=
  ∀ (colons nums : Nat) (double : Bool) (ending : CStr),
    ends colons nums double ending → colons ≤ 7 → nums ≤ 11 →
    (∀ d ∈ (ending ++ tail).head?, inGroup d = false) ∧
      afterGroup colons nums double (ending ++ tail) = result

theorem run_through (finishes : Finishes ends tail result)
    {colons nums : Nat} {double : Bool} {limit : Nat} {address : CStr}
    (through : Through ends colons nums double limit address)
    {before : CStr} (room : limit + before.length ≤ 4) (noSlash : '/' ∉ before) (low : colons ≤ 7) :
    run ⟨.addr, colons, nums, mark double, before ++ (address ++ tail)⟩
        (address ++ tail) = result := by
  induction through generalizing before with
  | ends isGroup few ending =>
    obtain ⟨stops, result⟩ := finishes _ _ _ _ ending low few
    rw [append_assoc, run_isGroup isGroup room noSlash low few _ stops]
    exact result
  | @dot colons nums double limit group rest isGroup few allowed _ ih =>
    have next := @ih ['.'] (by decide) (by decide) low
    have allowed' : (colons : Int) ≠ 0 ∨ double := by
      rw [ne_eq, Int.natCast_eq_zero]
      exact allowed
    rw [append_assoc, cons_append, run_isGroup isGroup room noSlash low few _ (by simp [inGroup])]
    exact (if_pos allowed').trans next
  | @colon colons nums double limit group rest isGroup few low' single inner ih =>
    have next := @ih [] (by decide) (by decide) low'
    have low'' : (colons : Int) + 1 ≤ 7 := by exact_mod_cast low'
    rw [append_assoc, cons_append, run_isGroup isGroup room noSlash low few _ (by simp [inGroup])]
    exact (run_single inner single low'' few double _ _).trans next
  | @double colons nums limit group rest isGroup few low' single inner ih =>
    have few' : nums + 1 ≤ 11 := by omega
    have next := @ih [] (by decide) (by decide) low'
    have opened := run_double_address inner single low' few (':' :: ':' :: (rest ++ tail)) tail
    rw [append_assoc, cons_append, cons_append,
      run_isGroup isGroup room noSlash low few' _ (by simp [inGroup])]
    refine (afterGroup_double ?_ few' false _).trans (opened.trans next)
    exact Nat.le_of_succ_le low'

theorem ipv6PrefixLoop_double (rest : CStr) :
    ipv6PrefixLoop ((':' :: ':' :: rest).length + 2) ⟨.start, 0, 0, 0, []⟩ (':' :: ':' :: rest) =
      run ⟨.double, (0 : Nat), 0, mark false, []⟩ (':' :: rest) := by
  refine (ipv6PrefixLoop_colon (':' :: rest) _).trans ?_
  rw [if_neg (by simp)]
  refine (@ipv6PrefixLoop_eq_run ⟨.colon, -1, 0, 0, []⟩ _ _ nofun (Nat.lt_succ_self _)).trans ?_
  refine (@run_colon (-1) 0 false [] (Nat.zero_le 11) (':' :: rest)).trans ?_
  refine (if_neg ?_).trans (if_pos rfl)
  rintro (high | slash)
  · cases high
  · cases slash

theorem ipv6PrefixLoop_opens (finishes : Finishes ends tail result) (opens : Opens ends address) :
    ipv6PrefixLoop ((address ++ tail).length + 2) ⟨.start, 0, 0, 0, []⟩
        (address ++ tail) = result := by
  rcases opens with ⟨rest, rfl, single, through⟩ | ⟨single, through⟩
  · refine (ipv6PrefixLoop_double (rest ++ tail)).trans ?_
    refine (run_double_address through single (by decide) (by decide) [] tail).trans ?_
    exact @run_through _ _ _ finishes _ _ _ _ _ through [] (by decide) (by decide) (by decide)
  · have reads := @run_through _ _ _ finishes _ _ _ _ _ through [] (by decide)
      (by decide) (by decide)
    obtain ⟨first, rest, rfl, _⟩ := through.exists_head
    have notColon : first ≠ ':' := fun same => single (congrArg _ same)
    refine (ipv6PrefixLoop_group notColon _).trans ?_
    exact (@ipv6PrefixLoop_eq_run ⟨.addr, 0, 0, 0, _⟩ _ _ nofun (Nat.lt_succ_self _)).trans reads

theorem run_double_slash (low : colons ≤ 7) (few : nums + 1 ≤ 11) (sp : CStr) (some : mask ≠ []) :
    run ⟨.double, colons, nums, mark false, sp⟩ (':' :: '/' :: mask) = .ok mask := by
  have low' : (colons : Int) ≤ 7 := by exact_mod_cast low
  have starts : ('/' :: mask).head? = .some '/' := rfl
  rw [run_double low', if_neg (by simpa using few), if_neg nofun, if_pos starts, run_slash few low']
  exact if_neg some

theorem finishes_complete (some : mask ≠ []) : Finishes Complete ('/' :: mask) (.ok mask) := by
  rintro colons nums double ending (rfl | ⟨rfl, rfl, few', low'⟩) low few
  · exact ⟨by simp [inGroup], if_neg some⟩
  · refine ⟨by simp [inGroup], ?_⟩
    exact (afterGroup_double low' few false _).trans (run_double_slash low' few' _ some)

/-- **The machine reads a tolerated address up to its mask.** -/
theorem ipv6PrefixLoop_opened (opened : Opened address) (some : mask ≠ []) :
    ipv6PrefixLoop ((address ++ '/' :: mask).length + 2)
        ⟨.start, 0, 0, 0, []⟩ (address ++ '/' :: mask) = .ok mask := by
  rcases opened with rfl | opens
  · refine (ipv6PrefixLoop_double ('/' :: mask)).trans ?_
    exact run_double_slash (Nat.zero_le 7) (by decide) [] some
  · exact ipv6PrefixLoop_opens (finishes_complete some) opens

theorem opened_of_loop {word : CStr}
    (found : ipv6PrefixLoop (word.length + 2) ⟨.start, 0, 0, 0, []⟩ word = .ok mask) :
    ∃ address, word = address ++ '/' :: mask ∧ mask ≠ [] ∧ Opened address := by
  obtain ⟨field, cells, filled, cut, rfl⟩ := exists_cut inGroup word
  rw [ipv6PrefixLoop_text filled cut] at found
  cases scanned : prefixScan field cells with
  | error answer =>
    rw [scanned] at found
    cases found
  | ok result =>
    rw [scanned] at found
    cases found
    exact opened_of_prefixScan filled cut scanned

/-- **The words that `cmd_ipv6_prefix_match` accepts.** -/
theorem cmdIpv6PrefixMatch_eq_exactMatch_iff (word : CStr) : cmdIpv6PrefixMatch word = .exactMatch ↔
      ∃ address mask, word = address ++ '/' :: mask ∧ Allowed word ∧
        Opened address ∧ IsMask mask := by
  rw [cmdIpv6PrefixMatch_eq]
  constructor
  · intro matched
    split at matched
    · rename_i allowed
      split at matched
      · rename_i found
        cases matched
        rcases ipv6PrefixLoop_answer found with wrong | wrong
        · cases wrong
        · cases wrong
      · rename_i mask found
        split at matched
        · rename_i isMask
          obtain ⟨address, equal, _, opened⟩ := opened_of_loop found
          exact ⟨address, mask, equal, allowed, opened, isMask⟩
        · cases matched
    · cases matched
  · rintro ⟨address, mask, rfl, allowed, opened, isMask⟩
    rw [if_pos allowed, ipv6PrefixLoop_opened opened (ne_nil_of_isNumeral isMask.1)]
    exact if_pos isMask

/-! ## Textual addresses are tolerated -/

theorem inGroup_of_isxdigit (digit : isxdigit c) : inGroup c := by
  by_contra stop
  simp only [inGroup, Bool.and_eq_true, decide_eq_true_eq, ne_eq, not_and_or, not_not] at stop
  rcases stop with (rfl | rfl) | rfl
  · cases digit
  · cases digit
  · cases digit

theorem IsHextet.isGroup (hextet : IsHextet group) : IsGroup 4 group := by
  obtain ⟨present, short, hexadecimal⟩ := hextet
  cases group with
  | nil => exact absurd rfl present
  | cons c rest =>
    obtain ⟨here, later⟩ := forall_mem_cons.mp hexadecimal
    refine .mk ?_ (fun d member => inGroup_of_isxdigit (later d member)) short
    rintro rfl
    cases here

theorem isxdigit_of_isdigit (digit : isdigit c) : isxdigit c := by
  unfold isxdigit
  rw [digit]
  rfl

theorem isGroup_of_isField (number : IsField field) (room : 3 ≤ limit) : IsGroup limit field := by
  have digits := isdigit_of_isNumeral number.numeral
  have hextet : IsHextet field := {
    present := ne_nil_of_isNumeral number.numeral
    short := Nat.le_succ_of_le number.sound.1
    hexadecimal := fun c member => isxdigit_of_isdigit (digits c member) }
  cases hextet.isGroup with
  | mk notSlash solid _ =>
    exact .mk notSlash solid (Nat.le_trans number.sound.1 room)

theorem tolerated_of_isAddress (quad : IsAddress address) (inside : colons ≠ 0 ∨ double)
    (few : nums + 4 ≤ 11) : Tolerated colons nums double 4 address := by
  obtain ⟨a, b, c, d, rfl, fields⟩ := quad
  have first := isGroup_of_isField (fields a (by simp)) (by decide : 3 ≤ 4)
  have second := isGroup_of_isField (fields b (by simp)) (Nat.le_refl 3)
  have third := isGroup_of_isField (fields c (by simp)) (Nat.le_refl 3)
  have fourth := isGroup_of_isField (fields d (by simp)) (Nat.le_refl 3)
  refine .dot first (by omega) inside ?_
  refine .dot second (by omega) inside ?_
  refine .dot third (by omega) inside ?_
  exact Tolerated.last fourth (by omega)

section

variable (isGroups : Groups quad count groups)
include isGroups

theorem head_groups (rest : CStr) :
    (groups ++ rest).head? ≠ some ':' := by
  have starts {group : CStr} (hextet : IsHextet group) (tail : CStr) :
      (group ++ tail).head? ≠ some ':' := by
    obtain ⟨present, _, hexadecimal⟩ := hextet
    cases group with
    | nil => exact absurd rfl present
    | cons c group =>
      rintro same
      cases same
      cases hexadecimal ':' mem_cons_self
  cases isGroups with
  | one hextet => exact starts hextet rest
  | dotted _ quad =>
    obtain ⟨a, b, c, d, rfl, fields⟩ := quad
    have first := (fields a (by simp)).numeral
    rw [append_assoc]
    cases a with
    | nil => cases first
    | cons e a =>
      rintro same
      cases same
      cases isdigit_of_isNumeral first ':' mem_cons_self
  | more hextet _ =>
    rw [append_assoc]
    exact starts hextet _

theorem Groups.pos : 0 < count := by
  cases isGroups with
  | one => exact Nat.one_pos
  | dotted => exact Nat.two_pos
  | more => exact Nat.succ_pos _

theorem Groups.tolerated
    (inside : 2 < count ∨ colons ≠ 0 ∨ double) (low : colons + count ≤ 8) (few : nums + count ≤ 9) :
    Tolerated colons nums double 4 groups := by
  induction isGroups generalizing colons nums with
  | one hextet => exact Tolerated.last hextet.isGroup (by omega)
  | dotted _ quad =>
    refine tolerated_of_isAddress quad ?_ (by omega)
    exact inside.resolve_left (by decide)
  | @more group rest count hextet more ih =>
    have later := more.pos
    refine .colon hextet.isGroup (by omega) (by omega) ?_
      (ih (.inr (.inl (Nat.succ_ne_zero _))) (by omega) (by omega))
    have head := head_groups more []
    rwa [append_nil] at head

end

theorem Groups.tolerated_double (isGroups : Groups false count groups) (low : colons + count ≤ 7)
    (few : nums + count ≤ 10)
    (ends : ∀ group, IsHextet group → Tolerated (colons + count - 1) (nums + count - 1) false 4
        (group ++ rest)) : Tolerated colons nums false 4 (groups ++ rest) := by
  induction isGroups generalizing colons nums with
  | one hextet => exact ends _ hextet
  | dotted absent => cases absent
  | @more group tail count hextet more ih =>
    have inner := @ih (colons + 1) (nums + 1) (by omega) (by omega) (by
        intro group hextet
        have last := ends group hextet
        rwa [show colons + (count + 1) - 1 = colons + 1 + count - 1 by omega,
          show nums + (count + 1) - 1 = nums + 1 + count - 1 by omega]
          at last)
    rw [append_assoc, cons_append]
    exact .colon hextet.isGroup (by omega) (by omega) (head_groups more rest) inner

/-- **A textual address is tolerated.** -/
theorem Textual.opened (textual : Textual address) : Opened address := by
  rcases textual with whole | ⟨before, after, first, second, rfl, left, right, fits⟩
  · have head := head_groups whole []
    rw [append_nil] at head
    exact .inr (.inr ⟨head, whole.tolerated (.inl (by decide)) (by decide) (by decide)⟩)
  · rcases left with ⟨rfl, rfl⟩ | left
    · rcases right with ⟨rfl, rfl⟩ | right
      · exact .inl rfl
      · have head := head_groups right []
        rw [append_nil] at head
        refine .inr (.inl ⟨after, rfl, head, ?_⟩)
        exact right.tolerated (.inr (.inr rfl)) (by omega) (by omega)
    · have positive := left.pos
      refine .inr (.inr ⟨head_groups left _, ?_⟩)
      refine left.tolerated_double (by omega) (by omega) ?_
      intro group hextet
      rcases right with ⟨rfl, rfl⟩ | right
      · exact Tolerated.doubleLast hextet.isGroup (by omega) (by omega)
      · have head := head_groups right []
        rw [append_nil] at head
        have later := right.pos
        refine .double hextet.isGroup (by omega) (by omega) head ?_
        exact right.tolerated (.inr (.inr rfl)) (by omega) (by omega)

/-! ## The characters of a textual address -/

theorem mem_ipv6PrefixStr_of_isxdigit (digit : isxdigit c) : c ∈ ipv6PrefixStr := by
  have between {low high : Nat} (lower : low ≤ c.toNat) (upper : c.toNat ≤ high)
      (all : ∀ n, low ≤ n → n ≤ high → Char.ofNat n ∈ ipv6PrefixStr) :
      c ∈ ipv6PrefixStr := by
    have member := all c.toNat lower upper
    rwa [Char.ofNat_toNat] at member
  simp only [isxdigit, isdigit, Bool.or_eq_true, Bool.and_eq_true, decide_eq_true_eq] at digit
  rcases digit with (⟨lower, upper⟩ | ⟨lower, upper⟩) | ⟨lower, upper⟩
  · exact between lower upper (by decide)
  · exact between lower upper (by decide)
  · exact between lower upper (by decide)

theorem allowed_append {first second : CStr} :
    Allowed (first ++ second) ↔ Allowed first ∧ Allowed second :=
  forall_mem_append

theorem allowed_cons : Allowed (c :: rest) ↔ c ∈ ipv6PrefixStr ∧ Allowed rest :=
  forall_mem_cons

theorem allowed_of_isNumeral (numeral : isNumeral str) : Allowed str :=
  fun c member => mem_ipv6PrefixStr_of_isxdigit
    (isxdigit_of_isdigit (isdigit_of_isNumeral numeral c member))

theorem IsHextet.allowed (hextet : IsHextet group) : Allowed group :=
  fun c member => mem_ipv6PrefixStr_of_isxdigit (hextet.hexadecimal c member)

theorem allowed_of_isAddress (quad : IsAddress address) : Allowed address := by
  obtain ⟨a, b, c, d, rfl, fields⟩ := quad
  have number (field : CStr) (member : field ∈ [a, b, c, d]) :
      Allowed field := allowed_of_isNumeral (fields field member).numeral
  simp only [allowed_append, allowed_cons]
  exact ⟨number a (by simp), by decide, number b (by simp), by decide,
    number c (by simp), by decide, number d (by simp)⟩

theorem Groups.allowed (isGroups : Groups quad count groups) : Allowed groups := by
  induction isGroups with
  | one hextet => exact hextet.allowed
  | dotted _ quad => exact allowed_of_isAddress quad
  | more hextet _ ih =>
    rw [allowed_append, allowed_cons]
    exact ⟨hextet.allowed, by decide, ih⟩

theorem Side.allowed {side : CStr} (isSide : Side quad count side) : Allowed side := by
  rcases isSide with ⟨_, rfl⟩ | isGroups
  · exact fun _ member => nomatch member
  · exact isGroups.allowed

theorem Textual.allowed (textual : Textual address) : Allowed address := by
  rcases textual with whole | ⟨before, after, _, _, rfl, left, right, _⟩
  · exact whole.allowed
  · rw [allowed_append, allowed_cons, allowed_cons]
    exact ⟨left.allowed, by decide, by decide, right.allowed⟩

/-! ## Ordinary and odd prefixes -/

/-- A prefix that the matcher takes, with an address that `inet_pton` refuses,
or with a length that is too large but not so after it has been reduced to 32
bits. -/
def OddPrefix (inetPton : CStr → Bool) (word : CStr) : Prop :=
  ∃ address length, word = address ++ '/' :: length ∧ Allowed word ∧
    Opened address ∧ IsMask length ∧
    (inetPton address = false ∨ 128 < digitsValue length)

theorem isMask_of_digitsValue_le (numeral : isNumeral length) (small : digitsValue length ≤ 128) :
    IsMask length := by
  refine ⟨numeral, ?_⟩
  unfold digitsInt
  rw [Int.bmod_eq_of_le (by omega) (by omega)]
  omega

theorem slash_unique {other following : CStr} (numeral : isNumeral length)
    (numeral' : isNumeral following) (same : address ++ '/' :: length = other ++ '/' :: following) :
    address = other ∧ length = following := by
  have absent := not_mem_of_isNumeral numeral (rfl : isdigit '/' = false)
  have absent' := not_mem_of_isNumeral numeral' (rfl : isdigit '/' = false)
  rcases append_eq_append_iff.mp same with
    ⟨between, equal, rest⟩ | ⟨between, equal, rest⟩
  · cases between with
    | nil =>
      cases rest
      exact ⟨by rw [equal, append_nil], rfl⟩
    | cons c between =>
      rw [(List.cons.inj rest).2] at absent
      exact absurd (mem_append_right _ mem_cons_self) absent
  · cases between with
    | nil =>
      cases rest
      exact ⟨by rw [equal, append_nil], rfl⟩
    | cons c between =>
      rw [(List.cons.inj rest).2] at absent'
      exact absurd (mem_append_right _ mem_cons_self) absent'

/--
**The matcher accepts exactly the prefixes, but for the odd ones.**

Of `inet_pton` only one thing is used: it takes no text that is not an address.
-/
theorem ipv6_prefix_match_iff_not_odd {inetPton : CStr → Bool}
    (standard : ∀ address, inetPton address → Textual address) (word : CStr) :
    (cmdIpv6PrefixMatch word = .exactMatch ↔ IsPrefix inetPton word) ↔
      ¬ OddPrefix inetPton word := by
  rw [cmdIpv6PrefixMatch_eq_exactMatch_iff]
  constructor
  · rintro agree ⟨address, length, equal, allowed, opened, isMask, odd⟩
    obtain ⟨other, following, equal', taken, numeral, small⟩ :=
      agree.mp ⟨address, length, equal, allowed, opened, isMask⟩
    obtain ⟨rfl, rfl⟩ := slash_unique isMask.1 numeral (equal.symm.trans equal')
    rcases odd with refused | large
    · rw [taken] at refused
      cases refused
    · exact large.not_ge small
  · intro ordinary
    constructor
    · rintro ⟨address, length, equal, allowed, opened, isMask⟩
      refine ⟨address, length, equal, ?_, isMask.1, ?_⟩
      · by_contra refused
        exact ordinary ⟨address, length, equal, allowed, opened, isMask,
          .inl (Bool.eq_false_iff.mpr refused)⟩
      · by_contra large
        exact ordinary ⟨address, length, equal, allowed, opened, isMask,
          .inr (Nat.lt_of_not_le large)⟩
    · rintro ⟨address, length, rfl, taken, numeral, small⟩
      have textual := standard address taken
      refine ⟨address, length, rfl, ?_, textual.opened, isMask_of_digitsValue_le numeral small⟩
      rw [allowed_append, allowed_cons]
      exact ⟨textual.allowed, by decide, allowed_of_isNumeral numeral⟩

/-- An `inet_pton` that takes the loopback address only. -/
theorem loopback_match_iff : cmdIpv6PrefixMatch "::1/128" = .exactMatch ↔
    IsPrefix (fun address => address == "::1") "::1/128" := by
  refine (ipv6_prefix_match_iff_not_odd ?_ _).mpr ?_
  · intro address taken
    have hextet : IsHextet "1" := ⟨by decide, by decide, all_eq_true.mp (by decide)⟩
    rw [beq_iff_eq.mp taken]
    exact .inr ⟨[], "1", 0, 1, rfl, .inl ⟨rfl, rfl⟩, .inr (.one hextet), by decide⟩
  · rintro ⟨address, length, equal, _, _, isMask, odd⟩
    have split : "::1/128".toList = "::1".toList ++ '/' :: "128".toList := rfl
    obtain ⟨rfl, rfl⟩ := slash_unique isMask.1 (by decide) (equal.symm.trans split)
    revert odd
    decide

theorem Groups.count_le (isGroups : Groups quad count groups) : count ≤ groups.count ':' + 2 := by
  induction isGroups with
  | one => omega
  | dotted => omega
  | more _ _ ih =>
    rw [count_append, count_cons_self]
    omega

/-- Two groups are no address, and yet they are accepted. -/
theorem two_groups_accepted : cmdIpv6PrefixMatch "1:2/64" = .exactMatch ∧
      ∀ inetPton : CStr → Bool, (∀ address, inetPton address → Textual address) →
        ¬ IsPrefix inetPton "1:2/64" := by
  refine ⟨by decide, ?_⟩
  rintro inetPton standard ⟨address, length, equal, taken, numeral, _⟩
  have split : "1:2/64" = "1:2" ++ '/' :: "64" := rfl
  obtain ⟨rfl, rfl⟩ := slash_unique (by decide) numeral (split.symm.trans equal)
  rcases standard _ taken with whole | ⟨before, after, _, _, same, _⟩
  · have few := whole.count_le
    revert few
    decide
  · have double : [':', ':'] <:+: "1:2" := by
      rw [same]
      exact ⟨before, after, by simp⟩
    revert double
    decide

end OpsCli.Command.Ipv6
