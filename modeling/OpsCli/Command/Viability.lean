import OpsCli.Command.Ipv4Viability
import OpsCli.Command.Ipv6

/-!
# What the address matchers foresee

`cmd_ipv6_prefix_match` does not foresee that behind a separator there is no
room for another group once it has counted eleven of them, and it refuses a
length that more digits bring back below 128 after the reduction to 32 bits.
-/

namespace OpsCli.Command.Viability

open CLib CString Cells Token Address Ipv4Viability Ipv6Scan Ipv6 List

/-! ## Refusals are final -/

variable {field mask word : CStr} {cells : List (Cell Char)} {colons nums limit : Nat}
  {double : Bool}

theorem headOf_extend {c : Char} (first : CStr) (more : List (Cell Char))
    (starts : headOf field cells = some c) :
    headOf (extend field cells first more).1 (extend field cells first more).2 = some c := by
  unfold headOf at starts ⊢
  rw [text_extend, head?_append, starts]
  rfl

theorem slashScan_ne_noMatch (mask : CStr) (cells : List (Cell Char)) :
    slashScan mask cells ≠ .error .noMatch := by
  unfold slashScan
  split
  · exact nofun
  · exact nofun

/-- From the start of a group on no text is refused that can be continued up to
a mask. -/
def Continued (field : CStr) (cells : List (Cell Char)) : Prop :=
  ∀ (colons nums : Nat) (double : Bool) (limit : Nat) (first : CStr)
    (more : List (Cell Char)) (mask : CStr × List (Cell Char)),
    groupScan colons nums double limit (extend field cells first more).1
      (extend field cells first more).2 = .ok mask →
    groupScan colons nums double limit field cells ≠ .error .noMatch

section

variable {first : CStr} {more : List (Cell Char)} {mask : CStr × List (Cell Char)}

theorem ne_noMatch_of_ite {refused refused' : Prop} [Decidable refused] [Decidable refused']
    {scan scan' : Except MatchType (CStr × List (Cell Char))} (less : refused → refused')
    (found : (if refused' then .error .noMatch else scan') = .ok mask)
    (later : scan' = .ok mask → scan ≠ .error .noMatch) :
    (if refused then .error .noMatch else scan) ≠ .error .noMatch := by
  have passed : ¬ refused' := fun here => nomatch (if_pos here).symm.trans found
  rw [if_neg passed] at found
  rw [if_neg (mt less passed)]
  exact later found

theorem doubleScan_ne_noMatch (continued : Continued field cells)
    (found : doubleScan colons nums double (extend field cells first more).1
      (extend field cells first more).2 = .ok mask) :
    doubleScan colons nums double field cells ≠ .error .noMatch := by
  unfold doubleScan at found ⊢
  refine ne_noMatch_of_ite ?_ found fun found => ?_
  · exact .imp_right (.imp_left (headOf_extend first more))
  cases field with
  | nil =>
    cases cells with
    | nil => exact fun same => nomatch same
    | cons cell cells =>
      obtain ⟨c, next⟩ := cell
      dsimp only [extend] at found ⊢
      by_cases slash : c = '/'
      · rw [if_pos slash]
        exact slashScan_ne_noMatch next cells
      · rw [if_neg slash] at found ⊢
        exact ne_noMatch_of_ite id found (continued _ _ _ _ first more mask)
  | cons c field =>
    have next := continued (colons + 1) (nums + 1) true 4 first more mask
    rw [extend_cons] at found next
    exact ne_noMatch_of_ite id found next

theorem colonScan_ne_noMatch (continued : Continued field cells)
    (later : ∀ c following others, cells = (c, following) :: others → Continued following others)
    (found : colonScan colons nums double (extend field cells first more).1
      (extend field cells first more).2 = .ok mask) :
    colonScan colons nums double field cells ≠ .error .noMatch := by
  unfold colonScan at found ⊢
  refine ne_noMatch_of_ite (.imp_right (headOf_extend first more)) found fun found => ?_
  cases field with
  | nil =>
    cases cells with
    | nil => exact fun same => nomatch same
    | cons cell cells =>
      obtain ⟨c, next⟩ := cell
      dsimp only [extend] at found ⊢
      by_cases colon : c = ':'
      · rw [if_pos colon] at found ⊢
        exact doubleScan_ne_noMatch (later _ _ _ rfl) found
      · rw [if_neg colon] at found ⊢
        exact continued _ _ _ _ first more mask found
  | cons c field =>
    have next := continued (colons + 1) nums double 4 first more mask
    rw [extend_cons] at found next
    exact next found

theorem groupEnd_ne_noMatch (continued : ∀ field others, others.length < cells.length →
      Continued field others) {c : Char} {group : CStr} {limit : Nat}
    (found : groupEnd colons nums double limit (c :: (extend group cells first more).1)
      (extend group cells first more).2 = .ok mask) :
    groupEnd colons nums double limit (c :: group) cells ≠ .error .noMatch := by
  cases cells with
  | nil =>
    unfold groupEnd at found ⊢
    refine ne_noMatch_of_ite ?_ found fun _ => by rintro ⟨⟩
    rw [extend, ← cons_append, length_append, mem_append]
    exact .imp (Nat.lt_add_right _) (.imp_left .inl)
  | cons cell cells =>
    obtain ⟨d, next⟩ := cell
    have behind := continued next cells (Nat.lt_succ_self _)
    rw [extend] at found
    unfold groupEnd at found ⊢
    refine ne_noMatch_of_ite id found fun found => ?_
    dsimp only at found ⊢
    by_cases slash : d = '/'
    · rw [if_pos slash]
      exact slashScan_ne_noMatch next cells
    rw [if_neg slash] at found ⊢
    by_cases dot : d = '.'
    · rw [if_pos dot] at found ⊢
      rw [← ite_not] at found ⊢
      exact ne_noMatch_of_ite id found (behind _ _ _ _ first more mask)
    · rw [if_neg dot] at found ⊢
      refine colonScan_ne_noMatch behind ?_ found
      rintro c following others rfl
      refine continued following others ?_
      simp only [length_cons]
      omega

end

theorem continued (field : CStr) (cells : List (Cell Char)) : Continued field cells := by
  induction size : cells.length using Nat.strong_induction_on generalizing field cells with
  | _ bound ih =>
    subst size
    intro colons nums double limit first more mask found
    have shorter (other : CStr) (others : List (Cell Char))
        (less : others.length < cells.length) : Continued other others :=
      ih others.length less other others rfl
    cases field with
    | nil =>
      cases cells with
      | nil =>
        rw [groupScan]
        rintro ⟨⟩
      | cons cell cells =>
        obtain ⟨c, next⟩ := cell
        rw [groupScan]
        rw [extend, groupScan] at found
        refine groupEnd_ne_noMatch ?_ found
        intro other others less
        exact shorter other others (Nat.lt_succ_of_lt less)
    | cons c field =>
      rw [groupScan]
      rw [extend_cons, groupScan] at found
      exact groupEnd_ne_noMatch shorter found

/-- **A text that can be continued up to a mask is not refused.** -/
theorem prefixScan_ne_noMatch {first : CStr} {more : List (Cell Char)}
    {mask : CStr × List (Cell Char)}
    (found : prefixScan (extend field cells first more).1
      (extend field cells first more).2 = .ok mask) : prefixScan field cells ≠ .error .noMatch := by
  have plain := continued field cells 0 0 false 4 first more mask
  cases field with
  | nil =>
    cases cells with
    | nil => rintro ⟨⟩
    | cons cell cells =>
      obtain ⟨c, next⟩ := cell
      rw [extend] at found plain
      unfold prefixScan at found ⊢
      dsimp only at found ⊢
      by_cases colon : c = ':'
      · rw [if_pos colon] at found ⊢
        cases next with
        | cons d next =>
          rw [extend_cons] at found
          cases found
        | nil =>
          cases cells with
          | nil => rintro ⟨⟩
          | cons cell cells =>
            obtain ⟨d, following⟩ := cell
            rw [extend] at found
            unfold openingScan at found ⊢
            dsimp only at found ⊢
            by_cases double : d = ':'
            · rw [if_pos double] at found ⊢
              exact doubleScan_ne_noMatch (continued following cells) found
            · rw [if_neg double] at found
              cases found
      · rw [if_neg colon] at found ⊢
        exact plain found
  | cons c field =>
    rw [extend_cons] at found plain
    exact plain found

/-! ## What a text may still become -/

/-- Eleven groups are behind the matcher, and a separator that wants another
one. -/
def Full : Ends := fun colons nums double ending =>
  nums = 11 ∧ ((ending = ['.'] ∧ (colons ≠ 0 ∨ double)) ∨ (ending = [':'] ∧ colons + 1 ≤ 7))

/-- What is appended to an address that is complete. -/
def maskZero : CStr :=
  "/0"

/-- What a text may become: an address with a mask, or nothing because there is
no room for another group. -/
def Outlook (reached : Ends → CStr → Prop) (str : CStr) : Prop :=
  (∃ more address, Allowed more ∧ str ++ more = address ++ maskZero ∧
    reached Complete address) ∨ reached Full str

theorem Outlook.lift {reached reached' : Ends → CStr → Prop} {front str : CStr} (present : str ≠ [])
    (nonempty : ¬ reached Complete [])
    (step : ∀ (ends : Ends) (rest : CStr), rest.head? = str.head? →
      reached ends rest → reached' ends (front ++ rest)) (outlook :
    Outlook reached str) : Outlook reached' (front ++ str) := by
  rcases outlook with ⟨more, address, allowed, equal, whole⟩ | full
  · have heads : address.head? = str.head? := by
      cases address with
      | nil => exact absurd whole nonempty
      | cons first rest =>
        cases str with
        | nil => exact absurd rfl present
        | cons c str => exact congrArg some (List.cons.inj equal).1.symm
    refine .inl ⟨more, front ++ address, allowed, ?_, step Complete address heads whole⟩
    rw [append_assoc, equal, append_assoc]
  · exact .inr (step Full str rfl full)

theorem through_ne_nil {ends : Ends} {str : CStr}
    (through : Through ends colons nums double limit str) : str ≠ [] := by
  rintro rfl
  obtain ⟨first, rest, empty, _⟩ := through.exists_head
  cases empty

theorem not_tolerated_nil : ¬ Tolerated colons nums double limit [] :=
  fun tolerated => through_ne_nil tolerated rfl

theorem slashScan_partly (partly : slashScan mask cells = .error .partlyMatch) :
    text mask cells = [] := by
  unfold slashScan at partly
  split at partly
  · rename_i empty
    exact (text_eq_nil_iff mask cells).mpr empty
  · cases partly

/-- The outlook of a text that the machine does not refuse from the start of a
group on. -/
def Open (field : CStr) (cells : List (Cell Char)) : Prop :=
  ∀ (colons nums : Nat) (double : Bool) (limit : Nat), 0 < limit →
    groupScan colons nums double limit field cells = .error .partlyMatch →
    Outlook (Through · colons nums double limit) (text field cells) ∨
      (text field cells = [] ∧ 11 < nums + 1)

theorem isGroup_zero (positive : 0 < limit) : IsGroup limit ['0'] :=
  .mk (by decide) filled_nil positive

theorem outlook_of_through {str : CStr}
    (through : Through (Stops (.error .partlyMatch)) colons nums double limit str) :
    Outlook (Through · colons nums double limit) str := by
  induction through with
  | @ends colons nums double _ group _ isGroup few stops =>
    rcases stops with ⟨front, _, _, complete, rfl, slash⟩ |
      ⟨_, complete | ⟨rfl, allowed⟩ | ⟨rfl, low⟩⟩
    · rw [slashScan_partly slash]
      exact .inl ⟨"0", _, by decide, by simp [maskZero], .ends isGroup few complete⟩
    · exact .inl ⟨maskZero, _, by decide, rfl, .ends isGroup few complete⟩
    · by_cases room : nums + 2 ≤ 11
      · refine .inl ⟨"0/0", group ++ ".0", by decide, by simp; rfl, ?_⟩
        exact .dot isGroup few allowed (Tolerated.last (isGroup_zero (by decide)) room)
      · exact .inr (.ends isGroup few ⟨by omega, .inl ⟨rfl, allowed⟩⟩)
    · by_cases room : nums + 2 ≤ 11
      · refine .inl ⟨"0/0", group ++ ":0", by decide, by simp; rfl, ?_⟩
        exact .colon isGroup few low (by decide) (Tolerated.last (isGroup_zero (by decide)) room)
      · exact .inr (.ends isGroup few ⟨by omega, .inr ⟨rfl, low⟩⟩)
  | dot isGroup few allowed through ih =>
    rw [append_cons]
    refine ih.lift (through_ne_nil through) not_tolerated_nil ?_
    intro ends rest _ later
    rw [← append_cons]
    exact .dot isGroup few allowed later
  | colon isGroup few low single through ih =>
    rw [append_cons]
    refine ih.lift (through_ne_nil through) not_tolerated_nil ?_
    intro ends rest heads later
    rw [← append_cons]
    exact .colon isGroup few low (heads.trans_ne single) later
  | @double _ _ _ group _ isGroup few low single through ih =>
    have split (rest : CStr) : group ++ ':' :: ':' :: rest = group ++ [':', ':'] ++ rest := by
      rw [append_assoc]
      rfl
    rw [split]
    refine ih.lift (through_ne_nil through) not_tolerated_nil ?_
    intro ends rest heads later
    rw [← split]
    exact .double isGroup few low (heads.trans_ne single) later

theorem open_of_cut (filled : Filled inGroup field) (cut : Cut inGroup cells) :
    Open field cells := by
  intro colons nums double limit positive partly
  by_cases empty : text field cells = []
  · rw [empty]
    by_cases room : nums + 1 ≤ 11
    · exact .inl (.inl ⟨"0/0", "0", by decide, rfl, Tolerated.last (isGroup_zero positive) room⟩)
    · exact .inr ⟨rfl, Nat.lt_of_not_le room⟩
  · exact .inl (outlook_of_through (traced_of_cut filled cut _ _ _ _ _ nofun partly empty))

def Completable (word : CStr) : Prop :=
  ∃ more address, Allowed more ∧ word ++ more = address ++ maskZero ∧ Opened address

theorem completable_of_outlook (outlook : Outlook Opens word) :
    Completable word ∨ Opens Full word := by
  refine outlook.imp_left ?_
  rintro ⟨more, address, allowed, equal, opens⟩
  exact ⟨more, address, allowed, equal, .inr opens⟩

/-- **What a word that the machine does not refuse may become.** -/
theorem prefixScan_partly (filled : Filled inGroup field) (cut : Cut inGroup cells)
    (partly : prefixScan field cells = .error .partlyMatch) :
    Completable (text field cells) ∨ Opens Full (text field cells) := by
  have taken : (.error .partlyMatch : Except MatchType (CStr × List (Cell Char))) ≠
      .error .noMatch := nofun
  obtain ⟨_, ends⟩ | ⟨_, _, slash, behind⟩ | ⟨next, others, equal, solid, cut', present, single,
    group⟩ | ⟨present, single, group⟩ := prefixScan_cases taken filled cut partly
  · simp only [mem_cons, not_mem_nil, or_false] at ends
    rcases ends with empty | colon | colons
    · exact .inl ⟨"::/0", "::", by decide, by rw [empty]; rfl, .inl rfl⟩
    · exact .inl ⟨":/0", "::", by decide, by rw [colon]; rfl, .inl rfl⟩
    · exact .inl ⟨maskZero, "::", by decide, by rw [colons]; rfl, .inl rfl⟩
  · rw [slash, slashScan_partly behind]
    exact .inl ⟨"0", "::", by decide, rfl, .inl rfl⟩
  · have outlook := (open_of_cut solid cut' _ _ _ _ (by decide)
      group).resolve_right fun empty => present empty.1
    rw [equal]
    refine completable_of_outlook (@Outlook.lift _ Opens "::" _ present not_tolerated_nil ?_
      outlook)
    intro ends rest heads through
    exact .inl ⟨rest, rfl, heads.trans_ne single, through⟩
  · have outlook := (open_of_cut filled cut _ _ _ _ (by decide)
      group).resolve_right fun empty => present empty.1
    refine completable_of_outlook (@Outlook.lift _ Opens [] _ present not_tolerated_nil ?_ outlook)
    intro ends rest heads through
    exact .inr ⟨heads.trans_ne single, through⟩

/-! ## No room for another group -/

theorem run_full (low : colons ≤ 7) (double : Bool) (before rest : CStr) :
    run ⟨.addr, colons, 11, mark double, before ++ rest⟩ rest =
      .error (if rest = [] then .partlyMatch else .noMatch) := by
  have low' : (colons : Int) ≤ 7 := by exact_mod_cast low
  cases rest with
  | nil => rfl
  | cons c rest =>
    obtain ⟨group, cells, filled, cut, rfl⟩ := exists_cut inGroup rest
    have group' := @run_group colons 11 double (Nat.le_refl 11) low' before
      c group (text [] cells) filled (stops_of_cut cut)
    rw [if_pos (.inr (.inr (by decide)))] at group'
    rw [if_neg nofun]
    exact group'

theorem finishes_full (tail : CStr) : Finishes Full tail
      (.error (if tail = [] then .partlyMatch else .noMatch)) := by
  rintro colons nums double ending ⟨rfl, ⟨rfl, allowed⟩ | ⟨rfl, low'⟩⟩ low few
  · refine ⟨by simp [inGroup], ?_⟩
    have allowed' : (colons : Int) ≠ 0 ∨ double := by
      rw [ne_eq, Int.natCast_eq_zero]
      exact allowed
    exact (if_pos allowed').trans (run_full low double ['.'] tail)
  · refine ⟨by simp [inGroup], ?_⟩
    have low'' : ¬ (7 : Int) < (colons : Int) + 1 := by omega
    have fits : ((colons + 1 : Nat) : Int) ≤ 7 := by exact_mod_cast low'
    refine (@run_colon colons 11 double (':' :: tail) (Nat.le_refl 11) tail).trans ?_
    by_cases slash : tail.head? = some '/'
    · rw [if_pos (.inr slash), if_neg]
      rintro rfl
      cases slash
    rw [if_neg (by rw [not_or]; exact ⟨low'', slash⟩)]
    by_cases colon : tail.head? = some ':'
    · rw [if_pos colon]
      cases tail with
      | nil => cases colon
      | cons c rest =>
        refine (@run_double (colons + 1 : Nat) 11 double _ fits c rest).trans ?_
        rw [if_pos (.inr (.inr (by decide)))]
        rfl
    · rw [if_neg colon]
      exact run_full low' double [] tail

/-! ## The matcher -/

/-- A word that wants a twelfth group. -/
def Crowded (word : CStr) : Prop :=
  Allowed word ∧ Opens Full word

/-- A length outside of its bounds that more digits bring back into them. -/
def Wrapping (word : CStr) : Prop :=
  ∃ address length, word = address ++ '/' :: length ∧ Allowed word ∧
    Opened address ∧ isNumeral length ∧ ¬ IsMask length ∧
    ∃ more, IsMask (length ++ more)

def loop (word : CStr) : Except MatchType CStr :=
  ipv6PrefixLoop (word.length + 2) ⟨.start, 0, 0, 0, []⟩ word

section

variable (allowed : Allowed word)

include allowed

theorem match_of_error {answer : MatchType} (ends : loop word = .error answer) :
    cmdIpv6PrefixMatch word = answer := by
  unfold loop at ends
  rw [cmdIpv6PrefixMatch_eq, if_pos allowed, ends]

theorem match_of_ok {mask : CStr} (found : loop word = .ok mask) : cmdIpv6PrefixMatch word =
      if IsMask mask then .exactMatch else .noMatch := by
  unfold loop at found
  rw [cmdIpv6PrefixMatch_eq, if_pos allowed, found]

end

theorem exists_mask_of_exactMatch (accepted : cmdIpv6PrefixMatch word = .exactMatch) :
    Allowed word ∧ ∃ mask, loop word = .ok mask ∧ IsMask mask := by
  obtain ⟨address, mask, rfl, allowed, opened, isMask⟩ :=
    (cmdIpv6PrefixMatch_eq_exactMatch_iff word).mp accepted
  exact ⟨allowed, mask, ipv6PrefixLoop_opened opened (ne_nil_of_isNumeral isMask.1), isMask⟩

theorem allowed_of_viable (viable : Viable cmdIpv6PrefixMatch word) : Allowed word := by
  obtain ⟨more, accepted⟩ := viable
  exact (allowed_append.mp (exists_mask_of_exactMatch accepted).1).1

theorem loop_ne_noMatch_of_viable (viable : Viable cmdIpv6PrefixMatch word) :
    loop word ≠ .error .noMatch := by
  obtain ⟨str, accepted⟩ := viable
  obtain ⟨_, mask, found, _⟩ := exists_mask_of_exactMatch accepted
  obtain ⟨field, cells, filled, cut, rfl⟩ := exists_cut inGroup word
  obtain ⟨first, more, filled', cut', rfl⟩ := exists_cut inGroup str
  obtain ⟨both, all⟩ := cut_extend filled cut filled' cut'
  unfold loop at found ⊢
  rw [← text_extend, ipv6PrefixLoop_text both all] at found
  rw [ipv6PrefixLoop_text filled cut]
  cases scanned : prefixScan (extend field cells first more).1
      (extend field cells first more).2 with
  | error answer =>
    rw [scanned] at found
    cases found
  | ok result =>
    have taken := prefixScan_ne_noMatch scanned
    cases here : prefixScan field cells with
    | error answer =>
      rw [here] at taken
      intro refused
      cases refused
      exact taken rfl
    | ok result => exact nofun

theorem not_viable_of_crowded (crowded : Crowded word) : cmdIpv6PrefixMatch word = .partlyMatch ∧
      ¬ Viable cmdIpv6PrefixMatch word := by
  have reads (tail : CStr) : loop (word ++ tail) =
      .error (if tail = [] then .partlyMatch else .noMatch) :=
    ipv6PrefixLoop_opens (finishes_full tail) crowded.2
  constructor
  · have here := reads []
    rw [append_nil] at here
    exact match_of_error crowded.1 here
  · rintro ⟨tail, accepted⟩
    obtain ⟨_, mask, found, _⟩ := exists_mask_of_exactMatch accepted
    rw [reads tail] at found
    cases found

theorem viable_of_completable (allowed : Allowed word) (completable : Completable word) :
    Viable cmdIpv6PrefixMatch word := by
  obtain ⟨more, address, allowed', equal, opened⟩ := completable
  refine ⟨more, (cmdIpv6PrefixMatch_eq_exactMatch_iff _).mpr
    ⟨address, "0", equal, ?_, opened, by decide⟩⟩
  exact allowed_append.mpr ⟨allowed, allowed'⟩

theorem viable_mask_iff (allowed : Allowed word) (found : loop word = .ok mask) :
    Viable cmdIpv6PrefixMatch word ↔ ∃ more, IsMask (mask ++ more) := by
  obtain ⟨address, rfl, present, opened⟩ := opened_of_loop found
  have reads (more : CStr) : loop (address ++ '/' :: mask ++ more) = .ok (mask ++ more) := by
    rw [append_assoc, cons_append]
    exact ipv6PrefixLoop_opened opened (append_ne_nil_of_left_ne_nil present more)
  constructor
  · rintro ⟨more, accepted⟩
    obtain ⟨_, other, found', isMask⟩ := exists_mask_of_exactMatch accepted
    rw [reads more] at found'
    cases found'
    exact ⟨more, isMask⟩
  · rintro ⟨more, isMask⟩
    have digits := allowed_of_isNumeral isMask.1
    refine ⟨more, ?_⟩
    rw [match_of_ok (allowed_append.mpr ⟨allowed, (allowed_append.mp digits).2⟩) (reads more)]
    exact if_pos isMask

theorem wrapping_iff (allowed : Allowed word) (found : loop word = .ok mask) :
    Wrapping word ↔ ¬ IsMask mask ∧ ∃ more, IsMask (mask ++ more) := by
  constructor
  · rintro ⟨address, length, rfl, _, opened, numeral, outside, back⟩
    have reads := ipv6PrefixLoop_opened opened (ne_nil_of_isNumeral numeral)
    cases reads.symm.trans found
    exact ⟨outside, back⟩
  · rintro ⟨outside, more, isMask⟩
    obtain ⟨address, equal, present, opened⟩ := opened_of_loop found
    have digits := isdigit_of_isNumeral isMask.1
    exact ⟨address, mask, equal, allowed, opened,
      isNumeral_of_forall present (forall_mem_append.mp digits).1,
      outside, more, isMask⟩

/-- **`cmd_ipv6_prefix_match` foresees everything but a twelfth group and a
length that comes back into its bounds.** -/
theorem foresees_ipv6Prefix_iff (word : CStr) :
    Foresees cmdIpv6PrefixMatch word ↔ ¬ Crowded word ∧ ¬ Wrapping word := by
  by_cases allowed : Allowed word
  · cases found : loop word with
    | error answer =>
      have result := match_of_error allowed found
      have noMask : ¬ Wrapping word := by
        rintro ⟨address, length, rfl, _, opened, numeral, _⟩
        have reads := ipv6PrefixLoop_opened opened (ne_nil_of_isNumeral numeral)
        cases reads.symm.trans found
      rw [and_iff_left noMask]
      constructor
      · intro agree crowded
        obtain ⟨partly, lost⟩ := not_viable_of_crowded crowded
        exact lost (agree.mp (by rw [partly]; rintro ⟨⟩))
      · intro fits
        rcases ipv6PrefixLoop_answer found with rfl | rfl
        · refine foresees_of_not_viable result fun viable => ?_
          exact loop_ne_noMatch_of_viable viable found
        · refine foresees_of_viable (by rw [result]; rintro ⟨⟩) ?_
          obtain ⟨field, cells, filled, cut, rfl⟩ := exists_cut inGroup word
          unfold loop at found
          rw [ipv6PrefixLoop_text filled cut] at found
          have partly : prefixScan field cells = .error .partlyMatch := by
            cases scanned : prefixScan field cells with
            | error answer =>
              rw [scanned] at found
              cases found
              rfl
            | ok mask =>
              rw [scanned] at found
              cases found
          rcases prefixScan_partly filled cut partly with whole | full
          · exact viable_of_completable allowed whole
          · exact absurd ⟨allowed, full⟩ fits
    | ok mask =>
      have notCrowded : ¬ Crowded word := by
        intro crowded
        have reads := ipv6PrefixLoop_opens (finishes_full []) crowded.2
        rw [append_nil] at reads
        cases reads.symm.trans found
      rw [and_iff_right notCrowded, wrapping_iff allowed found, Foresees,
        viable_mask_iff allowed found, match_of_ok allowed found]
      by_cases isMask : IsMask mask
      · rw [if_pos isMask]
        refine iff_of_true ?_ fun outside => outside.1 isMask
        exact iff_of_true (by rintro ⟨⟩) ⟨[], by rw [append_nil]; exact isMask⟩
      · rw [if_neg isMask, and_iff_right isMask]
        exact ⟨fun agree back => agree.mpr back rfl,
          fun lost => iff_of_false (not_not.mpr rfl) lost⟩
  · have refused : cmdIpv6PrefixMatch word = .noMatch := by
      rw [cmdIpv6PrefixMatch_eq, if_neg allowed]
    refine iff_of_true ?_ ⟨fun crowded => allowed crowded.1, ?_⟩
    · exact foresees_of_not_viable refused fun viable => allowed (allowed_of_viable viable)
    · rintro ⟨_, _, _, allowed', _⟩
      exact allowed allowed'

/-- The words of which some matcher does not foresee what becomes of them. -/
def Deceptive (word : CStr) : Prop :=
  Overrun false word ∨ Overrun true word ∨ LongPrefix word ∨
    LongNetmask word ∨ Crowded word ∨ Wrapping word

/--
**Partial matches are viable, but for the deceptive words.**

Each of the four matchers refuses a word exactly if it accepts no continuation
of it.
-/
theorem matchers_foresee_iff_not_deceptive (word : CStr) :
    (Foresees cmdIpv4Match word ∧ Foresees cmdIpv4PrefixMatch word ∧
      Foresees cmdIpv4NetmaskMatch word ∧
      Foresees cmdIpv6PrefixMatch word) ↔ ¬ Deceptive word := by
  rw [foresees_ipv4_iff, foresees_ipv4Prefix_iff, foresees_ipv4Netmask_iff, foresees_ipv6Prefix_iff]
  unfold Deceptive
  tauto

/-- A number that is too large is taken for the start of an address as soon as a
dot follows it. -/
theorem dot_behind_large_number : cmdIpv4Match "300" = .noMatch ∧
      cmdIpv4Match "300." = .partlyMatch ∧
      ¬ Viable cmdIpv4Match "300." := by
  refine ⟨by decide, by decide, ?_⟩
  have digits : Ipv4Scan.Digits "300" := isdigit_of_isNumeral (by decide)
  have cut : Cut isdigit [('.', [])] := forall_mem_cons.mpr ⟨⟨rfl, filled_nil⟩, cut_nil⟩
  have overruns : Overruns false 3 "300" [('.', [])] :=
    ⟨by decide, .inr (.inl ⟨rfl, rfl, rfl, by decide⟩)⟩
  intro viable
  have continuable := (viable_ipv4_iff digits cut).mp viable
  exact (ipv4Scan_iff _ _ _).mp (iff_of_true (by decide) continuable) overruns

end OpsCli.Command.Viability
