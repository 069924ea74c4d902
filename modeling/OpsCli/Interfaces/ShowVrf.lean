import OpsCli.CLib.CString

/-!
# `show vrf`

The command finds a VRF through an index of the table.  The comparator of the
index takes two names that begin with a digit for the same if their numbers
are, and the listing passes over every name that begins like the default one.
-/

namespace OpsCli.Interfaces.ShowVrf

open CLib.CString List

def startsWithDigit (name : CStr) : Bool :=
  name.head?.any isdigit

/-- `compare_nodes_vrf`. -/
def compareNodesVrf (name1 name2 : CStr) : Int :=
  if startsWithDigit name1 && startsWithDigit name2 then
    if scanned name1 = scanned name2 then 0
    else if scanned name1 < scanned name2 then -1
    else 1
  else if startsWithDigit name1 || startsWithDigit name2 then
    if startsWithDigit name1 then -1 else 1
  else strcmp name1 name2

/-- The index of a table of VRFs, given by their names. -/
structure Index (rows : List CStr) where
  find : CStr → Option CStr
  found : ∀ name row, find name = some row → row ∈ rows ∧ compareNodesVrf name row = 0
  missed : ∀ name, find name = none → ∀ row ∈ rows, compareNodesVrf name row ≠ 0
  visited : List CStr
  each : visited ~ rows

inductive Output where
  | vrf (name : CStr)
  | notFound (name : CStr)
  deriving DecidableEq

def vrfDefault : CStr :=
  "vrf_default"

variable {rows : List CStr} (index : Index rows)

/-- `show_vrf_info` behind the heading.  With no default VRF a null pointer is
printed. -/
def showVrfInfo : Option CStr → Option (List Output)
  | some name => some [match index.find name with
      | none => .notFound name
      | some row => .vrf row]
  | none => (index.find vrfDefault).map fun row =>
      .vrf row :: (index.visited.filter (!vrfDefault.isPrefixOf ·)).map .vrf

theorem strcmp_eq_zero_iff (first second : CStr) : strcmp first second = 0 ↔ first = second := by
  fun_induction strcmp first second with
  | case1 => exact iff_of_true rfl rfl
  | case2 => exact iff_of_false nofun nofun
  | case3 => exact iff_of_false nofun nofun
  | case4 c first d second less =>
    exact iff_of_false nofun fun same => Char.ne_of_lt less (head_eq_of_cons_eq same)
  | case5 c first d second _ less =>
    exact iff_of_false nofun fun same => Char.ne_of_lt less (head_eq_of_cons_eq same).symm
  | case6 c first d second notLess notMore ih =>
    have same := Char.le_antisymm (Char.not_lt.mp notMore) (Char.not_lt.mp notLess)
    rw [ih, same, cons_inj_right]

theorem compareNodesVrf_eq_zero_iff (name row : CStr) : compareNodesVrf name row = 0 ↔
    name = row ∨ startsWithDigit name ∧ startsWithDigit row ∧ scanned name = scanned row := by
  unfold compareNodesVrf
  cases first : startsWithDigit name with
  | false =>
    cases second : startsWithDigit row with
    | false => simpa using strcmp_eq_zero_iff name row
    | true =>
      refine iff_of_false nofun ?_
      rintro (rfl | ⟨digit, _⟩)
      · cases first.symm.trans second
      · cases digit
  | true =>
    cases second : startsWithDigit row with
    | false =>
      refine iff_of_false nofun ?_
      rintro (rfl | ⟨_, digit, _⟩)
      · cases first.symm.trans second
      · cases digit
    | true =>
      rw [Bool.and_self, if_pos rfl]
      split
      · rename_i same
        exact iff_of_true rfl (.inr ⟨rfl, rfl, same⟩)
      · rename_i different
        refine iff_of_false (by split <;> nofun) ?_
        rintro (rfl | ⟨_, _, same⟩)
        · exact different rfl
        · exact different same

/-- An index may return any of the rows that the comparator takes for the
name. -/
def Index.choosing (row : CStr) (member : row ∈ rows) : Index rows where
  find name :=
    if compareNodesVrf name row = 0 then some row
    else rows.find? (compareNodesVrf name · = 0)
  found name other chosen := by
    split at chosen
    · rename_i same
      cases chosen
      exact ⟨member, same⟩
    · exact ⟨mem_of_find?_eq_some chosen, by simpa using find?_some chosen⟩
  missed name none := by
    split at none
    · cases none
    · simpa using none
  visited := rows
  each := .refl rows

/-- No other VRF has the number of the name. -/
def Alone (rows : List CStr) (name : CStr) : Prop :=
  ∀ row ∈ rows, startsWithDigit name → startsWithDigit row → scanned name = scanned row → row = name

theorem find_of_alone {name : CStr} (alone : Alone rows name) :
    index.find name = if name ∈ rows then some name else none := by
  cases chosen : index.find name with
  | none =>
    have same := (compareNodesVrf_eq_zero_iff name name).mpr (.inl rfl)
    rw [if_neg fun member => index.missed name chosen name member same]
  | some row =>
    obtain ⟨member, same⟩ := index.found name row chosen
    have own : row = name := by
      rcases (compareNodesVrf_eq_zero_iff name row).mp same with rfl | ⟨digit, rowDigit, equal⟩
      · rfl
      · exact alone row member digit rowDigit equal
    rw [own, if_pos (own ▸ member)]

/-- One VRF is shown right exactly if no other one has its number, and all are
listed exactly if no other name begins like the default one. -/
theorem show_vrf_iff (distinct : rows.Nodup) (hasDefault : vrfDefault ∈ rows) :
    (∀ name, (∀ index : Index rows, showVrfInfo index (some name) =
        some [if name ∈ rows then .vrf name else .notFound name]) ↔ Alone rows name) ∧
    ((∃ others, showVrfInfo index none = some (.vrf vrfDefault :: others.map .vrf) ∧
        vrfDefault :: others ~ rows) ↔ ∀ row ∈ rows, vrfDefault <+: row → row = vrfDefault) := by
  constructor
  · intro name
    constructor
    · intro shown row member digit rowDigit same
      have chosen := shown (.choosing row member)
      have equal := (compareNodesVrf_eq_zero_iff name row).mpr (.inr ⟨digit, rowDigit, same⟩)
      simp only [showVrfInfo, Index.choosing, if_pos equal, Option.some.injEq,
        singleton_inj] at chosen
      split at chosen
      · exact Output.vrf.inj chosen
      · cases chosen
    · intro alone index
      rw [showVrfInfo, find_of_alone index alone]
      by_cases member : name ∈ rows
      · rw [if_pos member, if_pos member]
      · rw [if_neg member, if_neg member]
  · have found : index.find vrfDefault = some vrfDefault := by
      rw [find_of_alone index fun _ _ digit => absurd digit (by decide), if_pos hasDefault]
    rw [showVrfInfo, found]
    constructor
    · rintro ⟨others, shown, each⟩ row member begins
      have same : _ = others :=
        map_inj_right (fun _ _ => Output.vrf.inj) |>.mp (cons.inj (Option.some.inj shown)).2
      rcases mem_cons.mp (each.mem_iff.mpr member) with rfl | other
      · rfl
      · rw [← same, mem_filter, isPrefixOf_iff_prefix.mpr begins] at other
        cases other.2
    · intro alone
      refine ⟨_, rfl, ?_⟩
      have once := (index.each.nodup_iff.mpr distinct).filter (!vrfDefault.isPrefixOf ·)
      have apart : vrfDefault ∉ index.visited.filter (!vrfDefault.isPrefixOf ·) :=
        fun member => absurd (mem_filter.mp member).2 (by decide)
      refine (perm_ext_iff_of_nodup (nodup_cons.mpr ⟨apart, once⟩) distinct).mpr fun row => ?_
      rw [mem_cons, mem_filter, index.each.mem_iff]
      constructor
      · rintro (rfl | other)
        · exact hasDefault
        · exact other.1
      · intro member
        by_cases own : row = vrfDefault
        · exact .inl own
        · have other := mt (alone row member) own
          rw [← isPrefixOf_iff_prefix, Bool.not_eq_true] at other
          exact .inr ⟨member, by rw [other]; rfl⟩

theorem show_vrf_red :
    let index : Index [vrfDefault, "red"] := .choosing vrfDefault (by decide)
    showVrfInfo index (some "red") = some [.vrf "red"] ∧
      ∃ others, showVrfInfo index none = some (.vrf vrfDefault :: others.map .vrf) ∧
        vrfDefault :: others ~ [vrfDefault, "red"] := by
  intro index
  have shown := show_vrf_iff index (by decide) (by decide)
  exact ⟨(shown.1 _).mpr (fun _ _ digit => absurd digit (by decide)) index, shown.2.mpr (by decide)⟩

/-- The VRF `1` is shown for `01`, and `vrf_default2` is not listed. -/
theorem other_vrf_shown :
    let index : Index [vrfDefault, "1", "vrf_default2"] := .choosing "1" (by decide)
    showVrfInfo index (some "01") = some [.vrf "1"] ∧
      showVrfInfo index none = some [.vrf vrfDefault, .vrf "1"] := by
  decide

end OpsCli.Interfaces.ShowVrf
