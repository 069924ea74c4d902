import OpsCli.Bgp.PrefixList

/-!
# Taking back an entry of a prefix list

A `no` command with the arguments of a command that was just accepted finds the
entry only if the sequence number is not changed by the conversion to an
`int`.
-/

namespace OpsCli.Bgp.PrefixListUndo

open CLib CString Columns Conversion NamedMaps PrefixText
  PrefixList List

variable (column : MapColumn Int PrefixEntry) (functions : AddressFunctions) {table : PrefixTable}
  {row : PrefixListRow} {args : EntryArgs} {seqnum : Int}

/-- The command followed by its `no` form leaves the list with the entries it
had before. -/
def Undone (args : EntryArgs) (table : PrefixTable) : Prop :=
  ∃ reply after, cliNoIpPrefixListSeqCmdExecute column functions args
      (policySetPrefixListInOvsdb column functions args table).2 = some (reply, after) ∧
    (entriesOf args.name after.rows).Perm (entriesOf args.name table.rows)

/-- The numbers of the list are distinct, and the number is not among
them. -/
structure Unused (name : CStr) (seqnum : Int) (rows : List PrefixListRow) : Prop where
  distinct : ∀ row ∈ rows, row.name = name → (keys row.entries).Nodup
  unused : ∀ row ∈ rows, row.name = name → seqnum ∉ keys row.entries

/-! ## Accepted commands -/

theorem setRefusal_ne_committed (refusal : Refusal) : setRefusal refusal ≠ .committed := by
  intro equal
  have noOutput := congrArg Reply.output equal
  cases refusal with
  | type => cases noOutput
  | malformed afi =>
    cases afi with
    | ip => cases noOutput
    | ip6 => cases noOutput
  | range pfx => cases noOutput

theorem exists_entry_of_committed
    (accepted : (policySetPrefixListInOvsdb column functions args table).1 = .committed) :
    ∃ entry, normalise functions args = .ok entry := by
  unfold policySetPrefixListInOvsdb at accepted
  split at accepted
  · exact absurd accepted (setRefusal_ne_committed _)
  · rename_i entry normal
    exact ⟨entry, normal⟩

/-! ## Both conversions of the number -/

theorem toInt_of_lt (positive : 1 ≤ seqnum) (small : seqnum < 2 ^ 31) : toInt seqnum = seqnum := by
  unfold toInt
  exact Int.bmod_eq_of_le (by omega) (by omega)

theorem toInt_ne (large : 2 ^ 31 ≤ seqnum) (range : seqnum < 2 ^ 32) : toInt seqnum ≠ seqnum := by
  unfold toInt
  intro same
  have below := Int.bmod_lt (x := seqnum) (m := 2 ^ 32) (by decide)
  omega

section

variable
  (unused : Unused args.name (strtoll args.seq) table.rows)
include unused

theorem Unused.ensure : Unused args.name (strtoll args.seq)
      (ensureNamed [] args.name table.rows) where
  distinct row member named := by
    rcases mem_ensureNamed member with old | rfl
    · exact unused.distinct row old named
    · exact nodup_nil
  unused row member named := by
    rcases mem_ensureNamed member with old | rfl
    · exact unused.unused row old named
    · exact not_mem_nil

theorem Unused.entriesOf_distinct : (keys (entriesOf args.name table.rows)).Nodup := by
  have found := firstNamed_ensureNamed [] args.name table.rows
  rw [← entriesOf_ensureNamed [] args.name, entriesOf_eq found]
  exact unused.ensure.distinct _ (mem_of_firstNamed found) (name_of_firstNamed found)

theorem Unused.not_mem_entriesOf : strtoll args.seq ∉ keys (entriesOf args.name table.rows) := by
  have found := firstNamed_ensureNamed [] args.name table.rows
  rw [← entriesOf_ensureNamed [] args.name, entriesOf_eq found]
  exact unused.ensure.unused _ (mem_of_firstNamed found) (name_of_firstNamed found)

end

theorem entries_storeEntry {column : MapColumn Int PrefixEntry} {entry : PrefixEntry}
    (absent : isFound sameEntry args.name (entryUpdate (strtoll args.seq) entry)
      (ensureNamed [] args.name table.rows) = false)
    (found : firstNamed args.name
      (storeEntry column args.name (strtoll args.seq) entry table).rows = some row) :
    row.entries = column.arrange
      (entriesOf args.name table.rows ++ [(strtoll args.seq, entry)]) := by
  rw [← entriesOf_eq found, storeEntry_eq, MapTable.store_of_not_found absent]
  exact MapTable.entriesOf_setEntries column (firstNamed_ensureNamed [] args.name table.rows)

theorem exists_firstNamed_storeEntry (name : CStr) (seqnum : Int) (entry : PrefixEntry)
    (table : PrefixTable) :
    ∃ row, firstNamed name (storeEntry column name seqnum entry table).rows = some row := by
  have ensured := firstNamed_ensureNamed [] name table.rows
  rw [storeEntry_eq]
  cases found : isFound sameEntry name (entryUpdate seqnum entry)
      (ensureNamed [] name table.rows) with
  | true =>
    rw [MapTable.store_of_found found]
    exact ⟨_, ensured⟩
  | false =>
    rw [MapTable.store_of_not_found found]
    unfold MapTable.setEntries
    rw [firstNamed_changeFirst (NamedMap.name_withEntries _), ensured]
    exact ⟨_, rfl⟩

/-! ## The command and its `no` form -/

section

variable {column functions} {entry : PrefixEntry}
  (normal : normalise functions args = .ok entry)
include normal

theorem policySet_of_normalise : (policySetPrefixListInOvsdb column functions args table).2 =
      storeEntry column args.name (strtoll args.seq) entry table := by
  unfold policySetPrefixListInOvsdb
  rw [normal]

theorem cliNo_of_normalise (found : firstNamed args.name table.rows = some row) :
    cliNoIpPrefixListSeqCmdExecute column functions args table = if isFound sameEntry args.name
          (entryUpdate (strtoll args.seq) entry) table.rows then
        (table.remove column row (strtoll args.seq)).map (.committed, ·)
      else some (.erroneous "Prefix List entry not found", table) := by
  unfold cliNoIpPrefixListSeqCmdExecute policyGetPrefixListInOvsdb
    policyGetPrefixListEntryInOvsdb bgpPrefixListEntryRemoveFromPrefixList
  rw [normal]
  rw [found]

variable (unused : Unused args.name (strtoll args.seq) table.rows)
include unused

theorem undone_of_toInt (exactly : toInt (strtoll args.seq) = strtoll args.seq) :
    Undone column functions args table := by
  have absent : isFound sameEntry args.name (entryUpdate (strtoll args.seq) entry)
      (ensureNamed [] args.name table.rows) = false := by
    rw [Bool.eq_false_iff]
    intro found
    obtain ⟨row, member, named, present⟩ := (isFound_iff sameEntry).mp found
    obtain ⟨value, stored, _⟩ := (isPresent_iff sameEntry).mp present
    have probed : (strtoll args.seq, value) ∈ row.entries := by
      rw [← exactly]
      exact stored
    exact unused.ensure.unused row member named (mem_keys_of_mem probed)
  obtain ⟨row, found⟩ := exists_firstNamed_storeEntry column args.name
    (strtoll args.seq) entry table
  have entries := entries_storeEntry absent found
  have present : (entryUpdate (strtoll args.seq) entry).isPresent sameEntry row.entries := by
    rw [isPresent_iff]
    refine ⟨entry, ?_, sameEntry_iff.mpr rfl⟩
    change (toInt (strtoll args.seq), entry) ∈ row.entries
    rw [exactly, entries]
    exact column.mem_arrange_append unused.entriesOf_distinct unused.not_mem_entriesOf entry
  obtain ⟨kept, removed, perm⟩ := without_arrange_append column
    unused.entriesOf_distinct unused.not_mem_entriesOf entry
  rw [← entries] at removed
  have distinct : (keys kept).Nodup := (perm.map Prod.fst).nodup_iff.mpr unused.entriesOf_distinct
  refine ⟨.committed, MapTable.setEntries column
    (storeEntry column args.name (strtoll args.seq) entry table)
    args.name kept, ?_, ?_⟩
  · rw [policySet_of_normalise normal, cliNo_of_normalise normal found,
      if_pos (isFound_of_isPresent sameEntry found present)]
    unfold MapTable.remove
    rw [removed, name_of_firstNamed found]
    rfl
  · rw [MapTable.entriesOf_setEntries column found]
    exact (column.arrange_perm distinct).trans perm

theorem not_undone_of_toInt (changed : toInt (strtoll args.seq) ≠ strtoll args.seq) :
    ¬ Undone column functions args table := by
  rintro ⟨reply, after, ran, perm⟩
  obtain ⟨row, found⟩ := exists_firstNamed_storeEntry column args.name
    (strtoll args.seq) entry table
  rw [policySet_of_normalise normal, cliNo_of_normalise normal found] at ran
  cases search : isFound sameEntry args.name (entryUpdate (strtoll args.seq) entry)
      (ensureNamed [] args.name table.rows) with
  | true =>
    have stored : storeEntry column args.name (strtoll args.seq) entry table =
        { table with rows := ensureNamed [] args.name table.rows } := by
      rw [storeEntry_eq, MapTable.store_of_found search]
    rw [stored] at ran found
    have absent := unused.ensure.unused row (mem_of_firstNamed found) (name_of_firstNamed found)
    rw [if_pos search, MapTable.remove, without_of_not_mem absent] at ran
    cases ran
  | false =>
    have entries := entries_storeEntry search found
    have new := keys_nodup_append unused.entriesOf_distinct unused.not_mem_entriesOf entry
    have missing : ¬ isFound sameEntry args.name (entryUpdate (strtoll args.seq) entry)
        (storeEntry column args.name (strtoll args.seq) entry table).rows := by
      intro again
      rw [storeEntry_eq, MapTable.store_of_not_found search] at again
      rcases isFound_setEntries column sameEntry again with before | present
      · rw [search] at before
        exact Bool.false_ne_true before
      · obtain ⟨value, stored, same⟩ := (isPresent_iff sameEntry).mp present
        rcases mem_append.mp ((column.mem_arrange new).mp stored) with
          old | last
        · have ensured := firstNamed_ensureNamed [] args.name table.rows
          rw [← entriesOf_ensureNamed [] args.name, entriesOf_eq ensured] at old
          have earlier := isFound_of_isPresent sameEntry ensured
            ((isPresent_iff sameEntry).mpr ⟨value, old, same⟩)
          rw [search] at earlier
          exact Bool.false_ne_true earlier
        · exact changed (congrArg Prod.fst (mem_singleton.mp last))
    rw [if_neg missing] at ran
    cases ran
    rw [entriesOf_eq found, entries] at perm
    have sameLength := ((column.arrange_perm new).symm.trans perm).length_eq
    rw [length_append, length_singleton] at sameLength
    omega

end

/-- **`no` takes back exactly the entries whose number fits an `int`.** -/
theorem undone_iff_lt {args : EntryArgs} {table : PrefixTable} (accepted :
      (policySetPrefixListInOvsdb column functions args table).1 = .committed)
    (lower : 1 ≤ strtoll args.seq) (upper : strtoll args.seq ≤ 4294967295)
    (unused : Unused args.name (strtoll args.seq) table.rows) :
    Undone column functions args table ↔ strtoll args.seq < 2 ^ 31 := by
  obtain ⟨entry, normal⟩ := exists_entry_of_committed column functions accepted
  constructor
  · intro undone
    by_contra large
    have changed := toInt_ne (not_lt.mp large) (by omega)
    exact not_undone_of_toInt normal unused changed undone
  · intro small
    exact undone_of_toInt normal unused (toInt_of_lt lower small)

/-- `ip prefix-list PL seq 10 permit 10.0.0.0/8` and the same command for
another number. -/
def permitTen (seq : CStr) : EntryArgs where
  afi := .ip
  name := "PL"
  seq := seq
  typestr := "permit"
  pfx := "10.0.0.0/8"

theorem unused_empty (name : CStr) (seqnum : Int) :
    Unused name seqnum (MapTable.empty : PrefixTable).rows where
  distinct _ member := absurd member not_mem_nil
  unused _ member := absurd member not_mem_nil

/-- The list has the entry 5, and another list has an entry 10. -/
def twoLists : PrefixTable :=
  (policySetPrefixListInOvsdb .plain .sample { permitTen "10" with name := "QL" }
    (policySetPrefixListInOvsdb .plain .sample (permitTen "5") .empty).2).2

theorem permitTen_undone : Undone .plain .sample (permitTen "10") twoLists :=
  (undone_iff_lt .plain .sample (by decide) (by decide) (by decide)
    ⟨by decide, by decide⟩).mpr (by decide)

/-- The entry with the number 2147483648 is accepted and stays. -/
theorem large_number_not_undone : (policySetPrefixListInOvsdb .plain .sample
        (permitTen "2147483648") .empty).1 = .committed ∧
      strtoll "2147483648" = 2147483648 ∧
      ¬ Undone .plain .sample (permitTen "2147483648") .empty := by
  have normal : normalise .sample (permitTen "2147483648") =
      .ok ⟨"permit", "10.0.0.0/8", 0, 0⟩ := by
    decide
  refine ⟨by decide, by decide, ?_⟩
  exact not_undone_of_toInt normal (unused_empty _ _) (by decide)

end OpsCli.Bgp.PrefixListUndo
