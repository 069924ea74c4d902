import OpsCli.Bgp.PrefixList
import OpsCli.Command.NumberRange

/-!
# Deleting a prefix list

The table does not say whether a prefix list was made by `ip` or by `ipv6`
commands.  `cli_no_ip_prefix_list_cmd_execute` guesses it from the numbers of
the first entry.
-/

namespace OpsCli.Bgp.ListDeletion

open CLib CString Columns Conversion NamedMaps
  Command.NumberRange Command.WordMatch PrefixText PrefixList List

variable (column : MapColumn Int PrefixEntry) (functions : AddressFunctions)
  {name : CStr} {entry : PrefixEntry} {args : EntryArgs}

/-! ## The set commands -/

/-- The commands that set an entry or the description of a list. -/
inductive SetCommand where
  | entry (args : EntryArgs)
  | description (name text : CStr)

def SetCommand.execute (table : PrefixTable) : SetCommand → PrefixTable
  | .entry args => (policySetPrefixListInOvsdb column functions args table).2
  | .description name text =>
    (policySetPrefixListDescriptionInOvsdb name text table).2

def setRun (commands : List SetCommand) : PrefixTable :=
  commands.foldl (SetCommand.execute column functions) .empty

/-- The tokens `<0-32>` and `<0-128>`. -/
def lengthToken : Afi → RangeToken
  | .ip => ⟨"0", "32", rfl, rfl, by decide, by decide, by decide⟩
  | .ip6 =>
    ⟨"0", "128", rfl, rfl, by decide, by decide, by decide⟩

/-- The arguments have passed the command parser: lengths are admitted by the
tokens of the family, and a description has a word. -/
def SetCommand.Admitted : SetCommand → Prop
  | .entry args =>
    (∀ word ∈ args.ge, cmdRangeMatch (lengthToken args.afi).text word) ∧
    ∀ word ∈ args.le, cmdRangeMatch (lengthToken args.afi).text word
  | .description _ text => text ≠ []

/-- A command of the family sets an entry of the list under a number. -/
def Configured (commands : List SetCommand) (afi : Afi) (name : CStr)
    (pair : Int × PrefixEntry) : Prop :=
  ∃ args, SetCommand.entry args ∈ commands ∧ args.afi = afi ∧
    args.name = name ∧ strtoll args.seq = pair.1 ∧
    normalise functions args = .ok pair.2

variable {commands : List SetCommand}

theorem Configured.mono {functions : AddressFunctions} {afi : Afi}
    {pair : Int × PrefixEntry} (command : SetCommand)
    (configured : Configured functions commands afi name pair) :
    Configured functions (commands ++ [command]) afi name pair := by
  obtain ⟨args, member, rest⟩ := configured
  exact ⟨args, mem_append_left _ member, rest⟩

theorem le_of_normalise (admitted : (SetCommand.entry args).Admitted) (family : args.afi = .ip)
    (normal : normalise functions args = .ok entry) : entry.le ≤ 32 := by
  have word : (args.le.map atoi).getD 0 ≤ 32 := by
    cases given : args.le with
    | none => decide
    | some text =>
      have accepted := admitted.2 text given
      have small : digitsValue (lengthToken .ip).max < 2 ^ 31 := by decide
      rw [family] at accepted
      exact (atoi_of_cmdRangeMatch small accepted).2
  have read : ∀ p genum lenum, readPrefix functions args = some (p, genum, lenum) → lenum ≤ 32 := by
    intro p genum lenum found
    unfold readPrefix at found
    dsimp only at found
    split at found
    · obtain ⟨_, _, equal⟩ := Option.map_eq_some_iff.mp found
      cases equal
      rw [family]
      decide
    · obtain ⟨_, _, equal⟩ := Option.map_eq_some_iff.mp found
      cases equal
      exact word
  unfold normalise at normal
  split at normal
  · cases normal
  · split at normal
    · cases normal
    · rename_i p genum lenum found
      split at normal
      · cases normal
      · cases normal
        dsimp only
        split
        · decide
        · exact read p genum lenum found

/-! ## Reachable tables -/

/-- What is known of a table that the set commands have made: names are not
repeated, every entry was configured, and a list without entries has a
description. -/
structure Reached (commands : List SetCommand) (table : PrefixTable) : Prop where
  unique : table.Unique
  configured : ∀ name, ∀ pair ∈ entriesOf name table.rows,
    ∃ afi, Configured functions commands afi name pair
  inhabited : ∀ (name : CStr) (row : PrefixListRow), firstNamed name table.rows = some row →
      row.entries ≠ [] ∨ row.description ≠ []

section

variable {functions} {table : PrefixTable}
  (reached : Reached functions commands table)
include reached

theorem Reached.mono (command : SetCommand) : Reached functions (commands ++ [command]) table where
  unique := reached.unique
  configured name pair member := by
    obtain ⟨afi, configured⟩ := reached.configured name pair member
    exact ⟨afi, configured.mono command⟩
  inhabited := reached.inhabited

theorem Reached.storeEntry (normal : normalise functions args = .ok entry) :
    Reached functions (commands ++ [.entry args])
      (storeEntry column args.name (strtoll args.seq) entry table) := by
  have unique := reached.unique
  rw [storeEntry_eq]
  generalize updated : entryUpdate (strtoll args.seq) entry = update
  have here := MapTable.mapOf_store column sameEntry [] args.name update unique
  have pairs := congrArg Entries.pairs here
  refine ⟨unique.store column sameEntry [] args.name update, ?_, ?_⟩
  · intro name pair member
    by_cases same : name = args.name
    · subst same
      change pair ∈ (MapTable.mapOf args.name _).pairs at member
      rw [pairs] at member
      rcases Entries.mem_update column sameEntry member with old | rfl
      · obtain ⟨afi, configured⟩ := reached.configured args.name pair old
        exact ⟨afi, configured.mono _⟩
      · rw [← updated]
        exact ⟨args.afi, args, mem_append_right _ mem_cons_self, rfl, rfl, rfl, normal⟩
    · unfold entriesOf at member
      rw [MapTable.firstNamed_store_of_ne column sameEntry [] args.name update same] at member
      obtain ⟨afi, configured⟩ := reached.configured name pair member
      exact ⟨afi, configured.mono _⟩
  · intro name row found
    by_cases same : name = args.name
    · subst same
      left
      rw [← entriesOf_eq found]
      change (MapTable.mapOf args.name _).pairs ≠ []
      rw [pairs]
      exact Entries.update_ne_nil column sameEntry _ update
    · rw [MapTable.firstNamed_store_of_ne column sameEntry [] args.name update same] at found
      exact reached.inhabited name row found

theorem Reached.description {text : CStr} (nonempty : text ≠ []) :
    Reached functions (commands ++ [.description name text])
      (policySetPrefixListDescriptionInOvsdb name text table).2 := by
  have first : firstNamed name (policySetPrefixListDescriptionInOvsdb name text table).2.rows =
      some (((firstNamed name table.rows).getD ⟨name, [], []⟩).withInfo text) := by
    unfold policySetPrefixListDescriptionInOvsdb
    rw [firstNamed_changeFirst (NamedMap.name_withInfo text), firstNamed_ensureNamed]
    rfl
  have others : ∀ other, other ≠ name → firstNamed other
      (policySetPrefixListDescriptionInOvsdb name text table).2.rows =
      firstNamed other table.rows := by
    intro other differs
    unfold policySetPrefixListDescriptionInOvsdb
    rw [firstNamed_changeFirst_of_ne (NamedMap.name_withInfo text)
      differs, firstNamed_ensureNamed_of_ne differs]
  have entries : ∀ other, entriesOf other
      (policySetPrefixListDescriptionInOvsdb name text table).2.rows =
      entriesOf other table.rows := by
    intro other
    by_cases same : other = name
    · subst same
      rw [entriesOf_eq first, ← entriesOf_ensureNamed [] other,
        entriesOf_eq (firstNamed_ensureNamed [] other table.rows)]
      rfl
    · unfold entriesOf
      rw [others other same]
  refine ⟨?_, ?_, ?_⟩
  · unfold MapTable.Unique policySetPrefixListDescriptionInOvsdb
    rw [names_changeFirst (NamedMap.name_withInfo text)]
    exact names_ensureNamed_nodup [] name reached.unique
  · intro other pair member
    rw [entries] at member
    obtain ⟨afi, configured⟩ := reached.configured other pair member
    exact ⟨afi, configured.mono _⟩
  · intro other row found
    by_cases same : other = name
    · subst same
      rw [first] at found
      cases found
      exact .inr nonempty
    · rw [others other same] at found
      exact reached.inhabited other row found

theorem Reached.execute {command : SetCommand} (admitted : command.Admitted) :
    Reached functions (commands ++ [command]) (command.execute column functions table) := by
  cases command with
  | description name text => exact reached.description admitted
  | entry args =>
    unfold SetCommand.execute policySetPrefixListInOvsdb
    dsimp only
    cases normal : normalise functions args with
    | error refusal => exact reached.mono _
    | ok entry => exact reached.storeEntry column normal

end

theorem reached_setRun (admitted : ∀ command ∈ commands, command.Admitted) :
    Reached functions commands (setRun column functions commands) := by
  induction commands using List.reverseRecOn with
  | nil =>
    refine ⟨nodup_nil, ?_, ?_⟩
    · intro name pair member
      exact absurd member not_mem_nil
    · intro name row found
      cases found
  | append_singleton before command ih =>
    have reached := ih fun earlier member => admitted earlier (mem_append_left _ member)
    have step : setRun column functions (before ++ [command]) =
        command.execute column functions (setRun column functions before) := by
      unfold setRun
      rw [foldl_append]
      rfl
    rw [step]
    exact reached.execute column (admitted command (mem_append_right _ mem_cons_self))

/-! ## Deletion -/

/-- The list is there, and is not there after the `no` command. -/
def Deletes (afi : Afi) (name : CStr) (table : PrefixTable) : Prop :=
  (firstNamed name table.rows).isSome ∧
    firstNamed name (cliNoIpPrefixListCmdExecute name afi table).2.rows = none

/-- All entries of the list were configured by commands of the family. -/
def AllConfigured (commands : List SetCommand) (afi : Afi) (name : CStr)
    (table : PrefixTable) : Prop :=
  ∀ pair ∈ entriesOf name table.rows, Configured functions commands afi name pair

/-- The `no` command of a family deletes the list exactly if it exists and all
its entries were configured by the family. -/
def DeletesOwn (commands : List SetCommand) (afi : Afi) (name : CStr)
    (table : PrefixTable) : Prop :=
  Deletes afi name table ↔ (firstNamed name table.rows).isSome ∧
      AllConfigured functions commands afi name table

/-- The numbers that an `ipv6` list is refused for. -/
def Narrow (entry : PrefixEntry) : Prop :=
  entry.ge ≠ 0 ∧ entry.le ≠ 0 ∧ entry.le ≤ 32

theorem takenFor_ip6_iff (entry : PrefixEntry) : takenFor .ip6 entry ↔ ¬ Narrow entry := by
  unfold takenFor Narrow
  simp only [Bool.not_eq_true', Bool.and_eq_false_iff, decide_eq_false_iff_not]
  tauto

section

variable {functions} {table : PrefixTable}
  (reached : Reached functions commands table) (afi : Afi) (name : CStr)
include reached

/-- The first entry decides, and a list without entries is deleted. -/
theorem Reached.deletes_iff : Deletes afi name table ↔ (firstNamed name table.rows).isSome ∧
      ∀ first ∈ (entriesOf name table.rows).head?, takenFor afi first.2 := by
  refine and_congr_right fun there => ?_
  obtain ⟨(row : PrefixListRow), found⟩ := Option.isSome_iff_exists.mp there
  have gone : firstNamed name (eraseFirst name table.rows) = none :=
    firstNamed_eraseFirst reached.unique
  have stays : ¬ firstNamed name table.rows = none := by
    rw [found]
    exact Option.some_ne_none row
  unfold cliNoIpPrefixListCmdExecute policyGetPrefixListInOvsdb
  rw [entriesOf_eq found, found]
  dsimp only
  cases entries : row.entries with
  | nil =>
    have described : row.description ≠ [] := by
      rcases reached.inhabited name row found with some | described
      · exact absurd entries some
      · exact described
    rw [if_neg described]
    refine iff_of_true gone ?_
    intro first member
    cases member
  | cons pair rest =>
    dsimp only
    by_cases taken : takenFor afi pair.2
    · rw [if_pos taken]
      refine iff_of_true gone ?_
      intro first member
      cases member
      exact taken
    · rw [if_neg taken]
      refine iff_of_false stays ?_
      intro all
      exact taken (all pair rfl)

theorem Reached.deletesOwn_iff : DeletesOwn functions commands afi name table ↔
      ∀ first ∈ (entriesOf name table.rows).head?,
        (takenFor afi first.2 ↔ AllConfigured functions commands afi name table) := by
  unfold DeletesOwn AllConfigured
  rw [reached.deletes_iff, and_congr_right_iff]
  cases found : firstNamed name table.rows with
  | none => simp [entriesOf, found]
  | some row => cases entries : entriesOf name table.rows <;> simp

end

/-- **When `no ip prefix-list` and `no ipv6 prefix-list` delete the lists of
their own family.** -/
theorem deletesOwn_iff_first {commands : List SetCommand}
    (admitted : ∀ command ∈ commands, command.Admitted) (name : CStr) :
    (DeletesOwn functions commands .ip name (setRun column functions commands) ↔
      ∀ first ∈ (entriesOf name (setRun column functions commands).rows).head?,
        AllConfigured functions commands .ip name (setRun column functions commands) ∨
          32 < first.2.le) ∧
    (DeletesOwn functions commands .ip6 name (setRun column functions commands) ↔
      ∀ first ∈ (entriesOf name (setRun column functions commands).rows).head?,
        (AllConfigured functions commands .ip6 name (setRun column functions commands) ↔
          ¬ Narrow first.2)) := by
  have reached := reached_setRun column functions admitted
  generalize setRun column functions commands = table at reached ⊢
  rw [reached.deletesOwn_iff, reached.deletesOwn_iff]
  refine ⟨forall₂_congr fun first member => ?_, forall₂_congr fun first _ => ?_⟩
  · have taken : takenFor .ip first.2 ↔ first.2.le ≤ 32 := decide_eq_true_iff
    have short : AllConfigured functions commands .ip name table → first.2.le ≤ 32 := by
      intro all
      obtain ⟨args, inside, family, _, _, normal⟩ := all first (mem_of_mem_head? member)
      exact le_of_normalise functions (admitted _ inside) family normal
    rw [taken]
    constructor
    · intro own
      by_cases small : first.2.le ≤ 32
      · exact .inl (own.mp small)
      · exact .inr (not_le.mp small)
    · rintro (all | large)
      · exact iff_of_true (short all) all
      · refine iff_of_false (not_le.mpr large) ?_
        intro all
        exact absurd (short all) (not_le.mpr large)
  · rw [takenFor_ip6_iff]
    exact Iff.comm

def ipTen : EntryArgs where
  afi := .ip
  name := "PL"
  seq := "10"
  typestr := "permit"
  pfx := "10.0.0.0/8"

theorem ipTen_entries : entriesOf "PL".toList (setRun .plain .sample [.entry ipTen]).rows =
      [(10, ⟨"permit".toList, "10.0.0.0/8".toList, 0, 0⟩)] := by
  decide

/-- Two entries and a description of the list, and an entry of an `ipv6`
list. -/
def twoFamilies : List SetCommand :=
  [.entry ipTen, .entry ⟨.ip6, "QL", "10", "permit", "2001:db8::/32", none, none⟩,
    .description "PL" "edge", .entry { ipTen with seq := "20", typestr := "deny" }]

theorem ipTen_deleted : DeletesOwn .sample twoFamilies .ip "PL"
      (setRun .plain .sample twoFamilies) := by
  have admitted : ∀ command ∈ twoFamilies, command.Admitted := by
    simp [twoFamilies, SetCommand.Admitted, ipTen]
  have entries : entriesOf "PL".toList (setRun .plain .sample twoFamilies).rows =
      [(10, ⟨"permit".toList, "10.0.0.0/8".toList, 0, 0⟩),
        (20, ⟨"deny".toList, "10.0.0.0/8".toList, 0, 0⟩)] := by
    decide
  refine (deletesOwn_iff_first .plain .sample admitted "PL").1.mpr fun first _ => .inl ?_
  intro pair member
  rw [entries] at member
  rcases mem_cons.mp member with rfl | later
  · exact ⟨ipTen, mem_cons_self, rfl, rfl, by decide, by decide⟩
  · cases mem_singleton.mp later
    exact ⟨{ ipTen with seq := "20", typestr := "deny" }, by simp [twoFamilies], rfl, rfl,
      by decide, by decide⟩

/-- A list that was configured by `ip` commands only is deleted by
`no ipv6 prefix-list`. -/
theorem ip_list_deleted_by_ipv6 : Deletes .ip6 "PL" (setRun .plain .sample [.entry ipTen]) ∧
      ¬ DeletesOwn .sample [.entry ipTen] .ip6 "PL"
        (setRun .plain .sample [.entry ipTen]) := by
  have deleted : Deletes .ip6 "PL" (setRun .plain .sample [.entry ipTen]) := by
    unfold Deletes
    decide
  refine ⟨deleted, ?_⟩
  intro own
  have all := (own.mp deleted).2 _ (ipTen_entries.symm ▸ mem_cons_self)
  obtain ⟨args, member, family, _⟩ := all
  cases mem_singleton.mp member
  cases family

end OpsCli.Bgp.ListDeletion
