import OpsCli.Bgp.PrefixText
import OpsCli.CLib.NamedMaps
import OpsCli.Command.Selection

/-!
# Prefix lists

The handlers of `bgp_vty.c` that set and remove prefix lists and their
entries.  A list is a row of the table `Prefix_List`; its entries are a map
column from sequence numbers to rows, which are taken here together with their
contents.  Transactions are taken to start and to be committed, and a column
can be read as soon as it has been written.
-/

namespace OpsCli.Bgp.PrefixList

open CLib CString Columns Conversion NamedMaps Command.Selection
  PrefixText

/-! ## The tables -/

/-- The columns of a row of `Prefix_List_Entry`. -/
structure PrefixEntry where
  action : CStr
  pfx : CStr
  ge : Int
  le : Int
deriving DecidableEq, Repr

/-- A row of `Prefix_List`: its name, its entries and its description. -/
abbrev PrefixListRow := NamedMap CStr Int PrefixEntry CStr

/-- `policy_row->description`. -/
def PrefixListRow.description (row : PrefixListRow) : CStr :=
  row.info

/-- The table `Prefix_List`. -/
abbrev PrefixTable := MapTable CStr Int PrefixEntry CStr

structure Reply where
  status : CmdStatus
  output : CStr
deriving DecidableEq, Repr

def Reply.committed : Reply :=
  ⟨.success, []⟩

/-- `ERRONEOUS_DB_TXN`. -/
def Reply.erroneous (message : CStr) : Reply :=
  ⟨.warning, message ++ "\n"⟩

/-- `policy_get_prefix_list_in_ovsdb`. -/
def policyGetPrefixListInOvsdb (name : CStr) (rows : List PrefixListRow) : Option PrefixListRow :=
  firstNamed name rows

/-! ## Entries -/

/-- The conversion of a number to the type of a parameter `int`. -/
def toInt (value : Int) : Int :=
  value.bmod (2 ^ 32)

/-- An entry that is to be stored under a number.  It is looked for under the
number that `policy_get_prefix_list_entry_in_ovsdb` gets as an `int`. -/
def entryUpdate (seqnum : Int) (entry : PrefixEntry) : Update Int PrefixEntry where
  key := seqnum
  probe := toInt seqnum
  value := entry

/-- The comparison of an entry with what is looked for. -/
def sameEntry (entry wanted : PrefixEntry) : Bool :=
  entry.action = wanted.action && entry.pfx = wanted.pfx &&
    entry.ge = wanted.ge && entry.le = wanted.le

/-- `policy_get_prefix_list_entry_in_ovsdb`. -/
def policyGetPrefixListEntryInOvsdb (seqnum : Int) (name : CStr) (entry : PrefixEntry)
    (rows : List PrefixListRow) : Bool :=
  isFound sameEntry name (entryUpdate seqnum entry) rows

theorem sameEntry_iff {entry wanted : PrefixEntry} :
    sameEntry entry wanted ↔ entry = wanted := by
  cases entry
  cases wanted
  simp [sameEntry, and_assoc]

variable (column : MapColumn Int PrefixEntry)

/-- `bgp_prefix_list_entry_insert_to_prefix_list`. -/
def bgpPrefixListEntryInsertToPrefixList (row : PrefixListRow) (entry : PrefixEntry) (seq : Int)
    (table : PrefixTable) : PrefixTable :=
  table.append column row seq entry

/-- `bgp_prefix_list_entry_remove_from_prefix_list`. -/
def bgpPrefixListEntryRemoveFromPrefixList (row : PrefixListRow) (seq : Int)
    (table : PrefixTable) : Option PrefixTable :=
  table.remove column row seq

/-! ## The arguments of an entry -/

/-- The arguments of the commands that set or remove an entry; `ge` and `le`
may be null. -/
structure EntryArgs where
  afi : Afi
  name : CStr
  seq : CStr
  typestr : CStr
  pfx : CStr
  ge : Option CStr := none
  le : Option CStr := none
deriving DecidableEq, Repr

/-- `strncmp ("any", prefix, strlen (prefix)) == 0`. -/
def isAny (pfx : CStr) : Bool :=
  pfx.isPrefixOf "any"

def maxBitlen : Afi → Nat
  | .ip => ipv4MaxBitlen
  | .ip6 => ipv6MaxBitlen

inductive Refusal where
  | type
  | malformed (afi : Afi)
  | range (pfx : CStr)
deriving DecidableEq, Repr

variable (functions : AddressFunctions)

/-- The prefix that is meant, and the numbers `genum` and `lenum` before the
checks. -/
def readPrefix (args : EntryArgs) : Option (Prefix × Int × Int) :=
  let genum := (args.ge.map atoi).getD 0
  let lenum := (args.le.map atoi).getD 0
  let parse := match args.afi with
    | .ip => str2prefixIpv4 functions
    | .ip6 => str2prefixIpv6 functions
  if isAny args.pfx then
    (parse (match args.afi with
      | .ip => "0.0.0.0/0"
      | .ip6 => "::/0")).map (·, 0, (maxBitlen args.afi : Int))
  else (parse args.pfx).map (·, genum, lenum)

/-- The checks that `policy_set_prefix_list_in_ovsdb` and
`cli_no_ip_prefix_list_seq_cmd_execute` have in common, and the entry that is
meant. -/
def normalise (args : EntryArgs) : Except Refusal PrefixEntry :=
  if args.typestr.head? ≠ some 'p' && args.typestr.head? ≠ some 'd' then
    .error .type
  else
    match readPrefix functions args with
    | none => .error (.malformed args.afi)
    | some (p, genum, lenum) =>
      if genum ≠ 0 ∧ genum ≤ p.prefixlen ∨ lenum ≠ 0 ∧ lenum ≤ p.prefixlen ∨
          lenum ≠ 0 ∧ lenum < genum then
        .error (.range args.pfx)
      else
        .ok ⟨args.typestr, args.pfx, genum,
          if genum ≠ 0 ∧ lenum = maxBitlen args.afi then 0 else lenum⟩

/-- `vty_invalid_prefix_range`. -/
def invalidPrefixRange (pfx : CStr) : CStr :=
  "% Invalid prefix range for " ++ pfx ++ ", make sure: len < ge-value <= le-value\n"

/-- What `policy_set_prefix_list_in_ovsdb` answers to an entry that it
refuses. -/
def setRefusal : Refusal → Reply
  | .type => ⟨.success, "% prefix type must be permit or deny\n"⟩
  | .malformed .ip => ⟨.warning, "% Malformed IPv4 prefix\n"⟩
  | .malformed .ip6 => ⟨.warning, "% Malformed IPv6 prefix\n"⟩
  | .range pfx => ⟨.success, invalidPrefixRange pfx⟩

/-- What `cli_no_ip_prefix_list_seq_cmd_execute` answers.  An invalid range is
the only case in which its transaction is neither committed nor aborted. -/
def noRefusal : Refusal → Reply
  | .type => .erroneous "prefix type must be permit or deny"
  | .malformed .ip => .erroneous "Malformed IPv4 prefix"
  | .malformed .ip6 => .erroneous "Malformed IPv6 prefix"
  | .range pfx => ⟨.success, invalidPrefixRange pfx⟩

/-! ## The handlers -/

/-- The transaction of `policy_set_prefix_list_in_ovsdb`.  A new row gets the
empty description. -/
def storeEntry (name : CStr) (seqnum : Int) (entry : PrefixEntry)
    (table : PrefixTable) : PrefixTable :=
  let table := { table with rows := ensureNamed [] name table.rows }
  if policyGetPrefixListEntryInOvsdb seqnum name entry table.rows then table
  else
    match policyGetPrefixListInOvsdb name table.rows with
    | none => table
    | some row =>
      bgpPrefixListEntryInsertToPrefixList column row entry seqnum table

theorem storeEntry_eq (name : CStr) (seqnum : Int) (entry : PrefixEntry) (table : PrefixTable) :
    storeEntry column name seqnum entry table =
      table.store column sameEntry [] name (entryUpdate seqnum entry) := by
  unfold storeEntry MapTable.store policyGetPrefixListEntryInOvsdb
    policyGetPrefixListInOvsdb bgpPrefixListEntryInsertToPrefixList
  dsimp only
  cases firstNamed name (ensureNamed [] name table.rows) with
  | none => rfl
  | some row => rfl

/-- `policy_set_prefix_list_in_ovsdb`. -/
def policySetPrefixListInOvsdb (args : EntryArgs) (table : PrefixTable) : Reply × PrefixTable :=
  match normalise functions args with
  | .error refusal => (setRefusal refusal, table)
  | .ok entry =>
    (.committed, storeEntry column args.name (strtoll args.seq) entry table)

/-- `policy_set_prefix_list_description_in_ovsdb`. -/
def policySetPrefixListDescriptionInOvsdb (name description : CStr)
    (table : PrefixTable) : Reply × PrefixTable :=
  (.committed,
    { table with
      rows := changeFirst name (NamedMap.withInfo description)
        (ensureNamed [] name table.rows) })

/-- `cli_no_ip_prefix_list_seq_cmd_execute`. -/
def cliNoIpPrefixListSeqCmdExecute (args : EntryArgs) (table : PrefixTable) :
    Option (Reply × PrefixTable) :=
  match normalise functions args with
  | .error refusal => some (noRefusal refusal, table)
  | .ok entry =>
    match policyGetPrefixListInOvsdb args.name table.rows with
    | none => some (.erroneous "Prefix List not found", table)
    | some row =>
      if policyGetPrefixListEntryInOvsdb (strtoll args.seq) args.name entry table.rows then
        (bgpPrefixListEntryRemoveFromPrefixList column row
          (strtoll args.seq) table).map (.committed, ·)
      else
        some (.erroneous "Prefix List entry not found", table)

/-- What the loop of `cli_no_ip_prefix_list_cmd_execute` makes of an entry:
whether the list is taken for one of the family. -/
def takenFor (afi : Afi) (entry : PrefixEntry) : Bool :=
  match afi with
  | .ip => entry.le ≤ 32
  | .ip6 => !(entry.le ≤ 32 && entry.le ≠ 0 && entry.ge ≠ 0)

/-- `cli_no_ip_prefix_list_cmd_execute`.  The loop over the entries is left in
its first round. -/
def cliNoIpPrefixListCmdExecute (name : CStr) (afi : Afi)
    (table : PrefixTable) : Reply × PrefixTable :=
  match policyGetPrefixListInOvsdb name table.rows with
  | none => (.erroneous "Prefix List not found", table)
  | some row =>
    match row.entries with
    | [] =>
      if row.description = [] then (.committed, table)
      else (.committed, { table with rows := eraseFirst name table.rows })
    | (_, first) :: _ =>
      if takenFor afi first then
        (.committed, { table with rows := eraseFirst name table.rows })
      else (.erroneous "Prefix List not found", table)

end OpsCli.Bgp.PrefixList
