import OpsCli.Bgp.PrefixList

/-!
# Prefix lists of the library

`vty_prefix_list_install` stores an entry with normalised bounds, and
`vty_prefix_list_uninstall` looks for it with the bounds of the command.
-/

namespace OpsCli.Routing.PrefixLists

open CLib.CString Bgp PrefixText PrefixList Function List

deriving instance DecidableEq for Prefix

/-- `struct prefix_list_entry`. -/
structure Entry where
  pfx : Prefix
  permit : Bool
  seq : Int
  le : Int
  ge : Int
  any : Bool
  deriving DecidableEq

/-- `struct prefix_list`. -/
structure Plist where
  desc : Option CStr := none
  entries : List Entry := []

abbrev Database := Afi × CStr → Option Plist

inductive Failure where
  | refused (refusal : Refusal)
  | exists (dup : Entry)
  | notFound

/-- `prefix_new_seq_get`. -/
def prefixNewSeqGet (entries : List Entry) : Int :=
  toInt ((entries.map Entry.seq).foldl max 0 / 5 * 5 + 5)

/-- The number that an entry gets in a list. -/
def Entry.number (entry : Entry) (entries : List Entry) : Int :=
  if entry.seq = -1 then prefixNewSeqGet entries else entry.seq

/-- The same policy, whatever the number. -/
def Entry.same (entry other : Entry) : Bool :=
  other.pfx = entry.pfx ∧ other.permit = entry.permit ∧ other.le = entry.le ∧ other.ge = entry.ge

/-- `prefix_entry_dup_check`. -/
def prefixEntryDupCheck (entries : List Entry) (new : Entry) : Option Entry :=
  entries.find? fun entry => new.same entry ∧ entry.seq ≠ new.number entries

/-- `prefix_list_entry_add`. -/
def prefixListEntryAdd (entries : List Entry) (new : Entry) : List Entry :=
  let seq := new.number entries
  let others := entries.eraseP (·.seq = seq)
  others.takeWhile (·.seq < seq) ++ { new with seq := seq } :: others.dropWhile (·.seq < seq)

/-- The comparison in `prefix_list_entry_lookup`. -/
def Entry.wants (wanted entry : Entry) : Bool :=
  wanted.same entry ∧ (0 ≤ wanted.seq → entry.seq = wanted.seq)

/-- `prefix_list_entry_delete`; a list without entries and description is
deleted. -/
def prefixListEntryDelete (plist : Plist) (wanted : Entry) : Option Plist :=
  let entries := plist.entries.eraseP wanted.wants
  if entries = [] ∧ plist.desc = none then none else some { plist with entries := entries }

variable (functions : AddressFunctions) (args : EntryArgs)

def key : Afi × CStr :=
  (args.afi, args.name)

/-- What both functions read from their arguments, of which `ge` and `le` may
be missing. -/
def readEntry : Except Refusal Entry :=
  if args.typestr.head? ≠ some 'p' && args.typestr.head? ≠ some 'd' then .error .type
  else
    match readPrefix functions args with
    | none => .error (.malformed args.afi)
    | some (pfx, genum, lenum) =>
      .ok ⟨pfx, args.typestr.head? = some 'p', atoi args.seq, lenum, genum, isAny args.pfx⟩

/-- The entry that is stored. -/
def Entry.normalised (entry : Entry) : Entry :=
  { entry with le := if entry.ge ≠ 0 ∧ entry.le = maxBitlen args.afi then 0 else entry.le }

/-- `vty_prefix_list_install`. -/
def vtyPrefixListInstall (db : Database) : Except Failure Database :=
  match readEntry functions args with
  | .error refusal => .error (.refused refusal)
  | .ok entry =>
    let len := entry.pfx.prefixlen
    if entry.ge ≠ 0 ∧ entry.ge ≤ len ∨ entry.le ≠ 0 ∧ entry.le ≤ len ∨
        entry.le ≠ 0 ∧ entry.le < entry.ge then .error (.refused (.range args.pfx))
    else
      let plist := (db (key args)).getD {}
      match prefixEntryDupCheck plist.entries (entry.normalised args) with
      | some dup => .error (.exists dup)
      | none => .ok (update db (key args) (some { plist with
          entries := prefixListEntryAdd plist.entries (entry.normalised args) }))

/-- `vty_prefix_list_uninstall`. -/
def vtyPrefixListUninstall (db : Database) : Except Failure Database :=
  match db (key args) with
  | none => .error .notFound
  | some plist =>
    match readEntry functions args with
    | .error refusal => .error (.refused refusal)
    | .ok entry =>
      if plist.entries.any entry.wants then
        .ok (update db (key args) (prefixListEntryDelete plist entry))
      else .error .notFound

def entries (db : Database) : List Entry :=
  ((db (key args)).getD {}).entries

variable {functions args} {db after : Database} {entry new : Entry} {list : List Entry}

theorem entries_of_installed (read : readEntry functions args = .ok entry)
    (done : vtyPrefixListInstall functions args db = .ok after) :
    prefixEntryDupCheck (entries args db) (entry.normalised args) = none ∧
      after = update db (key args) (some { (db (key args)).getD {} with
        entries := prefixListEntryAdd (entries args db) (entry.normalised args) }) := by
  unfold vtyPrefixListInstall at done
  rw [read] at done
  dsimp only at done
  split at done
  · cases done
  split at done
  · cases done
  · rename_i noDup
    cases done
    exact ⟨noDup, rfl⟩

theorem prefixListEntryAdd_of_unused (unused : ∀ other ∈ list, other.seq ≠ new.number list) :
    ∃ before later, list = before ++ later ∧ prefixListEntryAdd list new =
      before ++ { new with seq := new.number list } :: later := by
  unfold prefixListEntryAdd
  dsimp only
  rw [eraseP_of_forall_not fun other member => by simpa using unused other member]
  exact ⟨_, _, takeWhile_append_dropWhile.symm, rfl⟩

theorem not_wants (noDup : prefixEntryDupCheck list entry = none)
    (unused : ∀ other ∈ list, other.seq ≠ entry.number list) :
    ∀ other ∈ list, ¬ entry.wants other := by
  intro other member wanted
  obtain ⟨same, _⟩ := of_decide_eq_true wanted
  exact find?_eq_none.mp noDup other member (decide_eq_true ⟨same, unused other member⟩)

theorem entries_delete (db : Database) (plist : Plist) (wanted : Entry) :
    entries args (update db (key args) (prefixListEntryDelete plist wanted)) =
      plist.entries.eraseP wanted.wants := by
  unfold entries prefixListEntryDelete
  rw [update_self]
  dsimp only
  split
  · rename_i gone
    exact gone.1.symm
  · rfl

/-- An entry is removed as it was stored exactly if it was not stored without
its upper bound. -/
theorem uninstall_undoes_iff (read : readEntry functions args = .ok entry)
    (done : vtyPrefixListInstall functions args db = .ok after)
    (unused : ∀ other ∈ entries args db, other.seq ≠ entry.number (entries args db)) :
    (∃ restored, vtyPrefixListUninstall functions args after = .ok restored ∧
      entries args restored = entries args db ∧
      (db (key args) = none → restored (key args) = none)) ↔
    ¬ (entry.ge ≠ 0 ∧ entry.le = maxBitlen args.afi) := by
  obtain ⟨noDup, rfl⟩ := entries_of_installed read done
  obtain ⟨before, later, old, added⟩ :=
    @prefixListEntryAdd_of_unused (entry.normalised args) _ unused
  rw [added, vtyPrefixListUninstall, update_self, read]
  dsimp only
  constructor
  · rintro ⟨restored, undone, same, _⟩ loose
    split at undone
    · cases undone
      rw [entries_delete] at same
      have notWanted : ¬ entry.wants { entry.normalised args with
          seq := (entry.normalised args).number (entries args db) } := by
        intro wanted
        obtain ⟨_, _, bound, _⟩ := of_decide_eq_true (of_decide_eq_true wanted).1
        have none : (entry.normalised args).le = 0 := if_pos loose
        cases family : args.afi <;> simp_all [maxBitlen, ipv4MaxBitlen, ipv6MaxBitlen]
      have kept := (mem_eraseP_of_neg notWanted).mpr
        (mem_append_right before (mem_cons_self (l := later)))
      rw [same] at kept
      exact unused _ kept rfl
    · cases undone
  · intro tight
    have own : entry.normalised args = entry := by
      rw [Entry.normalised, if_neg tight]
    rw [own] at noDup ⊢
    have others := not_wants noDup unused
    have wanted : entry.wants { entry with seq := entry.number (entries args db) } :=
      decide_eq_true ⟨decide_eq_true ⟨rfl, rfl, rfl, rfl⟩, fun given => if_neg (by omega)⟩
    rw [if_pos (any_eq_true.mpr ⟨_, mem_append_right before mem_cons_self, wanted⟩)]
    have erased : (before ++ { entry with seq := entry.number (entries args db) } :: later).eraseP
        entry.wants = entries args db := by
      rw [eraseP_append_right _ fun other member => others other
        (old ▸ mem_append_left later member), eraseP_cons_of_pos wanted, old]
    refine ⟨_, rfl, (entries_delete _ _ _).trans erased, fun absent => ?_⟩
    rw [update_self, prefixListEntryDelete]
    dsimp only
    rw [erased, if_pos]
    rw [entries, absent]
    exact ⟨rfl, rfl⟩

/-- `ip prefix-list PL seq 5 permit 10.0.0.0/8 ge 16`, with an upper bound or
not. -/
def tenEntry (le : Option CStr) : EntryArgs :=
  ⟨.ip, "PL", "5", "permit", "10.0.0.0/8", some "16".toList, le⟩

/-- Every list has an entry before and an entry behind the new one. -/
def twoEntries : Database :=
  fun _ => some { entries :=
    [⟨.ipv4 0x0a000000 8, false, 3, 0, 0, false⟩, ⟨.ipv4 0x0a000000 8, true, 7, 0, 0, false⟩] }

theorem lower_bound_undone : ∃ after restored,
    vtyPrefixListInstall .sample (tenEntry none) twoEntries = .ok after ∧
    vtyPrefixListUninstall .sample (tenEntry none) after = .ok restored ∧
    entries (tenEntry none) restored = entries (tenEntry none) twoEntries := by
  obtain ⟨restored, undone, same, _⟩ :=
    (@uninstall_undoes_iff .sample (tenEntry none) twoEntries _ _ rfl rfl (by decide)).mpr
      (by decide)
  exact ⟨_, restored, rfl, undone, same⟩

/-- With `le 32` the entry is stored without an upper bound and not found
again. -/
theorem upper_bound_not_undone : ∃ after,
    vtyPrefixListInstall .sample (tenEntry (some "32".toList)) (fun _ => none) = .ok after ∧
    vtyPrefixListUninstall .sample (tenEntry (some "32".toList)) after = .error .notFound :=
  ⟨_, rfl, rfl⟩

end OpsCli.Routing.PrefixLists
