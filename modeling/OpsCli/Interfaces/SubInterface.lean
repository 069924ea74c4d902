import OpsCli.Bgp.PrefixList
import OpsCli.CLib.RowTable

/-!
# Sub-interfaces

A sub-interface has a row in the table of interfaces, which refers to its
parent, and a port in the default VRF.
-/

namespace OpsCli.Interfaces.SubInterface

open CLib CString RowTable Bgp.PrefixList List

/-- The columns of a row of `Interface`.  The column `subintf_parent` maps the
encapsulation VLAN to the parent. -/
structure InterfaceRow where
  name : CStr
  vlansubint : Bool
  subintfParent : List (Int × Ref)
deriving DecidableEq, Repr

/-- The columns of a row of `Port`. -/
structure PortRow where
  name : CStr
  interfaces : List Ref
deriving DecidableEq, Repr

structure Database where
  interfaces : List (Ref × InterfaceRow)
  ports : List (Ref × PortRow)
  vrfs : List (CStr × List Ref)
deriving DecidableEq, Repr

def reply (message : String) : Reply :=
  ⟨.success, message.toList ++ ['\n']⟩

/-! ## Deletion -/

/-- The loop over the ports of a VRF.  It leaves the list, which is a set,
without the ports that are named, and the port that it came to last. -/
def scanPorts (named : Ref → Bool) : List Ref → Option Ref → List Ref × Option Ref
  | [], last => ([], last)
  | port :: rest, _ =>
    if named port then
      -- the next port moves up to the position that the loop leaves
      match rest with
      | [] => ([], some port)
      | next :: rest =>
        let scanned := scanPorts named rest (some port)
        (next :: scanned.1, scanned.2)
    else
      let scanned := scanPorts named rest (some port)
      (port :: scanned.1, scanned.2)

def scanVrfs (named : Ref → Bool) :
    List (CStr × List Ref) → Option Ref → List (CStr × List Ref) × Option Ref
  | [], last => ([], last)
  | (vrf, ports) :: rest, last =>
    let scanned := scanPorts named ports last
    let others := scanVrfs named rest scanned.2
    ((vrf, scanned.1) :: others.1, others.2)

/-- `delete_sub_intf`; to delete the row of a null pointer has no result. -/
def deleteSubIntf (subIntfName : CStr) (db : Database) : Option (Reply × Database) :=
  match db.interfaces.find? (·.2.name = subIntfName) with
  | none => some (reply "Interface does not exist.", db)
  | some (ref, row) =>
    if ¬ row.vlansubint then some (reply "Interface does not exist.", db)
    else
      let interfaces := deleteRow ref db.interfaces
      if db.ports.any (·.2.name = subIntfName) then
        let named port := (rowOf port db.ports).any (·.name = subIntfName)
        let scanned := scanVrfs named db.vrfs none
        scanned.2.map fun port => (.committed, ⟨interfaces, deleteRow port db.ports, scanned.1⟩)
      else some (.committed, { db with interfaces })

section

variable {port : Ref} {ports : List Ref}

theorem scanPorts_absent (absent : port ∉ ports) (last : Option Ref) :
    scanPorts (· = port) ports last = (ports, ports.getLast?.or last) := by
  fun_induction scanPorts (fun other => decide (other = port)) ports last <;> grind

theorem scanPorts_fst (distinct : ports.Nodup) (last : Option Ref) :
    (scanPorts (· = port) ports last).1 = ports.filter (· ≠ port) := by
  fun_induction scanPorts (fun other => decide (other = port)) ports last <;> grind

/-- At most one port is behind this one. -/
def NearEnd (port : Ref) : List Ref → Prop
  | [] => False
  | other :: rest => other = port ∧ rest.length ≤ 1 ∨ NearEnd port rest

/-- The last VRF that has ports has this one near the end. -/
def NearEndOfLast (port : Ref) : List (CStr × List Ref) → Prop
  | [] => False
  | vrf :: rest => NearEnd port vrf.2 ∧ (∀ vrf ∈ rest, vrf.2 = []) ∨ NearEndOfLast port rest

theorem mem_of_nearEnd (near : NearEnd port ports) : port ∈ ports := by
  fun_induction NearEnd port ports <;> grind

theorem scanPorts_snd (distinct : ports.Nodup) (last : Option Ref) :
    (scanPorts (· = port) ports last).2 = some port ↔
      ports = [] ∧ last = some port ∨ NearEnd port ports := by
  fun_induction scanPorts (fun other => decide (other = port)) ports last with
  | case1 => simp [NearEnd]
  | case2 => grind [NearEnd]
  | case3 other _ named next rest scanned _ =>
    have absent : port ∉ next :: rest := by grind
    have far : ¬ NearEnd port (next :: rest) := fun near => absent (mem_of_nearEnd near)
    have visited := scanPorts_absent (not_mem_of_not_mem_cons absent) (some other)
    cases rest <;> grind [NearEnd]
  | case4 other rest _ named scanned ih => grind [NearEnd]

theorem scanVrfs_eq {vrfs : List (CStr × List Ref)} (distinct : ∀ vrf ∈ vrfs, vrf.2.Nodup)
    (last : Option Ref) :
    (scanVrfs (· = port) vrfs last).1 = vrfs.map (fun vrf => (vrf.1, vrf.2.filter (· ≠ port))) ∧
      ((scanVrfs (· = port) vrfs last).2 = some port ↔
        (∀ vrf ∈ vrfs, vrf.2 = []) ∧ last = some port ∨ NearEndOfLast port vrfs) := by
  induction vrfs generalizing last with
  | nil => simp [scanVrfs, NearEndOfLast]
  | cons vrf rest ih =>
    obtain ⟨here, later⟩ := forall_mem_cons.mp distinct
    have left := @scanPorts_fst port _ here last
    have ends := @scanPorts_snd port _ here last
    have others := ih later (scanPorts (· = port) vrf.2 last).2
    grind [scanVrfs, NearEndOfLast]

/-- The sub-interface has an interface and a port, which is the only one of its
name and is in some VRF. -/
structure Present (name : CStr) (db : Database) (interface port : Ref) : Prop where
  row : ∃ row, db.interfaces.find? (·.2.name = name) = some (interface, row) ∧ row.vlansubint
  named : ∀ ref, (∃ row, rowOf ref db.ports = some row ∧ row.name = name) ↔ ref = port
  member : ∃ vrf ∈ db.vrfs, port ∈ vrf.2
  distinct : ∀ vrf ∈ db.vrfs, vrf.2.Nodup

/-- The command deletes the two rows and takes the port out of the VRFs. -/
def DeletesExactly (name : CStr) (db : Database) (interface port : Ref) : Prop :=
  deleteSubIntf name db = some (Reply.committed, ⟨deleteRow interface db.interfaces,
    deleteRow port db.ports, db.vrfs.map fun vrf => (vrf.1, vrf.2.filter (· ≠ port))⟩)

/-- **A sub-interface is deleted exactly if its port is near the end of the last VRF that has
ports.** -/
theorem deletes_exactly_iff {name : CStr} {db : Database} {interface port : Ref}
    (present : Present name db interface port) :
    DeletesExactly name db interface port ↔ NearEndOfLast port db.vrfs := by
  obtain ⟨⟨row, found, vlansubint⟩, named, ⟨vrf, member, listed⟩, distinct⟩ := present
  obtain ⟨portRow, isPort, sameName⟩ := (named port).mpr rfl
  have exists_ : db.ports.any (·.2.name = name) :=
    any_eq_true.mpr ⟨_, mem_of_rowOf isPort, by simpa using sameName⟩
  have only : (fun port => (rowOf port db.ports).any (·.name = name)) =
      fun other => decide (other = port) := by
    funext other
    rw [Bool.eq_iff_iff, decide_eq_true_iff, ← named other]
    simp [Option.any_eq_true]
  obtain ⟨vrfs, last⟩ := @scanVrfs_eq port _ distinct none
  unfold DeletesExactly deleteSubIntf
  rw [found]
  simp only [vlansubint, exists_, only, vrfs]
  have atEnd : NearEndOfLast port db.vrfs ↔ (scanVrfs (· = port) db.vrfs none).2 = some port := by
    rw [last]
    simp
  rw [atEnd]
  cases (scanVrfs (· = port) db.vrfs none).2 with
  | none => simp
  | some other =>
    constructor
    · intro same
      by_contra wrong
      have gone := rowOf_deleteRow port port db.ports
      have kept := rowOf_deleteRow other port db.ports
      grind
    · grind

end

/-- The interfaces `1` and `2`, and the sub-interface `1.1`. -/
def threeInterfaces (vrf : List Ref) : Database where
  interfaces := [(1, ⟨"1", false, []⟩), (2, ⟨"1.1", true, [(0, 1)]⟩), (3, ⟨"2", false, []⟩)]
  ports := [(1, ⟨"1", [1]⟩), (2, ⟨"1.1", [2]⟩), (3, ⟨"2", [3]⟩)]
  vrfs := [("vrf_default", vrf)]

theorem deleted_near_end : DeletesExactly "1.1" (threeInterfaces [1, 2, 3]) 2 2 := by
  refine (deletes_exactly_iff ⟨⟨_, rfl, rfl⟩, fun ref => ?_, ?_, ?_⟩).mpr (.inl ⟨?_, nofun⟩)
  · have none : rowOf ref ([] : List (Ref × PortRow)) = none := rfl
    simp only [threeInterfaces, rowOf_cons, none]
    split_ifs <;> grind
  · decide
  · decide
  · exact .inr (.inl ⟨rfl, by decide⟩)

/-- The port of interface `2` is deleted. -/
theorem wrong_port_deleted : ¬ DeletesExactly "1.1" (threeInterfaces [2, 1, 3]) 2 2 := by
  unfold DeletesExactly
  decide

end OpsCli.Interfaces.SubInterface
