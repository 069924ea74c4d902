import Mathlib.Data.List.Chain
import OpsCli.CLib.CString

/-!
# The running configuration of OSPF routers

The callback prints the routers of all VRFs one after the other.  The position
in the networks of a router is not reset: it is what the loops over the columns
of the router before have left, at last the number of its redistributed
protocols.
-/

namespace OpsCli.Ospf.RouterReplay

open CLib.CString List

/-- The columns of a row of `OSPF_Router` that the position depends on. -/
structure RouterRow where
  networks : List (CStr × Nat)
  redistribute : List CStr
deriving DecidableEq, Repr

inductive Line where
  | routerOspf
  | network (range area : CStr)
  | other (text : CStr)
deriving DecidableEq, Repr

/-- `OSPF_IP_STRING_CONVERT`, which has room for 14 characters. -/
def ospfIpStringConvert (ip : Nat) : CStr :=
  (dotted ip).take 14

section

/- The lines in front of the networks of a router and those behind them, which
are read from its other columns. -/
variable (front behind : RouterRow → List CStr)

def sectionOf (row : RouterRow) (networks : List Line) : List Line :=
  .routerOspf :: ((front row).map .other ++ networks ++ (behind row).map .other)

/-- The loop over the networks, from a position on. -/
def printNetworks (i : Nat) (row : RouterRow) : List Line :=
  (row.networks.drop i).map fun entry => .network entry.1 (ospfIpStringConvert entry.2)

/-- The position behind the loop over the protocols, which begins at zero
whatever the loop over the timers before it has left. -/
def positionBehind (row : RouterRow) : Nat :=
  row.redistribute.length

/-- `vtysh_router_context_ospf_clientcallback` on the routers of all VRFs, one
section for each. -/
def printRouters : Nat → List RouterRow → List (List Line)
  | _, [] => []
  | i, row :: rest =>
    sectionOf front behind row (printNetworks i row) :: printRouters (positionBehind row) rest

def meantSection (row : RouterRow) : List Line :=
  sectionOf front behind row (row.networks.map fun entry => .network entry.1 (dotted entry.2))

/-- The areas of a router have room. -/
def Short (row : RouterRow) : Prop :=
  ∀ entry ∈ row.networks, (dotted entry.2).length ≤ 14

variable {front behind} {i : Nat} {row : RouterRow}

theorem section_eq_iff :
    sectionOf front behind row (printNetworks i row) = meantSection front behind row ↔
      (i = 0 ∨ row.networks = []) ∧ Short row := by
  unfold meantSection sectionOf printNetworks Short ospfIpStringConvert
  rw [cons.injEq, and_iff_right rfl, append_left_inj, append_right_inj]
  by_cases start : i = 0
  · subst start
    have fits (text : CStr) : text.take 14 = text ↔ text.length ≤ 14 := by
      refine ⟨fun same => ?_, take_of_length_le⟩
      rw [← same]
      exact length_take_le 14 text
    rw [drop_zero, map_inj_left]
    simp [fits]
  · constructor
    · intro same
      have lengths := congrArg length same
      rw [length_map, length_map, length_drop] at lengths
      have none : row.networks = [] := length_eq_zero_iff.mp (by omega)
      exact ⟨.inr none, by simp [none]⟩
    · rintro ⟨position, _⟩
      rw [position.resolve_left start, drop_nil]
      rfl

theorem printRouters_eq_iff (i : Nat) (rows : List RouterRow) :
    printRouters front behind i rows = rows.map (meantSection front behind) ↔
      (∀ row ∈ rows.head?, i = 0 ∨ row.networks = []) ∧
        rows.IsChain (fun row next => row.redistribute = [] ∨ next.networks = []) ∧
        ∀ row ∈ rows, Short row := by
  induction rows generalizing i with
  | nil => simp [printRouters]
  | cons row rest ih =>
    have carried : positionBehind row = 0 ↔ row.redistribute = [] := length_eq_zero_iff
    rw [printRouters, map_cons, cons.injEq, section_eq_iff, ih, carried, isChain_cons,
      forall_mem_cons, head?_cons]
    simp only [Option.mem_some_iff, forall_eq']
    tauto

/-- **Every network is printed with its area exactly if no router with networks comes right behind
one that redistributes, and no area has more than 14 characters.** -/
theorem networks_replayed_iff (vrfs : List (List RouterRow)) :
    printRouters front behind 0 vrfs.flatten = vrfs.flatten.map (meantSection front behind) ↔
      vrfs.flatten.IsChain (fun row next => row.redistribute = [] ∨ next.networks = []) ∧
        ∀ row ∈ vrfs.flatten, Short row := by
  rw [printRouters_eq_iff]
  simp

end

def twoRouters : List RouterRow :=
  [⟨[], ["static"]⟩, ⟨[("10.0.0.0/8", 0)], []⟩]

/-- The network of the second router is not printed. -/
theorem network_lost : printRouters (fun _ => []) (fun _ => []) 0 twoRouters =
      [[.routerOspf], [.routerOspf]] ∧
    meantSection (fun _ => []) (fun _ => []) ⟨[("10.0.0.0/8", 0)], []⟩ =
      [.routerOspf, .network "10.0.0.0/8" "0.0.0.0"] := by
  decide

end OpsCli.Ospf.RouterReplay
