import OpsCli.CLib.CString

/-!
# Interfaces in aggregates

An interface has a port of its own name, or it is a member of a port of another
name, an aggregate.  The search for such a port compares only as many characters
as the name of the interface has.
-/

namespace OpsCli.Interfaces.Lag

open CLib.CString List

structure Port where
  name : CStr
  interfaces : List CStr
deriving DecidableEq, Repr

/-- The comparisons of a round. -/
def Port.begins (ifName : CStr) (port : Port) : Bool :=
  ifName.isPrefixOf port.name

@[inherit_doc Port.begins]
def Port.offers (ifName : CStr) (port : Port) : Bool :=
  port.interfaces.any (ifName.isPrefixOf ·)

/-- `check_iface_in_lag`. -/
def checkIfaceInLag (ifName : CStr) : List Port → Bool
  | [] => false
  | port :: rest =>
    if port.begins ifName then false
    else if port.offers ifName then true
    else checkIfaceInLag ifName rest

def InOtherPort (ifName : CStr) (ports : List Port) : Prop :=
  ∃ port ∈ ports, port.name ≠ ifName ∧ ifName ∈ port.interfaces

variable {ifName : CStr} {ports : List Port}

theorem checkIfaceInLag_eq_any (none : ∀ port ∈ ports, port.begins ifName = false) :
    checkIfaceInLag ifName ports = ports.any (·.offers ifName) := by
  fun_induction checkIfaceInLag ifName ports <;> grind

theorem checkIfaceInLag_eq_false
    (hidden : ∀ port ∈ ports, port.begins ifName ∨ port.offers ifName = false) :
    checkIfaceInLag ifName ports = false := by
  fun_induction checkIfaceInLag ifName ports <;> grind

/-- **The answer is right in every order of the ports exactly if no port begins with the name of an
interface that is in another port, and only such a port offers one that is in none.** -/
theorem checkIfaceInLag_iff (ifName : CStr) (ports : List Port) :
    (∀ order, order.Perm ports → (checkIfaceInLag ifName order ↔ InOtherPort ifName order)) ↔
      (InOtherPort ifName ports → ∀ port ∈ ports, port.begins ifName = false) ∧
      (¬ InOtherPort ifName ports →
        ∀ port ∈ ports, port.begins ifName ∨ port.offers ifName = false) := by
  have same {order : List Port} (perm : order.Perm ports) :
      InOtherPort ifName order ↔ InOtherPort ifName ports := by
    simp [InOtherPort, perm.mem_iff]
  constructor
  · intro right
    -- the port that decides is put in front
    have front {port : Port} (member : port ∈ ports) :=
      (right _ (perm_cons_erase member).symm).trans (same (perm_cons_erase member).symm)
    constructor
    · intro other port member
      have found := (front member).mpr other
      grind [checkIfaceInLag]
    · intro none port member
      have missed := (front member).not.mpr none
      grind [checkIfaceInLag]
  · rintro ⟨inside, outside⟩ order perm
    rw [same perm]
    by_cases other : InOtherPort ifName ports
    · rw [checkIfaceInLag_eq_any fun port member => inside other port (perm.mem_iff.mp member)]
      refine iff_of_true ?_ other
      obtain ⟨port, member, _, listed⟩ := other
      have offers : port.offers ifName := any_eq_true.mpr ⟨ifName, listed, by simp⟩
      exact any_eq_true.mpr ⟨port, perm.mem_iff.mpr member, offers⟩
    · rw [checkIfaceInLag_eq_false fun port member => outside other port (perm.mem_iff.mp member)]
      exact iff_of_false nofun other

/-- Interface `1` is in the aggregate `lag1`; there is also a port `10`. -/
def lagPorts : List Port :=
  [⟨"10", ["10"]⟩, ⟨"lag1", ["1"]⟩]

/-- The port `10` hides the aggregate. -/
theorem lag_hidden :
    checkIfaceInLag "1" lagPorts = false ∧ InOtherPort "1" lagPorts :=
  ⟨by decide, _, mem_cons_of_mem _ mem_cons_self, by decide, by decide⟩

end OpsCli.Interfaces.Lag
