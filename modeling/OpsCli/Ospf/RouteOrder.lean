import OpsCli.CLib.Conversion
import OpsCli.CLib.Qsort

/-!
# The order of the routes

`sort_ospf_route` sorts the routes by their destinations.  The comparison
function reads a number from the start of each text, and that is the first of
the four octets only.
-/

namespace OpsCli.Ospf.RouteOrder

open CLib CString Conversion Qsort List

/-- `compare_nodes_by_ip_in_numerical`, on the names of the nodes. -/
def compareNodesByIpInNumerical (a b : CStr) : Int :=
  if scanned a = scanned b then 0
  else if scanned a < scanned b then -1
  else 1

/-- An IPv4 destination: the address, and the text of a length or nothing. -/
structure Destination where
  address : Fin (2 ^ 32)
  suffix : CStr
deriving DecidableEq, Repr

def Destination.text (route : Destination) : CStr :=
  dotted route.address ++ route.suffix

/-- `sort_ospf_route`; the null pointer for an empty set is `none`. -/
def sortOspfRoute (qsort : Sorter Destination) (list : List Destination) :
    Option (List Destination) :=
  if list = [] then none
  else some (qsort.sort (fun a b => compareNodesByIpInNumerical a.text b.text) list)

theorem scanned_text (route : Destination) :
    scanned route.text = (route.address.val / 2 ^ 24 : Nat) := by
  have value := digitsValue_decimal (route.address.val / 2 ^ 24 % 256)
  unfold scanned Destination.text dotted
  rw [append_assoc, atoi_append (isNumeral_decimal _) (by omega) rfl, value]
  omega

theorem compareNodes_le_iff (a b : Destination) : compareNodesByIpInNumerical a.text b.text ≤ 0 ↔
      a.address.val / 2 ^ 24 ≤ b.address.val / 2 ^ 24 := by
  unfold compareNodesByIpInNumerical
  rw [scanned_text, scanned_text]
  split
  · omega
  · split
    · omega
    · omega

/-- **Every sorting function sorts the routes exactly if different addresses
have different first octets.** -/
theorem routes_ordered_iff {list : List Destination} (nonempty : list ≠ []) :
    (∀ qsort, ∃ nodes ∈ sortOspfRoute qsort list, Ordered Destination.address list nodes) ↔
      ∀ a ∈ list, ∀ b ∈ list,
        a.address.val / 2 ^ 24 = b.address.val / 2 ^ 24 → a.address = b.address := by
  simp only [sortOspfRoute, if_neg nonempty, Option.mem_some_iff, exists_eq_left']
  rw [forall_ordered_iff fun a _ b _ same => ?_]
  · have sign (a b : Destination) : 0 < compareNodesByIpInNumerical b.text a.text ↔
        a.address.val / 2 ^ 24 < b.address.val / 2 ^ 24 := by
      rw [← not_le, compareNodes_le_iff, not_le]
    simp only [compareNodes_le_iff, sign]
    constructor
    · intro right a first b second same
      have below := right a first b second
      have above := right b second a first
      omega
    · intro apart a first b second less
      have same := apart a first b second
      omega
  · rw [compareNodes_le_iff, same]

/-- 20.0.0.0/8, 10.0.0.0/8 and 10.0.0.0/16. -/
theorem three_routes_ordered : ∃ nodes ∈ sortOspfRoute .insertion
      [⟨335544320, "/8"⟩, ⟨167772160, "/8"⟩, ⟨167772160, "/16"⟩],
      Ordered Destination.address
        [⟨335544320, "/8"⟩, ⟨167772160, "/8"⟩, ⟨167772160, "/16"⟩] nodes :=
  (routes_ordered_iff (by decide)).mpr (by decide) .insertion

/-- 10.2.0.0/16 stays before 10.1.0.0/16. -/
theorem same_octet_unordered : ∃ nodes ∈ sortOspfRoute .insertion
      [⟨167903232, "/16"⟩, ⟨167837696, "/16"⟩],
      ¬ Ordered Destination.address [⟨167903232, "/16"⟩, ⟨167837696, "/16"⟩] nodes :=
  ⟨[⟨167903232, "/16"⟩, ⟨167837696, "/16"⟩], by decide,
    fun ordered => absurd ordered.ascending (by decide)⟩

end OpsCli.Ospf.RouteOrder
