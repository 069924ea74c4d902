import OpsCli.Command.Authorization

/-!
# The order of the servers

`sort_servers` sorts TACACS+ or RADIUS servers by one of their priorities.  The
comparison functions return the difference of two 64-bit priorities as an
`int`, which may have the other sign.
-/

namespace OpsCli.Command.ServerOrder

open CLib Qsort Authorization

structure Server where
  defaultGroupPriority : Int
  userGroupPriority : Int
deriving DecidableEq, Repr

/-- What all comparison functions return. -/
def difference (key : Server → Int) (a b : Server) : Int :=
  toInt (key a - key b)

/-- `compare_nodes_by_tacacs_server_default_priority`. -/
def compareNodesByTacacsServerDefaultPriority := difference Server.defaultGroupPriority

/-- `compare_nodes_by_tacacs_server_group_priority`. -/
def compareNodesByTacacsServerGroupPriority := difference Server.userGroupPriority

/-- `compare_nodes_by_radius_server_default_priority`. -/
def compareNodesByRadiusServerDefaultPriority := difference Server.defaultGroupPriority

/-- `compare_nodes_by_radius_server_group_priority`. -/
def compareNodesByRadiusServerGroupPriority := difference Server.userGroupPriority

/-- `sort_servers`; the memory for the nodes is taken to be there. -/
def sortServers (qsort : Sorter Server) (list : List Server)
    (byDefaultPriority isTacacsServerFlag : Bool) : Option (List Server) :=
  if list = [] then none
  else if byDefaultPriority then
    if isTacacsServerFlag then
      some (qsort.sort compareNodesByTacacsServerDefaultPriority list)
    else some (qsort.sort compareNodesByRadiusServerDefaultPriority list)
  else if isTacacsServerFlag then
    some (qsort.sort compareNodesByTacacsServerGroupPriority list)
  else some (qsort.sort compareNodesByRadiusServerGroupPriority list)

/-- The priority that the first flag selects. -/
def priority (byDefaultPriority : Bool) (server : Server) : Int :=
  if byDefaultPriority then server.defaultGroupPriority else server.userGroupPriority

theorem difference_pos_iff (key : Server → Int) (a b : Server) :
    0 < difference key a b ↔ 0 < (key a - key b) % 2 ^ 32 ∧ (key a - key b) % 2 ^ 32 < 2 ^ 31 := by
  rw [difference, toInt, Int.bmod_def]
  split <;> omega

/-- **Every sorting function sorts the servers exactly if the difference of two
priorities, reduced to 32 bits, is that of an `int` above zero.** -/
theorem servers_ordered_iff {list : List Server} (nonempty : list ≠ [])
    (byDefaultPriority isTacacsServerFlag : Bool) :
    (∀ qsort, ∃ nodes ∈ sortServers qsort list byDefaultPriority isTacacsServerFlag,
        Ordered (priority byDefaultPriority) list nodes) ↔
      ∀ a ∈ list, ∀ b ∈ list, priority byDefaultPriority a < priority byDefaultPriority b →
        0 < (priority byDefaultPriority b - priority byDefaultPriority a) % 2 ^ 32 ∧
          (priority byDefaultPriority b - priority byDefaultPriority a) % 2 ^ 32 < 2 ^ 31 := by
  have sorted (qsort : Sorter Server) :
      sortServers qsort list byDefaultPriority isTacacsServerFlag =
        some (qsort.sort (difference (priority byDefaultPriority)) list) := by
    cases byDefaultPriority <;> cases isTacacsServerFlag <;> exact if_neg nonempty
  simp only [sorted, Option.mem_some_iff, exists_eq_left']
  rw [forall_ordered_iff fun a _ b _ same => ?_]
  · refine forall₂_congr fun a _ => forall₂_congr fun b _ => imp_congr_right fun less => ?_
    rw [← difference_pos_iff]
    -- The other way round the difference has the other sign.
    refine and_iff_right_of_imp fun above => ?_
    rw [difference_pos_iff] at above
    rw [difference, toInt, Int.bmod_def]
    split <;> omega
  · rw [difference, same, sub_self]
    decide

/-- Priorities that are far from each other may be compared rightly. -/
theorem far_servers_ordered :
    ∃ nodes ∈ sortServers .insertion [⟨4294967301, 1⟩, ⟨0, 2⟩, ⟨3, 3⟩] true true,
      Ordered (priority true) [⟨4294967301, 1⟩, ⟨0, 2⟩, ⟨3, 3⟩] nodes :=
  (servers_ordered_iff (by decide) true true).mpr (by decide) .insertion

/-- The priority 3000000000 comes before 0. -/
theorem far_priorities_unordered : ∃ nodes ∈ sortServers .insertion
      [⟨0, 0⟩, ⟨3000000000, 0⟩] true true,
      ¬ Ordered (priority true) [⟨0, 0⟩, ⟨3000000000, 0⟩] nodes :=
  ⟨[⟨3000000000, 0⟩, ⟨0, 0⟩], by decide, fun ordered => absurd ordered.ascending (by decide)⟩

end OpsCli.Command.ServerOrder
