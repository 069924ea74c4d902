import OpsCli.Bgp.PrefixList
import OpsCli.CLib.RowTable

/-!
# The OSPF tables

The rows of the database that the handlers of `ospf_vty.c` work on.  They refer
to each other: a router to its areas, an area to its interfaces and virtual
links, an interface to its neighbors and its port.
-/

namespace OpsCli.Ospf.Database

open CLib CString RowTable Bgp.PrefixList

inductive IntervalKey where
  | hello
  | dead
  | retransmit
  | transmitDelay
deriving DecidableEq, Repr

/-- The columns of a row of `OSPF_Interface`. -/
structure InterfaceRow where
  name : CStr
  neighbors : List Ref
  port : Option Ref
deriving DecidableEq, Repr

/-- `OSPF_ERRONEOUS_DB_TXN`. -/
def erroneous (message : String) : Reply :=
  ⟨.warning, ' ' :: (message.toList ++ ['\n'])⟩

/-- `OSPF_ABORT_DB_TXN`. -/
def aborted (message : String) : Reply :=
  ⟨.success, ' ' :: (message.toList ++ ['\n'])⟩

end OpsCli.Ospf.Database
