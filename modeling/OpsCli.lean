import OpsCli.Command.Format.ReadingOrder
import OpsCli.Command.RangeListAgreement
import OpsCli.Command.FullSpelling
import OpsCli.Vtysh.Refusal
import OpsCli.Command.Decision
import OpsCli.Command.ServerOrder
import OpsCli.Command.Positions
import OpsCli.Command.KeywordOrder
import OpsCli.Command.Record
import OpsCli.Command.Help
import OpsCli.Command.Completion
import OpsCli.Vty.ConfigLock
import OpsCli.Vty.History
import OpsCli.Vty.Reading
import OpsCli.Vty.OutputBuffer
import OpsCli.Vtysh.Delivery
import OpsCli.Vtysh.AliasExpansion
import OpsCli.Command.Completeness
import OpsCli.Command.Viability
import OpsCli.Command.RangeContext
import OpsCli.Command.Strict
import OpsCli.Command.OptionHistory
import OpsCli.Command.Table
import OpsCli.Routing.Checksum
import OpsCli.Routing.PrefixLists
import OpsCli.Routing.Recursion
import OpsCli.Threads.Cancel
import OpsCli.Vtysh.ConfigFile
import OpsCli.Bgp.PrefixListUndo
import OpsCli.Bgp.SequenceNumbers
import OpsCli.Bgp.ListDeletion
import OpsCli.Bgp.Network
import OpsCli.Bgp.Membership
import OpsCli.Ospf.Intervals
import OpsCli.Ospf.NetworkRange
import OpsCli.Bgp.FilterLists
import OpsCli.Interfaces.Lag
import OpsCli.Interfaces.ShowVrf
import OpsCli.Interfaces.SubInterface
import OpsCli.Ospf.RouteOrder
import OpsCli.Ospf.RouterReplay
