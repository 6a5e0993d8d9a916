import TkinedRemix.Snmp.TrapOid
import TkinedRemix.Snmp.RequestWindows
import TkinedRemix.Snmp.RequestCallbacks
import TkinedRemix.Snmp.RequestSchedule
import TkinedRemix.Snmp.SyncRequest
import TkinedRemix.Snmp.Retransmission
import TkinedRemix.Snmp.SetRollback
import TkinedRemix.Ined.MessageOrder
import TkinedRemix.Icmp.Identifiers
import TkinedRemix.Icmp.ServiceWindow
import TkinedRemix.Icmp.Probes
import TkinedRemix.Icmp.Client
import TkinedRemix.Job.SchedulerPass
import TkinedRemix.Map.Attachments
import TkinedRemix.Map.Dump
import TkinedRemix.Ined.CommandLine
import TkinedRemix.Smx.QuotedString
import TkinedRemix.Discover.Links
import TkinedRemix.Dns.Response
import TkinedRemix.Mib.DefinedOid
import TkinedRemix.Snmp.BerNesting
import TkinedRemix.Snmp.BerOid
import TkinedRemix.Mib.OidParsing
import TkinedRemix.Snmp.BerBounds
import TkinedRemix.Job.ElapsedTime
import TkinedRemix.Mib.IndexPacking
import TkinedRemix.Netdb.IpRange
import TkinedRemix.Snmp.UserSecurity
import TkinedRemix.Snmp.Walk
import TkinedRemix.Tcl.Escapes
import TkinedRemix.Netdb.IpAddress
import TkinedRemix.Mib.UnsignedValue
import TkinedRemix.Tki.Scripts
import TkinedRemix.Tki.Traces
import TkinedRemix.Icmp.Checksum
import TkinedRemix.Map.ClientVector
import TkinedRemix.Layout.Quicksort
import TkinedRemix.Tki.Stripchart
import TkinedRemix.Icmp.PacketReads
import TkinedRemix.Ined.LocalAnswers
