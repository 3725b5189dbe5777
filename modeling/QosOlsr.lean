import QosOlsr.Autobuf
import QosOlsr.Bmf.PacketHistory
import QosOlsr.DuplicateWindow
import QosOlsr.Egress.Mirror
import QosOlsr.Forwarding
import QosOlsr.Gateways.Expiry
import QosOlsr.Gateways.Failover
import QosOlsr.Gateways.Sorting
import QosOlsr.HeadOutcome
import QosOlsr.Hello.Build
import QosOlsr.Hello.Culling
import QosOlsr.Hello.HeadCosts
import QosOlsr.IpCalc
import QosOlsr.Mantissa
import QosOlsr.MidTables
import QosOlsr.Mpr.Coverage
import QosOlsr.Names.Bounds
import QosOlsr.Names.Nameservers
import QosOlsr.Neighborhood.LinkStatus
import QosOlsr.Neighborhood.LinkTimers
import QosOlsr.PacketExchange
import QosOlsr.Pud.DeDup
import QosOlsr.Pud.Movement
import QosOlsr.Pud.NodeId
import QosOlsr.Pud.PositionAverage
import QosOlsr.Pud.ValidityTime
import QosOlsr.Rib.Election
import QosOlsr.Routes.AliasRoutes
import QosOlsr.Routes.HnaMasks
import QosOlsr.Secure.Replay
import QosOlsr.Spf.LocalEdges
import QosOlsr.Spf.NextHops
import QosOlsr.Spf.Overflows
import QosOlsr.Tc.Alignment
import QosOlsr.Tc.BorderIndexes
import QosOlsr.Tc.Replay
import QosOlsr.TimerWheel
import QosOlsr.Zebra.Client
