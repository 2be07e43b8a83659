import Rins.Lib.Memory
import Rins.Lib.Framing
import Rins.Lib.Run
import Rins.Lib.Ledger
import Rins.Lib.LastWrite
import Rins.Lib.NodeList
import Rins.Lib.Orbit
import Rins.Lib.Varint
import Rins.Lib.Wire
import Rins.Lib.TwoPhase
import Rins.Lib.LockOrder
import Rins.Lib.Decimal
import Rins.Base.Proto
import Rins.Base.Messages
import Rins.Reactor.IoBuf
import Rins.Reactor.BufPool
import Rins.Reactor.Message
import Rins.Reactor.ReactorBuf
import Rins.Reactor.ReadData
import Rins.Reactor.OutputFifo
import Rins.Reactor.PoolOwnership
import Rins.Reactor.TcpConn
import Rins.Reactor.ServerFraming
import Rins.Reactor.TcpClient
import Rins.Reactor.Delivery
import Rins.Reactor.ClientFraming
import Rins.Reactor.Reconnect
import Rins.Reactor.ThreadPool
import Rins.Reactor.EventLoop
import Rins.Reactor.ConfigFile
import Rins.Reactor.ConfigValues
import Rins.Reactor.Udp
import Rins.Reactor.UdpLoop
import Rins.Reactor.UdpClient
import Rins.Reactor.ConnTable
import Rins.Reactor.AcceptLoop
import Rins.Reactor.ConnInvariant
import Rins.Reactor.ConnExact
import Rins.Reactor.ConnLimit
import Rins.Reactor.LoopBooks
import Rins.Reactor.CtlFailures
import Rins.Reactor.ClientLoop
import Rins.Reactor.ClientEvents
import Rins.Reactor.SendLimits
import Rins.Reactor.HostileServer
import Rins.Reactor.ByteConn
import Rins.Reactor.WriteInterest
import Rins.Reactor.ConnOutput
import Rins.Reactor.ConnRounds
import Rins.Dns.Route
import Rins.Dns.Snapshot
import Rins.Dns.Poll
import Rins.Dns.Convergence
import Rins.Dns.Subscribe
import Rins.Dns.PublishMap
import Rins.Dns.Service
import Rins.Dns.Answers
import Rins.Dns.RouteExchange
import Rins.Dns.Ownership
import Rins.Dns.BookTable
import Rins.Dns.SubscribeLocks
import Rins.Dns.Pushes
import Rins.Dns.Freshness
import Rins.Agent.LoadBalance
import Rins.Agent.HostUpdate
import Rins.Agent.HostChoice
import Rins.Agent.RouteLb
import Rins.Agent.HostAnswers
import Rins.Agent.PullProtocol
import Rins.Agent.DnsClient
import Rins.Agent.DnsProtocol
import Rins.Agent.AgentServer
import Rins.Agent.AgentRuns
import Rins.Agent.RouteLocks
import Rins.Api.RinsClient
import Rins.Api.Replies
import Rins.Api.HostProtocol
import Rins.Api.HostExchange
import Rins.Report.StatusTable
import Rins.Report.StoreReport
import Rins.Report.ReportPath
