import SmartNet.Lib.Run
import SmartNet.Lib.Ring
import SmartNet.Network.Rmp.Recvep
import SmartNet.Lib.Assoc
import SmartNet.Network.Rmp.SendRetry
import SmartNet.Network.Rmp.KeepAlive
import SmartNet.Network.Rup.SendQueue
import SmartNet.Network.Rup.SendOrder
import SmartNet.Lib.Framing
import SmartNet.Pkg.Dispatcher
import SmartNet.Pkg.Lengths
import SmartNet.Pkg.Archive
import SmartNet.Network.Rup.RecvData
import SmartNet.Pkg.RoundTrip
import SmartNet.Utils.StateMachine
import SmartNet.Framework.Notifier
import SmartNet.Endpoint.RupEndpoint
import SmartNet.Endpoint.RupRegistrations
import SmartNet.Endpoint.RupCallbacks
import SmartNet.Endpoint.RmpEndpoint
import SmartNet.Endpoint.RmpRegistrations
import SmartNet.Endpoint.RmpSessions
import SmartNet.Endpoint.CloseCalls
import SmartNet.Endpoint.ConnectorSessions
import SmartNet.Endpoint.ConnectorRegistrations
import SmartNet.Endpoint.AcceptorEvents
import SmartNet.Endpoint.AcceptorReopen
import SmartNet.Endpoint.Handoff
import SmartNet.Endpoint.IdleEndpoints
import SmartNet.Endpoint.SocketOwners
import SmartNet.Network.Rmp.RecverTable
import SmartNet.Network.Rmp.StrayFeedback
import SmartNet.Network.Rmp.WindowOrder
import SmartNet.Network.Rmp.AppAcks
import SmartNet.Network.Rmp.Datagrams
import SmartNet.Framework.Answered
import SmartNet.Framework.Engine
import SmartNet.Framework.EngineInvariant
import SmartNet.Framework.EngineStop
import SmartNet.Framework.EngineRequests
import SmartNet.Network.Rup.Send
import SmartNet.Network.Rup.SendAlone
import SmartNet.Network.Rup.Flush
import SmartNet.Network.Rup.SendBytes
import SmartNet.Network.Rmp.OdataTrip
import SmartNet.Network.Rmp.NakRanges
import SmartNet.Network.Rmp.HbRate
import SmartNet.Network.Rmp.FullBuffer
import SmartNet.Framework.TimerObj
import SmartNet.Network.Rmp.Clocks
import SmartNet.Network.Rmp.Rate
import SmartNet.Endpoint.KeepAliveCycles
import SmartNet.Pkg.RecvRoom
import SmartNet.Utils.Transitions
import SmartNet.Lib.HeadQueue
import SmartNet.Memory.MemQueue
import SmartNet.Memory.SmartRB
import SmartNet.Network.Rmp.ReorderScan
import SmartNet.Framework.Rounds
import SmartNet.Framework.Spread
import SmartNet.Lib.Refs
import SmartNet.Utils.SmartPtr
import SmartNet.Utils.Cascade
import SmartNet.Utils.Counts
import SmartNet.Lib.Reach
import SmartNet.Network.Rup.SendPayloads
import SmartNet.Network.Rup.SendLive
import SmartNet.Endpoint.RupStream
import SmartNet.Endpoint.RupTester
import SmartNet.Endpoint.RupDelivery
import SmartNet.Network.Rmp.Answers
import SmartNet.Network.Rmp.Agreement
import SmartNet.Network.Rmp.Recovery
import SmartNet.Lib.Simulate
import SmartNet.Framework.Interest
import SmartNet.Endpoint.EpollPointers
import SmartNet.Lib.Indexed
import SmartNet.Framework.Threads
import SmartNet.Framework.ThreadSteps
import SmartNet.Endpoint.AllEndpoints
