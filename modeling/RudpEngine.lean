import RudpEngine.BunchNumbers
import RudpEngine.SendSync
import RudpEngine.ReceiveHistory
import RudpEngine.Stepped
import RudpEngine.AckSeq
import RudpEngine.PayloadTrip
import RudpEngine.AckedContent
import RudpEngine.MagicHeader
import RudpEngine.WakeUp
import RudpEngine.OnePerAddress
import RudpEngine.WorkerIndex
import RudpEngine.HandshakeAgreement
import RudpEngine.ReleasedOnce
import RudpEngine.InOrder
import RudpEngine.AckEnumeration
import RudpEngine.HistoryLookups
import RudpEngine.FlushWrap
import RudpEngine.AllOrNothing
import RudpEngine.Retransmission
import RudpEngine.OverflowExit
import RudpEngine.ProtocolTable
import RudpEngine.DatagramFraming
import RudpEngine.PayloadBounds
import RudpEngine.HandshakeTrip
import RudpEngine.PendingTable
import RudpEngine.TimeWheel
import RudpEngine.SimulatedDuplicate
import RudpEngine.RttTracker
import RudpEngine.NetSpeed
import RudpEngine.ArchiveOverflow
import RudpEngine.HistoryTrip
import RudpEngine.RelativeSequence
import RudpEngine.BitsAccess
import RudpEngine.ForkJoin
import RudpEngine.PrivateCopies
import RudpEngine.JobOutlives
import RudpEngine.ServerNumbers
import RudpEngine.QueueConsumers
import RudpEngine.PlayerIds
import RudpEngine.TelemetrySink
import RudpEngine.Lines
import RudpEngine.ControlLines
import RudpEngine.RttStats
