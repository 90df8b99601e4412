import CalvinConstrained.Runtime.ActorConnect
import CalvinConstrained.Runtime.SerializeTwice
import CalvinConstrained.Runtime.TokenTransfer
import CalvinConstrained.Runtime.TunnelAgreement
import CalvinConstrained.Runtime.TokenReply
import CalvinConstrained.Runtime.LocalTransfer
import CalvinConstrained.Runtime.Framing
import CalvinConstrained.Runtime.Reconnect
import CalvinConstrained.Runtime.SleepReply
import CalvinConstrained.Runtime.SingleValue
import CalvinConstrained.Runtime.PortRoundTrip
import CalvinConstrained.Runtime.PortRestore
import CalvinConstrained.Runtime.PendingImpl
import CalvinConstrained.Runtime.Ownership
import CalvinConstrained.Runtime.DeleteDecision
import CalvinConstrained.Runtime.LocalIdle
import CalvinConstrained.Runtime.TimerLoop
import CalvinConstrained.Runtime.TimerRestore
import CalvinConstrained.Runtime.Scalars
import CalvinConstrained.Runtime.MapLookup
import CalvinConstrained.Runtime.TypedLookup
import CalvinConstrained.Runtime.Dispatch
import CalvinConstrained.Runtime.ShortReads
import CalvinConstrained.Runtime.MpyRoundTrip
import CalvinConstrained.Runtime.Migration
import CalvinConstrained.Runtime.Request
import CalvinConstrained.Runtime.FifoShift
import CalvinConstrained.Runtime.NameLookup
import CalvinConstrained.Runtime.EncodedSize
import CalvinConstrained.Runtime.BufferFit
import CalvinConstrained.Runtime.Traced
import CalvinConstrained.Runtime.Attempts
import CalvinConstrained.Runtime.Connections
import CalvinConstrained.Runtime.QueueRestore
import CalvinConstrained.Runtime.CountTimer
import CalvinConstrained.Runtime.CountTimerRun
import CalvinConstrained.Runtime.AttemptBound
import CalvinConstrained.Runtime.ConnectAttempt
import CalvinConstrained.Runtime.ReconnectBound
import CalvinConstrained.Runtime.UuidOrder
import CalvinConstrained.Runtime.ListLookup
import CalvinConstrained.Runtime.LwipStream
import CalvinConstrained.Runtime.JsonLookup
import CalvinConstrained.Runtime.ActorInit
import CalvinConstrained.Runtime.SensorFire
import CalvinConstrained.Runtime.PyCondition
import CalvinConstrained.Runtime.SchedulerPass
import CalvinConstrained.Runtime.IdentityPass
import CalvinConstrained.Framework.AnswerLine
import CalvinConstrained.Runtime.TokenSession
import CalvinConstrained.Runtime.PortHandshake
import CalvinConstrained.Runtime.TokenWire
import CalvinConstrained.Runtime.PortLists
import CalvinConstrained.Runtime.PeerMessage
import CalvinConstrained.Runtime.ActorFire
