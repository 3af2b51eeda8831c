import Coroserver.SerializerProperties
import Coroserver.TimedStreamer
import Coroserver.Telnet.DecoderStreams
import Coroserver.Telnet.NegotiatorHistory
import Coroserver.Telnet.LinkProperties
import Coroserver.Telnet.RelaySplit
import Coroserver.ConnectionPool.NoLostWakeup
import Coroserver.ConnectionPool.Timeouts
import Coroserver.Event.TaskQueueProgress
import Coroserver.Event.TimeToLive
import Coroserver.Http.PathParameters
import Coroserver.Http.RouteIndexing
import Coroserver.Http.WebClientProperties
import Coroserver.Http.FrameProducerProperties
import Coroserver.Redfish.ClientProperties
import Coroserver.Redfish.ProxyProperties
import Coroserver.Async.WhenAnyProperties
import Coroserver.Async.WorkerPool
import Coroserver.Dbus.WatcherProperties
import Coroserver.Dbus.PropertyWatcher
import Coroserver.Dbus.WatchTimers
import Coroserver.Dbus.SyncProperties
import Coroserver.EventBroker.FileSyncProperties
import Coroserver.EventBroker.FileTransfer
import Coroserver.EventBroker.SyncRoot
import Coroserver.Firmware.DownloaderProperties
import Coroserver.Firmware.Versions
import Coroserver.GraphQL.StringLiterals
import Coroserver.GraphQL.ParserRecursion
import Coroserver.GraphQL.FragmentDepth
import Coroserver.GraphQL.PathTemplates
import Coroserver.GraphQL.ResponseFields
import Coroserver.GraphQL.SubscriptionLiveness
import Coroserver.GraphQL.Interval
import Coroserver.GraphQL.WatcherIndex
import Coroserver.Dbus.GraphqlBridgeProperties
import Coroserver.Dbus.JsonPath
import Coroserver.Dbus.XmlToJson
import Coroserver.Console.Screen5250Bounds
import Coroserver.Console.IbmiDisplay
import Coroserver.Console.EmulatorRouter
import Coroserver.Console.Broadcast
import Coroserver.Console.EscapeSequence
import Coroserver.Spdm.Provisioning
import Coroserver.Spdm.ComponentIntegrity
import Coroserver.Spdm.TrustStoreProperties
import Coroserver.GraphQL.SessionKey
import Coroserver.GraphQL.TriggerTiming
import Coroserver.Spdm.SocketFunctions
import Coroserver.Spdm.AsyncSocket
import Coroserver.Spdm.Base64
import Coroserver.Spdm.CertificateExchange
import Coroserver.Spdm.GetCertificate
