import MessageLoop.Topics.TrieReclaim
import MessageLoop.Topics.TrieUpdates
import MessageLoop.Redis.LiveDelivery
import MessageLoop.Runtime.BatcherOrder
import MessageLoop.Session.ConnectSole
import MessageLoop.Session.Refused
import MessageLoop.Session.CloseClean
import MessageLoop.Cluster.ChainKept
import MessageLoop.Cluster.ResumeNoop
import MessageLoop.Cluster.Ownership
import MessageLoop.Session.Superseded
import MessageLoop.Session.NamespaceConfined
import MessageLoop.Redis.CatchUp
import MessageLoop.ServerAPI.Confinement
import MessageLoop.SDK.Cursor
import MessageLoop.SDK.Epoch
import MessageLoop.SDK.Ephemeral
import MessageLoop.Transport.Framing
import MessageLoop.ServerAPI.AuthSound
import MessageLoop.Runtime.Occupancy
import MessageLoop.Redis.Presence
import MessageLoop.Cluster.CommandBus
import MessageLoop.Runtime.Projection
import MessageLoop.Session.PresenceAgrees
import MessageLoop.Redis.LiveRouting
import MessageLoop.Runtime.RecoverRequest
import MessageLoop.Authz.ReplaceRules
import MessageLoop.Redis.Baseline
import MessageLoop.SDK.PingLoop
import MessageLoop.Authz.KeyLanguage
import MessageLoop.Session.Splice
import MessageLoop.Redis.Codec
import MessageLoop.Redis.Keys
import MessageLoop.Runtime.Accumulator
import MessageLoop.Runtime.SurveyResult
import MessageLoop.Session.SendQueue
