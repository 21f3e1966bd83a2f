import MutexIM.Codec.ProtobufDispatcher
import MutexIM.Codec.ByteDeque
import MutexIM.Codec.BufferBounds
import MutexIM.Session.ReadLoop
import MutexIM.Session.Resync
import MutexIM.Session.SendQueue
import MutexIM.Foundations.Runs
import MutexIM.Foundations.Keyspace
import MutexIM.Redis.CRedis
import MutexIM.MessageServer.ConnectionManager
import MutexIM.MessageServer.SessionMap
import MutexIM.MessageServer.Removal
import MutexIM.MessageServer.Presence
import MutexIM.LoginServer.Server
import MutexIM.LoginServer.Authentication
import MutexIM.LoginServer.Reply
import MutexIM.Foundations.Channels
import MutexIM.Routing.Tasks
import MutexIM.Routing.Peer
import MutexIM.Routing.Effects
import MutexIM.Routing.Conservation
import MutexIM.Foundations.HashTable
import MutexIM.Foundations.Pipeline
import MutexIM.Web.Sessions
import MutexIM.Foundations.Lease
import MutexIM.Web.Socket
import MutexIM.Routing.World
import MutexIM.Routing.Turns
import MutexIM.Routing.Online
import MutexIM.Foundations.Drain
import MutexIM.MessageServer.Unread
import MutexIM.Routing.Mailbox
import MutexIM.Routing.GroupMailbox
import MutexIM.Routing.Group
import MutexIM.Routing.GroupDelivery
import MutexIM.Routing.GroupPaths
import MutexIM.Foundations.Dialog
import MutexIM.LoginServer.Ranks
import MutexIM.LoginServer.Registry
import MutexIM.MessageServer.Lists
import MutexIM.MessageServer.Pipelining
import MutexIM.Routing.Counters
import MutexIM.Routing.Exchange
import MutexIM.Routing.Privacy
import MutexIM.Routing.RoundTrip
import MutexIM.Web.Presence
import MutexIM.Codec.Checks
import MutexIM.Session.Segments
import MutexIM.Session.SslSession
import MutexIM.LoginServer.Assignments
import MutexIM.LoginServer.Rollback
import MutexIM.Foundations.Vacancy
import MutexIM.Web.Registration
import MutexIM.Web.Ownership
import MutexIM.Web.GroupMessage
import MutexIM.Codec.Canonical
import MutexIM.Routing.GroupChannels
import MutexIM.LoginServer.Credentials
import MutexIM.Redis.HashText
import MutexIM.LoginServer.Endpoints
import MutexIM.MessageServer.HandshakeReply
import MutexIM.MessageServer.Shutdown
import MutexIM.Foundations.Capped
import MutexIM.MessageServer.GroupMembers
import MutexIM.Web.GroupCommands
import MutexIM.Routing.GroupIds
import MutexIM.Routing.Retention
import MutexIM.Codec.Dispatch
import MutexIM.Web.SetCookie
import MutexIM.Foundations.Loop
import MutexIM.Client.ChatWindows
import MutexIM.Client.Connection
import MutexIM.Web.Unread
import MutexIM.Web.Delivery
import MutexIM.Web.Renewal
import MutexIM.Foundations.Network
import MutexIM.Session.Wire
import MutexIM.Foundations.ProtoParser
import MutexIM.Foundations.ProtoMessage
import MutexIM.Codec.Generated
import MutexIM.Codec.EncodeBounds
import MutexIM.MessageServer.ListMessages
import MutexIM.Client.Dialogs
import MutexIM.Routing.Jobs
import MutexIM.EndToEnd.Backend
import MutexIM.EndToEnd.Addressed
import MutexIM.EndToEnd.Copies
import MutexIM.EndToEnd.System
import MutexIM.Web.ChatLog
import MutexIM.EndToEnd.Login
