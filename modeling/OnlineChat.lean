import OnlineChat.Library.Threads
import OnlineChat.Library.Trace
import OnlineChat.Library.SortedMap
import OnlineChat.Library.Table
import OnlineChat.Bytes
import OnlineChat.MiniJson
import OnlineChat.Frame
import OnlineChat.Protocol
import OnlineChat.PwdHash
import OnlineChat.SeqDeduper
import OnlineChat.RoomRouter
import OnlineChat.TokenBook
import OnlineChat.RateLimiter
import OnlineChat.Buckets
import OnlineChat.WordFilter
import OnlineChat.Database
import OnlineChat.GroupCommit
import OnlineChat.Writers
import OnlineChat.Replies
import OnlineChat.Connection
import OnlineChat.Framing
import OnlineChat.Server.State
import OnlineChat.Server.Auth
import OnlineChat.Server.Rooms
import OnlineChat.Server.Messages
import OnlineChat.Server.Program
import OnlineChat.Server.Flow
import OnlineChat.Server.Events
import OnlineChat.Server.Sessions
import OnlineChat.Server.Logins
import OnlineChat.Server.Membership
import OnlineChat.Server.Accounts
import OnlineChat.Server.Challenges
import OnlineChat.Server.Push
import OnlineChat.Server.Delivery
import OnlineChat.Server.Acks
import OnlineChat.Codec
import OnlineChat.Library.Paging
import OnlineChat.Library.Recording
import OnlineChat.Server.History
import OnlineChat.Server.Takeover
import OnlineChat.Server.Identity
import OnlineChat.Server.Handover
import OnlineChat.Library.Utf8
import OnlineChat.MiniJson.Grammar
import OnlineChat.MiniJson.RoundTrip
import OnlineChat.Server.Capacity
import OnlineChat.Server.Refusals
import OnlineChat.Batches
import OnlineChat.Generations
import OnlineChat.MiniJson.Utf8
import OnlineChat.Masking
import OnlineChat.Server.Texts
import OnlineChat.Server.Outgoing
import OnlineChat.Server.Handlers
import OnlineChat.Server.Passages
import OnlineChat.Server.Isolation
import OnlineChat.Server.RoomIds
import OnlineChat.Server.Copies
import OnlineChat.Server.Answers
import OnlineChat.Server.Pepper
import OnlineChat.Client.Values
import OnlineChat.Client.Session
import OnlineChat.Client.Steps
import OnlineChat.Client.Pending
import OnlineChat.Client.Login
import OnlineChat.Library.Calls
import OnlineChat.Library.Matching
import OnlineChat.DedupWindow
import OnlineChat.RoomMirror
import OnlineChat.Expiry
import OnlineChat.BucketWindows
import OnlineChat.Scan
import OnlineChat.Characters
import OnlineChat.Server.Cleaning
import OnlineChat.MiniJson.Numbers
import OnlineChat.Client.Paging
import OnlineChat.Client.Queues
import OnlineChat.KeyTable
import OnlineChat.Library.Scanning
import OnlineChat.MiniJson.Cursor
import OnlineChat.Library.Blocks
import OnlineChat.Library.Fips180
import OnlineChat.Sha256
import OnlineChat.Library.Memory
import OnlineChat.Library.KeyedHash
import OnlineChat.KeyDerivation
import OnlineChat.MiniJson.Fields
import OnlineChat.Client.Json
import OnlineChat.Client.Wire
import OnlineChat.Server.Frames
import OnlineChat.Client.Reception
import OnlineChat.Server.Provenance
import OnlineChat.Library.Progress
import OnlineChat.Server.Rounds
import OnlineChat.Client.Rounds
import OnlineChat.Server.Descriptors
import OnlineChat.Server.Fates
import OnlineChat.Server.Metering
import OnlineChat.Library.Alone
import OnlineChat.Client.Registration
import OnlineChat.Server.Admission
import OnlineChat.Handshake
import OnlineChat.Server.Traffic
import OnlineChat.Client.Resending
import OnlineChat.EndToEnd
import OnlineChat.Server.Downstream
import OnlineChat.Wired
