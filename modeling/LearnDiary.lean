import LearnDiary.Lib.Elements
import LearnDiary.Lib.Find
import LearnDiary.Lib.Loop
import LearnDiary.Lib.SortedMap
import LearnDiary.Lib.Runs
import LearnDiary.Lib.History
import LearnDiary.Base.Bytes
import LearnDiary.Lib.Reads
import LearnDiary.Lib.Tape
import LearnDiary.Lib.Vec
import LearnDiary.Base.Sizes
import LearnDiary.Base.AutoBuffer
import LearnDiary.Base.RawBuffer
import LearnDiary.Base.Buffers
import LearnDiary.Base.BufferRuns
import LearnDiary.Packer.Adler
import LearnDiary.Packer.AdlerCombine
import LearnDiary.Packer.LongLink
import LearnDiary.Packer.Sanity
import LearnDiary.Packer.Corruption
import LearnDiary.Packer.Agree
import LearnDiary.Packer.Simple
import LearnDiary.Packer.PtrBuffer
import LearnDiary.Packer.Positional
import LearnDiary.Http.Strnstr
import LearnDiary.Http.Search
import LearnDiary.Http.Lines
import LearnDiary.Http.Fields
import LearnDiary.Http.Reason
import LearnDiary.Http.HeaderLines
import LearnDiary.Http.ContentRange
import LearnDiary.Http.Parser
import LearnDiary.Http.Machine
import LearnDiary.Http.Termination
import LearnDiary.Http.View
import LearnDiary.Http.Append
import LearnDiary.Http.Sound
import LearnDiary.Http.Split
import LearnDiary.Http.Bounds
import LearnDiary.Http.Chunked
import LearnDiary.Http.Message
import LearnDiary.Http.Overloads
import LearnDiary.Http.Scans
import LearnDiary.Http.Builder
import LearnDiary.Http.HeaderTrip
import LearnDiary.Http.Capture
import LearnDiary.MessageQueue.State
import LearnDiary.MessageQueue.Calls
import LearnDiary.MessageQueue.System
import LearnDiary.MessageQueue.Moves
import LearnDiary.MessageQueue.Steps
import LearnDiary.MessageQueue.Ledger
import LearnDiary.MessageQueue.Order
import LearnDiary.MessageQueue.Loops
import LearnDiary.MessageQueue.Ids
import LearnDiary.MessageQueue.Nesting
import LearnDiary.MessageQueue.Queries
import LearnDiary.MessageQueue.Singleton
import LearnDiary.MessageQueue.Faster
import LearnDiary.MessageQueue.Sleep
import LearnDiary.MessageQueue.AsyncResult
import LearnDiary.MessageQueue.Balance
import LearnDiary.MessageQueue.Scans
import LearnDiary.MessageQueue.Starvation
import LearnDiary.MessageQueue.Fate
import LearnDiary.MessageQueue.AsyncPosts
import LearnDiary.MessageQueue.Outlive
import LearnDiary.MessageQueue.Places
import LearnDiary.MessageQueue.Barrier
import LearnDiary.MessageQueue.Wait
import LearnDiary.Dns.Breaker
import LearnDiary.Dns.Registry
import LearnDiary.Dns.Resolver
import LearnDiary.Socket.SocketPoll
import LearnDiary.Socket.Recovery
import LearnDiary.Socket.CloseNotice
import LearnDiary.Socket.SocketSelect
import LearnDiary.Socket.TcpServerFsm
import LearnDiary.Socket.TcpFsmHandler
import LearnDiary.Socket.ProxyCheck
import LearnDiary.Socket.Exchange
import LearnDiary.Socket.Fragments
import LearnDiary.Socket.Impatient
import LearnDiary.Socket.TcpClient
import LearnDiary.Socket.Udp
import LearnDiary.Socket.Datagrams
import LearnDiary.Socket.BlockRecv
import LearnDiary.GcdSocket.PreBuffer
import LearnDiary.Lib.FirstHit
import LearnDiary.GcdSocket.ReadPacket
import LearnDiary.Gcd.DispatchQueuePool
import LearnDiary.GcdSocket.Terminator
import LearnDiary.Coroutine.Multiplexing
import LearnDiary.Coroutine.Rounds
import LearnDiary.Coroutine.DnsCancel
import LearnDiary.Coroutine.Discipline
import LearnDiary.Alarm.State
import LearnDiary.Alarm.Posts
import LearnDiary.Alarm.Firings
import LearnDiary.Comm.FrequencyLimit
import LearnDiary.Comm.StringCast
import LearnDiary.Comm.Itoa
import LearnDiary.Comm.NumberCast
import LearnDiary.Comm.Ini
import LearnDiary.Comm.IniRoundtrip
import LearnDiary.Comm.IniReopen
import LearnDiary.Comm.Tokens
import LearnDiary.Comm.Hex
import LearnDiary.Comm.Url
import LearnDiary.Xlogger.Format
import LearnDiary.Crypt.Base64
import LearnDiary.Crypt.Decode
import LearnDiary.Crypt.Pkcs7
import LearnDiary.Crypt.Digest
import LearnDiary.Crypt.Md5
import LearnDiary.Crypt.Md5Stream
import LearnDiary.Crypt.Md5Text
import LearnDiary.Socket.Credentials
import LearnDiary.Socket.Nat64
import LearnDiary.Socket.Inet6
import LearnDiary.Socket.AddressText
import LearnDiary.Socket.InetText
import LearnDiary.Socket.InetRoundtrip
import LearnDiary.Socket.InetSafety
import LearnDiary.Anr.Checker
import LearnDiary.CorePattern.Services
import LearnDiary.Thread.MutexVector
import LearnDiary.Thread.Reference
import LearnDiary.Thread.Handles
import LearnDiary.Thread.Delayed
import LearnDiary.Singleton.Registry
import LearnDiary.Singleton.Places
import LearnDiary.Singleton.Resets
import LearnDiary.MessageQueue.Creater
import LearnDiary.MessageQueue.CreaterCalls
import LearnDiary.Socket.BlockConnect
import LearnDiary.Socket.BlockSend
import LearnDiary.Thread.SpinLock
