import WanNet.LockFreeStack.Lifo
import WanNet.Session.Disconnect
import WanNet.Lib.Linearizable
import WanNet.ObjectPool.Holders
import WanNet.Lib.Linked
import WanNet.Session.Pipeline
import WanNet.RingBuffer.Fifo
import WanNet.Server.DeadCalls
import WanNet.Server.References
import WanNet.Server.Handlers
import WanNet.NetClient.PacketLoop
import WanNet.NetClient.Streams
import WanNet.TlsObjectPool.Bookkeeping
import WanNet.Session.PacketLoop
import WanNet.NetClient.Agreement
import WanNet.Session.FrameLimit
import WanNet.Session.FirstUse
import WanNet.NetClient.Flag
import WanNet.TlsObjectPool.Turnover
import WanNet.Logger.AsyncLog
import WanNet.Tool.ConfigReader
import WanNet.Tool.ConfigLookup
import WanNet.Server.Workers
import WanNet.Session.Notices
import WanNet.NetClient.OpenSockets
import WanNet.Tool.ConfigMemory
import WanNet.LockFreeQueue.Conservation
import WanNet.LockFreeQueue.Quiescence
import WanNet.Session.Delivery
import WanNet.NetClient.Delivery
import WanNet.LockFreeQueue.Fifo
import WanNet.Network.Delivery
import WanNet.Traffic.Received
import WanNet.Duplex.Uplink
import WanNet.Server.Counters
import WanNet.EchoServer.Echo
