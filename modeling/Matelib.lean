import Matelib.ByteQueue
import Matelib.BufferSpace
import Matelib.OutputStream
import Matelib.Duplex
import Matelib.SendBuffer
import Matelib.GracefulExact
import Matelib.QueuedFunctors
import Matelib.Search
import Matelib.Scanner
import Matelib.HttpRequest
import Matelib.HttpThread
import Matelib.HttpResponse
import Matelib.HttpStatusLine
import Matelib.HttpWire
import Matelib.HttpSection
import Matelib.HttpFraming
import Matelib.HttpPipeline
import Matelib.RpcClient
import Matelib.RpcRequests
import Matelib.RpcThread
import Matelib.RpcStream
import Matelib.SerializerOrder
import Matelib.ValueCodec
import Matelib.Oversleep
import Matelib.EventLoopQuit
import Matelib.EventLoopThread
import Matelib.Monitor
import Matelib.CountDownLatch
import Matelib.ThreadStart
import Matelib.AsyncLoggingStop
import Matelib.AppendStream
import Matelib.LogFile
import Matelib.LogFileRolls
import Matelib.AsyncLogFile
import Matelib.IntegerText
import Matelib.LogStream
import Matelib.Logger
import Matelib.LogTime
import Matelib.EpollPoller
import Matelib.EventList
import Matelib.ChannelInterest
import Matelib.Token
import Matelib.TcpServer
import Matelib.IdleDescriptor
import Matelib.TcpClient
import Matelib.ConnectRetry
import Matelib.ClientLife
import Matelib.ConnectionLife
import Matelib.ServerWork
import Matelib.ServerRuns
import Matelib.ServerLifecycle
import Matelib.ServerNames
import Matelib.ServerTeardown
import Matelib.ServerTasks
import Matelib.ServerQuiescence
import Matelib.Turns
import Matelib.ServerBalance
import Matelib.ServerContexts
import Matelib.Double
import Matelib.Timestamp
import Matelib.TimerPeriod
import Matelib.TimerCancel
import Matelib.TimerThreads
import Matelib.TimerBatch
import Matelib.TimerOrder
import Matelib.TimerIds
import Matelib.ThreadPool
import Matelib.ThreadPoolRuns
