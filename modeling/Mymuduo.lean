import Mymuduo.Buffer.Overflow
import Mymuduo.EventLoop.BeforeLoop
import Mymuduo.EventLoop.Quit
import Mymuduo.EventLoop.Wakeup
import Mymuduo.EventLoopThread.Handshake
import Mymuduo.EventLoopThread.Join
import Mymuduo.Poller.EmptyMask
import Mymuduo.Poller.EventArray
import Mymuduo.TcpConnection.AfterShut
import Mymuduo.TcpConnection.Borrow
import Mymuduo.TcpConnection.Callbacks
import Mymuduo.TcpConnection.HalfClose
import Mymuduo.TcpConnection.CleanClose
import Mymuduo.TcpConnection.Lifecycle
import Mymuduo.TcpConnection.Trace
import Mymuduo.TcpServer.BareThis
import Mymuduo.TcpServer.Confinement
import Mymuduo.TcpServer.Destruction
import Mymuduo.TcpServer.Registration
import Mymuduo.TcpServer.RoundRobin
import Mymuduo.TcpServer.Table
import Mymuduo.TcpServer.Teardown
import Mymuduo.TcpServer.InputStream
import Mymuduo.TcpServer.Living
import Mymuduo.TcpServer.Tracking
import Mymuduo.TcpServer.Sessions
import Mymuduo.TcpServer.Streams
import Mymuduo.EchoServer.OnMessage
import Mymuduo.EchoServer.Answer
import Mymuduo.EchoServer.Echo
import Mymuduo.EventLoop.Response
import Mymuduo.TcpServer.Rest
import Mymuduo.TcpServer.Rounds
import Mymuduo.TcpServer.Ended
