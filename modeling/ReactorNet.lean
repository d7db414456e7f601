import ReactorNet.Acceptor
import ReactorNet.AddrBookServer
import ReactorNet.AddrBookSession
import ReactorNet.AddressBook
import ReactorNet.AddressBookFile
import ReactorNet.AddressBookFormats
import ReactorNet.AsyncLogging
import ReactorNet.AsyncLoggingOrder
import ReactorNet.AsyncLoggingRecycling
import ReactorNet.AsyncLoggingStop
import ReactorNet.BinarySearch
import ReactorNet.BlockingQueue
import ReactorNet.BoundedBlockingQueue
import ReactorNet.Buffer
import ReactorNet.BufferByteQueue
import ReactorNet.BufferShrink
import ReactorNet.BufferStorageBound
import ReactorNet.ChannelAfterDestroy
import ReactorNet.CheckedIntegers
import ReactorNet.CircularBuffers
import ReactorNet.CivilCalendar
import ReactorNet.ClientStages
import ReactorNet.CodecBounds
import ReactorNet.CodecCanonical
import ReactorNet.CodecFragmentation
import ReactorNet.CodecRoundTrip
import ReactorNet.ConditionVariables
import ReactorNet.ConnectionCloseOnce
import ReactorNet.ConnectionLifecycle
import ReactorNet.Connector
import ReactorNet.ConnectorAssertions
import ReactorNet.ConnectorBackoff
import ReactorNet.ConnectorSockets
import ReactorNet.CountDownLatch
import ReactorNet.Date
import ReactorNet.DateCalendar
import ReactorNet.DecimalNumerals
import ReactorNet.DenseTables
import ReactorNet.EPollChannels
import ReactorNet.EPollChannelsInStep
import ReactorNet.EPollPoller
import ReactorNet.EventLoop
import ReactorNet.EventLoopThread
import ReactorNet.FrameStreams
import ReactorNet.FunctorDelivery
import ReactorNet.GuardedRuns
import ReactorNet.HeadedFrames
import ReactorNet.HttpCalls
import ReactorNet.HttpContext
import ReactorNet.HttpConversation
import ReactorNet.HttpDispatch
import ReactorNet.HttpFragmentation
import ReactorNet.HttpMethodAssertion
import ReactorNet.HttpParsing
import ReactorNet.HttpReplyStream
import ReactorNet.HttpRequestGrammar
import ReactorNet.HttpResponse
import ReactorNet.HttpResponseReader
import ReactorNet.HttpRoundTrip
import ReactorNet.HttpServer
import ReactorNet.HttpSession
import ReactorNet.InputStreams
import ReactorNet.IntegerFormat
import ReactorNet.LargeBuffers
import ReactorNet.LocalTime
import ReactorNet.LocalTimeRoundTrip
import ReactorNet.LogFile
import ReactorNet.LogFileNames
import ReactorNet.LogFileRolling
import ReactorNet.LogFileRuns
import ReactorNet.LogPipeline
import ReactorNet.LogStream
import ReactorNet.Logger
import ReactorNet.LoggerTime
import ReactorNet.MessageFormat
import ReactorNet.MutexLock
import ReactorNet.NetworkByteOrder
import ReactorNet.OrderedSets
import ReactorNet.OutputFlow
import ReactorNet.PendingFunctors
import ReactorNet.PersonFormats
import ReactorNet.PollPoller
import ReactorNet.PollPollerRemoval
import ReactorNet.PollPollerTable
import ReactorNet.PollerChannels
import ReactorNet.PollerInterchange
import ReactorNet.PooledServer
import ReactorNet.PooledServerInvariant
import ReactorNet.PooledServerSteps
import ReactorNet.PooledServerViews
import ReactorNet.PositionalNumerals
import ReactorNet.ProtobufCodec
import ReactorNet.ShutdownAfterSends
import ReactorNet.SimpleServer
import ReactorNet.TaggedFields
import ReactorNet.TcpClient
import ReactorNet.TcpClientDestructor
import ReactorNet.TcpClientParts
import ReactorNet.TcpClientRuns
import ReactorNet.TcpConnection
import ReactorNet.TcpConnectionOutput
import ReactorNet.TcpServerDestructor
import ReactorNet.TcpServerRun
import ReactorNet.Thread
import ReactorNet.ThreadPool
import ReactorNet.TimeWheel
import ReactorNet.TimeWheelActive
import ReactorNet.TimeWheelIdle
import ReactorNet.TimeWheelInvariant
import ReactorNet.TimeZoneFile
import ReactorNet.TimeZoneUsable
import ReactorNet.TimedLoop
import ReactorNet.TimerAlarms
import ReactorNet.TimerCancelOrder
import ReactorNet.TimerCancellation
import ReactorNet.TimerLoop
import ReactorNet.TimerLoopInvariant
import ReactorNet.TimerQueue
import ReactorNet.TimerQueueInvariant
import ReactorNet.TimerRegistered
import ReactorNet.TimerRound
import ReactorNet.TokenMachines
import ReactorNet.UtcTime
import ReactorNet.VectorStorage
import ReactorNet.WireFormat
