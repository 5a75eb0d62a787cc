import RuralPipe.Machine
import RuralPipe.Delimited
import RuralPipe.Bytes
import RuralPipe.FileDescriptor
import RuralPipe.Ownership
import RuralPipe.TextLines
import RuralPipe.ConfigureClient
import RuralPipe.ConfigOption
import RuralPipe.ConfigLine
import RuralPipe.ScopedFileDescriptor
import RuralPipe.SystemCalls
import RuralPipe.TunCtl
import RuralPipe.TunnelFrame
import RuralPipe.TunnelFrameFacts
import RuralPipe.FrameCodec
import RuralPipe.TunnelFrameStream
import RuralPipe.StreamFacts
import RuralPipe.Receiving
import RuralPipe.StreamTransfer
import RuralPipe.TunnelFramePipe
import RuralPipe.Chains
import RuralPipe.PipeHeap
import RuralPipe.PipeChains
import RuralPipe.Detaching
import RuralPipe.TunnelProducerConsumer
import RuralPipe.Exposure
import RuralPipe.FrameGrammar
import RuralPipe.WriterRoom
import RuralPipe.InitialExchange
import RuralPipe.Exchanging
import RuralPipe.SocketProducerConsumer
import RuralPipe.SocketSteps
import RuralPipe.SessionTable
import RuralPipe.Membership
import RuralPipe.InitialFrames
import RuralPipe.SelectionTable
import RuralPipe.ClientSession
import RuralPipe.SessionLifetime
import RuralPipe.ForeignSession
import RuralPipe.StreamUse
import RuralPipe.StreamSync
import RuralPipe.TunnelFacts
import RuralPipe.RoundRobin
import RuralPipe.Spreading
import RuralPipe.SendingStack
import RuralPipe.HandOver
import RuralPipe.Rejection
import RuralPipe.PipeCalls
import RuralPipe.Lifecycle
import RuralPipe.Teardown
import RuralPipe.Conveyor
import RuralPipe.ReceivingStack
import RuralPipe.SendingFlow
import RuralPipe.EndToEnd
import RuralPipe.Interruption
import RuralPipe.FrameSession
import RuralPipe.Deadlock
import RuralPipe.Wakeups
import RuralPipe.IdleStreams
import RuralPipe.Locking
import RuralPipe.LockOrder
import RuralPipe.Greedy
import RuralPipe.Batching
import RuralPipe.Held
import RuralPipe.SequenceNumbers
import RuralPipe.HandedFrames
import RuralPipe.Handshake
import RuralPipe.Agreement
import RuralPipe.ThreadPool
import RuralPipe.Completion
import RuralPipe.HandshakeAgreement
import RuralPipe.ConnectLoop
import RuralPipe.ContextBase
import RuralPipe.ClientExit
import RuralPipe.InterfaceNames
import RuralPipe.Connections
import RuralPipe.ConfigTwice
import RuralPipe.Drains
import RuralPipe.PartFrames
import RuralPipe.SendingLosses
import RuralPipe.AtMostOnce
import RuralPipe.ClientOutage
import RuralPipe.Arrivals
