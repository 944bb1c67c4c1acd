import OpenwrtFeed.Slip
import OpenwrtFeed.LinkState
import OpenwrtFeed.HciQueue
import OpenwrtFeed.Fifo
import OpenwrtFeed.QueueFifo
import OpenwrtFeed.FrameDelivery
import OpenwrtFeed.FrameEmission
import OpenwrtFeed.WireRoundTrip
import OpenwrtFeed.LinkProtocol
import OpenwrtFeed.MessageFrames
import OpenwrtFeed.EngineMessages
import OpenwrtFeed.LossyLink
import OpenwrtFeed.LinkSchedule
import OpenwrtFeed.LossyLinkRefinement
import OpenwrtFeed.PlainFrames
import OpenwrtFeed.Delivery
import OpenwrtFeed.FrameAcceptance
import OpenwrtFeed.HciPoll
import OpenwrtFeed.OneOutstanding
import OpenwrtFeed.HciForwarding
import OpenwrtFeed.BridgeSession
import OpenwrtFeed.InternalCommand
import OpenwrtFeed.StatusHonesty
import OpenwrtFeed.AesRoundTrip
import OpenwrtFeed.BridgeFraming
import OpenwrtFeed.CommandGrammar
import OpenwrtFeed.KeyLifetime
import OpenwrtFeed.ReferenceDeframer
import OpenwrtFeed.SentNotification
import OpenwrtFeed.CommandWindow
import OpenwrtFeed.WholeFrame
import OpenwrtFeed.Completion
import OpenwrtFeed.CheckRegister
import OpenwrtFeed.ErrorDetection
import OpenwrtFeed.StaleBuffer
import OpenwrtFeed.ClientPayload
import OpenwrtFeed.PhantomMessages
import OpenwrtFeed.Traced
import OpenwrtFeed.MessageReads
import OpenwrtFeed.ReplyCorrelation
import OpenwrtFeed.SizeArithmetic
import OpenwrtFeed.LoopFlags
import OpenwrtFeed.QueueRelease
import OpenwrtFeed.TimeoutAccounting
import OpenwrtFeed.Streak
import OpenwrtFeed.Gjallarhorn
import OpenwrtFeed.Json
import OpenwrtFeed.ReadHex
import OpenwrtFeed.Lsids
import OpenwrtFeed.BitSerialCrc
import OpenwrtFeed.CrcCcitt
import OpenwrtFeed.PromptAck
import OpenwrtFeed.ClientDescriptor
import OpenwrtFeed.Observed
import OpenwrtFeed.ReceiveAccesses
import OpenwrtFeed.ReceiveBounds
import OpenwrtFeed.LinkNumbers
import OpenwrtFeed.DriverQueue
import OpenwrtFeed.BridgedLink
import OpenwrtFeed.Rank
import OpenwrtFeed.Pace
import OpenwrtFeed.LoopProgress
import OpenwrtFeed.Streams
import OpenwrtFeed.BridgeSchedule
import OpenwrtFeed.ClientPath
import OpenwrtFeed.Retransmission
import OpenwrtFeed.Heap
import OpenwrtFeed.BufferOwnership
import OpenwrtFeed.SendBuffers
import OpenwrtFeed.Handshake
import OpenwrtFeed.LosslessRuns
import OpenwrtFeed.Recovery
import OpenwrtFeed.NoisyLink
import OpenwrtFeed.KeyAgreement
import OpenwrtFeed.QueueLock
