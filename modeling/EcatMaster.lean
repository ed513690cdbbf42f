import EcatMaster.Properties.SessionFlags
import EcatMaster.Properties.Buffers
import EcatMaster.Properties.FirstReady
import EcatMaster.Properties.Outage
import EcatMaster.Properties.KeepLast
import EcatMaster.Properties.ArgumentBytes
import EcatMaster.Properties.Replaced
import EcatMaster.Properties.Shutdown
import EcatMaster.Lib.Clients
import EcatMaster.Properties.Isolation
import EcatMaster.Lib.Echo
import EcatMaster.Properties.Transfer
import EcatMaster.Lib.Access
import EcatMaster.Lib.Log
import EcatMaster.Lib.Quantize
import EcatMaster.Lib.Rho
import EcatMaster.Lib.Schema
import EcatMaster.Lib.Store
import EcatMaster.Properties.Acknowledgements
import EcatMaster.Properties.ArgumentBuffer
import EcatMaster.Properties.DeadStates
import EcatMaster.Properties.Decoding
import EcatMaster.Properties.Flattening
import EcatMaster.Properties.Latency
import EcatMaster.Properties.MitPacking
import EcatMaster.Properties.ModuleBounds
import EcatMaster.Properties.ResetRange
import EcatMaster.Properties.SequenceNumbers
import EcatMaster.Lib.BitStream
import EcatMaster.Lib.Overlay
import EcatMaster.Node.Setup
import EcatMaster.Properties.CommandOverlay
import EcatMaster.Properties.DmFeedback
import EcatMaster.Properties.ReceiverDecoding
import EcatMaster.Properties.RoundTrip
import EcatMaster.Properties.ShutdownWait
import EcatMaster.Lib.Forest
import EcatMaster.Lib.Placement
import EcatMaster.Properties.BusTopology
import EcatMaster.Properties.ImageLayout
import EcatMaster.Properties.ImageSegments
import EcatMaster.Properties.PropagationDelay
import EcatMaster.Properties.WholeSlaves
import EcatMaster.Lib.LogicalBus
import EcatMaster.Properties.ObjectDictionary
import EcatMaster.Properties.ProcessCycle
import EcatMaster.Properties.ProcessExchange
import EcatMaster.Properties.ProcessRun
import EcatMaster.Lib.RoundRobin
import EcatMaster.Properties.ReplyMatching
import EcatMaster.Properties.FrameFormat
import EcatMaster.Properties.SlaveStates
import EcatMaster.Lib.Query
import EcatMaster.Properties.SiiMapping
import EcatMaster.Properties.PdoObjects
import EcatMaster.Properties.PdoCompleteAccess
import EcatMaster.Properties.PdoMapping
