import CoresightTrace.Framework.Transition
import CoresightTrace.Framework.Interference
import CoresightTrace.Framework.Tally
import CoresightTrace.Framework.Guarded
import CoresightTrace.Framework.Publish
import CoresightTrace.Framework.BitCover
import CoresightTrace.Framework.DirectMap
import CoresightTrace.Framework.Memory
import CoresightTrace.Framework.InsertionSort
import CoresightTrace.Framework.RingBuffer
import CoresightTrace.Framework.BitMix
import CoresightTrace.Framework.CText
import CoresightTrace.Framework.CPrint
import CoresightTrace.Framework.Calls
import CoresightTrace.Framework.CString
import CoresightTrace.Framework.CWords
import CoresightTrace.Framework.Excision
import CoresightTrace.Framework.Ladder
import CoresightTrace.Framework.Descriptors
import CoresightTrace.Hybrid.Maps
import CoresightTrace.Hybrid.Novelty
import CoresightTrace.Hybrid.Checksum
import CoresightTrace.Hybrid.State
import CoresightTrace.Hybrid.Protocol
import CoresightTrace.Hybrid.History
import CoresightTrace.Hybrid.Simulation
import CoresightTrace.Hybrid.Filter
import CoresightTrace.Hybrid.Shown
import CoresightTrace.Hybrid.Verdict
import CoresightTrace.Hybrid.Sampling
import CoresightTrace.Hybrid.Purge
import CoresightTrace.Hybrid.Pacing
import CoresightTrace.Hybrid.Statistics
import CoresightTrace.Hybrid.Books
import CoresightTrace.Governor.State
import CoresightTrace.Governor.Retry
import CoresightTrace.Governor.Calls
import CoresightTrace.Governor.Restore
import CoresightTrace.Governor.Pinned
import CoresightTrace.Governor.Evidence
import CoresightTrace.Governor.Windows
import CoresightTrace.Governor.Table
import CoresightTrace.Governor.Rungs
import CoresightTrace.Governor.Settled
import CoresightTrace.Governor.AtRest
import CoresightTrace.Governor.Climb
import CoresightTrace.Threads.Model
import CoresightTrace.Threads.Handshake
import CoresightTrace.Threads.Completion
import CoresightTrace.Threads.StopFlag
import CoresightTrace.Threads.Drain
import CoresightTrace.Threads.Stopped
import CoresightTrace.Threads.Wakeup
import CoresightTrace.Threads.StartFailure
import CoresightTrace.TraceBuf.State
import CoresightTrace.TraceBuf.Etr
import CoresightTrace.TraceBuf.Threshold
import CoresightTrace.TraceBuf.Order
import CoresightTrace.TraceBuf.Stream
import CoresightTrace.Etm.State
import CoresightTrace.Etm.Programmed
import CoresightTrace.Etm.AddrFilter
import CoresightTrace.Etm.Sinks
import CoresightTrace.Proxy.Control
import CoresightTrace.Proxy.Protocol
import CoresightTrace.Proxy.InStep
import CoresightTrace.Proxy.Answers
import CoresightTrace.Proxy.Progress
import CoresightTrace.Proxy.Faults
import CoresightTrace.Proxy.EarlyExit
import CoresightTrace.Proxy.Frequency
import CoresightTrace.Proxy.Settling
import CoresightTrace.Proxy.Measured
import CoresightTrace.Proxy.Full
import CoresightTrace.Proxy.Sequential
import CoresightTrace.Proxy.InputKey
import CoresightTrace.Proxy.Wiring
import CoresightTrace.Proxy.Lifecycle
import CoresightTrace.Proxy.Aftermath
import CoresightTrace.Proxy.Stats
import CoresightTrace.Proxy.StatsFile
import CoresightTrace.Proxy.Preload
import CoresightTrace.Tracer.Model
import CoresightTrace.Tracer.Phases
import CoresightTrace.Tracer.Serve
import CoresightTrace.Tracer.Finalise
import CoresightTrace.Utils.MapInfo
import CoresightTrace.Utils.Images
import CoresightTrace.Utils.DecoderArgs
import CoresightTrace.Utils.Modules
import CoresightTrace.Utils.CpuList
import CoresightTrace.Utils.Preferred
import CoresightTrace.Utils.Status
import CoresightTrace.Utils.FreeCpu
