import GrAta.Voltage.Packing
import GrAta.Voltage.Reconstruction
import GrAta.Voltage.Reordering
import GrAta.Voltage.Tags
import GrAta.Synchronizer.Alignment
import GrAta.Synchronizer.TagPropagation
import GrAta.Flowgraph.Alignment
import GrAta.Voltage.ChannelRange
import GrAta.Voltage.BlockRuns
import GrAta.Voltage.Refills
import GrAta.Voltage.EndOfCapture
import GrAta.Voltage.SyncMessages
import GrAta.Voltage.LossCount
import GrAta.Snap.HandOver
import GrAta.Control.Cycles
import GrAta.Voltage.TimeShift
import GrAta.Voltage.GapFill
import GrAta.Snap.AcceptedConfig
import GrAta.Snap.StaleBytes
import GrAta.Snap.PcapTool
import GrAta.Voltage.QueueBounds
import GrAta.Control.Targets
import GrAta.Control.RawMessages
import GrAta.Spectrometer.SkippedPackets
import GrAta.Control.Tuning
import GrAta.Voltage.Lockstep
import GrAta.Snap.CaptureCheck
import GrAta.Observation.Baselines
import GrAta.Observation.Phasing
import GrAta.Observation.Hermitian
import GrAta.Observation.LoadedDescriptor
import GrAta.Observation.Reordering
import GrAta.Snap.SpectHeader
import GrAta.Snap.PacketCopy
import GrAta.Voltage.Announced
import GrAta.Flowgraph.Handshake
import GrAta.Snap.VectorQueue
import GrAta.Snap.Lifecycle
import GrAta.Voltage.Playback
import GrAta.Snap.TestCalls
import GrAta.Control.Session
import GrAta.Control.Offline
import GrAta.Observation.Rows
import GrAta.Voltage.Replay
import GrAta.Voltage.Repetition
import GrAta.Spectrometer.Reconstruction
import GrAta.Flowgraph.Delivery
import GrAta.Voltage.Threads
