import Xv6Recorder.Bytes
import Xv6Recorder.StateError
import Xv6Recorder.Kernel
import Xv6Recorder.FileStore
import Xv6Recorder.OneFile
import Xv6Recorder.V3Record
import Xv6Recorder.V3Codec
import Xv6Recorder.V3Format
import Xv6Recorder.V3RoundTrip
import Xv6Recorder.V3Decoder
import Xv6Recorder.V3Handlers
import Xv6Recorder.V3Session
import Xv6Recorder.V3Starts
import Xv6Recorder.V3Saving
import Xv6Recorder.V3Modes
import Xv6Recorder.V3Calls
import Xv6Recorder.V3Recording
import Xv6Recorder.V3Histories
import Xv6Recorder.V3Replaying
import Xv6Recorder.V3System
import Xv6Recorder.V3ModeExclusion
import Xv6Recorder.V3EncoderBounds
import Xv6Recorder.V3Fidelity
import Xv6Recorder.V3Divergence
import Xv6Recorder.V3DecodedBytes
import Xv6Recorder.V3ReplayFiles
import Xv6Recorder.V3Naming
import Xv6Recorder.V3LogInvariant
import Xv6Recorder.V3Capacity
import Xv6Recorder.V3Capture
import Xv6Recorder.V3ReplayEffects
import Xv6Recorder.V3FailedStarts
import Xv6Recorder.FsNames
import Xv6Recorder.FsEntries
import Xv6Recorder.FsStore
import Xv6Recorder.FsPaths
import Xv6Recorder.V3Persistence
import Xv6Recorder.V2RoundTrip
import Xv6Recorder.V2Overwriting
import Xv6Recorder.V2Logged
import Xv6Recorder.V2System
import Xv6Recorder.V1RecordGroup
import Xv6Recorder.V1Validation
import Xv6Recorder.V1Copies
import Xv6Recorder.V1Idle
import Xv6Recorder.V1System
import Xv6Recorder.MkfsMain
import Xv6Recorder.LogCapacity
import Xv6Recorder.PipeRuns
import Xv6Recorder.V2Fidelity
import Xv6Recorder.V1Replaying
import Xv6Recorder.BufferRuns
import Xv6Recorder.BufferOrder
import Xv6Recorder.V3Programs
import Xv6Recorder.PtableRuns
