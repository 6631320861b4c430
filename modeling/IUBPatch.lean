import IUBPatch.Lib.Outcome
import IUBPatch.Lib.BijectiveBase
import IUBPatch.Lib.FallibleFold
import IUBPatch.Crc32
import IUBPatch.Formats.BPS
import IUBPatch.Formats.BPSCursor
import IUBPatch.Formats.IPS
import IUBPatch.Formats.UPS
import IUBPatch.Formats.BPSReplay
import IUBPatch.Formats.BPSReference
import IUBPatch.Formats.IPSRoundTrip
import IUBPatch.Formats.UPSReplay
import IUBPatch.Formats.UPSRoundTrip
import IUBPatch.Formats.BPSRoundTrip
import IUBPatch.PatchBase
import IUBPatch.SourceChecks
import IUBPatch.FileIO
import IUBPatch.Apply
import IUBPatch.Validation
import IUBPatch.InplaceAtomicity
import IUBPatch.Crc32Bitwise
import IUBPatch.Crc32Detection
import IUBPatch.Formats.IPSOverlay
import IUBPatch.FileEffects
import IUBPatch.FileReaders
import IUBPatch.Formats.IPSTruncation
import IUBPatch.Formats.UPSLayout
import IUBPatch.Formats.BPSLayout
import IUBPatch.Formats.BPSSignedOffsets
import IUBPatch.VariableLenExact
import IUBPatch.Formats.BPSTotality
import IUBPatch.Formats.UPSOrder
import IUBPatch.RangeReads
import IUBPatch.Formats.BPSGrowth
import IUBPatch.Crc32Residue
import IUBPatch.Crc32Blindspots
import IUBPatch.Formats.UPSDialect
import IUBPatch.Formats.IPSAlgebra
import IUBPatch.Formats.IPSExpressiveness
import IUBPatch.Formats.BPSWriter
import IUBPatch.Formats.BPSReach
import IUBPatch.Formats.BPSSplitting
import IUBPatch.Lib.Footprint
import IUBPatch.FileFootprint
import IUBPatch.PatchInfo
import IUBPatch.Programs.Process
import IUBPatch.Programs.BatchPatch
import IUBPatch.Programs.CommandLine
import IUBPatch.Lib.RandomAccessStream
import IUBPatch.FileWriters
import IUBPatch.Lib.Ownership
import IUBPatch.MappedFiles
import IUBPatch.Lib.Rearrangement
import IUBPatch.Formats.BPSRearrangement
import IUBPatch.Lib.PlainText
import IUBPatch.Programs.Examples
import IUBPatch.Formats.UPSAlgebra
import IUBPatch.Updates
import IUBPatch.Lib.Stepwise
import IUBPatch.FileSteps
import IUBPatch.Interruptions
