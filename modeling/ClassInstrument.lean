import ClassInstrument.Annotation.Basic
import ClassInstrument.Annotation.Codec
import ClassInstrument.Bytes.Basic
import ClassInstrument.Bytes.Decoder
import ClassInstrument.Bytes.Hexadecimal
import ClassInstrument.Cache.Basic
import ClassInstrument.Cache.Disk
import ClassInstrument.ClassFile.Basic
import ClassInstrument.ClassFile.Decode
import ClassInstrument.ClassFile.Encode
import ClassInstrument.ClassFile.Header
import ClassInstrument.Code.Basic
import ClassInstrument.Code.Bytecode
import ClassInstrument.Code.Decode
import ClassInstrument.Code.Emit
import ClassInstrument.Code.Encode
import ClassInstrument.Code.Form
import ClassInstrument.Code.Layout
import ClassInstrument.Code.Marks
import ClassInstrument.Code.Maxima
import ClassInstrument.Code.StackEffect
import ClassInstrument.Code.StackMap
import ClassInstrument.Code.Steps
import ClassInstrument.Decimal.Binary
import ClassInstrument.Decimal.Shortest
import ClassInstrument.Descriptor
import ClassInstrument.Digest.Sha1
import ClassInstrument.Dump.Service
import ClassInstrument.Failure
import ClassInstrument.Host.Basic
import ClassInstrument.Host.Launch
import ClassInstrument.Identifier
import ClassInstrument.Instruction.Basic
import ClassInstrument.Instruction.Display
import ClassInstrument.Instruction.Equality
import ClassInstrument.Opcode
import ClassInstrument.Pipeline.Basic
import ClassInstrument.Pool.Basic
import ClassInstrument.Pool.Bootstrap
import ClassInstrument.Pool.Builder
import ClassInstrument.Pool.Entry
import ClassInstrument.Pool.Resolve
import ClassInstrument.Query.Pattern
import ClassInstrument.Query.Search
import ClassInstrument.Query.Walk
import ClassInstrument.Registry.Basic
import ClassInstrument.Registry.Lifecycle
import ClassInstrument.Rule.Basic
import ClassInstrument.Rule.Edit
import ClassInstrument.Rule.Relocation
import ClassInstrument.Sequence
import ClassInstrument.Sequence.Arena
import ClassInstrument.Settings.Basic
import ClassInstrument.Settings.File
import ClassInstrument.Shared.Claims
import ClassInstrument.Shared.OnceMap
import ClassInstrument.Storage.FileTree
import ClassInstrument.Storage.Path
import ClassInstrument.Text.Modified
import ClassInstrument.Text.Quoted
import ClassInstrument.Text.Unprintable
import ClassInstrument.Toml.Document
import ClassInstrument.Toml.Number
import ClassInstrument.Toml.Text
import ClassInstrument.Toml.Time
import ClassInstrument.Toml.Value
import ClassInstrument.Typing.Frames
import ClassInstrument.Typing.Hierarchy
import ClassInstrument.Typing.Merge
import ClassInstrument.Typing.Solve
import ClassInstrument.Typing.State
import ClassInstrument.Typing.Transfer
import ClassInstrument.Proofs.Bytes.Reads
import ClassInstrument.Proofs.Bytes.Levels
import ClassInstrument.Proofs.Bytes.Traverse
import ClassInstrument.Proofs.Descriptor
import ClassInstrument.Proofs.Opcode
import ClassInstrument.Proofs.Text.RoundTrip
import ClassInstrument.Proofs.Pool.Entry
import ClassInstrument.Proofs.Pool.WellFormed
import ClassInstrument.Proofs.Pool.Bootstrap
import ClassInstrument.Proofs.Pool.Growth
import ClassInstrument.Proofs.Pool.Constants
import ClassInstrument.Proofs.Pool.Additions
import ClassInstrument.Proofs.Pool.Representation
import ClassInstrument.Proofs.Pool.Survival
import ClassInstrument.Proofs.Pool.Repeated
import ClassInstrument.Proofs.Pool.Faults
import ClassInstrument.Proofs.Pool.Later
import ClassInstrument.Proofs.Sequence.Linked
import ClassInstrument.Proofs.Sequence.Operations
import ClassInstrument.Proofs.Sequence.Refinement
import ClassInstrument.Proofs.Sequence.Views
import ClassInstrument.Proofs.Sequence.Reached
import ClassInstrument.Proofs.Query.Matches
import ClassInstrument.Proofs.Query.Walk
import ClassInstrument.Proofs.Annotation.RoundTrip
import ClassInstrument.Proofs.Annotation.Levels
import ClassInstrument.Proofs.Bytes.Local
import ClassInstrument.Proofs.Bytes.Gives
import ClassInstrument.Proofs.Annotation.Decoded
import ClassInstrument.Proofs.Code.Tables
import ClassInstrument.Proofs.Code.FrameTable
import ClassInstrument.Proofs.ClassFile.Attributes
import ClassInstrument.Proofs.Code.Attribute
import ClassInstrument.Proofs.ClassFile.Skeleton
import ClassInstrument.Proofs.ClassFile.Scan
import ClassInstrument.Proofs.ClassFile.Written
import ClassInstrument.Proofs.ClassFile.Stability
import ClassInstrument.Proofs.ClassFile.Clean
import ClassInstrument.Proofs.Code.Forms
import ClassInstrument.Proofs.Code.Spelled
import ClassInstrument.Proofs.Code.Operands
import ClassInstrument.Proofs.Code.Settled
import ClassInstrument.Proofs.Code.Stream
import ClassInstrument.Proofs.Code.Tiled
import ClassInstrument.Proofs.Code.Steps
import ClassInstrument.Proofs.Code.View
import ClassInstrument.Proofs.Code.Boundaries
import ClassInstrument.Proofs.Code.Sequenced
import ClassInstrument.Proofs.Code.Gathered
import ClassInstrument.Proofs.Code.Compressed
import ClassInstrument.Proofs.Code.Reread
import ClassInstrument.Proofs.Code.Retold
import ClassInstrument.Proofs.Code.RoundTrip
import ClassInstrument.Proofs.ClassFile.RoundTrip
import ClassInstrument.Proofs.ClassFile.Repeated
import ClassInstrument.Proofs.Code.Canonical
import ClassInstrument.Proofs.Code.Alike
import ClassInstrument.Proofs.Code.Positions
import ClassInstrument.Proofs.Code.Congruence
import ClassInstrument.Proofs.Code.Rows
import ClassInstrument.Proofs.Code.Said
import ClassInstrument.Proofs.Code.Decoded
import ClassInstrument.Proofs.Code.Closed
import ClassInstrument.Proofs.Code.Rejoined
import ClassInstrument.Proofs.Code.Writable
import ClassInstrument.Proofs.Code.Widening
import ClassInstrument.Proofs.Code.Fitting
import ClassInstrument.Proofs.Code.Lookup
import ClassInstrument.Proofs.Code.Later
import ClassInstrument.Proofs.Code.NormalForm
import ClassInstrument.Proofs.Code.Exact
import ClassInstrument.Proofs.Code.Reduced
import ClassInstrument.Proofs.ClassFile.Fixpoint
import ClassInstrument.Proofs.ClassFile.Closed
import ClassInstrument.Proofs.ClassFile.Outside
import ClassInstrument.Proofs.ClassFile.Accepted
import ClassInstrument.Proofs.ClassFile.Truncated
import ClassInstrument.Proofs.ClassFile.Scanned
import ClassInstrument.Proofs.ClassFile.Undecoded
import ClassInstrument.Proofs.ClassFile.Reduced
import ClassInstrument.Proofs.Typing.Outcome
import ClassInstrument.Proofs.Typing.Order
import ClassInstrument.Proofs.Typing.Actions
import ClassInstrument.Proofs.Typing.Transfer
import ClassInstrument.Proofs.Typing.Heights
import ClassInstrument.Proofs.Typing.Solve
import ClassInstrument.Proofs.Typing.DeadRuns
import ClassInstrument.Proofs.Typing.Flow
import ClassInstrument.Proofs.Typing.Insertions
import ClassInstrument.Proofs.Typing.NewBody
import ClassInstrument.Proofs.Typing.Computed
import ClassInstrument.Proofs.Typing.Sound
import ClassInstrument.Proofs.Typing.DeadCode
import ClassInstrument.Proofs.Typing.Locals
import ClassInstrument.Proofs.Typing.Halves
import ClassInstrument.Proofs.Typing.Padding
import ClassInstrument.Proofs.Typing.PaddedRuns
import ClassInstrument.Proofs.Typing.Occurring
import ClassInstrument.Proofs.Typing.Agreement
import ClassInstrument.Proofs.Typing.NewProblem
import ClassInstrument.Proofs.Typing.NewLocals
import ClassInstrument.Proofs.Typing.Stable
import ClassInstrument.Proofs.Typing.Lossless
import ClassInstrument.Proofs.Code.DepthSearch
import ClassInstrument.Proofs.Typing.Sizes
import ClassInstrument.Proofs.Code.DepthExact
import ClassInstrument.Proofs.Typing.Turns
import ClassInstrument.Proofs.Typing.Terminates
import ClassInstrument.Proofs.Pipeline.Tracks
import ClassInstrument.Proofs.Pipeline.Recorded
import ClassInstrument.Proofs.Pipeline.Once
import ClassInstrument.Proofs.Pipeline.Kept
import ClassInstrument.Proofs.Pipeline.Unseen
import ClassInstrument.Proofs.Pipeline.Unmarked
import ClassInstrument.Proofs.Pipeline.Dumps
import ClassInstrument.Proofs.Pipeline.Unhandled
import ClassInstrument.Proofs.Registry.Window
import ClassInstrument.Proofs.Storage.Path
import ClassInstrument.Proofs.Storage.FileTree
import ClassInstrument.Proofs.Dump.Apart
import ClassInstrument.Proofs.Bytes.Hexadecimal
import ClassInstrument.Proofs.Cache.FileName
import ClassInstrument.Proofs.Cache.Entries
import ClassInstrument.Proofs.Cache.Saving
import ClassInstrument.Proofs.Cache.Restart
