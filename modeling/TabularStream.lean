import TabularStream.Bytes
import TabularStream.Memory
import TabularStream.Word
import TabularStream.Failure
import TabularStream.ColumnType
import TabularStream.Length
import TabularStream.Text.Utf8
import TabularStream.Text.Utf16
import TabularStream.Text.SingleByte
import TabularStream.Text.Utf8.Sequences
import TabularStream.Text.Utf16.Pairs
import TabularStream.Text.Encoding
import TabularStream.Text.Decoder
import TabularStream.Pool
import TabularStream.Composite
import TabularStream.Value
import TabularStream.ReceiveBuffer
import TabularStream.ReceiveBuffer.Lengths
import TabularStream.Row
import TabularStream.Row.Layout
import TabularStream.Row.Passing
import TabularStream.Row.Decoding
import TabularStream.Row.Token
import TabularStream.LargeObject.ChunkReader
import TabularStream.LargeObject.Segment
import TabularStream.LargeObject.Stream
import TabularStream.LargeObject.Lob
import TabularStream.Settings.Environment
import TabularStream.Settings.Pairs
import TabularStream.Settings.Config
import TabularStream.Session.State
import TabularStream.Session.Receiving
import TabularStream.Session.Rows
import TabularStream.Session.Values
import TabularStream.Session.Slices
import TabularStream.Session
import TabularStream.Row.Extent
import TabularStream.Row.Whole
import TabularStream.Row.Grammar
import TabularStream.LargeObject.Contents
import TabularStream.Session.Ownership
import TabularStream.Proofs.Characters
import TabularStream.Proofs.Decoding
import TabularStream.Proofs.Unchanged
import TabularStream.Proofs.Fragments
import TabularStream.Proofs.Agreement
import TabularStream.Proofs.Acceptance
import TabularStream.Proofs.LeftOut
import TabularStream.Proofs.Chunking
import TabularStream.Proofs.Demand
import TabularStream.Proofs.References
import TabularStream.Proofs.Ledger
import TabularStream.Proofs.WireImage
import TabularStream.Proofs.Lifecycle
import TabularStream.Proofs.Allowance
import TabularStream.Proofs.Transcoding
import TabularStream.Proofs.Segments
import TabularStream.Proofs.Abreast
import TabularStream.Proofs.WrittenLengths
import TabularStream.Proofs.Totals
import TabularStream.Proofs.Columns
import TabularStream.Proofs.Handles
import TabularStream.Proofs.Handover
import TabularStream.Proofs.CheckedRows
import TabularStream.Proofs.Foresight
import TabularStream.Proofs.Resuming
import TabularStream.Proofs.Rounds
import TabularStream.Proofs.ReadingOut
import TabularStream.Proofs.CheckedStreams
import TabularStream.Proofs.Consumed
import TabularStream.Proofs.Registers
import TabularStream.Proofs.Lossless
import TabularStream.Proofs.Retrying
import TabularStream.Proofs.Blockless
import TabularStream.Proofs.Reencoding
import TabularStream.Proofs.Leftovers
import TabularStream.Proofs.Wrapping
import TabularStream.Proofs.ComponentLists
import TabularStream.Proofs.PatternSearch
import TabularStream.Proofs.StepwiseSettings
import TabularStream.Proofs.Inertness
import TabularStream.Proofs.Configuring
import TabularStream.Proofs.Extraction
import TabularStream.Proofs.WrittenSettings
