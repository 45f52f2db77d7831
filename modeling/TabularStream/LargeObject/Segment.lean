/-
This file says how the chunks of a large object become segments. There are two kinds of large
object: character objects, whose chunks are decoded into UTF-8, and binary objects, whose chunks
are passed through. A character that is cut by the end of a chunk belongs to the segment of the
chunk that completes it.
-/

import TabularStream.Text.Decoder

namespace TabularStream

/-- The kinds of large object. -/
inductive LargeObjectKind where
  | character
  | binary
  deriving DecidableEq, Repr

/-- Can the values of a column be read as large objects of the kind? -/
def LargeObjectKind.accepts : LargeObjectKind → ColumnType → Bool
  | character, type => type.isCharacter
  | binary, type => type.isBinary

/-- A decoder of segments. -/
inductive SegmentDecoder where
  | text (decoder : TextDecoder)
  | binary
  deriving DecidableEq, Repr

namespace SegmentDecoder

/-- The decoder for large objects of a kind in a column, before any input. -/
def new : LargeObjectKind → ColumnType → SegmentDecoder
  | .character, type => text (TextDecoder.ofType type)
  | .binary, _ => binary

/-- Decode a chunk. -/
def decode : SegmentDecoder → Bytes → Decoded SegmentDecoder
  | text decoder, chunk =>
    let decoded := decoder.decode chunk
    ⟨text decoded.decoder, decoded.output, decoded.error⟩
  | binary, chunk => ⟨binary, chunk, none⟩

/-- The verdict at the end of the object. -/
def finish : SegmentDecoder → Option ClientError
  | text decoder => decoder.finish
  | binary => none

end SegmentDecoder

end TabularStream
