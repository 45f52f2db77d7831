/-
This file reads row tokens. A token starts with a byte that tells its kind: `D1` for a row, `D2`
for a row with a NULL bitmap. Reading is resumed whenever more bytes have arrived: either a whole
token is readable and gives a row, or nothing moves.
-/

import TabularStream.Row.Decoding

namespace TabularStream

/-- The kinds of token that hold a row. -/
inductive RowToken where
  | row
  | bitmapRow
  deriving DecidableEq, Repr

namespace RowToken

/-- The kind of token that starts with the given byte. -/
def ofByte? (byte : UInt8) : Option RowToken :=
  if byte = 0xD1 then some row
  else if byte = 0xD2 then some bitmapRow
  else none

/-- Is the body of a token readable? -/
def canDecode (token : RowToken) (buffer : ReceiveBuffer) (pool : Pool)
    (columns : List ColumnType) : Reading Bool :=
  match token with
  | row => buffer.canDecode pool columns
  | bitmapRow => buffer.canDecodeBitmap pool columns

/-- Read the body of a token. -/
def decode (token : RowToken) (buffer : ReceiveBuffer) (pool : Pool)
    (columns : List ColumnType) : Reading Row :=
  match token with
  | row => buffer.decode pool columns
  | bitmapRow => buffer.decodeBitmap pool columns

end RowToken

/-- What resuming the reading of a result set gives. -/
inductive Resumed where
  /-- The buffer does not hold a whole token. -/
  | needsMore
  /-- The next token is not a row. -/
  | unexpected (error : ClientError)
  | row (row : Row)
  deriving DecidableEq, Repr

/-- Read the next row token, if it is readable as a whole. -/
def ReceiveBuffer.resume (buffer : ReceiveBuffer) (pool : Pool) (columns : List ColumnType) :
    Reading Resumed :=
  match buffer.peek pool 1 with
  | [] => ⟨pool, buffer, .ok .needsMore⟩
  | byte :: _ =>
    match RowToken.ofByte? byte with
    | none => ⟨pool, buffer, .ok (.unexpected .unexpectedToken)⟩
    | some token =>
      match token.canDecode (buffer.advance 1) pool columns with
      | ⟨pool, asked, .error failure⟩ => ⟨pool, asked, .error failure⟩
      | ⟨pool, _, .ok false⟩ => ⟨pool, buffer, .ok .needsMore⟩
      | ⟨pool, body, .ok true⟩ =>
        match token.decode body pool columns with
        | ⟨pool, after, result⟩ => ⟨pool, after, result.map .row⟩

end TabularStream
