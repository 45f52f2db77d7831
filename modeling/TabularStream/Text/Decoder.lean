/-
This file decodes text that arrives in chunks into UTF-8. The chunks of a value are cut anywhere,
so a decoder carries the start of a character from one chunk to the next: its state is what has
been received of the character that is not complete yet, and decoding a chunk is a step for each
byte. A byte that cannot continue the text stops the chunk with an error; what was decoded before
it has already been given out.
-/

import TabularStream.ColumnType
import TabularStream.Failure
import TabularStream.Text.SingleByte
import TabularStream.Text.Utf16
import TabularStream.Text.Utf8

namespace TabularStream

/-- What decoding a chunk leaves: the decoder, the bytes that it gave out, and the error that
stopped it, if one did. -/
structure Decoded (Decoder : Type) where
  decoder : Decoder
  output : Bytes
  error : Option ClientError
  deriving DecidableEq, Repr

/-- A decoder of one character set, with what it has received of an incomplete character. -/
inductive TextDecoder where
  | usAscii
  | iso88591
  | windows1252
  /-- The bytes of the incomplete character. -/
  | utf8 (pending : Bytes)
  /-- The low byte of the incomplete unit, and the high surrogate that waits for its pair. -/
  | utf16le (pending : Option UInt8) (high : Option UInt16)
  deriving DecidableEq, Repr

namespace TextDecoder

/-- The decoder of a character set, before any input. -/
def ofCharset : Charset → TextDecoder
  | .usAscii => usAscii
  | .iso88591 => iso88591
  | .windows1252 => windows1252
  | .utf8 => utf8 []
  | .utf16le => utf16le none none

/-- The decoder for the text of a column. -/
def ofType (type : ColumnType) : TextDecoder := ofCharset type.charset

/-- The character set that a decoder reads. -/
def charset : TextDecoder → Charset
  | usAscii => .usAscii
  | iso88591 => .iso88591
  | windows1252 => .windows1252
  | utf8 _ => .utf8
  | utf16le _ _ => .utf16le

/-- The received bytes of an incomplete character or unit. -/
def pendingBytes : TextDecoder → Bytes
  | utf8 pending => pending
  | utf16le pending _ => pending.toList
  | _ => []

/-- The high surrogate that waits for its pair. -/
def highSurrogate : TextDecoder → Option UInt16
  | utf16le _ high => high
  | _ => none

/-! ### One byte -/

/-- The step of UTF-8: a character is given out unchanged when its last byte arrives. A refused
byte is dropped and the bytes before it stay. -/
@[inline] def stepUtf8 (pending : Bytes) (byte : UInt8) : TextDecoder × Option Bytes :=
  match pending with
  | [] =>
    match Utf8.sequenceLength byte with
    | 0 => (utf8 [], none)
    | 1 => (utf8 [], some [byte])
    | _ => (utf8 [byte], some [])
  | lead :: _ =>
    if Utf8.isContinuation lead pending.length byte then
      let received := pending ++ [byte]
      if received.length = Utf8.sequenceLength lead then (utf8 [], some received)
      else (utf8 received, some [])
    else (utf8 pending, none)

/-- The step of UTF-16 on a whole unit. A refused unit is dropped, and a high surrogate before
it goes on waiting. -/
@[inline] def stepUnit (high : Option UInt16) (unit : UInt16) : TextDecoder × Option Bytes :=
  match high with
  | some first =>
    if Utf16.isLowSurrogate unit then
      (utf16le none none, some (Utf8.encode (Utf16.codePointOf first unit)))
    else (utf16le none (some first), none)
  | none =>
    if Utf16.isHighSurrogate unit then (utf16le none (some unit), some [])
    else if Utf16.isLowSurrogate unit then (utf16le none none, none)
    else (utf16le none none, some (Utf8.encode unit.toNat))

/-- One byte of input: the state after it and the text that it completes, or nothing if the byte
cannot continue the text. -/
@[inline] def step : TextDecoder → UInt8 → TextDecoder × Option Bytes
  | usAscii, byte => (usAscii, (SingleByte.ascii? byte).map Utf8.encode)
  | iso88591, byte => (iso88591, some (Utf8.encode (SingleByte.iso88591 byte)))
  | windows1252, byte => (windows1252, some (Utf8.encode (SingleByte.windows1252 byte)))
  | utf8 pending, byte => stepUtf8 pending byte
  | utf16le none high, byte => (utf16le (some byte) high, some [])
  | utf16le (some low) high, byte => stepUnit high (Utf16.unitOf low byte)

/-! ### Chunks -/

/-- Decode a chunk, up to the first byte that cannot continue the text. The text that was given
out before the chunk is in reverse, so that each byte takes the same time. -/
def decodeOnto (given : Bytes) (decoder : TextDecoder) : Bytes → Decoded TextDecoder
  | [] => ⟨decoder, given.reverse, none⟩
  | byte :: rest =>
    match decoder.step byte with
    | (next, none) => ⟨next, given.reverse, some .invalidCharacter⟩
    | (next, some text) => decodeOnto (text.reverseAux given) next rest

/-- Decode a chunk, up to the first byte that cannot continue the text. -/
def decode (decoder : TextDecoder) (chunk : Bytes) : Decoded TextDecoder :=
  decodeOnto [] decoder chunk

theorem decodeOnto_eq (given : Bytes) (decoder : TextDecoder) (chunk : Bytes) :
    decodeOnto given decoder chunk =
      { decoder.decode chunk with output := given.reverse ++ (decoder.decode chunk).output } := by
  unfold decode
  induction chunk generalizing given decoder with
  | nil => simp [decodeOnto]
  | cons byte rest inductionHypothesis =>
    unfold decodeOnto
    split
    · simp
    · rename_i next text _
      rw [inductionHypothesis, inductionHypothesis (text.reverseAux [])]
      simp [List.reverseAux_eq]

@[simp] theorem decode_nil (decoder : TextDecoder) : decoder.decode [] = ⟨decoder, [], none⟩ := rfl

/-- Decoding a chunk is a step for its first byte and decoding the rest. -/
theorem decode_cons (decoder : TextDecoder) (byte : UInt8) (rest : Bytes) :
    decoder.decode (byte :: rest) =
      match decoder.step byte with
      | (next, none) => ⟨next, [], some .invalidCharacter⟩
      | (next, some text) =>
        { next.decode rest with output := text ++ (next.decode rest).output } := by
  rw [decode, decodeOnto]
  split
  · rfl
  · rename_i next text _
    rw [decodeOnto_eq]
    simp [List.reverseAux_eq]

/-- Decoding two pieces at once is decoding one after the other, up to the first error. -/
theorem decode_append (decoder : TextDecoder) (front back : Bytes) :
    decoder.decode (front ++ back) =
      match decoder.decode front with
      | ⟨next, output, none⟩ =>
        { next.decode back with output := output ++ (next.decode back).output }
      | stopped => stopped := by
  induction front generalizing decoder with
  | nil => rfl
  | cons byte rest inductionHypothesis =>
    rw [List.cons_append, decode_cons, decode_cons]
    split
    · rfl
    · rename_i next text _
      rw [inductionHypothesis]
      rcases next.decode rest with ⟨after, output, _ | error⟩
      · simp only [List.append_assoc]
      · rfl

/-- The verdict at the end of the text, which must not cut a character. -/
def finish (decoder : TextDecoder) : Option ClientError :=
  if decoder.pendingBytes = [] ∧ decoder.highSurrogate = none then none
  else some .incompleteCharacter

end TextDecoder

end TabularStream
