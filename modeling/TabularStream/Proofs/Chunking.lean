/-
This file proves that the text of a value does not depend on how the value is cut. A payload may
arrive in any chunks of a PLP value, with any total, or as a scalar under any length strategy, and
the value may be held in any components: reading a stream over it to its end decodes the payload
as if it had come in one piece.

That is so for every payload that is text, and for one that ends within a character. Where a byte
cannot continue the text, the chunk that holds it gives nothing, so how much is read depends on
the chunks; it is always a front of the text before that byte.
-/

import TabularStream.Proofs.Agreement

namespace TabularStream

/-! ### The byte that stops a decoder -/

namespace TextDecoder

/-- A byte that cannot continue the text, after bytes that are decoded. -/
structure Refuses (decoder : TextDecoder) (front : Bytes) (byte : UInt8) : Prop where
  reads : (decoder.decode front).error = none
  stops : ((decoder.decode front).decoder.step byte).2 = none

/-- A decoder that stops has decoded the bytes in front of one that it refuses. -/
theorem exists_refuses {decoder : TextDecoder} {bytes : Bytes} {error : ClientError}
    (stopped : (decoder.decode bytes).error = some error) :
    ∃ front byte back, bytes = front ++ byte :: back ∧ decoder.Refuses front byte ∧
      (decoder.decode front).output = (decoder.decode bytes).output := by
  induction bytes generalizing decoder with
  | nil => cases stopped
  | cons first rest inductionHypothesis =>
    rw [decode_cons] at stopped ⊢
    cases step : decoder.step first with
    | mk next text =>
      rw [step] at stopped
      cases text with
      | none => exact ⟨[], first, rest, rfl, ⟨rfl, congrArg Prod.snd step⟩, rfl⟩
      | some text =>
        obtain ⟨front, byte, back, rfl, refuses, output⟩ := inductionHypothesis stopped
        have longer : decoder.decode (first :: front) =
            { next.decode front with output := text ++ (next.decode front).output } := by
          rw [decode_cons, step]
        refine ⟨first :: front, byte, back, rfl, ⟨?_, ?_⟩, ?_⟩
        · rw [longer]
          exact refuses.reads
        · rw [longer]
          exact refuses.stops
        · rw [longer]
          exact congrArg (text ++ ·) output

end TextDecoder

/-! ### Chunks put together -/

namespace SegmentDecoder

/-- Chunks of a text that stops a decoder stop it too, and give a front of what it has decoded. -/
theorem whole_of_stopped {decoder : TextDecoder} {chunks : List Bytes} {error : ClientError}
    (stopped : (decoder.decode chunks.flatten).error = some error) :
    ((text decoder).whole none chunks).error = some error ∧
      ((text decoder).whole none chunks).bytes <+: (decoder.decode chunks.flatten).output := by
  induction chunks generalizing decoder with
  | nil => cases stopped
  | cons chunk chunks inductionHypothesis =>
    rw [List.flatten_cons, TextDecoder.decode_append] at stopped ⊢
    unfold whole decode
    dsimp only
    generalize decoder.decode chunk = decoded at stopped ⊢
    obtain ⟨next, output, _ | error'⟩ := decoded
    · dsimp only at stopped ⊢
      obtain ⟨fails, front⟩ := inductionHypothesis stopped
      exact ⟨fails, (List.prefix_append_right_inj output).2 front⟩
    · exact ⟨stopped, List.nil_prefix⟩

end SegmentDecoder

/-! ### Values that hold a payload -/

/-- A value of a session that encodes a payload for a column: as a scalar or, cut into chunks, as a
PLP value, and held in any components. Its bytes are one string, so their number is a word. -/
structure Value.Encodes (value : Value) (session : Session) (type : ColumnType)
    (payload : Bytes) : Prop where
  reachable : session.Reachable
  owned : value.slices.Subperm session.handedOut
  countable : (value.bytes session.pool).length < Word.modulus
  written : ∃ payloads, WrittenValue type (some payloads) (value.bytes session.pool) ∧
    payloads.flatten = payload

variable {session session' : Session} {value value' : Value} {type type' : ColumnType}
  {payload : Bytes}

/-- Reading a stream over a value to its end decodes the chunks of its payload. -/
theorem Value.Encodes.exists_readAll (encodes : value.Encodes session type payload) :
    ∃ payloads, payloads.flatten = payload ∧ ∀ kind config,
      ((Stream.ofValue kind value type config).readAll session.pool).answer =
        (SegmentDecoder.new kind type).whole none payloads := by
  obtain ⟨payloads, written, whole⟩ := encodes.written
  obtain ⟨others, accounts⟩ := encodes.reachable.accounts_of_subperm encodes.owned
  exact ⟨payloads, whole, Value.readAll_of_written accounts encodes.countable written⟩

/-- What is read of a payload by a character stream. -/
theorem Value.Encodes.readAll_character (encodes : value.Encodes session type payload)
    (config : StreamConfig) :
    let decoded := (TextDecoder.ofType type).decode payload
    let whole := ((Stream.ofValue .character value type config).readAll session.pool).answer
    match decoded.error with
    | none => whole = ⟨decoded.output, decoded.decoder.finish⟩
    | some error => whole.error = some error ∧ whole.bytes <+: decoded.output := by
  obtain ⟨payloads, rfl, read⟩ := encodes.exists_readAll
  dsimp only
  rw [read]
  cases stopped : ((TextDecoder.ofType type).decode payloads.flatten).error with
  | none =>
    have reads : ((SegmentDecoder.new .character type).decode payloads.flatten).error = none :=
      stopped
    exact SegmentDecoder.whole_of_decode reads none
  | some error => exact SegmentDecoder.whole_of_stopped stopped

/-- A binary stream gives the payload. -/
theorem Value.Encodes.readAll_binary (encodes : value.Encodes session type payload)
    (config : StreamConfig) :
    ((Stream.ofValue .binary value type config).readAll session.pool).answer =
      ⟨payload, none⟩ := by
  obtain ⟨payloads, rfl, read⟩ := encodes.exists_readAll
  rw [read]
  exact SegmentDecoder.whole_binary none payloads

/-- Text does not depend on how it was cut. Two values that encode one payload in one character set
are read with the same error, by character streams with any demand. If the payload is text, or ends
within a character, it is also the same text; if it has a byte that cannot continue the text, both
are fronts of the text before that byte. Binary streams give the payload. -/
theorem text_independent_of_chunks (one : value.Encodes session type payload)
    (other : value'.Encodes session' type' payload) (same : type'.charset = type.charset)
    (config config' : StreamConfig) :
    ∃ text text',
      ((Stream.ofValue .character value type config).readAll session.pool).answer = text ∧
      ((Stream.ofValue .character value' type' config').readAll session'.pool).answer = text' ∧
      text.error = text'.error ∧
      ((text.error = none ∨ text.error = some .incompleteCharacter) ∧ text.bytes = text'.bytes ∧
          text.bytes = ((TextDecoder.ofCharset type.charset).decode payload).output ∨
        text.error = some .invalidCharacter ∧ ∃ front byte back,
          payload = front ++ byte :: back ∧
          (TextDecoder.ofCharset type.charset).Refuses front byte ∧
          text.bytes <+: ((TextDecoder.ofCharset type.charset).decode front).output ∧
          text'.bytes <+: ((TextDecoder.ofCharset type.charset).decode front).output) ∧
      ((Stream.ofValue .binary value type config).readAll session.pool).answer =
        ⟨payload, none⟩ ∧
      ((Stream.ofValue .binary value' type' config').readAll session'.pool).answer =
        ⟨payload, none⟩ := by
  have read := one.readAll_character config
  have read' := other.readAll_character config'
  have decoder : TextDecoder.ofType type' = TextDecoder.ofType type :=
    congrArg TextDecoder.ofCharset same
  dsimp only at read read'
  rw [decoder] at read'
  have pieces := one.readAll_binary config
  have pieces' := other.readAll_binary config'
  cases stopped : ((TextDecoder.ofType type).decode payload).error with
  | none =>
    rw [stopped] at read read'
    have agree := read.trans read'.symm
    refine ⟨_, _, rfl, rfl, congrArg Stream.Whole.error agree, .inl ⟨?_, ?_, ?_⟩, pieces, pieces'⟩
    · rw [read]
      cases cut : ((TextDecoder.ofType type).decode payload).decoder.finish with
      | none => exact .inl rfl
      | some error => exact .inr (congrArg some (TextDecoder.eq_of_finish cut))
    · exact congrArg Stream.Whole.bytes agree
    · exact congrArg Stream.Whole.bytes read
  | some error =>
    rw [stopped] at read read'
    cases TextDecoder.eq_of_decode_error stopped
    obtain ⟨front, byte, back, cut, refuses, output⟩ := TextDecoder.exists_refuses stopped
    rw [← output] at read read'
    exact ⟨_, _, rfl, rfl, read.1.trans read'.1.symm,
      .inr ⟨read.1, front, byte, back, cut, refuses, read.2, read'.2⟩, pieces, pieces'⟩

/-- The letter A and a character of two UTF-16 units. -/
def pairedText : Bytes := [0x41, 0, 0x3D, 0xD8, 0, 0xDE]

/-- The text as a PLP value in four chunks. The cuts are within both units, and between them. -/
def pairedChunks : Bytes :=
  PlpTotal.unknown.encode ++ ((ChunkLength.mk 3).encode ++ [0x41, 0, 0x3D] ++
    ((ChunkLength.mk 1).encode ++ [0xD8] ++ ((ChunkLength.mk 1).encode ++ [0] ++
      ((ChunkLength.mk 1).encode ++ [0xDE] ++ (ChunkLength.mk 0).encode))))

/-- A session whose only value holds these chunks in components cut anywhere. -/
def chunkedSession : Session :=
  (Session.fresh {} []).after
    [.value (.ofParts [pairedChunks.take 5, (pairedChunks.drop 5).take 12, [],
      pairedChunks.drop 17])]

/-- A session whose only value is the text as a scalar. -/
def scalarSession : Session :=
  (Session.fresh {} []).after [.value (.ofBytes (some ([6, 0] ++ pairedText)))]

theorem text_independent_of_chunks_pairedText :
    ((Stream.ofValue .character (.chunked (Composite.ofList chunkedSession.handedOut))
        ⟨.nvarcharMax, .part, 0, .utf16le, 0, 0⟩ {}).readAll chunkedSession.pool).answer =
      ⟨[0x41, 0xF0, 0x9F, 0x98, 0x80], none⟩ := by
  have new : Session.new {} [] = .ok (Session.fresh {} []) := rfl
  have chunks : WrittenChunks [[0x41, 0, 0x3D], [0xD8], [0], [0xDE]]
      ((ChunkLength.mk 3).encode ++ [0x41, 0, 0x3D] ++ ((ChunkLength.mk 1).encode ++ [0xD8] ++
        ((ChunkLength.mk 1).encode ++ [0] ++ ((ChunkLength.mk 1).encode ++ [0xDE] ++
          (ChunkLength.mk 0).encode)))) :=
    .chunk rfl rfl (.chunk rfl rfl (.chunk rfl rfl (.chunk rfl rfl .terminator)))
  have one : (Value.chunked (Composite.ofList chunkedSession.handedOut)).Encodes chunkedSession
      ⟨.nvarcharMax, .part, 0, .utf16le, 0, 0⟩ pairedText := by
    refine ⟨(Session.Reachable.new new).after (by decide), List.Subperm.refl _, by decide +kernel,
      [[0x41, 0, 0x3D], [0xD8], [0], [0xDE]], ?_, rfl⟩
    have bytes : (Value.chunked (Composite.ofList chunkedSession.handedOut)).bytes
        chunkedSession.pool = pairedChunks := by decide +kernel
    rw [bytes]
    exact .plp rfl rfl chunks
  have other : (Value.scalar scalarSession.handedOut.head?).Encodes scalarSession
      ⟨.nvarchar, .ushort, 8, .utf16le, 0, 0⟩ pairedText := by
    refine ⟨(Session.Reachable.new new).after (by decide), List.Subperm.refl _, by decide +kernel,
      [pairedText], ?_, rfl⟩
    have bytes : (Value.scalar scalarSession.handedOut.head?).bytes scalarSession.pool =
        [6, 0] ++ pairedText := by decide +kernel
    rw [bytes]
    exact .scalar rfl rfl rfl rfl
  obtain ⟨text, text', read, read', error, agree, -⟩ :=
    text_independent_of_chunks one other rfl {} ⟨1⟩
  have scalar : ((Stream.ofValue .character (.scalar scalarSession.handedOut.head?)
      ⟨.nvarchar, .ushort, 8, .utf16le, 0, 0⟩ ⟨1⟩).readAll scalarSession.pool).answer =
        ⟨[0x41, 0xF0, 0x9F, 0x98, 0x80], none⟩ := by decide +kernel
  cases scalar.symm.trans read'
  rw [read]
  obtain ⟨bytes, _⟩ := text
  cases error
  rcases agree with ⟨-, same, -⟩ | ⟨invalid, -⟩
  · exact congrArg (Stream.Whole.mk · none) same
  · cases invalid

end TabularStream
