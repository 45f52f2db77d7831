/-
This file says what reading a stream to its end gives. Only the decoder and the chunks that its
reader still gives decide it, not the demand: `SegmentDecoder.whole` decodes one chunk after the
other. For a binary object that is the chunks put together, and for a character object the only
errors of its own are those of the text.

That takes no invariant. `ChunkReader.toCome` reads on to the end, whatever the reader finds there.
For a reader that is sound these are the contents of the bytes that it has not read, so it makes no
difference how the value is cut into components.
-/

import TabularStream.Proofs.Demand
import TabularStream.Proofs.Unread

namespace TabularStream

/-! ### Decoding all chunks -/

namespace TextDecoder

theorem eq_of_decode_error {decoder : TextDecoder} {chunk : Bytes} {error : ClientError}
    (stopped : (decoder.decode chunk).error = some error) : error = .invalidCharacter := by
  induction chunk generalizing decoder with
  | nil => cases stopped
  | cons byte rest inductionHypothesis =>
    rw [decode_cons] at stopped
    split at stopped
    · cases stopped
      rfl
    · exact inductionHypothesis stopped

theorem eq_of_finish {decoder : TextDecoder} {error : ClientError}
    (cut : decoder.finish = some error) : error = .incompleteCharacter := by
  unfold finish at cut
  split at cut
  · cases cut
  · cases cut
    rfl

end TextDecoder

namespace SegmentDecoder

/-- What decoding chunks gives, which may end with an error of their own. -/
def whole (ending : Option ClientError) : SegmentDecoder → List Bytes → Stream.Whole
  | decoder, [] => ⟨[], ending.or decoder.finish⟩
  | decoder, chunk :: chunks =>
    let decoded := decoder.decode chunk
    match decoded.error with
    | some error => ⟨[], some error⟩
    | none =>
      let rest := whole ending decoded.decoder chunks
      ⟨decoded.output ++ rest.bytes, rest.error⟩

theorem whole_cons (ending : Option ClientError) (decoder : SegmentDecoder) (chunk : Bytes)
    (chunks : List Bytes) : decoder.whole ending (chunk :: chunks) =
      match (decoder.decode chunk).error with
      | some error => ⟨[], some error⟩
      | none =>
        let rest := (decoder.decode chunk).decoder.whole ending chunks
        ⟨(decoder.decode chunk).output ++ rest.bytes, rest.error⟩ := rfl

/-- A binary object is its chunks put together. -/
theorem whole_binary (ending : Option ClientError) (chunks : List Bytes) :
    binary.whole ending chunks = ⟨chunks.flatten, ending⟩ := by
  induction chunks with
  | nil => exact congrArg (Stream.Whole.mk []) Option.or_none
  | cons chunk chunks inductionHypothesis =>
    rw [whole_cons]
    dsimp only [decode]
    rw [inductionHypothesis]
    rfl

/-- Decoding one chunk and then another is decoding them as one. -/
theorem decode_append (decoder : SegmentDecoder) (front back : Bytes) :
    decoder.decode (front ++ back) =
      match decoder.decode front with
      | ⟨next, output, none⟩ =>
        { next.decode back with output := output ++ (next.decode back).output }
      | stopped => stopped := by
  cases decoder with
  | binary => rfl
  | text decoder =>
    unfold decode
    dsimp only
    rw [TextDecoder.decode_append]
    generalize decoder.decode front = decoded
    obtain ⟨next, output, _ | error⟩ := decoded <;> rfl

/-- Chunks in front that are decoded without an error are decoded as one. -/
theorem whole_append {decoder : SegmentDecoder} {front : List Bytes}
    (reads : (decoder.decode front.flatten).error = none) (ending : Option ClientError)
    (back : List Bytes) :
    decoder.whole ending (front ++ back) =
      let decoded := decoder.decode front.flatten
      let later := decoded.decoder.whole ending back
      ⟨decoded.output ++ later.bytes, later.error⟩ := by
  induction front generalizing decoder with
  | nil => cases decoder <;> rfl
  | cons chunk front inductionHypothesis =>
    rw [List.flatten_cons, decode_append] at reads ⊢
    rw [List.cons_append, whole_cons]
    generalize decoder.decode chunk = decoded at reads ⊢
    obtain ⟨next, output, _ | error⟩ := decoded
    · dsimp only at reads ⊢
      rw [inductionHypothesis reads, List.append_assoc]
    · cases reads

/-- Chunks that are decoded without an error are decoded as one. -/
theorem whole_of_decode {decoder : SegmentDecoder} {chunks : List Bytes}
    (reads : (decoder.decode chunks.flatten).error = none) (ending : Option ClientError) :
    decoder.whole ending chunks = ⟨(decoder.decode chunks.flatten).output,
      ending.or (decoder.decode chunks.flatten).decoder.finish⟩ := by
  have same := whole_append reads ending []
  rw [List.append_nil] at same
  rw [same]
  exact congrArg (Stream.Whole.mk · _) (List.append_nil _)

/-- A chunk that cannot be decoded gives nothing, and nothing comes after it. -/
theorem whole_of_error {decoder : SegmentDecoder} {front : List Bytes} {chunk : Bytes}
    {error : ClientError} (reads : (decoder.decode front.flatten).error = none)
    (stopped : ((decoder.decode front.flatten).decoder.decode chunk).error = some error)
    (ending : Option ClientError) (chunks : List Bytes) :
    decoder.whole ending (front ++ chunk :: chunks) =
      ⟨(decoder.decode front.flatten).output, some error⟩ := by
  rw [whole_append reads]
  dsimp only
  rw [whole_cons, stopped]
  exact congrArg (Stream.Whole.mk · _) (List.append_nil _)

/-- The text of chunks that end well can only be wrong in its characters. -/
theorem eq_of_whole_text {decoder : TextDecoder} {chunks : List Bytes} {error : ClientError}
    (failed : ((text decoder).whole none chunks).error = some error) :
    error = .invalidCharacter ∨ error = .incompleteCharacter := by
  induction chunks generalizing decoder with
  | nil => exact .inr (TextDecoder.eq_of_finish failed)
  | cons chunk chunks inductionHypothesis =>
    rw [whole_cons] at failed
    split at failed
    · rename_i stopped
      cases failed
      exact .inl (TextDecoder.eq_of_decode_error stopped)
    · exact inductionHypothesis failed

end SegmentDecoder

/-! ### The chunks to come -/

namespace ChunkReader

/-- The chunks that reading on gives, and the error that ends them. -/
def toCome (reader : ChunkReader) (pool : Pool) : Contents :=
  let pulled := reader.next pool
  match _chunk : pulled.event with
  | .malformed error => .malformed error
  | .done => .empty
  | .chunk payload =>
    let released := pulled.reader.releaseConsumed pulled.pool
    .cons payload (released.2.toCome released.1)
termination_by reader.remaining
decreasing_by
  rw [remaining_releaseConsumed]
  exact remaining_next_lt _chunk

variable {reader : ChunkReader} {pool : Pool} {others : List Slice}

/-- The chunks to come, by what the next call gives. -/
theorem toCome_eq (reader : ChunkReader) (pool : Pool) :
    reader.toCome pool =
      let pulled := reader.next pool
      match pulled.event with
      | .malformed error => .malformed error
      | .done => .empty
      | .chunk payload =>
        let released := pulled.reader.releaseConsumed pulled.pool
        .cons payload (released.2.toCome released.1) := by
  rw [toCome]
  dsimp only
  split <;> rename_i event <;> rw [event]

theorem toCome_of_malformed {error : ClientError}
    (event : (reader.next pool).event = .malformed error) :
    reader.toCome pool = .malformed error := by
  rw [toCome_eq]
  dsimp only
  rw [event]

theorem toCome_of_done (event : (reader.next pool).event = .done) :
    reader.toCome pool = .empty := by
  rw [toCome_eq]
  dsimp only
  rw [event]

theorem toCome_of_chunk {payload : Bytes} (event : (reader.next pool).event = .chunk payload) :
    let pulled := reader.next pool
    let released := pulled.reader.releaseConsumed pulled.pool
    reader.toCome pool = .cons payload (released.2.toCome released.1) := by
  rw [toCome_eq]
  dsimp only
  rw [event]

/-- The chunks to come are those of the bytes that have not been read. -/
theorem Sound.toCome (sound : reader.Sound pool others) :
    reader.toCome pool = reader.ahead pool := by
  fun_induction ChunkReader.toCome reader pool with
  | case1 reader pool pulled error malformed => exact (sound.next.gives.of_malformed malformed).symm
  | case2 reader pool pulled done => exact (sound.next.gives.of_done done).symm
  | case3 reader pool pulled payload chunk released inductionHypothesis =>
    have left := sound.next.sound
    rw [inductionHypothesis left.releaseConsumed.1, left.ahead_releaseConsumed,
      sound.next.gives.of_chunk chunk]

end ChunkReader

/-! ### Reading to the end -/

namespace Stream

/-- What reading a stream to its end will give. -/
def whole (stream : Stream) (pool : Pool) : Whole :=
  stream.decoder.whole (stream.reader.toCome pool).error (stream.reader.toCome pool).chunks

/-- What an event takes from what reading to the end gives. -/
inductive Takes (whole : Whole) : Streamed Event → Prop where
  | segment {streamed : Streamed Event} {bytes : Bytes} (event : streamed.answer = .segment bytes)
      (active : streamed.stream.verdict? = none)
      (front : whole.bytes = bytes ++ (streamed.stream.whole streamed.pool).bytes)
      (error : whole.error = (streamed.stream.whole streamed.pool).error) :
      Takes whole streamed
  | needsDemand {streamed : Streamed Event} (event : streamed.answer = .needsDemand)
      (active : streamed.stream.verdict? = none)
      (same : whole = streamed.stream.whole streamed.pool) : Takes whole streamed
  | ended {streamed : Streamed Event} (event : streamed.answer = .ended)
      (same : whole = ⟨[], none⟩) : Takes whole streamed
  | failed {streamed : Streamed Event} {error : ClientError}
      (event : streamed.answer = .failed error) (same : whole = ⟨[], some error⟩) :
      Takes whole streamed

variable {stream : Stream} {pool : Pool}

/-- The stream after a chunk has been read and decoded. -/
def afterChunk (stream : Stream) (pool : Pool) (payload : Bytes) : Stream :=
  let pulled := stream.reader.next pool
  { stream with
    reader := (pulled.reader.releaseConsumed pulled.pool).2
    decoder := (stream.decoder.decode payload).decoder }

/-- A chunk that has been read and decoded is gone from what is left. -/
theorem whole_of_chunk {payload : Bytes}
    (chunk : (stream.reader.next pool).event = .chunk payload) :
    let pulled := stream.reader.next pool
    let rest := (stream.afterChunk pool payload).whole (pulled.reader.releaseConsumed pulled.pool).1
    stream.whole pool =
      match (stream.decoder.decode payload).error with
      | some error => ⟨[], some error⟩
      | none => ⟨(stream.decoder.decode payload).output ++ rest.bytes, rest.error⟩ := by
  unfold whole Stream.afterChunk
  dsimp only
  rw [ChunkReader.toCome_of_chunk chunk]
  rfl

/-- The next event of an active stream is the next part of what reading it to its end gives. -/
theorem takes_pull (active : stream.verdict? = none) :
    Takes (stream.whole pool) (stream.pull pool) := by
  fun_induction Stream.pull stream pool with
  | case1 stream pool => exact .needsDemand rfl active rfl
  | case2 stream pool _ pulled error malformed =>
    refine .failed rfl ?_
    unfold whole
    rw [ChunkReader.toCome_of_malformed malformed]
    rfl
  | case3 stream pool _ pulled done _ error cut =>
    refine .failed rfl ?_
    unfold whole
    rw [ChunkReader.toCome_of_done done]
    exact congrArg (Whole.mk []) cut
  | case4 stream pool _ pulled done _ ends =>
    refine .ended rfl ?_
    unfold whole
    rw [ChunkReader.toCome_of_done done]
    exact congrArg (Whole.mk []) ends
  | case5 stream pool _ pulled payload chunk decoded released _ error stopped =>
    refine .failed rfl ?_
    rw [whole_of_chunk chunk, stopped]
  | case6 stream pool _ pulled payload chunk decoded released _ ends empty inductionHypothesis =>
    have same := whole_of_chunk chunk
    rw [ends, empty] at same
    exact same ▸ inductionHypothesis active
  | case7 stream pool _ pulled payload chunk decoded released _ ends some =>
    have same := whole_of_chunk chunk
    rw [ends] at same
    refine .segment rfl active ?_ ?_ <;> rw [same] <;> rfl

theorem takes_next (active : stream.verdict? = none) :
    Takes (stream.whole pool) (stream.next pool) := by
  rw [next_of_active active]
  exact takes_pull active

/-- Reading to the end gives what the decoder makes of the chunks that were to come. -/
theorem answer_readAll (active : stream.verdict? = none) :
    (stream.readAll pool).answer = stream.whole pool := by
  fun_induction Stream.readAll stream pool with
  | case1 stream pool step bytes event rest inductionHypothesis =>
    cases takes_next active with
    | segment event' left front error =>
      cases event.symm.trans event'
      have later := inductionHypothesis left
      show Whole.mk (bytes ++ rest.answer.bytes) rest.answer.error = _
      rw [later, ← front, ← error]
    | needsDemand event' | ended event' | failed event' => cases event.symm.trans event'
  | case2 stream pool step event inductionHypothesis =>
    cases takes_next active with
    | needsDemand event' left same => exact (inductionHypothesis left).trans same.symm
    | segment event' | ended event' | failed event' => cases event.symm.trans event'
  | case3 stream pool step event =>
    cases takes_next active with
    | ended _ same => exact same.symm
    | segment event' | needsDemand event' | failed event' => cases event.symm.trans event'
  | case4 stream pool step error event =>
    cases takes_next active with
    | failed event' same =>
      cases event.symm.trans event'
      exact same.symm
    | segment event' | needsDemand event' | ended event' => cases event.symm.trans event'

end Stream

end TabularStream
