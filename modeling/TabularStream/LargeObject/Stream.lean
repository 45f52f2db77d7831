/-
This file holds streams over large objects. A stream owns a value and gives it out segment by
segment, one for each chunk that completes something. It gives out no more segments than were
asked for: `request` adds to the demand, each segment takes one from it, and without demand the
stream waits at a chunk that has a payload. The end of a value needs no demand.

A stream that has ended, failed or been cancelled owns nothing and answers the same for ever.
`readAll` asks for one segment after the other until then.
-/

import TabularStream.LargeObject.ReaderStep
import TabularStream.LargeObject.Segment

namespace TabularStream

/-- How a stream is tuned. -/
structure StreamConfig where
  /-- The demand before the first request. -/
  initialDemand : UInt64 := 0
  deriving DecidableEq, Repr

namespace Stream

/-- The life of a stream. -/
inductive State where
  | active
  | ended
  | failed (error : ClientError)
  | cancelled
  deriving DecidableEq, Repr

/-- What asking for the next segment gives. -/
inductive Event where
  | segment (bytes : Bytes)
  /-- There is another segment, but no demand for it. -/
  | needsDemand
  | ended
  | failed (error : ClientError)
  deriving DecidableEq, Repr

end Stream

/-- A stream over a large object. -/
structure Stream where
  reader : ChunkReader
  decoder : SegmentDecoder
  /-- The number of segments that may be given out, a 64-bit word. -/
  demand : UInt64
  state : Stream.State
  deriving DecidableEq, Repr

/-- What using a stream leaves: the pool, the stream, and an answer. -/
structure Streamed (Answer : Type) where
  pool : Pool
  stream : Stream
  answer : Answer
  deriving DecidableEq, Repr

namespace Stream

/-- A stream at the start of a value. -/
def ofValue (kind : LargeObjectKind) (value : Value) (type : ColumnType)
    (config : StreamConfig) : Stream :=
  ⟨ChunkReader.ofValue value type, SegmentDecoder.new kind type, config.initialDemand, .active⟩

/-- The slices that a stream owns. -/
def slices (stream : Stream) : List Slice := stream.reader.data.live

/-- Does the stream own a part of the value? -/
def owns (stream : Stream) : Bool := stream.reader.owns

/-- Has the stream ended, failed or been cancelled? -/
def isDone (stream : Stream) : Bool := stream.state != .active

/-- Ask for more segments. The demand is counted modulo `2^64`. -/
def request (stream : Stream) (count : UInt64) : Stream :=
  { stream with demand := stream.demand + count }

/-! ### Stopping -/

/-- Release the value. An active stream goes to the given state. -/
def stop (stream : Stream) (pool : Pool) (state : State) : Pool × Stream :=
  let (pool, reader) := stream.reader.release pool
  (pool, { stream with reader, state := if stream.isDone then stream.state else state })

/-- Give the value up. Asking for segments fails from now on. -/
def cancel (stream : Stream) (pool : Pool) : Pool × Stream := stream.stop pool .cancelled

/-- Skip the rest of the value. There are no segments from now on. -/
def discard (stream : Stream) (pool : Pool) : Pool × Stream := stream.stop pool .ended

/-- Fail with an error. -/
def fail (stream : Stream) (pool : Pool) (error : ClientError) : Streamed Event :=
  let (pool, reader) := stream.reader.release pool
  ⟨pool, { stream with reader, state := .failed error }, .failed error⟩

/-! ### Going on -/

/-- The next event of an active stream: chunks are read until one completes something. -/
def pull (stream : Stream) (pool : Pool) : Streamed Event :=
  if stream.demand = 0 ∧ stream.reader.chunkAhead pool then ⟨pool, stream, .needsDemand⟩
  else
    let pulled := stream.reader.next pool
    match chunk : pulled.event with
    | .malformed error => { stream with reader := pulled.reader }.fail pulled.pool error
    | .done =>
      let stream := { stream with reader := pulled.reader }
      match stream.decoder.finish with
      | some error => stream.fail pulled.pool error
      | none => ⟨pulled.pool, { stream with state := .ended }, .ended⟩
    | .chunk payload =>
      let decoded := stream.decoder.decode payload
      let released := pulled.reader.releaseConsumed pulled.pool
      let stream := { stream with reader := released.2, decoder := decoded.decoder }
      match decoded.error with
      | some error => stream.fail released.1 error
      | none =>
        if decoded.output = [] then stream.pull released.1
        else
          ⟨released.1, { stream with demand := stream.demand - 1 }, .segment decoded.output⟩
termination_by stream.reader.remaining
decreasing_by
  rw [ChunkReader.remaining_releaseConsumed]
  exact ChunkReader.remaining_next_lt chunk

/-- What a pull does, by what its reader gives. -/
theorem pull_eq (stream : Stream) (pool : Pool) :
    stream.pull pool =
      if stream.demand = 0 ∧ stream.reader.chunkAhead pool then ⟨pool, stream, .needsDemand⟩
      else
        let pulled := stream.reader.next pool
        match pulled.event with
        | .malformed error => { stream with reader := pulled.reader }.fail pulled.pool error
        | .done =>
          let stream := { stream with reader := pulled.reader }
          match stream.decoder.finish with
          | some error => stream.fail pulled.pool error
          | none => ⟨pulled.pool, { stream with state := .ended }, .ended⟩
        | .chunk payload =>
          let decoded := stream.decoder.decode payload
          let released := pulled.reader.releaseConsumed pulled.pool
          let stream := { stream with reader := released.2, decoder := decoded.decoder }
          match decoded.error with
          | some error => stream.fail released.1 error
          | none =>
            if decoded.output = [] then stream.pull released.1
            else
              ⟨released.1, { stream with demand := stream.demand - 1 },
                .segment decoded.output⟩ := by
  rw [pull]
  split
  · rfl
  · generalize stream.reader.next pool = pulled
    obtain ⟨pool', reader, event⟩ := pulled
    cases event <;> rfl

/-- The next event of a stream. -/
def next (stream : Stream) (pool : Pool) : Streamed Event :=
  match stream.state with
  | .active => stream.pull pool
  | .ended => ⟨pool, stream, .ended⟩
  | .failed error => ⟨pool, stream, .failed error⟩
  | .cancelled => ⟨pool, stream, .failed .streamCancelled⟩

/-! ### Reading to the end -/

/-- Giving out a segment brings the stream closer to the end of its value. -/
theorem remaining_pull_lt {stream : Stream} {pool : Pool} {bytes : Bytes}
    (segment : (stream.pull pool).answer = .segment bytes) :
    (stream.pull pool).stream.reader.remaining < stream.reader.remaining := by
  fun_induction pull stream pool with
  | case6 stream pool _ pulled payload chunk decoded released _ _ _ inductionHypothesis =>
    refine Nat.lt_trans (inductionHypothesis segment) ?_
    show released.2.remaining < _
    rw [ChunkReader.remaining_releaseConsumed]
    exact ChunkReader.remaining_next_lt chunk
  | case7 stream pool _ pulled payload chunk =>
    show ((stream.reader.next pool).reader.releaseConsumed _).2.remaining < _
    rw [ChunkReader.remaining_releaseConsumed]
    exact ChunkReader.remaining_next_lt chunk
  | _ => cases segment

/-- A stream that waits for demand has none, and has not gone back. -/
theorem pull_of_needsDemand {stream : Stream} {pool : Pool}
    (waits : (stream.pull pool).answer = .needsDemand) :
    stream.demand = 0 ∧ (stream.pull pool).stream.demand = 0 ∧
      (stream.pull pool).stream.reader.remaining ≤ stream.reader.remaining := by
  fun_induction pull stream pool with
  | case1 stream pool ahead => exact ⟨ahead.1, ahead.1, Nat.le_refl _⟩
  | case6 stream pool _ pulled payload chunk decoded released _ _ _ inductionHypothesis =>
    obtain ⟨before, after, closer⟩ := inductionHypothesis waits
    refine ⟨before, after, Nat.le_trans closer ?_⟩
    show released.2.remaining ≤ _
    rw [ChunkReader.remaining_releaseConsumed]
    exact Nat.le_of_lt (ChunkReader.remaining_next_lt chunk)
  | _ => cases waits

/-- The steps that reading to the end can still take: two for each chunk, because demand may
have to be asked for. -/
def remaining (stream : Stream) : Nat :=
  2 * stream.reader.remaining + if stream.demand = 0 then 1 else 0

theorem remaining_next_of_segment {stream : Stream} {pool : Pool} {bytes : Bytes}
    (segment : (stream.next pool).answer = .segment bytes) :
    (stream.next pool).stream.remaining < stream.remaining := by
  unfold next at segment ⊢
  cases state : stream.state <;> simp only [state] at segment ⊢
  case active =>
    have closer := remaining_pull_lt segment
    unfold remaining
    split <;> omega
  all_goals cases segment

theorem remaining_request_of_needsDemand {stream : Stream} {pool : Pool}
    (waits : (stream.next pool).answer = .needsDemand) :
    ((stream.next pool).stream.request 1).remaining < stream.remaining := by
  unfold next at waits ⊢
  cases state : stream.state <;> simp only [state] at waits ⊢
  case active =>
    obtain ⟨before, after, closer⟩ := pull_of_needsDemand waits
    simp only [remaining, request, before, after, UInt64.zero_add, if_true]
    rw [if_neg (by decide)]
    omega
  all_goals cases waits

/-- What reading to the end gives: the bytes of all segments, and the error that ended it. -/
structure Whole where
  bytes : Bytes
  error : Option ClientError
  deriving DecidableEq, Repr

/-- Read to the end, asking for a segment whenever the stream waits for demand. -/
def readAll (stream : Stream) (pool : Pool) : Streamed Whole :=
  let step := stream.next pool
  match _event : step.answer with
  | .segment bytes =>
    let rest := step.stream.readAll step.pool
    ⟨rest.pool, rest.stream, ⟨bytes ++ rest.answer.bytes, rest.answer.error⟩⟩
  | .needsDemand => (step.stream.request 1).readAll step.pool
  | .ended => ⟨step.pool, step.stream, ⟨[], none⟩⟩
  | .failed error => ⟨step.pool, step.stream, ⟨[], some error⟩⟩
termination_by stream.remaining
decreasing_by
  · exact remaining_next_of_segment _event
  · exact remaining_request_of_needsDemand _event

/-! ### Using a stream -/

/-- The ways to use a stream. -/
inductive Op where
  | next
  | request (count : UInt64)
  | cancel
  | discard
  | readAll
  | info
  deriving DecidableEq, Repr

/-- The answers of a stream. -/
inductive Reply where
  | nothing
  | event (event : Event)
  | whole (whole : Whole)
  | info (demand : UInt64) (done owns : Bool)
  deriving DecidableEq, Repr

/-- The answer about the stream itself. -/
def info (stream : Stream) : Reply := .info stream.demand stream.isDone stream.owns

/-- Use a stream. -/
def perform (stream : Stream) (pool : Pool) : Op → Streamed Reply
  | .next =>
    let step := stream.next pool
    ⟨step.pool, step.stream, .event step.answer⟩
  | .request count => ⟨pool, stream.request count, .nothing⟩
  | .cancel =>
    let (pool, stream) := stream.cancel pool
    ⟨pool, stream, .nothing⟩
  | .discard =>
    let (pool, stream) := stream.discard pool
    ⟨pool, stream, .nothing⟩
  | .readAll =>
    let run := stream.readAll pool
    ⟨run.pool, run.stream, .whole run.answer⟩
  | .info => ⟨pool, stream, stream.info⟩

/-- Release what the stream owns, at the end of its life. -/
def drop (stream : Stream) (pool : Pool) : Pool := pool.releaseAll stream.slices

end Stream

end TabularStream
