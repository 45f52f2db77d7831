/-
This file says what reading a stream to its end does, in every state that a stream can get into and
whatever its value holds. It comes to an end in a number of rounds that is bounded by the bytes
left. It takes the segments that a stream would still give that never waits, and ends with the last
answer of that stream. In terms of the chunks that are left, it takes the output of those that can
be decoded and nothing of one that cannot. Afterwards the stream is done and owns nothing, and
reading it again gives no more than the same outcome.
-/

import Mathlib.Data.List.Induction
import TabularStream.Proofs.Rounds
import TabularStream.Proofs.Streaming

namespace TabularStream

/-! ### The chunk that stops a decoder -/

namespace SegmentDecoder

/-- What decoding some contents comes to: the output of all chunks, or of those in front of one
that cannot be decoded. -/
inductive Outcome (decoder : SegmentDecoder) (contents : Contents) : Stream.Whole → Prop where
  | clean (reads : (decoder.decode contents.chunks.flatten).error = none) :
      Outcome decoder contents ⟨(decoder.decode contents.chunks.flatten).output,
        contents.error.or (decoder.decode contents.chunks.flatten).decoder.finish⟩
  | stopped (front : List Bytes) (chunk : Bytes) (back : List Bytes) (error : ClientError)
      (split : contents.chunks = front ++ chunk :: back)
      (reads : (decoder.decode front.flatten).error = none)
      (stops : ((decoder.decode front.flatten).decoder.decode chunk).error = some error) :
      Outcome decoder contents ⟨(decoder.decode front.flatten).output, some error⟩

/-- After bytes that are decoded without an error it is the next ones that may have one. -/
theorem error_append {decoder : SegmentDecoder} {front : Bytes}
    (reads : (decoder.decode front).error = none) (back : Bytes) :
    (decoder.decode (front ++ back)).error =
      ((decoder.decode front).decoder.decode back).error := by
  rw [decode_append]
  generalize decoder.decode front = decoded at reads ⊢
  obtain ⟨next, output, error⟩ := decoded
  cases reads
  rfl

/-- Chunks are decoded without an error, or there is a first one that cannot be decoded. -/
theorem exists_stopped (decoder : SegmentDecoder) (chunks : List Bytes) :
    (decoder.decode chunks.flatten).error = none ∨
      ∃ front chunk back error, chunks = front ++ chunk :: back ∧
        (decoder.decode front.flatten).error = none ∧
        ((decoder.decode front.flatten).decoder.decode chunk).error = some error := by
  induction chunks using List.reverseRecOn with
  | nil => exact .inl (by cases decoder <;> rfl)
  | append_singleton front chunk inductionHypothesis =>
    rcases inductionHypothesis with reads | ⟨front', chunk', back, error, rfl, reads, stops⟩
    · have last := error_append reads chunk
      rw [List.flatten_append, List.flatten_singleton]
      cases stops : ((decoder.decode front.flatten).decoder.decode chunk).error with
      | none => exact .inl (last.trans stops)
      | some error => exact .inr ⟨front, chunk, [], error, rfl, reads, stops⟩
    · refine .inr ⟨front', chunk', back ++ [chunk], error, ?_, reads, stops⟩
      rw [List.append_assoc, List.cons_append]

theorem outcome_whole (decoder : SegmentDecoder) (contents : Contents) :
    decoder.Outcome contents (decoder.whole contents.error contents.chunks) := by
  rcases decoder.exists_stopped contents.chunks with
    reads | ⟨front, chunk, back, error, split, reads, stops⟩
  · rw [whole_of_decode reads]
    exact .clean reads
  · rw [split, whole_of_error reads stops]
    exact .stopped front chunk back error split reads stops

end SegmentDecoder

/-! ### Reading to the end -/

namespace Stream

/-- Reading to the end is the full run. However a stream has been used before, and whatever its
value holds, it takes no more rounds than two for each byte that is left, and a few. It takes the
segments of a stream that never waits and what went wrong in its last answer, which are what the
chunks left decode to. It gives the whole value back, and doing it again gives nothing more. -/
theorem readAll_is_full_run (value : Value) (pool : Pool) (kind : LargeObjectKind)
    (type : ColumnType) (config : StreamConfig) (ops : List Op) :
    let used := (ofValue kind value type config).useAll pool ops
    let stream := used.stream
    let read := stream.readAll used.pool
    (∀ rounds, 2 * stream.reader.available + 6 ≤ rounds →
        readWithin rounds stream used.pool = some read) ∧
      (∃ (texts : List Bytes) (final : Event),
        (final = .ended ∨ ∃ error, final = .failed error) ∧
        (∀ count, stream.deliveries used.pool count =
          (texts.map Event.segment ++ List.replicate count final).take count) ∧
        (∀ demand count, count ≤ demand.toNat →
          { stream with demand }.answers used.pool (List.replicate count .next) =
            (texts.map Event.segment ++ List.replicate count final).take count) ∧
        read.answer = ⟨texts.flatten, final.error?⟩) ∧
      (stream.isDone = false →
        stream.decoder.Outcome (stream.reader.toCome used.pool) read.answer) ∧
      read.stream.isDone ∧ read.stream.owns = false ∧
      read.pool = used.pool.releaseAll stream.slices ∧
      read.stream.readAll read.pool = ⟨read.pool, read.stream, ⟨[], read.answer.error⟩⟩ := by
  intro used stream read
  have paired : stream.Paired := (paired_ofValue kind value type config).useAll pool ops
  have done : read.stream.isDone := stream.isDone_readAll used.pool
  have finished : read.stream.Paired := paired.readAll used.pool
  refine ⟨fun rounds enough => ?_, ?_, fun goes => ?_, done, (finished.finished done).owns, ?_, ?_⟩
  · exact readWithin_eq (Nat.lt_of_lt_of_le stream.remaining_lt enough)
  · obtain ⟨texts, final, ends, whole⟩ := stream.ends_readAll used.pool
    refine ⟨texts, final, ends.last, ends.all, fun demand count enough => ?_, whole⟩
    have same : { stream with demand }.ready = stream.ready := rfl
    rw [answers_replicate enough, deliveries_of_ready same, ends.all]
  · rw [isDone_eq] at goes
    have active := Option.isNone_iff_eq_none.1 (Option.isSome_eq_false_iff.1 goes)
    have whole : read.answer = stream.whole used.pool := answer_readAll active
    rw [whole]
    exact stream.decoder.outcome_whole _
  · exact finished.pool_of_done done (stream.sheds_readAll used.pool)
  · obtain ⟨event, verdict, error⟩ := stream.verdict_readAll used.pool
    have error : read.answer.error = event.error? := error
    rw [error]
    exact readAll_of_verdict verdict read.pool

/-- A text whose second chunk is malformed is read as far as that. -/
example : (readWithin 20 brokenStream brokenSession.pool).map Streamed.answer =
    some ⟨[0x41], some .invalidCharacter⟩ := by
  decide +kernel

end Stream

end TabularStream
