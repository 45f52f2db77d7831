/-
This file bounds the rounds that reading a stream to its end takes. There are two loops. The outer
one asks for the next event, and for demand whenever the stream waits. The inner one reads chunk
after chunk until one of them completes something. `readWithin` runs the two as one loop, for as
many rounds as it is allowed, and gives nothing if these do not suffice.

What every round lowers is `Stream.remaining`. A round that reads a chunk has less to read, by one
byte at least or by one phase of the reader, and a round that waits leaves a stream with demand,
which does not wait again before it has read. Nothing is assumed of the value.
-/

import TabularStream.Proofs.Lifecycle

namespace TabularStream.Stream

/-! ### One round -/

/-- What a round comes to. -/
inductive Round where
  /-- A chunk has been read that completes nothing. -/
  | goesOn (pool : Pool) (stream : Stream)
  | answers (streamed : Streamed Event)
  deriving DecidableEq, Repr

/-- One round of the loop that looks for the next event. -/
def round (stream : Stream) (pool : Pool) : Round :=
  match stream.verdict? with
  | some event => .answers ⟨pool, stream, event⟩
  | none =>
    if stream.demand = 0 ∧ stream.reader.chunkAhead pool then .answers ⟨pool, stream, .needsDemand⟩
    else
      let pulled := stream.reader.next pool
      match pulled.event with
      | .malformed error =>
        .answers ({ stream with reader := pulled.reader }.fail pulled.pool error)
      | .done =>
        let stream := { stream with reader := pulled.reader }
        match stream.decoder.finish with
        | some error => .answers (stream.fail pulled.pool error)
        | none => .answers ⟨pulled.pool, { stream with state := .ended }, .ended⟩
      | .chunk payload =>
        let decoded := stream.decoder.decode payload
        let released := pulled.reader.releaseConsumed pulled.pool
        let stream := { stream with reader := released.2, decoder := decoded.decoder }
        match decoded.error with
        | some error => .answers (stream.fail released.1 error)
        | none =>
          if decoded.output = [] then .goesOn released.1 stream
          else
            .answers ⟨released.1, { stream with demand := stream.demand - 1 },
              .segment decoded.output⟩

variable {stream stream' : Stream} {pool pool' : Pool} {rounds : Nat}

/-- A round that goes on has read a chunk, of an active stream, that completes nothing. -/
theorem round_goesOn (goes : stream.round pool = .goesOn pool' stream') :
    let pulled := stream.reader.next pool
    stream.verdict? = none ∧ ∃ payload, pulled.event = .chunk payload ∧
      (stream.decoder.decode payload).output = [] ∧
      pool' = (pulled.reader.releaseConsumed pulled.pool).1 ∧
      stream' = { stream with
        reader := (pulled.reader.releaseConsumed pulled.pool).2
        decoder := (stream.decoder.decode payload).decoder } := by
  unfold round at goes
  split at goes
  · cases goes
  · rename_i active
    split at goes
    · cases goes
    · dsimp only at goes
      split at goes
      · cases goes
      · split at goes <;> cases goes
      · rename_i payload chunk
        split at goes
        · cases goes
        · split at goes
          · rename_i empty
            cases goes
            exact ⟨active, payload, chunk, empty, rfl, rfl⟩
          · cases goes

/-- The next event is the answer of the first round that has one. -/
theorem next_eq_round (stream : Stream) (pool : Pool) :
    stream.next pool =
      match stream.round pool with
      | .goesOn pool stream => stream.next pool
      | .answers streamed => streamed := by
  cases verdict : stream.verdict? with
  | some event =>
    unfold round
    rw [verdict]
    exact next_of_verdict verdict
  | none =>
    rw [next_of_active verdict, pull_eq]
    unfold round
    rw [verdict]
    dsimp only
    split
    · rfl
    · generalize stream.reader.next pool = pulled
      cases pulled.event with
      | malformed error => rfl
      | done =>
        dsimp only
        cases stream.decoder.finish <;> rfl
      | chunk payload =>
        dsimp only
        cases (stream.decoder.decode payload).error with
        | some error => rfl
        | none =>
          dsimp only
          split
          · refine (next_of_active ?_).symm
            exact verdict
          · rfl

/-- A round that goes on is closer to the end. -/
theorem remaining_of_goesOn (goes : stream.round pool = .goesOn pool' stream') :
    stream'.remaining < stream.remaining := by
  obtain ⟨-, payload, chunk, -, -, rfl⟩ := round_goesOn goes
  have closer := ChunkReader.remaining_next_lt chunk
  unfold remaining
  dsimp only
  rw [ChunkReader.remaining_releaseConsumed]
  omega

/-! ### All rounds -/

/-- Read to the end in a number of rounds, if they suffice. -/
def readWithin : (rounds : Nat) → Stream → Pool → Option (Streamed Whole)
  | 0, _, _ => none
  | rounds + 1, stream, pool =>
    match stream.round pool with
    | .goesOn pool stream => readWithin rounds stream pool
    | .answers step =>
      match step.answer with
      | .segment bytes =>
        (readWithin rounds step.stream step.pool).map fun rest =>
          ⟨rest.pool, rest.stream, ⟨bytes ++ rest.answer.bytes, rest.answer.error⟩⟩
      | .needsDemand => readWithin rounds (step.stream.request 1) step.pool
      | .ended => some ⟨step.pool, step.stream, ⟨[], none⟩⟩
      | .failed error => some ⟨step.pool, step.stream, ⟨[], some error⟩⟩

/-- Reading to the end takes no more rounds than remain. -/
theorem readWithin_eq (enough : stream.remaining < rounds) :
    readWithin rounds stream pool = some (stream.readAll pool) := by
  induction rounds generalizing stream pool with
  | zero => exact absurd enough (Nat.not_lt_zero _)
  | succ rounds inductionHypothesis =>
    have enough := Nat.le_of_lt_succ enough
    have next := stream.next_eq_round pool
    rw [readWithin]
    cases round : stream.round pool with
    | goesOn pool' stream' =>
      rw [round] at next
      have same : stream.readAll pool = stream'.readAll pool' := by
        rw [readAll_eq, readAll_eq stream' pool', next]
      dsimp only
      rw [same]
      exact inductionHypothesis (Nat.lt_of_lt_of_le (remaining_of_goesOn round) enough)
    | answers step =>
      rw [round] at next
      dsimp only at next ⊢
      rw [readAll_eq, next]
      dsimp only
      cases answer : step.answer with
      | segment bytes =>
        have closer := remaining_next_of_segment ((congrArg Streamed.answer next).trans answer)
        rw [next] at closer
        dsimp only
        rw [inductionHypothesis (Nat.lt_of_lt_of_le closer enough)]
        rfl
      | needsDemand =>
        have closer := remaining_request_of_needsDemand
          ((congrArg Streamed.answer next).trans answer)
        rw [next] at closer
        exact inductionHypothesis (Nat.lt_of_lt_of_le closer enough)
      | ended | failed error => rfl

/-- How many rounds may remain: two for each byte that has not been read, and a few more. -/
theorem remaining_lt (stream : Stream) :
    stream.remaining < 2 * stream.reader.available + 6 := by
  have phases : stream.reader.phase.rank ≤ 2 := by
    cases stream.reader.phase <;> decide
  unfold remaining ChunkReader.remaining
  split <;> omega

end TabularStream.Stream
