/-
This file holds a second version of a stream, over the checked version of its reader. It does
things in the order in which the stream has to do them: a payload is not a copy but is read again
from the components that are still owned when it is decoded, and only then are the components given
back that have been read. A segment is given only if there is demand for it, and the rounds of the
loop are counted.

The main statement is that no check ever fails: called in any way, the checked stream does what the
stream does. In particular nothing is read of a component that has been given back.
-/

import TabularStream.Proofs.Allowance
import TabularStream.Proofs.Fetching
import TabularStream.Proofs.Rounds

namespace TabularStream

namespace Stream

/-- A call as a way to use a stream. -/
def Call.op : Call → Op
  | .request count => .request count
  | .next => .next

end Stream

namespace CheckedStream

open TabularStream.Stream

/-! ### The checks -/

/-- The last bytes that a reader has moved past, read again from the components that it still
owns. -/
def payload (reader : ChunkReader) (pool : Pool) (count : Nat) : Except Failure Bytes :=
  if reader.offset < count then .error .precondition
  else (Checked.gather pool reader.data.live (reader.offset - count) count).map Memory.toList

/-- Fail with an error. -/
def fail (stream : Stream) (pool : Pool) (error : ClientError) : Except Failure Round := do
  let (pool, reader) ← Checked.releaseReader stream.reader pool
  return .answers ⟨pool, { stream with reader, state := .failed error }, .failed error⟩

/-- Does a stream wait? It looks ahead only without demand. -/
def waits (stream : Stream) (pool : Pool) : Except Failure Bool :=
  if stream.demand = 0 then Checked.chunkAhead stream.reader pool else .ok false

/-- Decode a chunk and give back what has been read. -/
def decode (stream : Stream) (pulled : Pulled) (count : Nat) : Except Failure Round := do
  let bytes ← payload pulled.reader pulled.pool count
  let decoded := stream.decoder.decode bytes
  let (pool, reader) ← Checked.releaseConsumed pulled.reader pulled.pool
  let stream := { stream with reader, decoder := decoded.decoder }
  match decoded.error with
  | some error => fail stream pool error
  | none =>
    if decoded.output = [] then return .goesOn pool stream
    else if stream.demand = 0 then .error .precondition
    else
      return .answers ⟨pool, { stream with demand := stream.demand - 1 }, .segment decoded.output⟩

/-- One round of an active stream. -/
def activeRound (stream : Stream) (pool : Pool) : Except Failure Round := do
  if ← waits stream pool then return .answers ⟨pool, stream, .needsDemand⟩
  else
    let pulled ← Checked.next stream.reader pool
    match pulled.event with
    | .malformed error => fail { stream with reader := pulled.reader } pulled.pool error
    | .done =>
      let stream := { stream with reader := pulled.reader }
      match stream.decoder.finish with
      | some error => fail stream pulled.pool error
      | none => return .answers ⟨pulled.pool, { stream with state := .ended }, .ended⟩
    | .chunk bytes => decode stream pulled bytes.length

/-- One round of the loop that looks for the next event. -/
def round (stream : Stream) (pool : Pool) : Except Failure Round :=
  match stream.verdict? with
  | some event => .ok (.answers ⟨pool, stream, event⟩)
  | none => activeRound stream pool

/-- The next event, which has to come within a number of rounds. -/
def next : (rounds : Nat) → Stream → Pool → Except Failure (Streamed Event)
  | 0, _, _ => .error .outOfRange
  | rounds + 1, stream, pool => do
    match ← round stream pool with
    | .goesOn pool stream => next rounds stream pool
    | .answers streamed => return streamed

/-- Call a stream several times. Each call takes one round more than chunks can be left. -/
def useAll (stream : Stream) (pool : Pool) : List Call → Except Failure (Streamed (List Reply))
  | [] => .ok ⟨pool, stream, []⟩
  | .request count :: calls => do
    let rest ← useAll (stream.request count) pool calls
    return ⟨rest.pool, rest.stream, .nothing :: rest.answer⟩
  | .next :: calls => do
    let step ← next (stream.reader.remaining + 1) stream pool
    let rest ← useAll step.stream step.pool calls
    return ⟨rest.pool, rest.stream, .event step.answer :: rest.answer⟩

/-! ### No check fails -/

variable {stream : Stream} {pool : Pool} {others : List Slice}

/-- The payload of a chunk is still there when it has been given. -/
theorem payload_eq {reader : ChunkReader} {header bytes : Bytes} {pulled : Pulled}
    (fetches : reader.Fetches pool header bytes pulled)
    (inside : pulled.reader.Inside pulled.pool others) :
    payload pulled.reader pulled.pool bytes.length = .ok bytes := by
  have offset := fetches.offset
  rw [List.length_append] at offset
  have start : pulled.reader.offset - bytes.length = reader.offset + header.length := by omega
  have within := inside.offset_le
  have gathered : Checked.gather pulled.pool pulled.reader.data.live
      (reader.offset + header.length) bytes.length = _ :=
    Checked.gather_eq inside.holds fun _ => by
      show _ ≤ (pulled.reader.data.bytes pulled.pool).length
      omega
  have same : pulled.reader.data.bytes pulled.pool = reader.data.bytes pool := by
    rw [fetches.still, fetches.data]
  unfold payload
  rw [if_neg (by omega), start, gathered]
  refine congrArg Except.ok ((Pool.gather_eq _ _ inside.holds _ _).trans ?_)
  show ((pulled.reader.data.bytes pulled.pool).drop _).take _ = _
  have unread : (reader.data.bytes pool).drop reader.offset = _ := fetches.unread
  rw [same, ← List.drop_drop, unread, List.append_assoc, List.drop_left' rfl, List.take_left' rfl]

theorem fail_eq (inside : stream.reader.Inside pool others) (error : ClientError) :
    fail stream pool error = .ok (.answers (stream.fail pool error)) := by
  unfold fail
  rw [Checked.releaseReader_eq inside]
  rfl

theorem waits_eq (placed : stream.reader.Placed pool others) :
    waits stream pool = .ok (decide (stream.demand = 0 ∧ stream.reader.chunkAhead pool)) := by
  unfold waits
  split
  · rename_i spent
    rw [Checked.chunkAhead_eq placed]
    simp [spent]
  · rename_i some
    simp [some]

theorem activeRound_eq (active : stream.verdict? = none)
    (placed : stream.reader.Placed pool others) :
    activeRound stream pool = .ok (stream.round pool) := by
  have inside := placed.inside
  have read := (stream.reader.reads_next pool).inside inside.releaseConsumed.inside
  have gives (bytes : Bytes) (segment : (stream.pull pool).answer = .segment bytes) :
      stream.demand ≠ 0 := by
    have all : stream.Placed pool others := fun _ => placed
    rw [← next_of_active active] at segment
    exact all.demand_ne_zero segment
  rw [pull_eq] at gives
  unfold activeRound Stream.round
  rw [waits_eq placed, active]
  show (if decide _ = true then _ else Checked.next _ _ >>= _) = _
  by_cases spent : stream.demand = 0 ∧ stream.reader.chunkAhead pool = true
  · rw [if_pos (decide_eq_true spent), if_pos spent]
    rfl
  · rw [if_neg spent] at gives
    rw [if_neg (by simpa using spent), if_neg spent, Checked.next_eq inside]
    show (match (stream.reader.next pool).event with
      | .malformed error => _ | .done => _ | .chunk bytes => _) = _
    dsimp only at gives ⊢
    cases event : (stream.reader.next pool).event with
    | malformed error => exact fail_eq read error
    | done =>
      dsimp only
      cases stream.decoder.finish with
      | some error => exact fail_eq read error
      | none => rfl
    | chunk bytes =>
      obtain ⟨header, fetches, -⟩ := inside.fetches_next event
      have after := read.releaseConsumed.inside
      rw [event] at gives
      dsimp only at gives ⊢
      unfold decode
      rw [payload_eq fetches read]
      show (Checked.releaseConsumed _ _ >>= _) = _
      rw [Checked.releaseConsumed_eq read]
      show (match (stream.decoder.decode bytes).error with | some error => _ | none => _) = _
      cases stopped : (stream.decoder.decode bytes).error with
      | some error => exact fail_eq after error
      | none =>
        rw [stopped] at gives
        dsimp only at gives ⊢
        by_cases empty : (stream.decoder.decode bytes).output = []
        · rw [if_pos empty, if_pos empty]
          rfl
        · rw [if_neg empty] at gives
          rw [if_neg empty, if_neg empty, if_neg (gives _ rfl)]
          rfl

theorem round_eq (placed : stream.Placed pool others) :
    round stream pool = .ok (stream.round pool) := by
  unfold round
  cases verdict : stream.verdict? with
  | some event =>
    unfold Stream.round
    rw [verdict]
  | none => exact activeRound_eq verdict (placed verdict)

/-- A round that goes on leaves a stream whose reader can look ahead. -/
theorem placed_of_goesOn {stream' : Stream} {pool' : Pool} (placed : stream.Placed pool others)
    (goes : stream.round pool = .goesOn pool' stream') : stream'.Placed pool' others := by
  obtain ⟨active, payload, chunk, -, rfl, rfl⟩ := round_goesOn goes
  exact fun _ => (placed active).afterChunk

theorem next_eq {rounds : Nat} (placed : stream.Placed pool others)
    (enough : stream.reader.remaining < rounds) :
    next rounds stream pool = .ok (stream.next pool) := by
  induction rounds generalizing stream pool with
  | zero => exact absurd enough (Nat.not_lt_zero _)
  | succ rounds inductionHypothesis =>
    rw [next, round_eq placed, next_eq_round]
    show (match stream.round pool with
      | .goesOn pool stream => next rounds stream pool | .answers streamed => .ok streamed) = _
    cases goes : stream.round pool with
    | answers streamed => rfl
    | goesOn pool' stream' =>
      have left := placed_of_goesOn placed goes
      obtain ⟨-, payload, chunk, -, rfl, rfl⟩ := round_goesOn goes
      have closer := ChunkReader.remaining_next_lt chunk
      refine inductionHypothesis left ?_
      dsimp only
      rw [ChunkReader.remaining_releaseConsumed]
      omega

/-- However a stream is called, no check fails. -/
theorem useAll_eq (placed : stream.Placed pool others) (calls : List Call) :
    useAll stream pool calls = .ok (stream.useAll pool (calls.map Call.op)) := by
  induction calls generalizing stream pool with
  | nil => rfl
  | cons call calls inductionHypothesis =>
    cases call with
    | request count =>
      have requested : (stream.request count).Placed pool others := placed
      rw [useAll, inductionHypothesis requested]
      rfl
    | next =>
      rw [useAll, next_eq placed (Nat.lt_succ_self _)]
      show (useAll (stream.next pool).stream (stream.next pool).pool calls >>= _) = _
      rw [inductionHypothesis placed.next]
      rfl

end CheckedStream

end TabularStream
