/-
This file proves how a stream comes to its end, and that it stays there. A stream and its reader
each have an end of their own. They come to it together: `Paired` says that a stream is done when
its reader has finished and not before, and a reader that has finished keeps nothing. Every way to
use a stream keeps the pair.

What follows is what a consumer relies on. A stream that is done has given the whole value back, it
gives the same answer for ever, and cancelling or discarding it changes nothing. Nothing is assumed
of the value, which may be malformed in any way, nor of the pool, but for the counts of its
references, which are right at the end if they were right at the start.
-/

import TabularStream.Proofs.Demand
import TabularStream.Proofs.Reachable

namespace TabularStream

/-! ### Readers -/

namespace ChunkReader

/-- A reader that keeps nothing of its value. -/
structure Finished (reader : ChunkReader) : Prop where
  data : reader.data = Composite.empty
  phase : reader.phase = .finished
  offset : reader.offset = 0
  payload : reader.payload = []

variable {reader : ChunkReader} {pool : Pool}

theorem finished_release (reader : ChunkReader) (pool : Pool) :
    (reader.release pool).2.Finished :=
  ⟨rfl, rfl, rfl, rfl⟩

/-- There is nothing left to release. -/
theorem Finished.release (finished : reader.Finished) (pool : Pool) :
    reader.release pool = (pool, reader) := by
  obtain ⟨data, type, phase, offset, payload, error⟩ := reader
  obtain ⟨rfl, rfl, rfl, rfl⟩ := finished
  rfl

theorem Finished.owns (finished : reader.Finished) : reader.owns = false := by
  unfold ChunkReader.owns
  rw [finished.data]
  rfl

section Reads

variable {ahead : Bool} {pulled : Pulled}

theorem Reads.phase_of_chunk {payload : Bytes} (reads : reader.Reads pool ahead pulled)
    (event : pulled.event = .chunk payload) : pulled.reader.phase ≠ .finished := by
  cases reads with
  | ends _ error => cases error <;> cases event
  | chunk => exact (by decide : Phase.chunks ≠ .finished)
  | scalar => exact (by decide : Phase.scalarRead ≠ .finished)
  | past => cases error : reader.error <;> simp [error, Event.ofError] at event

theorem Reads.finished_of_done (reads : reader.Reads pool ahead pulled)
    (going : reader.phase ≠ .finished) (event : pulled.event = .done) :
    pulled.reader.Finished := by
  cases reads with
  | @ends moved =>
    have finished := finished_release moved pool
    exact ⟨finished.data, finished.phase, finished.offset, finished.payload⟩
  | chunk | scalar => cases event
  | past finished => exact absurd finished going

end Reads

/-- A reader that has given a chunk goes on. -/
theorem phase_of_chunk {payload : Bytes} (event : (reader.next pool).event = .chunk payload) :
    (reader.next pool).reader.phase ≠ .finished :=
  (reader.reads_next pool).phase_of_chunk event

/-- A reader that comes to the end of its value has finished. -/
theorem finished_of_done (going : reader.phase ≠ .finished)
    (event : (reader.next pool).event = .done) : (reader.next pool).reader.Finished :=
  (reader.reads_next pool).finished_of_done going event

end ChunkReader

/-! ### Streams and their readers -/

namespace Stream

variable {stream : Stream} {pool : Pool} {event : Event}

theorem isDone_eq (stream : Stream) : stream.isDone = stream.verdict?.isSome := by
  obtain ⟨reader, decoder, demand, state⟩ := stream
  cases state <;> rfl

/-- A stream and its reader come to their ends together. -/
inductive Paired (stream : Stream) : Prop where
  | going (active : stream.verdict? = none) (reads : stream.reader.phase ≠ .finished) :
      Paired stream
  | ended (event : Event) (verdict : stream.verdict? = some event)
      (finished : stream.reader.Finished) : Paired stream

theorem paired_ofValue (kind : LargeObjectKind) (value : Value) (type : ColumnType)
    (config : StreamConfig) : (ofValue kind value type config).Paired :=
  .going rfl (fun finished => by cases finished)

theorem Paired.finished (paired : stream.Paired) (done : stream.isDone) :
    stream.reader.Finished := by
  rw [isDone_eq] at done
  cases paired with
  | going active => cases active ▸ done
  | ended _ _ finished => exact finished

theorem paired_fail (stream : Stream) (pool : Pool) (error : ClientError) :
    (stream.fail pool error).stream.Paired :=
  .ended _ rfl (ChunkReader.finished_release stream.reader pool)

theorem Paired.pull (active : stream.verdict? = none) (reads : stream.reader.phase ≠ .finished) :
    (stream.pull pool).stream.Paired := by
  fun_induction Stream.pull stream pool with
  | case1 stream pool => exact .going active reads
  | case2 | case3 | case5 => exact paired_fail _ _ _
  | case4 stream pool _ pulled done =>
    exact .ended _ rfl (ChunkReader.finished_of_done reads done)
  | case6 stream pool _ pulled payload chunk decoded released stream' _ _ inductionHypothesis =>
    exact inductionHypothesis active (ChunkReader.phase_of_chunk chunk)
  | case7 stream pool _ pulled payload chunk =>
    exact .going active (ChunkReader.phase_of_chunk chunk)

theorem Paired.next (paired : stream.Paired) (pool : Pool) :
    (stream.next pool).stream.Paired := by
  cases paired with
  | going active reads =>
    rw [next_of_active active]
    exact Paired.pull active reads
  | ended event verdict finished =>
    rw [next_of_verdict verdict]
    exact .ended event verdict finished

theorem Paired.readAll (paired : stream.Paired) (pool : Pool) :
    (stream.readAll pool).stream.Paired := by
  fun_induction Stream.readAll stream pool with
  | case1 stream pool step _ _ _ inductionHypothesis =>
    exact inductionHypothesis (paired.next pool)
  | case2 stream pool step _ inductionHypothesis =>
    refine inductionHypothesis ?_
    cases paired.next pool with
    | going active reads => exact .going active reads
    | ended event verdict finished => exact .ended event verdict finished
  | case3 stream pool | case4 stream pool => exact paired.next pool

/-! ### Stopping -/

/-- The state of a stream that is done stays when it is stopped. -/
theorem verdict_stop (verdict : stream.verdict? = some event) (pool : Pool) (state : State) :
    (stream.stop pool state).2.verdict? = some event := by
  obtain ⟨reader, decoder, demand, before⟩ := stream
  cases before with
  | active => cases verdict
  | ended | failed error | cancelled => exact verdict

/-- An active stream that is stopped takes the state that it is given. -/
theorem state_stop (active : stream.verdict? = none) (pool : Pool) (state : State) :
    (stream.stop pool state).2.state = state := by
  obtain ⟨reader, decoder, demand, before⟩ := stream
  cases before with
  | active => rfl
  | ended | failed error | cancelled => cases active

theorem verdict_cancel (active : stream.verdict? = none) (pool : Pool) :
    (stream.cancel pool).2.verdict? = some (.failed .streamCancelled) := by
  have state := state_stop active pool .cancelled
  unfold verdict? cancel
  rw [state]

theorem verdict_discard (active : stream.verdict? = none) (pool : Pool) :
    (stream.discard pool).2.verdict? = some .ended := by
  have state := state_stop active pool .ended
  unfold verdict? discard
  rw [state]

/-- Stopping a stream that is done changes nothing. -/
theorem Paired.stop_eq (paired : stream.Paired) (done : stream.isDone) (pool : Pool)
    (state : State) : stream.stop pool state = (pool, stream) := by
  have released := (paired.finished done).release pool
  unfold stop
  rw [released, if_pos done]

theorem isDone_stop (stream : Stream) (pool : Pool) {state : State} (stops : state ≠ .active) :
    (stream.stop pool state).2.isDone := by
  obtain ⟨reader, decoder, demand, before⟩ := stream
  cases before with
  | active => exact bne_iff_ne.2 stops
  | ended | failed error | cancelled => rfl

theorem paired_stop (stream : Stream) (pool : Pool) {state : State} (stops : state ≠ .active) :
    (stream.stop pool state).2.Paired := by
  have done := isDone_stop stream pool stops
  rw [isDone_eq] at done
  obtain ⟨event, verdict⟩ := Option.isSome_iff_exists.1 done
  exact .ended event verdict (ChunkReader.finished_release stream.reader pool)

/-- Stopping a stream twice is stopping it once. -/
theorem stop_stop (stream : Stream) (pool : Pool) {state : State} (stops : state ≠ .active) :
    (stream.stop pool state).2.stop (stream.stop pool state).1 state = stream.stop pool state :=
  (paired_stop stream pool stops).stop_eq (isDone_stop stream pool stops) _ state

/-! ### Runs -/

/-- Use a stream several times. -/
def useAll (stream : Stream) (pool : Pool) : List Op → Streamed (List Reply)
  | [] => ⟨pool, stream, []⟩
  | op :: ops =>
    let step := stream.perform pool op
    let rest := step.stream.useAll step.pool ops
    ⟨rest.pool, rest.stream, step.answer :: rest.answer⟩

theorem Paired.perform (paired : stream.Paired) (pool : Pool) (op : Op) :
    (stream.perform pool op).stream.Paired := by
  cases op with
  | next => exact paired.next pool
  | request count =>
    cases paired with
    | going active reads => exact .going active reads
    | ended event verdict finished => exact .ended event verdict finished
  | cancel => exact paired_stop stream pool (by decide)
  | discard => exact paired_stop stream pool (by decide)
  | readAll => exact paired.readAll pool
  | info => exact paired

theorem Paired.useAll (paired : stream.Paired) (pool : Pool) (ops : List Op) :
    (stream.useAll pool ops).stream.Paired := by
  induction ops generalizing stream pool with
  | nil => exact paired
  | cons op ops inductionHypothesis => exact inductionHypothesis (paired.perform pool op) _

theorem sheds_useAll (stream : Stream) (pool : Pool) (ops : List Op) :
    stream.Sheds pool (stream.useAll pool ops) := by
  induction ops generalizing stream pool with
  | nil => exact Pool.Sheds.refl pool stream.slices
  | cons op ops inductionHypothesis =>
    exact (stream.sheds_perform pool op).trans (inductionHypothesis _ _)

/-- Reading to the end by the answer of the next call. -/
theorem readAll_eq (stream : Stream) (pool : Pool) :
    stream.readAll pool =
      let step := stream.next pool
      match step.answer with
      | .segment bytes =>
        let rest := step.stream.readAll step.pool
        ⟨rest.pool, rest.stream, ⟨bytes ++ rest.answer.bytes, rest.answer.error⟩⟩
      | .needsDemand => (step.stream.request 1).readAll step.pool
      | .ended => ⟨step.pool, step.stream, ⟨[], none⟩⟩
      | .failed error => ⟨step.pool, step.stream, ⟨[], some error⟩⟩ := by
  rw [readAll]
  dsimp only
  split <;> rename_i answer <;> rw [answer]

/-- Reading a stream to its end that has come to it gives nothing but its outcome. -/
theorem readAll_of_verdict (verdict : stream.verdict? = some event) (pool : Pool) :
    stream.readAll pool = ⟨pool, stream, ⟨[], event.error?⟩⟩ := by
  rw [readAll_eq, next_of_verdict verdict]
  rcases eq_of_verdict verdict with rfl | ⟨error, rfl⟩ <;> rfl

/-- However a stream is used that has come to its end, its outcome stays. -/
theorem verdict_perform (verdict : stream.verdict? = some event) (pool : Pool) (op : Op) :
    (stream.perform pool op).stream.verdict? = some event := by
  cases op with
  | next =>
    show (stream.next pool).stream.verdict? = some event
    rw [next_of_verdict verdict]
    exact verdict
  | request count => exact verdict
  | cancel => exact verdict_stop verdict pool .cancelled
  | discard => exact verdict_stop verdict pool .ended
  | readAll =>
    show (stream.readAll pool).stream.verdict? = some event
    rw [readAll_of_verdict verdict]
    exact verdict
  | info => exact verdict

theorem verdict_useAll (verdict : stream.verdict? = some event) (pool : Pool) (ops : List Op) :
    (stream.useAll pool ops).stream.verdict? = some event := by
  induction ops generalizing stream pool with
  | nil => exact verdict
  | cons op ops inductionHypothesis => exact inductionHypothesis (verdict_perform verdict pool op) _

/-! ### The outcome -/

/-- Whatever is done with the stream from now on, asking for segments gives this event. -/
structure Settled (stream : Stream) (pool : Pool) (event : Event) : Prop where
  done : ∀ ops, (stream.useAll pool ops).stream.isDone
  next : ∀ ops, let used := stream.useAll pool ops
    (used.stream.next used.pool).answer = event
  readAll : ∀ ops, let used := stream.useAll pool ops
    (used.stream.readAll used.pool).answer = ⟨[], event.error?⟩

theorem settled_of_verdict (verdict : stream.verdict? = some event) (pool : Pool) :
    stream.Settled pool event := by
  have stays := verdict_useAll verdict pool
  refine ⟨fun ops => ?_, fun ops => ?_, fun ops => ?_⟩
  · rw [isDone_eq, stays]
    rfl
  · show (Stream.next _ _).answer = event
    rw [next_of_verdict (stays ops)]
  · show (Stream.readAll _ _).answer = _
    rw [readAll_of_verdict (stays ops)]

/-- Reading a stream to its end leaves it with the outcome that it reports. -/
theorem verdict_readAll (stream : Stream) (pool : Pool) :
    ∃ event, (stream.readAll pool).stream.verdict? = some event ∧
      (stream.readAll pool).answer.error = event.error? := by
  fun_induction Stream.readAll stream pool with
  | case1 stream pool step _ _ _ inductionHypothesis => exact inductionHypothesis
  | case2 stream pool step _ inductionHypothesis => exact inductionHypothesis
  | case3 stream pool step ended => exact ⟨.ended, verdict_of_next (.inl rfl) ended, rfl⟩
  | case4 stream pool step error failed =>
    exact ⟨.failed error, verdict_of_next (.inr ⟨error, rfl⟩) failed, rfl⟩

theorem isDone_readAll (stream : Stream) (pool : Pool) :
    (stream.readAll pool).stream.isDone := by
  obtain ⟨event, verdict, -⟩ := stream.verdict_readAll pool
  rw [isDone_eq, verdict]
  rfl

theorem slices_ofValue (kind : LargeObjectKind) (value : Value) (type : ColumnType)
    (config : StreamConfig) : (ofValue kind value type config).slices = value.slices := by
  cases value <;> rfl

/-- A stream that is done has given back the whole value. -/
theorem Paired.pool_of_done {used : Stream} {after : Pool} (paired : used.Paired)
    (done : used.isDone) (sheds : pool.Sheds stream.slices after used.slices) :
    after = pool.releaseAll stream.slices := by
  obtain ⟨released, split, same⟩ := sheds
  have none : used.slices = [] := congrArg Composite.live (paired.finished done).data
  rw [none, List.append_nil] at split
  rw [same, split]

/-- The life of a stream, however it is used and whatever the value holds. When it is done it owns
nothing and has given each reference of the value back once. An end or an error is its last answer.
Cancelling an active stream makes it fail from then on and discarding it makes it end, in both
cases once, and neither does anything to a stream that is done. -/
theorem outcome_stands (value : Value) (pool : Pool) (kind : LargeObjectKind) (type : ColumnType)
    (config : StreamConfig) (ops : List Op) :
    let used := (ofValue kind value type config).useAll pool ops
    let stream := used.stream
    (stream.isDone → stream.owns = false ∧ used.pool = pool.releaseAll value.slices ∧
        ∀ others, pool.Accounts (value.slices ++ others) → used.pool.Accounts others) ∧
      (∀ event, (event = .ended ∨ ∃ error, event = .failed error) →
        (stream.next used.pool).answer = event →
          (stream.next used.pool).stream.Settled (stream.next used.pool).pool event) ∧
      (stream.isDone = false →
        (stream.cancel used.pool).2.Settled (stream.cancel used.pool).1
            (.failed .streamCancelled) ∧
          (stream.discard used.pool).2.Settled (stream.discard used.pool).1 .ended) ∧
      (stream.cancel used.pool).2.cancel (stream.cancel used.pool).1 =
        stream.cancel used.pool ∧
      (stream.discard used.pool).2.discard (stream.discard used.pool).1 =
        stream.discard used.pool ∧
      (stream.isDone → stream.cancel used.pool = (used.pool, stream) ∧
        stream.discard used.pool = (used.pool, stream)) := by
  intro used stream
  have paired : stream.Paired := (paired_ofValue kind value type config).useAll pool ops
  have sheds := (ofValue kind value type config).sheds_useAll pool ops
  refine ⟨fun done => ?_, fun event final answer => ?_, fun goes => ?_, ?_, ?_, fun done => ?_⟩
  · have returned : used.pool = pool.releaseAll value.slices := by
      rw [← slices_ofValue kind value type config]
      exact paired.pool_of_done done sheds
    refine ⟨(paired.finished done).owns, returned, fun others accounts => ?_⟩
    rw [returned]
    exact accounts.releaseAll.1
  · exact settled_of_verdict (verdict_of_next final answer) _
  · rw [isDone_eq] at goes
    have active := Option.isSome_eq_false_iff.1 goes
    rw [Option.isNone_iff_eq_none] at active
    exact ⟨settled_of_verdict (verdict_cancel active _) _,
      settled_of_verdict (verdict_discard active _) _⟩
  · exact stop_stop stream used.pool (by decide)
  · exact stop_stop stream used.pool (by decide)
  · exact ⟨paired.stop_eq done used.pool .cancelled, paired.stop_eq done used.pool .ended⟩

/-- The letter A and the first byte of B in a chunk, then the rest of B and half of a surrogate pair
on its own, and a chunk that is never read. -/
def brokenText : List Bytes :=
  [PlpTotal.unknown.encode ++ [3, 0], [0, 0, 0x41, 0, 0x42, 3, 0, 0, 0, 0, 0, 0xDC],
    [2, 0, 0, 0, 0x43, 0, 0, 0, 0, 0]]

/-- A session with this text as a value. -/
def brokenSession : Session := (Session.fresh {} []).after [.value (.ofParts brokenText)]

/-- A stream over the text. -/
def brokenStream : Stream :=
  ofValue .character (.chunked (Composite.ofList brokenSession.handedOut))
    ⟨.nvarcharMax, .part, 0, .utf16le, 0, 0⟩ {}

theorem outcome_stands_brokenStream :
    let started := brokenStream.useAll brokenSession.pool [.request 2, .next]
    let failed := brokenStream.useAll brokenSession.pool [.request 2, .next, .readAll]
    failed.answer = [.nothing, .event (.segment [0x41]), .whole ⟨[], some .invalidCharacter⟩] ∧
      failed.stream.owns = false ∧ failed.pool.Accounts [] ∧
      (failed.stream.next failed.pool).stream.Settled (failed.stream.next failed.pool).pool
        (.failed .invalidCharacter) ∧
      failed.stream.cancel failed.pool = (failed.pool, failed.stream) ∧
      (started.stream.cancel started.pool).2.Settled (started.stream.cancel started.pool).1
        (.failed .streamCancelled) := by
  have new : Session.new {} [] = .ok (Session.fresh {} []) := rfl
  have reachable : brokenSession.Reachable := (Session.Reachable.new new).after (by decide)
  have accounts := ReceiveBuffer.Sound.accounts reachable.sound
  have life := outcome_stands (.chunked (Composite.ofList brokenSession.handedOut))
    brokenSession.pool .character ⟨.nvarcharMax, .part, 0, .utf16le, 0, 0⟩ {}
  obtain ⟨finishes, stands, -, -, -, stays⟩ := life [.request 2, .next, .readAll]
  obtain ⟨-, -, stops, -⟩ := life [.request 2, .next]
  have done : (brokenStream.useAll brokenSession.pool
      [.request 2, .next, .readAll]).stream.isDone = true := by
    decide +kernel
  obtain ⟨owns, -, balanced⟩ := finishes done
  refine ⟨by decide +kernel, owns, balanced [] accounts, ?_, (stays done).1, ?_⟩
  · exact stands (.failed .invalidCharacter) (.inr ⟨_, rfl⟩) (by decide +kernel)
  · exact (stops (by decide +kernel)).1

end Stream

end TabularStream
