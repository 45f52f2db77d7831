/-
This file runs two chunk readers, and then two streams, side by side. They read values whose
components have the same sizes and whose bytes are the same, except that the totals of two PLP
values may differ, as long as both are those of NULL or neither is. `Abreast` says that two
readers have come equally far in two such values. Whatever is done to both of them, they stay
abreast and give the same answers, so nothing that a reader does depends on a total.

Each function of a reader has one lemma, which says so of a call to it. Once the total has been
passed the bytes that have not been read are the same, and before that only the readers of a
header look at them.
-/

import TabularStream.Proofs.FlatReader
import TabularStream.Proofs.Lifecycle

namespace TabularStream

theorem totalSize_congr {slices slices' : List Slice}
    (sizes : slices'.map Slice.size = slices.map Slice.size) :
    totalSize slices' = totalSize slices := by
  induction slices generalizing slices' with
  | nil =>
    cases List.map_eq_nil_iff.1 sizes
    rfl
  | cons slice slices inductionHypothesis =>
    obtain ⟨slice', rest', rfl, size, rest⟩ := List.map_eq_cons_iff.1 sizes
    rw [totalSize, totalSize, size, inductionHypothesis rest]

/-- Which slices have been passed depends on nothing but their sizes. -/
theorem Pool.releasePassed_congr {slices slices' : List Slice}
    (sizes : slices'.map Slice.size = slices.map Slice.size) (pool pool' : Pool) (position : Nat) :
    (pool'.releasePassed slices' position).2.2.1.map Slice.size =
        (pool.releasePassed slices position).2.2.1.map Slice.size ∧
      (pool'.releasePassed slices' position).2.2.2 =
        (pool.releasePassed slices position).2.2.2 := by
  induction slices generalizing slices' pool pool' position with
  | nil =>
    cases List.map_eq_nil_iff.1 sizes
    exact ⟨rfl, rfl⟩
  | cons slice slices inductionHypothesis =>
    obtain ⟨slice', rest', rfl, size, rest⟩ := List.map_eq_cons_iff.1 sizes
    unfold Pool.releasePassed
    rw [size]
    split
    · exact inductionHypothesis rest _ _ _
    · exact ⟨sizes, rfl⟩

/-- Two byte strings that start with totals and are the same behind them. Both totals are those of
NULL or neither is. -/
structure SameButTotal (bytes bytes' : Bytes) : Prop where
  length : bytes'.length = bytes.length
  behind : bytes'.drop PlpTotal.width = bytes.drop PlpTotal.width
  null : (PlpTotal.ofBytes bytes').isNull = (PlpTotal.ofBytes bytes).isNull

theorem SameButTotal.of_eq {bytes bytes' : Bytes} (same : bytes' = bytes) :
    SameButTotal bytes bytes' := by
  subst same
  exact ⟨rfl, rfl, rfl⟩

namespace ChunkReader

/-! ### Readers abreast -/

/-- Two readers that differ in what they own only, and own components of the same sizes. The other
slices are those that they do not own. -/
structure Level (reader : ChunkReader) (pool : Pool) (others : List Slice)
    (reader' : ChunkReader) (pool' : Pool) (others' : List Slice) : Prop where
  sound : reader.Sound pool others
  sound' : reader'.Sound pool' others'
  same : { reader' with data := reader.data } = reader
  sizes : reader'.data.live.map Slice.size = reader.data.live.map Slice.size

/-- Two readers that have come equally far. What they have not read is the same, but for a total
that is still to come. -/
structure Abreast (reader : ChunkReader) (pool : Pool) (others : List Slice)
    (reader' : ChunkReader) (pool' : Pool) (others' : List Slice) : Prop
    extends Level reader pool others reader' pool' others' where
  unread : reader'.unread pool' = reader.unread pool ∨
    (reader.phase = .header ∧ reader.type.isPlp = true ∧
      SameButTotal (reader.unread pool) (reader'.unread pool'))

variable {reader reader' : ChunkReader} {pool pool' : Pool} {others others' : List Slice}

namespace Level

variable (level : reader.Level pool others reader' pool' others')

include level

theorem type : reader'.type = reader.type :=
  (congrArg ChunkReader.type level.same :)

theorem phase : reader'.phase = reader.phase :=
  (congrArg ChunkReader.phase level.same :)

theorem offset : reader'.offset = reader.offset :=
  (congrArg ChunkReader.offset level.same :)

theorem payload : reader'.payload = reader.payload :=
  (congrArg ChunkReader.payload level.same :)

theorem error : reader'.error = reader.error :=
  (congrArg ChunkReader.error level.same :)

theorem owns : reader'.owns = reader.owns := by
  have empty := congrArg List.isEmpty level.sizes
  rw [List.isEmpty_map, List.isEmpty_map] at empty
  exact congrArg Bool.not empty

theorem available : reader'.available = reader.available := by
  unfold ChunkReader.available Composite.size
  rw [level.offset, totalSize_congr level.sizes]

theorem advance {count : Nat} (within : count ≤ reader.available) :
    (reader.advance count).Level pool others (reader'.advance count) pool' others' := by
  refine ⟨(level.sound.advance within).1, (level.sound'.advance ?_).1, ?_, level.sizes⟩
  · rw [level.available]
    exact within
  · unfold ChunkReader.advance
    rw [← level.same]

theorem bytesAt (same : reader'.unread pool' = reader.unread pool) (count : Nat) :
    reader'.bytesAt pool' 0 count = reader.bytesAt pool 0 count := by
  rw [level.sound.bytesAt (Nat.zero_le _), level.sound'.bytesAt (Nat.zero_le _), same]

theorem unread_advance {count : Nat} (within : count ≤ reader.available)
    (same : (reader'.unread pool').drop count = (reader.unread pool).drop count) :
    (reader'.advance count).unread pool' = (reader.advance count).unread pool := by
  rw [(level.sound.advance within).2, (level.sound'.advance (level.available ▸ within)).2, same]

end Level

/-- Two calls to `next` that give the same, and leave readers that have come equally far. -/
structure Matches (others others' : List Slice) (pulled pulled' : Pulled) : Prop where
  event : pulled'.event = pulled.event
  abreast : pulled.reader.Abreast pulled.pool others pulled'.reader pulled'.pool others'

theorem Level.release (level : reader.Level pool others reader' pool' others') :
    (reader.release pool).2.Abreast (reader.release pool).1 others
      (reader'.release pool').2 (reader'.release pool').1 others' := by
  refine ⟨⟨level.sound.release.1, level.sound'.release.1, ?_, rfl⟩, .inl rfl⟩
  unfold ChunkReader.release
  dsimp only
  rw [level.type, level.error]

theorem Level.finish (level : reader.Level pool others reader' pool' others')
    (error : Option ClientError) :
    Matches others others' (reader.finish pool error) (reader'.finish pool' error) := by
  obtain ⟨⟨left, left', same, sizes⟩, unread⟩ := level.release
  refine ⟨rfl, ⟨⟨left.accounts, left.offset_le, left.countable⟩,
    ⟨left'.accounts, left'.offset_le, left'.countable⟩, ?_, sizes⟩, .inl rfl⟩
  exact congrArg (fun reader => { reader with error }) same

theorem Level.give (level : reader.Level pool others reader' pool' others')
    (same : reader'.unread pool' = reader.unread pool) {phase : Phase} {count : Nat}
    (within : count ≤ reader.available) :
    Matches others others' (reader.give pool phase count) (reader'.give pool' phase count) := by
  have payload := level.bytesAt same count
  have moved := level.advance within
  have left := level.unread_advance within (congrArg (List.drop count) same)
  refine ⟨congrArg Event.chunk payload, ⟨?_, ?_, ?_, level.sizes⟩, .inl left⟩
  · exact ⟨moved.sound.accounts, moved.sound.offset_le, moved.sound.countable⟩
  · exact ⟨moved.sound'.accounts, moved.sound'.offset_le, moved.sound'.countable⟩
  · show { reader'.advance count with
      data := (reader.advance count).data, phase, payload := reader'.bytesAt pool' 0 count } =
        { reader.advance count with phase, payload := reader.bytesAt pool 0 count }
    rw [payload, ← moved.same]

/-! ### Reading on -/

theorem Level.readChunk (level : reader.Level pool others reader' pool' others')
    (same : reader'.unread pool' = reader.unread pool) :
    Matches others others' (reader.readChunk pool) (reader'.readChunk pool') := by
  unfold ChunkReader.readChunk
  dsimp only
  rw [level.available, level.bytesAt same]
  split
  · exact level.finish _
  · rename_i enough
    have enough := Nat.le_of_not_lt enough
    have body := level.advance enough
    have left := level.unread_advance enough (congrArg _ same)
    rw [body.available]
    split
    · exact level.finish _
    · split
      · exact level.finish _
      · rename_i whole
        exact body.give left (Nat.le_of_not_lt whole)

theorem Level.readScalar (level : reader.Level pool others reader' pool' others')
    (same : reader'.unread pool' = reader.unread pool) :
    Matches others others' (reader.readScalar pool) (reader'.readScalar pool') := by
  unfold ChunkReader.readScalar
  dsimp only
  rw [level.available, level.type, level.bytesAt same]
  split
  · exact level.finish _
  · rename_i enough
    have enough := Nat.le_of_not_lt enough
    have body := level.advance enough
    have left := level.unread_advance enough (congrArg _ same)
    cases ScalarLength.ofDescriptor reader.type
        (reader.bytesAt pool 0 reader.type.descriptorSize) with
    | null => exact level.finish _
    | of size =>
      dsimp only
      rw [body.available]
      split
      · exact level.finish _
      · rename_i whole
        split
        · exact level.finish _
        · exact body.give left (Nat.le_of_not_lt whole)

/-- All that a total is asked for is if it is that of NULL. -/
theorem Level.isNull (level : reader.Level pool others reader' pool' others')
    (same : SameButTotal (reader.unread pool) (reader'.unread pool')) :
    (PlpTotal.ofBytes (reader'.bytesAt pool' 0 PlpTotal.width)).isNull =
      (PlpTotal.ofBytes (reader.bytesAt pool 0 PlpTotal.width)).isNull := by
  rw [level.sound.bytesAt (Nat.zero_le _), level.sound'.bytesAt (Nat.zero_le _), List.drop_zero,
    List.drop_zero, PlpTotal.ofBytes_take, PlpTotal.ofBytes_take, same.null]

theorem Level.readPlp (level : reader.Level pool others reader' pool' others')
    (same : SameButTotal (reader.unread pool) (reader'.unread pool')) :
    Matches others others' (reader.readPlp pool) (reader'.readPlp pool') := by
  unfold ChunkReader.readPlp
  rw [level.available, level.isNull same]
  split
  · exact level.finish _
  · rename_i enough
    have enough := Nat.le_of_not_lt enough
    split
    · exact level.finish _
    · have body := level.advance enough
      have left := level.unread_advance enough same.behind
      have started : Level { reader.advance PlpTotal.width with phase := .chunks } pool others
          { reader'.advance PlpTotal.width with phase := .chunks } pool' others' := by
        refine ⟨⟨body.sound.accounts, body.sound.offset_le, body.sound.countable⟩,
          ⟨body.sound'.accounts, body.sound'.offset_le, body.sound'.countable⟩, ?_, body.sizes⟩
        exact congrArg (fun reader => { reader with phase := Phase.chunks }) body.same
      exact started.readChunk left

theorem Abreast.releaseConsumed (abreast : reader.Abreast pool others reader' pool' others') :
    (reader.releaseConsumed pool).2.Abreast (reader.releaseConsumed pool).1 others
      (reader'.releaseConsumed pool').2 (reader'.releaseConsumed pool').1 others' := by
  obtain ⟨left, -, unread⟩ := abreast.sound.releaseConsumed
  obtain ⟨left', -, unread'⟩ := abreast.sound'.releaseConsumed
  have passed := Pool.releasePassed_congr abreast.sizes pool pool' reader.offset
  refine ⟨⟨left, left', ?_, ?_⟩, ?_⟩
  · unfold ChunkReader.releaseConsumed
    dsimp only
    rw [abreast.offset, passed.2, abreast.type, abreast.phase, abreast.error]
  · unfold ChunkReader.releaseConsumed
    dsimp only
    rw [abreast.offset, passed.1]
  · rw [unread, unread']
    exact abreast.unread

theorem Abreast.next (abreast : reader.Abreast pool others reader' pool' others') :
    Matches others others' (reader.next pool) (reader'.next pool') := by
  have released := abreast.releaseConsumed
  unfold ChunkReader.next
  generalize reader.releaseConsumed pool = middle at released ⊢
  generalize reader'.releaseConsumed pool' = middle' at released ⊢
  obtain ⟨pool, reader⟩ := middle
  obtain ⟨pool', reader'⟩ := middle'
  have level := released.toLevel
  dsimp only at level released ⊢
  rw [level.phase]
  rcases released.unread with same | ⟨header, plp, same⟩
  · cases reader.phase with
    | header =>
      dsimp only
      rw [level.type]
      split
      · exact level.readPlp (.of_eq same)
      · exact level.readScalar same
    | chunks => exact level.readChunk same
    | scalarRead => exact level.finish none
    | finished =>
      dsimp only
      rw [level.error]
      exact ⟨rfl, released⟩
  · rw [header]
    dsimp only
    rw [level.type, if_pos plp, if_pos plp]
    exact level.readPlp same

/-! ### Looking ahead -/

theorem Level.chunkAt {skip : Nat} (level : reader.Level pool others reader' pool' others')
    (within : skip ≤ reader.available)
    (same : (reader'.unread pool').drop skip = (reader.unread pool).drop skip) :
    reader'.chunkAt pool' skip = reader.chunkAt pool skip := by
  unfold ChunkReader.chunkAt
  rw [level.available, level.sound.bytesAt within,
    level.sound'.bytesAt (level.available ▸ within), same]

theorem Abreast.chunkAhead (abreast : reader.Abreast pool others reader' pool' others') :
    reader'.chunkAhead pool' = reader.chunkAhead pool := by
  have level := abreast.toLevel
  unfold ChunkReader.chunkAhead
  rw [level.phase]
  cases phase : reader.phase with
  | header =>
    have same : SameButTotal (reader.unread pool) (reader'.unread pool') := by
      rcases abreast.unread with same | ⟨-, -, same⟩
      · exact .of_eq same
      · exact same
    dsimp only
    rw [level.type, level.available, level.isNull same]
    by_cases plp : reader.type.isPlp
    · rw [if_pos plp, if_pos plp]
      split
      · rfl
      · rename_i enough
        rw [level.chunkAt (Nat.le_of_not_lt enough) same.behind]
    · have equal : reader'.unread pool' = reader.unread pool :=
        abreast.unread.resolve_right fun header => plp header.2.1
      rw [if_neg plp, if_neg plp, level.bytesAt equal]
  | chunks =>
    have equal : reader'.unread pool' = reader.unread pool :=
      abreast.unread.resolve_right fun header => by cases phase.symm.trans header.1
    exact level.chunkAt (Nat.zero_le _) (congrArg _ equal)
  | scalarRead | finished => rfl

/-! ### Using both readers -/

theorem Abreast.use (abreast : reader.Abreast pool others reader' pool' others') (use : Use) :
    (reader'.use pool' use).2.2 = (reader.use pool use).2.2 ∧
      (reader.use pool use).2.1.Abreast (reader.use pool use).1 others
        (reader'.use pool' use).2.1 (reader'.use pool' use).1 others' := by
  cases use with
  | op op =>
    cases op with
    | next =>
      obtain ⟨event, after⟩ := abreast.next
      exact ⟨congrArg (fun event => Answer.reply (.event event)) event, after⟩
    | payload =>
      exact ⟨congrArg (fun bytes => Answer.reply (.payload bytes)) abreast.payload, abreast⟩
    | error => exact ⟨congrArg (fun error => Answer.reply (.error error)) abreast.error, abreast⟩
    | releaseConsumed => exact ⟨rfl, abreast.releaseConsumed⟩
    | release => exact ⟨rfl, abreast.release⟩
  | chunkAhead => exact ⟨congrArg Answer.ahead abreast.chunkAhead, abreast⟩

/-- Two readers abreast give the same answers, however they are used. -/
theorem Abreast.useAll (abreast : reader.Abreast pool others reader' pool' others')
    (uses : List Use) : (reader'.useAll pool' uses).2.2 = (reader.useAll pool uses).2.2 := by
  induction uses generalizing reader pool reader' pool' with
  | nil => rfl
  | cons use uses inductionHypothesis =>
    obtain ⟨answer, after⟩ := abreast.use use
    exact congrArg₂ List.cons answer (inductionHypothesis after)

end ChunkReader

namespace Stream

/-! ### Streams abreast -/

/-- Two streams that differ in their readers only, which have come equally far. -/
structure Abreast (stream : Stream) (pool : Pool) (others : List Slice) (stream' : Stream)
    (pool' : Pool) (others' : List Slice) : Prop where
  reader : stream.reader.Abreast pool others stream'.reader pool' others'
  same : { stream' with reader := stream.reader } = stream

/-- Two uses of streams that give the same, and leave streams that have come equally far. -/
structure Matches {Answer : Type} (others others' : List Slice) (used used' : Streamed Answer) :
    Prop where
  answer : used'.answer = used.answer
  abreast : used.stream.Abreast used.pool others used'.stream used'.pool others'

variable {stream stream' : Stream} {pool pool' : Pool} {others others' : List Slice}

namespace Abreast

variable (abreast : stream.Abreast pool others stream' pool' others')

include abreast

theorem decoder : stream'.decoder = stream.decoder :=
  (congrArg Stream.decoder abreast.same :)

theorem demand : stream'.demand = stream.demand := (congrArg Stream.demand abreast.same :)

theorem state : stream'.state = stream.state := (congrArg Stream.state abreast.same :)

theorem isDone : stream'.isDone = stream.isDone := by
  rw [Stream.isDone, abreast.state, Stream.isDone]

theorem stop (state : State) :
    (stream.stop pool state).2.Abreast (stream.stop pool state).1 others
      (stream'.stop pool' state).2 (stream'.stop pool' state).1 others' := by
  refine ⟨abreast.reader.release, ?_⟩
  unfold Stream.stop
  dsimp only
  rw [abreast.decoder, abreast.demand, abreast.state, abreast.isDone]

end Abreast

theorem Abreast.fail (abreast : stream.Abreast pool others stream' pool' others')
    (error : ClientError) :
    Matches others others' (stream.fail pool error) (stream'.fail pool' error) := by
  refine ⟨rfl, abreast.reader.release, ?_⟩
  unfold Stream.fail
  dsimp only
  rw [abreast.decoder, abreast.demand]

theorem Abreast.pull (abreast : stream.Abreast pool others stream' pool' others') :
    Matches others others' (stream.pull pool) (stream'.pull pool') := by
  generalize bound : stream.reader.remaining = remaining
  induction remaining using Nat.strongRecOn generalizing stream pool stream' pool' with
  | ind remaining inductionHypothesis =>
    subst bound
    have waits := abreast.reader.chunkAhead
    have closer (payload : Bytes) := @ChunkReader.remaining_next_lt stream.reader pool payload
    obtain ⟨event, read⟩ := abreast.reader.next
    obtain ⟨reader, _, _, _⟩ := stream
    obtain ⟨reader', decoder, demand, state⟩ := stream'
    cases abreast.same
    rw [pull_eq, pull_eq ⟨reader', decoder, demand, state⟩]
    dsimp only at waits event read closer ⊢
    rw [waits]
    split
    · exact ⟨rfl, abreast⟩
    · generalize reader.next pool = pulled at event read closer ⊢
      generalize reader'.next pool' = pulled' at event read ⊢
      rw [event]
      cases chunk : pulled.event with
      | malformed error => exact Abreast.fail ⟨read, rfl⟩ error
      | done =>
        dsimp only
        cases decoder.finish with
        | some error => exact Abreast.fail ⟨read, rfl⟩ error
        | none => exact ⟨rfl, read, rfl⟩
      | chunk payload =>
        have after := read.releaseConsumed
        dsimp only
        cases (decoder.decode payload).error with
        | some error => exact Abreast.fail ⟨after, rfl⟩ error
        | none =>
          dsimp only
          split
          · refine inductionHypothesis _ ?_ ⟨after, rfl⟩ rfl
            dsimp only
            rw [ChunkReader.remaining_releaseConsumed]
            exact closer payload chunk
          · exact ⟨rfl, after, rfl⟩

theorem Abreast.next (abreast : stream.Abreast pool others stream' pool' others') :
    Matches others others' (stream.next pool) (stream'.next pool') := by
  unfold Stream.next
  rw [abreast.state]
  cases stream.state with
  | active => exact abreast.pull
  | ended | failed error | cancelled => exact ⟨rfl, abreast⟩

theorem Abreast.request (abreast : stream.Abreast pool others stream' pool' others')
    (count : UInt64) :
    (stream.request count).Abreast pool others (stream'.request count) pool' others' := by
  refine ⟨abreast.reader, ?_⟩
  exact congrArg (·.request count) abreast.same

theorem Abreast.readAll (abreast : stream.Abreast pool others stream' pool' others') :
    Matches others others' (stream.readAll pool) (stream'.readAll pool') := by
  fun_induction Stream.readAll stream pool generalizing stream' pool' with
  | case1 stream pool step bytes =>
    rename_i segment rest inductionHypothesis
    obtain ⟨answer, after⟩ := abreast.next
    rw [readAll_eq stream']
    dsimp only
    rw [answer, segment]
    obtain ⟨same, left⟩ := inductionHypothesis after
    refine ⟨?_, left⟩
    dsimp only
    rw [same]
  | case2 stream pool step =>
    rename_i waits inductionHypothesis
    obtain ⟨answer, after⟩ := abreast.next
    rw [readAll_eq stream']
    dsimp only
    rw [answer, waits]
    exact inductionHypothesis (after.request 1)
  | case3 stream pool step =>
    rename_i ends
    obtain ⟨answer, after⟩ := abreast.next
    rw [readAll_eq stream']
    dsimp only
    rw [answer, ends]
    exact ⟨rfl, after⟩
  | case4 stream pool step error =>
    rename_i failed
    obtain ⟨answer, after⟩ := abreast.next
    rw [readAll_eq stream']
    dsimp only
    rw [answer, failed]
    exact ⟨rfl, after⟩

theorem Abreast.perform (abreast : stream.Abreast pool others stream' pool' others') (op : Op) :
    Matches others others' (stream.perform pool op) (stream'.perform pool' op) := by
  cases op with
  | next =>
    obtain ⟨answer, after⟩ := abreast.next
    exact ⟨congrArg Reply.event answer, after⟩
  | request count => exact ⟨rfl, abreast.request count⟩
  | cancel => exact ⟨rfl, abreast.stop .cancelled⟩
  | discard => exact ⟨rfl, abreast.stop .ended⟩
  | readAll =>
    obtain ⟨answer, after⟩ := abreast.readAll
    exact ⟨congrArg Reply.whole answer, after⟩
  | info =>
    refine ⟨?_, abreast⟩
    show Reply.info _ _ _ = Reply.info _ _ _
    rw [abreast.demand, abreast.isDone]
    exact congrArg _ abreast.reader.owns

/-- Two streams abreast give the same answers, however they are used. -/
theorem Abreast.useAll (abreast : stream.Abreast pool others stream' pool' others')
    (ops : List Op) :
    (stream'.useAll pool' ops).answer = (stream.useAll pool ops).answer := by
  induction ops generalizing stream pool stream' pool' with
  | nil => rfl
  | cons op ops inductionHypothesis =>
    obtain ⟨answer, after⟩ := abreast.perform op
    exact congrArg₂ List.cons answer (inductionHypothesis after)

end Stream

end TabularStream
