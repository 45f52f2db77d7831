/-
This file proves that a stream gives a component of its value back as soon as all of its bytes have
been read, and not before. After a segment the components that are left are those from the first one
on that holds a byte which has not been read. Decoding cuts a PLP value at its chunks, so there these
are the chunks that have not been decoded.

The invariant, `Midway`, says which front of the value a stream has taken, as chunks, and that its
decoder has decoded these chunks. Each chunk that is read lengthens the front. What is left of the
components follows from the length of the front alone, because the reader gives up what it has read
at the end of each round, which leaves its position inside of the first component.
-/

import TabularStream.Proofs.CheckedStreams
import TabularStream.Proofs.Totals

namespace TabularStream

/-! ### Slices that have been read -/

/-- How many bytes some slices have. -/
def byteCount : List Slice → Nat
  | [] => 0
  | slice :: rest => slice.size + byteCount rest

/-- The slices in front have been read, and the first one of those that are left, if there is one,
holds the first byte that has not been read. -/
structure Passed (slices : List Slice) (read : Nat) (passed left : List Slice) : Prop where
  split : slices = passed ++ left
  all : byteCount passed ≤ read
  unread : ∀ first rest, left = first :: rest → read < byteCount passed + first.size

theorem byteCount_append (front back : List Slice) :
    byteCount (front ++ back) = byteCount front + byteCount back := by
  induction front with
  | nil => exact (Nat.zero_add _).symm
  | cons slice rest inductionHypothesis =>
    rw [List.cons_append, byteCount, inductionHypothesis, byteCount, Nat.add_assoc]

theorem length_bytes {slices : List Slice} {pool : Pool}
    (held : ∀ slice ∈ slices, pool.Holds slice) :
    (slices.flatMap pool.bytesOf).length = byteCount slices := by
  induction slices with
  | nil => rfl
  | cons slice rest inductionHypothesis =>
    obtain ⟨first, later⟩ := List.forall_mem_cons.1 held
    rw [List.flatMap_cons, List.length_append, first, inductionHypothesis later, byteCount]

/-- How far has been read decides which slices are left. -/
theorem Passed.unique {slices passed left passed' left' : List Slice} {read : Nat}
    (one : Passed slices read passed left) (other : Passed slices read passed' left') :
    passed = passed' := by
  -- Slices that only one side counts as read would have a byte that has not been read.
  have none {front middle back : List Slice} (all : byteCount (front ++ middle) ≤ read)
      (unread : ∀ first rest, middle ++ back = first :: rest →
        read < byteCount front + first.size) : middle = [] := by
    cases middle with
    | nil => rfl
    | cons first rest =>
      have byte := unread first (rest ++ back) rfl
      rw [byteCount_append, byteCount] at all
      omega
  rcases List.append_eq_append_iff.1 (one.split.symm.trans other.split) with
    ⟨middle, rfl, rfl⟩ | ⟨middle, rfl, rfl⟩
  · rw [none other.all one.unread, List.append_nil]
  · rw [none one.all other.unread, List.append_nil]

/-- Every component of the chunks of a PLP value has bytes, also the last one. -/
theorem length_pos_of_mem_chunkRecords {payloads : List Bytes} {record : Bytes}
    (member : record ∈ chunkRecords payloads) : 0 < record.length := by
  induction payloads with
  | nil =>
    rw [List.mem_singleton.1 member, ChunkLength.encode_length]
    decide
  | cons payload payloads inductionHypothesis =>
    rcases List.mem_cons.1 member with rfl | later
    · rw [List.length_append, ChunkLength.encode_length]
      exact Nat.lt_of_lt_of_le (by decide) (Nat.le_add_right _ _)
    · exact inductionHypothesis later

/-- Of a PLP value with a component for its total and one for each chunk, those have been read whose
chunks have been taken. -/
theorem Value.Parts.passed {value : Value} {type : ColumnType} {pool : Pool}
    {phase : ChunkReader.Phase} {payloads : List Bytes} {front rest : Bytes}
    {passed left : List Slice} (parts : value.Parts type pool) (plp : type.isPlp = true)
    (held : ∀ slice ∈ value.slices, pool.Holds slice)
    (fetched : ChunkReader.Fetched type phase payloads front) (some : payloads ≠ [])
    (split : value.bytes pool = front ++ rest)
    (read : Passed value.slices front.length passed left) :
    ∃ total : PlpTotal, passed.map pool.bytesOf = total.encode :: payloads.map chunkRecord := by
  cases parts with
  | scalar plain => cases plain.symm.trans plp
  | @chunked declared all chunks slices _ present written made =>
    cases fetched with
    | nothing => exact absurd rfl some
    | scalar plain => cases plain.symm.trans plp
    | @chunks total _ _ _ taken =>
      have whole := ReceiveBuffer.bytes_of_map_bytesOf made
      rw [List.flatten_cons, written.flatten_records] at whole
      have same : declared.encode ++ chunks =
          total.encode ++ ((payloads.map chunkRecord).flatten ++ rest) := by
        rw [← List.append_assoc]
        exact whole.symm.trans split
      obtain ⟨first, behind⟩ := List.append_inj same (by simp)
      -- The chunks that have been taken are the first ones of those that were written.
      have contents := Contents.ofChunks_of_written written
      rw [behind, Contents.ofChunks_records taken] at contents
      obtain ⟨rfl, -⟩ := Contents.mk.inj contents
      have cut : slices.map pool.bytesOf = (total.encode :: payloads.map chunkRecord) ++
          chunkRecords (Contents.ofChunks rest).chunks := by
        rw [made, first, chunkRecords_eq, chunkRecords_eq, List.map_append, List.append_assoc]
        rfl
      obtain ⟨front', back, both, frontBytes, backBytes⟩ := List.map_eq_append_iff.1 cut
      have inFront : ∀ slice ∈ front', pool.Holds slice := fun slice member =>
        held slice (both ▸ List.mem_append_left _ member)
      have exact : byteCount front' =
          (total.encode ++ (payloads.map chunkRecord).flatten).length := by
        rw [← length_bytes inFront, List.flatMap_def, frontBytes, List.flatten_cons]
      have boundary : Passed slices (total.encode ++ (payloads.map chunkRecord).flatten).length
          front' back := by
        refine ⟨both, Nat.le_of_eq exact, fun slice others left => ?_⟩
        have here : slice ∈ back := left ▸ List.mem_cons_self
        have bytes : pool.bytesOf slice ∈ chunkRecords (Contents.ofChunks rest).chunks :=
          backBytes ▸ List.mem_map_of_mem here
        have size : (pool.bytesOf slice).length = slice.size :=
          held slice (both ▸ List.mem_append_right _ here)
        have some := length_pos_of_mem_chunkRecords bytes
        omega
      rw [read.unique boundary]
      exact ⟨total, frontBytes⟩

namespace Stream

/-! ### Midway through a value -/

/-- A stream that has taken the front of some bytes as chunks, and has decoded these into a text. -/
structure Midway (stream : Stream) (pool : Pool) (others : List Slice) (type : ColumnType)
    (whole : Bytes) (decoder : SegmentDecoder) (payloads : List Bytes) (front text : Bytes) :
    Prop where
  placed : stream.reader.Placed pool others
  same : stream.reader.type = type
  fetched : ChunkReader.Fetched type stream.reader.phase payloads front
  split : whole = front ++ stream.reader.unread pool
  decoded : decoder.decode payloads.flatten = ⟨stream.decoder, text, none⟩

variable {stream : Stream} {pool : Pool} {others : List Slice} {type : ColumnType} {whole : Bytes}
  {decoder : SegmentDecoder} {payloads : List Bytes} {front text : Bytes}

theorem midway_ofValue {value : Value} (accounts : pool.Accounts (value.slices ++ others))
    (kind : LargeObjectKind) (type : ColumnType) (config : StreamConfig) :
    (ofValue kind value type config).Midway pool others type (value.bytes pool)
      (SegmentDecoder.new kind type) [] [] [] := by
  refine ⟨ChunkReader.placed_ofValue accounts type, rfl, .nothing,
    (ChunkReader.unread_ofValue value type pool).symm, ?_⟩
  cases kind <;> rfl

/-- A chunk that is decoded without an error lengthens the front. -/
theorem Midway.afterChunk {payload : Bytes}
    (midway : stream.Midway pool others type whole decoder payloads front text)
    (chunk : (stream.reader.next pool).event = .chunk payload)
    (reads : (stream.decoder.decode payload).error = none) :
    let pulled := stream.reader.next pool
    ∃ front', (stream.afterChunk pool payload).Midway
      (pulled.reader.releaseConsumed pulled.pool).1 others type whole decoder
      (payloads ++ [payload]) front' (text ++ (stream.decoder.decode payload).output) := by
  have inside := midway.placed.inside
  obtain ⟨header, fetches, heads⟩ := inside.fetches_next chunk
  have read := (stream.reader.reads_next pool).inside inside.releaseConsumed.inside
  refine ⟨front ++ (header ++ payload), midway.placed.afterChunk, ?_, ?_, ?_, ?_⟩
  · exact fetches.type.trans midway.same
  · rw [midway.same] at heads
    exact midway.fetched.next heads
  · have taken := fetches.unread
    rw [inside.unread_releaseConsumed, ← fetches.still] at taken
    have left : (stream.afterChunk pool payload).reader.unread
        ((stream.reader.next pool).reader.releaseConsumed (stream.reader.next pool).pool).1 = _ :=
      read.unread_releaseConsumed
    rw [midway.split, taken, left, List.append_assoc, List.append_assoc, List.append_assoc]
  · rw [List.flatten_append, List.flatten_singleton, SegmentDecoder.decode_append,
      midway.decoded]
    dsimp only
    rw [reads]
    rfl

/-- A segment comes from the last chunk that has been taken, and the reader is left inside of the
first component that it owns. -/
theorem Midway.pull {bytes : Bytes}
    (midway : stream.Midway pool others type whole decoder payloads front text)
    (segment : (stream.pull pool).answer = .segment bytes) :
    bytes ≠ [] ∧ (∃ read last front', (stream.pull pool).stream.Midway (stream.pull pool).pool
        others type whole decoder (read ++ [last]) front' (text ++ bytes) ∧
          (decoder.decode read.flatten).output = text) ∧
      ∀ first rest, (stream.pull pool).stream.slices = first :: rest →
        (stream.pull pool).stream.reader.offset < first.size := by
  fun_induction Stream.pull stream pool generalizing payloads front text with
  | case6 stream pool _ pulled payload chunk =>
    rename_i ends empty inductionHypothesis
    obtain ⟨front', after⟩ := midway.afterChunk chunk ends
    have nothing : (stream.decoder.decode payload).output = [] := empty
    rw [nothing, List.append_nil] at after
    exact inductionHypothesis after segment
  | case7 stream pool _ pulled payload chunk =>
    rename_i ends some
    obtain ⟨front', after⟩ := midway.afterChunk chunk ends
    cases segment
    have output : (decoder.decode payloads.flatten).output = text := by rw [midway.decoded]
    refine ⟨some, ⟨payloads, payload, front', ?_, output⟩, fun first rest left => ?_⟩
    · exact ⟨after.placed, after.same, after.fetched, after.split, after.decoded⟩
    · exact Pool.releasePassed_lt _ _ _ left
  | _ => cases segment

/-- A stream has come as far as the components that it has given back, and on by its position. -/
theorem Midway.length_front {start : Pool} {owned passed : List Slice}
    (midway : stream.Midway pool others type (owned.flatMap start.bytesOf) decoder payloads front
      text)
    (held : ∀ slice ∈ owned, start.Holds slice) (split : owned = passed ++ stream.slices) :
    front.length = byteCount passed + stream.reader.offset := by
  have whole := congrArg List.length midway.split
  have all := length_bytes held
  have within := midway.placed.inside.offset_le
  have live : (stream.reader.data.bytes pool).length = byteCount stream.slices :=
    length_bytes midway.placed.inside.holds
  have sum : byteCount owned = byteCount passed + byteCount stream.slices := by
    rw [split, byteCount_append]
  rw [List.length_append, ChunkReader.unread, List.length_drop] at whole
  omega

/-- A stream that is midway through its value for as long as it is active. -/
def Underway (stream : Stream) (pool : Pool) (others : List Slice) (type : ColumnType)
    (whole : Bytes) (decoder : SegmentDecoder) (text : Bytes) : Prop :=
  stream.verdict? = none →
    ∃ payloads front, stream.Midway pool others type whole decoder payloads front text

theorem flatten_given_cons (reply : Reply) (replies : List Reply) :
    (given (reply :: replies)).flatten = reply.segment?.getD [] ++ (given replies).flatten := by
  unfold given
  rw [List.filterMap_cons]
  cases reply.segment? <;> rfl

theorem Underway.next (underway : stream.Underway pool others type whole decoder text) :
    let step := stream.next pool
    step.stream.Underway step.pool others type whole decoder
      (text ++ (Reply.event step.answer).segment?.getD []) := by
  intro step active
  cases verdict : stream.verdict? with
  | some event =>
    have same : step = ⟨pool, stream, event⟩ := next_of_verdict verdict
    rw [same, verdict] at active
    cases active
  | none =>
    obtain ⟨payloads, front, midway⟩ := underway verdict
    cases answer : step.answer with
    | segment bytes =>
      have pulls : step = stream.pull pool := next_of_active verdict
      rw [pulls] at answer ⊢
      obtain ⟨-, ⟨read, last, front', after, -⟩, -⟩ := midway.pull answer
      exact ⟨read ++ [last], front', after⟩
    | needsDemand =>
      have placed : stream.Placed pool others := fun _ => midway.placed
      have same : step = ⟨pool, stream, .needsDemand⟩ := (placed.of_needsDemand answer).2.2
      rw [same]
      exact ⟨payloads, front, (List.append_nil text).symm ▸ midway⟩
    | ended =>
      have last : step.stream.verdict? = some .ended := verdict_of_next (.inl rfl) answer
      cases last.symm.trans active
    | failed error =>
      have last : step.stream.verdict? = some (.failed error) :=
        verdict_of_next (.inr ⟨error, rfl⟩) answer
      cases last.symm.trans active

theorem Underway.useAll (underway : stream.Underway pool others type whole decoder text)
    (calls : List Call) :
    let used := stream.useAll pool (calls.map Call.op)
    used.stream.Underway used.pool others type whole decoder
      (text ++ (given used.answer).flatten) := by
  induction calls generalizing stream pool text with
  | nil =>
    show stream.Underway pool others type whole decoder (text ++ [])
    rw [List.append_nil]
    exact underway
  | cons call calls inductionHypothesis =>
    cases call with
    | request count =>
      have requested : (stream.request count).Underway pool others type whole decoder text := by
        intro active
        obtain ⟨payloads, front, midway⟩ := underway active
        exact ⟨payloads, front, midway.placed, midway.same, midway.fetched, midway.split,
          midway.decoded⟩
      exact inductionHypothesis requested
    | next =>
      have later := inductionHypothesis underway.next
      show Stream.Underway _ _ others type whole decoder (text ++ (given (_ :: _)).flatten)
      rw [flatten_given_cons, ← List.append_assoc]
      exact later

/-- A stream that has done nothing but wait still has its whole value. -/
theorem Placed.untouched (placed : stream.Placed pool others) {calls : List Call}
    (waits : ∀ event, .event event ∈ (stream.useAll pool (calls.map Call.op)).answer →
      event = .needsDemand) :
    let used := stream.useAll pool (calls.map Call.op)
    used.pool = pool ∧ used.stream.slices = stream.slices := by
  induction calls generalizing stream pool with
  | nil => exact ⟨rfl, rfl⟩
  | cons call calls inductionHypothesis =>
    cases call with
    | request count =>
      have requested : (stream.request count).Placed pool others := placed
      exact inductionHypothesis requested fun event member =>
        waits event (List.mem_cons_of_mem _ member)
    | next =>
      have same := (placed.of_needsDemand (waits _ List.mem_cons_self)).2.2
      have later := inductionHypothesis placed.next fun event member =>
        waits event (List.mem_cons_of_mem _ member)
      exact ⟨later.1.trans (congrArg Streamed.pool same),
        later.2.trans (congrArg (fun step => step.stream.slices) same)⟩

/-! ### Giving back -/

/-- What is left of a value when a segment has been given. The chunks that have been taken are
those that complete the segment, with the last of them, and no more. -/
structure AfterSegment (pool : Pool) (value : Value) (type : ColumnType) (decoder : SegmentDecoder)
    (before bytes : Bytes) (step : Streamed Event) (read : List Bytes) (last front : Bytes)
    (passed : List Slice) : Prop where
  fetched : ChunkReader.Fetched type step.stream.reader.phase (read ++ [last]) front
  unread : value.bytes pool = front ++ step.stream.reader.unread step.pool
  gave : (decoder.decode read.flatten).output = before
  completes : (decoder.decode (read ++ [last]).flatten).output = before ++ bytes
  some : bytes ≠ []
  /-- What is left starts with the first component that has a byte which has not been read. -/
  left : Passed value.slices front.length passed step.stream.slices
  /-- The components in front of that have been given back, once each. -/
  released : step.pool = pool.releaseAll passed
  /-- If each chunk is a component then those that have been taken have been given back. -/
  chunks : value.Parts type pool → type.isPlp = true → ∃ total : PlpTotal,
    passed.map pool.bytesOf = total.encode :: (read ++ [last]).map chunkRecord

/-- When a stream over a value gives components back, after some calls. -/
structure GivesBack (pool : Pool) (value : Value) (kind : LargeObjectKind) (type : ColumnType)
    (config : StreamConfig) (calls : List Call) : Prop where
  segment :
    let used := (ofValue kind value type config).useAll pool (calls.map Call.op)
    let step := used.stream.next used.pool
    ∀ bytes, step.answer = .segment bytes → ∃ read last front passed,
      AfterSegment pool value type (SegmentDecoder.new kind type) (given used.answer).flatten bytes
        step read last front passed
  /-- A stream that waits gives nothing back. -/
  waits :
    let used := (ofValue kind value type config).useAll pool (calls.map Call.op)
    let step := used.stream.next used.pool
    step.answer = .needsDemand → step = ⟨used.pool, used.stream, .needsDemand⟩ ∧
      ((∀ event, .event event ∈ used.answer → event = .needsDemand) →
        used.pool = pool ∧ used.stream.slices = value.slices)
  /-- Nothing is read of a component that has been given back. -/
  checked : CheckedStream.useAll (ofValue kind value type config) pool calls =
    .ok ((ofValue kind value type config).useAll pool (calls.map Call.op))

theorem givesBack_of_accounts {value : Value} (accounts : pool.Accounts (value.slices ++ others))
    (kind : LargeObjectKind) (type : ColumnType) (config : StreamConfig) (calls : List Call) :
    GivesBack pool value kind type config calls := by
  have placed : (ofValue kind value type config).Placed pool others := fun _ =>
    ChunkReader.placed_ofValue accounts type
  have held : ∀ slice ∈ value.slices, pool.Holds slice := fun slice member =>
    accounts.holds (List.mem_append_left _ member)
  have start : (ofValue kind value type config).Underway pool others type (value.bytes pool)
      (SegmentDecoder.new kind type) [] := fun _ =>
    ⟨[], [], midway_ofValue accounts kind type config⟩
  refine ⟨?_, ?_, CheckedStream.useAll_eq placed calls⟩
  · intro used step bytes segment
    have active : used.stream.verdict? = none := active_of_next segment (by simp)
    obtain ⟨payloads, front, midway⟩ := start.useAll calls active
    rw [List.nil_append] at midway
    have pulls : step = used.stream.pull used.pool := next_of_active active
    rw [pulls] at segment
    obtain ⟨some, ⟨read, last, front', after, before⟩, inside⟩ := midway.pull segment
    rw [← pulls] at after inside
    have sheds : pool.Sheds value.slices step.pool step.stream.slices := by
      have all := (sheds_useAll (ofValue kind value type config) pool (calls.map Call.op)).trans
        (used.stream.sheds_next used.pool)
      rwa [slices_ofValue] at all
    obtain ⟨passed, split, released⟩ := sheds
    have left : Passed value.slices front'.length passed step.stream.slices := by
      rw [Value.bytes_eq] at after
      have length := after.length_front held split
      refine ⟨split, ?_, fun first rest same => ?_⟩
      · omega
      · have byte := inside first rest same
        omega
    refine ⟨read, last, front', passed, after.fetched, after.split, before, ?_, some, left,
      released, fun parts plp => ?_⟩
    · rw [after.decoded]
    · exact parts.passed plp held after.fetched (by simp) after.split left
  · intro used step waits
    have underway : used.stream.Placed used.pool others := by
      intro active
      obtain ⟨payloads, front, midway⟩ := start.useAll calls active
      exact midway.placed
    refine ⟨(underway.of_needsDemand waits).2.2, fun waited => ?_⟩
    have same := placed.untouched waited
    rwa [slices_ofValue] at same

/-- What has been consumed is given back, at once and not before. That is so for every value that a
session has handed out, however it is cut, whatever it holds and whatever it is read as. After any
calls, a segment leaves the components from the first one on that holds a byte which has not been
read, a stream that waits gives nothing back, and nothing is read of a component that has been given
back. A PLP value that has been decoded from a row has a component for its total, one for each of
its chunks and one for its terminator, so those are given back whose chunks have been taken. -/
theorem consumed_is_given_back {session : Session} (reachable : session.Reachable)
    (kind : LargeObjectKind) (config : StreamConfig) (calls : List Call) :
    (∀ (value : Value) (type : ColumnType), value.slices.Subperm session.handedOut →
        GivesBack session.pool value kind type config calls) ∧
      ∀ (token : RowToken) (columns : List ColumnType) (pool : Pool) (after : ReceiveBuffer)
        (row : Row), session.buffer.block.isSome →
        token.decode session.buffer session.pool columns = ⟨pool, after, .ok row⟩ →
        ∀ (index : Nat) (value : Value) (type : ColumnType),
          row.slots[index]? = some (.owned value) → columns[index]? = some type →
            value.Parts type pool ∧ GivesBack pool value kind type config calls := by
  refine ⟨fun value type owned => ?_, ?_⟩
  · obtain ⟨others, accounts⟩ := reachable.accounts_of_subperm owned
    exact givesBack_of_accounts accounts kind type config calls
  · intro token columns pool after row held decoded index value type owned column
    have sound := reachable.sound
    cases found : token.split columns session.unread with
    | none =>
      obtain ⟨pool', stops⟩ := sound.decode_stops held found
      cases decoded.symm.trans stops
    | some cut =>
      obtain ⟨pool', row', back, again, shows⟩ := sound.decode_shows held found
      cases decoded.symm.trans again
      obtain ⟨others, accounts⟩ := Row.exists_accounts shows.accounts owned
      obtain ⟨_, column', parts⟩ := shows.parts index value owned
      cases column.symm.trans column'
      exact ⟨parts, givesBack_of_accounts accounts kind type config calls⟩

/-- A session with three letters in three chunks, as a value that is cut within a length and as a
row that has not been decoded. -/
def lettersSession : Session :=
  (Session.fresh {} [pacedColumn]).after
    [.value (.ofParts [pacedText.take 10, pacedText.drop 10]), .buffer (.append pacedText)]

/-- The value that is cut within a length. -/
def cutLetters : Value := .chunked (Composite.ofList lettersSession.handedOut)

/-- Decoding the row. -/
def lettersRow : Reading Row :=
  RowToken.row.decode lettersSession.buffer lettersSession.pool [pacedColumn]

/-- The value of the row, which is cut at its chunks. -/
def chunkedLetters : Value :=
  .chunked (Composite.ofList [⟨2, 0, 8⟩, ⟨2, 8, 5⟩, ⟨2, 13, 7⟩, ⟨2, 20, 6⟩, ⟨2, 26, 4⟩])

/-- The first segment takes two chunks. They leave the second part of the value that is cut within a
length, and the third chunk and the terminator of the one that is cut at its chunks. -/
theorem consumed_is_given_back_lettersSession :
    let calls := [Call.next, .request 1]
    let cut := (ofValue .character cutLetters pacedColumn {}).useAll lettersSession.pool
      (calls.map Call.op)
    let chunked := (ofValue .character chunkedLetters pacedColumn {}).useAll lettersRow.pool
      (calls.map Call.op)
    (∃ read last front passed, passed = cutLetters.slices.take 1 ∧
        AfterSegment lettersSession.pool cutLetters pacedColumn (.new .character pacedColumn)
          (given cut.answer).flatten [0x41, 0x42] (cut.stream.next cut.pool) read last front
          passed) ∧
      ∃ read last front passed, passed = chunkedLetters.slices.take 3 ∧
        AfterSegment lettersRow.pool chunkedLetters pacedColumn (.new .character pacedColumn)
          (given chunked.answer).flatten [0x41, 0x42] (chunked.stream.next chunked.pool) read last
          front passed := by
  intro calls cut chunked
  have new : Session.new {} [pacedColumn] = .ok (Session.fresh {} [pacedColumn]) := rfl
  have reachable : lettersSession.Reachable := (Session.Reachable.new new).after (by decide)
  obtain ⟨values, rows⟩ := consumed_is_given_back reachable .character {} calls
  have result : lettersRow.result = .ok ⟨[.owned chunkedLetters]⟩ := by decide +kernel
  have decoded : RowToken.row.decode lettersSession.buffer lettersSession.pool [pacedColumn] =
      ⟨lettersRow.pool, lettersRow.buffer, .ok ⟨[.owned chunkedLetters]⟩⟩ := by
    rw [← result]
    rfl
  have cutSegment : (cut.stream.next cut.pool).answer = .segment [0x41, 0x42] := by decide +kernel
  have chunkedSegment : (chunked.stream.next chunked.pool).answer = .segment [0x41, 0x42] := by
    decide +kernel
  have cutLeft : (cut.stream.next cut.pool).stream.slices = cutLetters.slices.drop 1 := by
    decide +kernel
  have chunkedLeft : (chunked.stream.next chunked.pool).stream.slices =
      chunkedLetters.slices.drop 3 := by
    decide +kernel
  obtain ⟨read, last, front, passed, one⟩ :=
    (values cutLetters pacedColumn (List.Subperm.refl _)).segment _ cutSegment
  obtain ⟨read', last', front', passed', other⟩ :=
    (rows .row [pacedColumn] _ _ _ (by decide) decoded 0 _ _ rfl rfl).2.segment _ chunkedSegment
  refine ⟨⟨read, last, front, passed, ?_, one⟩, read', last', front', passed', ?_, other⟩
  · have split := one.left.split
    rw [cutLeft] at split
    exact List.append_cancel_right (split.symm.trans (List.take_append_drop 1 _).symm)
  · have split := other.left.split
    rw [chunkedLeft] at split
    exact List.append_cancel_right (split.symm.trans (List.take_append_drop 3 _).symm)

end Stream

end TabularStream
