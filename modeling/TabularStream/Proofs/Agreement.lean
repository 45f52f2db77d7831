/-
This file says that decoding a row and reading its values go together. Decoding cuts each value
out of the buffer by the lengths that it announces, and reading a value looks at these lengths
again: `decoded_values_read` says that a reader of a decoded value finds the payloads that the
row has on the wire, in order, and then the end. So a binary stream over it gives the payloads put
together, and a character stream can only find that they are not text.
-/

import TabularStream.Proofs.FlatReader
import TabularStream.Proofs.Streaming

namespace TabularStream

/-! ### Columns of a layout -/

theorem RowLayout.full_getElem? {columns : List ColumnType} {index : Nat} {type : ColumnType}
    (present : (RowLayout.full columns)[index]? = some (some type)) :
    columns[index]? = some type := by
  unfold full at present
  rw [List.getElem?_map] at present
  obtain ⟨column, there, same⟩ := Option.map_eq_some_iff.1 present
  cases same
  exact there

theorem RowLayout.ofBitmap_getElem? {bitmap : Bytes} {columns : List ColumnType} {index : Nat}
    {type : ColumnType} (present : (RowLayout.ofBitmap bitmap columns)[index]? = some (some type)) :
    columns[index]? = some type := by
  unfold ofBitmap at present
  rw [List.getElem?_mapIdx] at present
  obtain ⟨column, there, same⟩ := Option.map_eq_some_iff.1 present
  split at same
  · cases same
  · cases same
    exact there

/-- What a row has for a column is a value of the type of the column. -/
theorem RowToken.written_of_split {token : RowToken} {columns : List ColumnType}
    {body rest : Bytes} {pieces : List (Option Bytes)}
    (found : token.split columns body = some (pieces, rest)) {index : Nat} {piece : Bytes}
    (present : pieces[index]? = some (some piece)) :
    ∃ type payloads, columns[index]? = some type ∧ WrittenValue type (some payloads) piece := by
  cases token with
  | row =>
    obtain ⟨type, payloads, column, written⟩ := RowLayout.written_of_split found present
    exact ⟨type, payloads, RowLayout.full_getElem? column, written⟩
  | bitmapRow =>
    unfold split at found
    dsimp only at found
    split at found
    · cases found
    · obtain ⟨type, payloads, column, written⟩ := RowLayout.written_of_split found present
      exact ⟨type, payloads, RowLayout.ofBitmap_getElem? column, written⟩

/-- The payload of a scalar value is what follows its descriptor. -/
theorem WrittenValue.payloads_of_scalar {type : ColumnType} {payloads : List Bytes}
    {bytes : Bytes} (written : WrittenValue type (some payloads) bytes)
    (scalar : type.isPlp = false) : payloads = [bytes.drop type.descriptorSize] := by
  cases written with
  | scalar _ width => rw [List.drop_left' width]
  | plp plp => simp [scalar] at plp

/-! ### Readers of contents that end well -/

namespace FlatReader

variable {flat : FlatReader} {reader : ChunkReader} {pool : Pool} {others : List Slice}

/-- The answers of a reader that gives these chunks, and then the end so many times. -/
def chunksThenDone (chunks : List Bytes) (extra : Nat) : List ChunkReader.Answer :=
  (chunks.map fun chunk => .reply (.event (.chunk chunk))) ++
    List.replicate extra (.reply (.event .done))

/-- Reading on gives the chunks in order, and then the end for ever. -/
theorem Mirrors.useAll_next {chunks : List Bytes} (mirrors : flat.Mirrors reader pool others)
    (rest : flat.rest = ⟨chunks, none⟩) (extra : Nat) :
    (reader.useAll pool (List.replicate (chunks.length + extra) (.op .next))).2.2 =
      chunksThenDone chunks extra := by
  obtain ⟨_, payload, error⟩ := flat
  cases rest
  induction chunks generalizing payload error reader pool with
  | nil =>
    rw [List.length_nil, Nat.zero_add]
    induction extra generalizing payload error reader pool with
    | zero => rfl
    | succ extra inductionHypothesis =>
      obtain ⟨confirms, after⟩ := mirrors.use (.op .next)
      rw [List.replicate_succ]
      exact congrArg₂ List.cons (confirms _ rfl) (inductionHypothesis _ _ after)
  | cons chunk chunks inductionHypothesis =>
    obtain ⟨confirms, after⟩ := mirrors.use (.op .next)
    rw [List.length_cons, Nat.succ_add, List.replicate_succ]
    exact congrArg₂ List.cons (confirms _ rfl) (inductionHypothesis _ _ after)

/-- A flat reader that has found nothing to be wrong, and never will. -/
structure Flawless (flat : FlatReader) : Prop where
  rest : flat.rest.error = none
  error : flat.error = none

theorem Flawless.use (flawless : flat.Flawless) (use : ChunkReader.Use) :
    (flat.use use).1.Flawless := by
  obtain ⟨rest, error⟩ := flawless
  cases use with
  | op op =>
    cases op with
    | next =>
      unfold FlatReader.use
      dsimp only
      split
      · exact ⟨rest, rest⟩
      · exact ⟨rest, error⟩
    | release => exact ⟨error, error⟩
    | payload | error | releaseConsumed => exact ⟨rest, error⟩
  | chunkAhead => exact ⟨rest, error⟩

theorem Mirrors.use_ne_malformed (mirrors : flat.Mirrors reader pool others)
    (flawless : flat.Flawless) (use : ChunkReader.Use) (error : ClientError) :
    (reader.use pool use).2.2 ≠ .reply (.event (.malformed error)) := by
  intro malformed
  cases use with
  | op op =>
    cases op with
    | next =>
      have confirms := (mirrors.use (.op .next)).1
      rw [malformed] at confirms
      unfold FlatReader.use at confirms
      dsimp only at confirms
      split at confirms
      · rw [flawless.rest] at confirms
        cases confirms _ rfl
      · cases confirms _ rfl
    | payload | error | releaseConsumed | release => cases malformed
  | chunkAhead => cases malformed

/-- A reader never finds anything to be wrong with a value that ends well, however it is used. -/
theorem Mirrors.malformed_not_mem (mirrors : flat.Mirrors reader pool others)
    (flawless : flat.Flawless) (uses : List ChunkReader.Use) (error : ClientError) :
    .reply (.event (.malformed error)) ∉ (reader.useAll pool uses).2.2 := by
  induction uses generalizing flat reader pool with
  | nil => exact List.not_mem_nil
  | cons use uses inductionHypothesis =>
    have later := inductionHypothesis (mirrors.use use).2 (flawless.use use)
    exact List.not_mem_cons_of_ne_of_not_mem
      (mirrors.use_ne_malformed flawless use error).symm later

end FlatReader

/-! ### Values of rows -/

/-- Reading a value gives these payloads: one after the other with a chunk reader, which never
fails, and put together with a binary stream. A character stream fails only if they are not
text. -/
structure Value.Reads (value : Value) (type : ColumnType) (pool : Pool)
    (payloads : List Bytes) : Prop where
  chunks : ∀ extra, ((ChunkReader.ofValue value type).useAll pool
    (List.replicate (payloads.length + extra) (.op .next))).2.2 =
      FlatReader.chunksThenDone payloads extra
  flawless : ∀ uses error, .reply (.event (.malformed error)) ∉
    ((ChunkReader.ofValue value type).useAll pool uses).2.2
  binary : ∀ config, ((Stream.ofValue .binary value type config).readAll pool).answer =
    ⟨payloads.flatten, none⟩
  character : ∀ config error,
    ((Stream.ofValue .character value type config).readAll pool).answer.error = some error →
      error = .invalidCharacter ∨ error = .incompleteCharacter

/-- Data that has been taken out of a row is in the accounts as it was before. -/
theorem Row.accounts_take {row left : Row} {index : Nat} {value : Value} {pool : Pool}
    {front back : List Slice} (taken : row.take index = .ok (some value, left))
    (accounts : pool.Accounts (front ++ (row.slices ++ back))) :
    pool.Accounts (value.slices ++ (front ++ (left.slices ++ back))) := by
  refine accounts.perm (List.perm_iff_count.2 fun slice => ?_)
  have split := Row.count_take taken slice
  simp only [List.count_append, Option.map_some, Option.getD_some] at split ⊢
  omega

/-- Reading a stream over a value to its end decodes the payloads that it was written with. -/
theorem Value.readAll_of_written {value : Value} {type : ColumnType} {pool : Pool}
    {others : List Slice} {payloads : List Bytes}
    (accounts : pool.Accounts (value.slices ++ others))
    (countable : (value.bytes pool).length < Word.modulus)
    (written : WrittenValue type (some payloads) (value.bytes pool)) (kind : LargeObjectKind)
    (config : StreamConfig) : ((Stream.ofValue kind value type config).readAll pool).answer =
      (SegmentDecoder.new kind type).whole none payloads := by
  have mirrors := FlatReader.mirrors_ofValue accounts countable type
  have ahead : (ChunkReader.ofValue value type).ahead pool = ⟨payloads, none⟩ :=
    mirrors.rest.symm.trans (Contents.ofBytes_of_written written)
  have active : (Stream.ofValue kind value type config).verdict? = none := rfl
  refine (Stream.answer_readAll active).trans ?_
  unfold Stream.whole Stream.ofValue
  dsimp only
  rw [mirrors.sound.toCome, ahead]

/-- A value that was written with some payloads is read with them. -/
theorem Value.reads_of_written {value : Value} {type : ColumnType} {pool : Pool}
    {others : List Slice} {payloads : List Bytes}
    (accounts : pool.Accounts (value.slices ++ others))
    (countable : (value.bytes pool).length < Word.modulus)
    (written : WrittenValue type (some payloads) (value.bytes pool)) :
    value.Reads type pool payloads := by
  have mirrors := FlatReader.mirrors_ofValue accounts countable type
  have contents : Contents.ofBytes type (value.bytes pool) = ⟨payloads, none⟩ :=
    Contents.ofBytes_of_written written
  have read := Value.readAll_of_written accounts countable written
  refine ⟨mirrors.useAll_next contents, ?_, fun config => ?_, fun config error failed => ?_⟩
  · exact mirrors.malformed_not_mem ⟨congrArg Contents.error contents, rfl⟩
  · rw [read]
    exact SegmentDecoder.whole_binary none payloads
  · rw [read] at failed
    exact SegmentDecoder.eq_of_whole_text failed

/-- Where a whole row is readable, decoding gives the row, and the data of each of its columns
reads as the payloads that the column has on the wire. -/
theorem decoded_values_read {session : Session} (reachable : session.Reachable)
    (held : session.buffer.block.isSome) {token : RowToken} {columns : List ColumnType}
    {pool : Pool} {buffer : ReceiveBuffer}
    (asked : token.canDecode session.buffer session.pool columns = ⟨pool, buffer, .ok true⟩) :
    ∃ pool' after row, token.decode buffer pool columns = ⟨pool', after, .ok row⟩ ∧
      (token.split columns (session.buffer.readable session.pool)).map Prod.fst =
        some (row.slots.map (Slot.wire? pool')) ∧
      ∀ index value, row.slots[index]? = some (.owned value) →
        ∃ type payloads left, columns[index]? = some type ∧
          row.take index = .ok (some value, left) ∧
          WrittenValue type (some payloads) (value.bytes pool') ∧
          (type.isPlp = false → payloads = [(value.bytes pool').drop type.descriptorSize]) ∧
          value.Reads type pool' payloads := by
  have sound : session.buffer.Sound session.pool session.handedOut := reachable.sound
  have answer := sound.canDecode token columns
  rw [asked] at answer
  obtain ⟨rfl, rfl, whole⟩ := Reading.mk.inj answer
  obtain ⟨⟨pieces, rest⟩, found⟩ := Option.isSome_iff_exists.1 (Except.ok.inj whole).symm
  obtain ⟨pool', after, row, decoded, takes, -, wires⟩ := sound.decode held found
  refine ⟨pool', after, row, decoded, ?_, fun index value owned => ?_⟩
  · rw [found, wires]
    rfl
  · have present : pieces[index]? = some (some (value.bytes pool')) := by
      rw [← wires, List.getElem?_map, owned]
      rfl
    have taken : row.take index = .ok (some value, row.setSlot index .transferred) := by
      unfold Row.take
      rw [owned]
    obtain ⟨type, payloads, column, written⟩ := RowToken.written_of_split found present
    refine ⟨type, payloads, _, column, taken, written, written.payloads_of_scalar, ?_⟩
    have inside := (RowToken.length_le_of_split found).2 _ (List.mem_of_getElem? present)
    have limit := Nat.le_trans inside sound.length_readable_le
    exact Value.reads_of_written (Row.accounts_take taken takes.sound.accounts)
      (Nat.lt_of_le_of_lt limit (by decide)) written

/-- A column for large binary objects, and one for small numbers. -/
def mixedColumns : List ColumnType :=
  [⟨.varbinaryMax, .part, 0, .usAscii, 0, 0⟩, ⟨.intN, .byte, 4, .usAscii, 0, 0⟩]

/-- A large object in two chunks. -/
def mixedObject : Bytes :=
  [5, 0, 0, 0, 0, 0, 0, 0] ++ [2, 0, 0, 0, 1, 2] ++ [3, 0, 0, 0, 3, 4, 5] ++ [0, 0, 0, 0]

/-- A session that has received a row with this object and a number. -/
def mixedSession : Session :=
  (Session.fresh {} mixedColumns).after [.buffer (.append (mixedObject ++ [1, 7]))]

theorem decoded_values_read_mixedSession :
    ∃ pool after row, RowToken.row.decode mixedSession.buffer mixedSession.pool mixedColumns =
        ⟨pool, after, .ok row⟩ ∧
      ∃ value, row.slots[0]? = some (.owned value) ∧
        ∀ config, ((Stream.ofValue .binary value ⟨.varbinaryMax, .part, 0, .usAscii, 0, 0⟩
          config).readAll pool).answer = ⟨[1, 2, 3, 4, 5], none⟩ := by
  have new : Session.new {} mixedColumns = .ok (Session.fresh {} mixedColumns) := rfl
  have reachable : mixedSession.Reachable := (Session.Reachable.new new).after (by decide)
  have pieces : RowToken.row.split mixedColumns
      (mixedSession.buffer.readable mixedSession.pool) =
        some ([some mixedObject, some [1, 7]], []) := by
    decide +kernel
  have asked := ReceiveBuffer.Sound.canDecode .row mixedColumns reachable.sound
  rw [pieces] at asked
  obtain ⟨pool, after, row, decoded, cut, values⟩ :=
    decoded_values_read reachable (by decide) asked
  refine ⟨pool, after, row, decoded, ?_⟩
  rw [pieces] at cut
  have first : (row.slots.map (Slot.wire? pool))[0]? = some (some mixedObject) := by
    rw [← Option.some.inj cut]
    rfl
  rw [List.getElem?_map] at first
  obtain ⟨slot, there, wire⟩ := Option.map_eq_some_iff.1 first
  obtain ⟨value, owned, bytes⟩ := Option.map_eq_some_iff.1 wire
  cases slot with
  | owned value =>
    cases owned
    refine ⟨value, there, fun config => ?_⟩
    obtain ⟨type, payloads, -, column, -, written, -, reads⟩ := values 0 value there
    cases column
    have contents := Contents.ofBytes_of_written written
    rw [bytes] at contents
    have payloads_eq : Contents.ofBytes ⟨.varbinaryMax, .part, 0, .usAscii, 0, 0⟩ mixedObject =
        ⟨[[1, 2], [3, 4, 5]], none⟩ := by decide +kernel
    cases contents.symm.trans payloads_eq
    exact reads.binary config
  | null | transferred | released => cases owned

end TabularStream
