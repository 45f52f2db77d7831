/-
This file says what a chunk reader still has to give, from nothing but the bytes that it has not
read, as one string. `ChunkReader.ahead` are those contents. Where the components end, which of
them are empty and which have been released already makes no difference: a call to `next` gives
the first chunk of the contents or their end, and leaves a reader with the rest of them.

The invariant is `ChunkReader.Sound`. Its cursor is never past the end of what the reader owns, so
the number of bytes that are available never wraps around. It asks for less than `2^64` bytes,
which is what a reader can count.
-/

import TabularStream.Proofs.Custody
import TabularStream.Proofs.Shedding
import TabularStream.Proofs.Values
import TabularStream.LargeObject.Contents

namespace TabularStream

/-- Releasing what has been passed leaves the bytes from the position on. -/
theorem Pool.Accounts.releasePassed {pool : Pool} {slices others : List Slice} {position : Nat}
    (accounts : pool.Accounts (slices ++ others))
    (within : position ≤ (slices.flatMap pool.bytesOf).length) :
    let after := pool.releasePassed slices position
    let bytes := after.2.2.1.flatMap after.1.bytesOf
    after.1.Accounts (after.2.2.1 ++ others) ∧ pool.Spares after.1 others ∧
      after.2.2.2 ≤ bytes.length ∧ bytes.length ≤ (slices.flatMap pool.bytesOf).length ∧
      bytes.drop after.2.2.2 = (slices.flatMap pool.bytesOf).drop position := by
  induction slices generalizing pool position with
  | nil => exact ⟨accounts, Spares.refl pool others, within, Nat.le_refl _, rfl⟩
  | cons first rest inductionHypothesis =>
    have size : (pool.bytesOf first).length = first.size := accounts.holds List.mem_cons_self
    have kept : pool.Spares (pool.release first) (rest ++ others) :=
      Accounts.spares_release accounts
    have same : rest.flatMap (pool.release first).bytesOf = rest.flatMap pool.bytesOf := by
      rw [List.flatMap_def, List.flatMap_def]
      exact congrArg List.flatten
        (List.map_congr_left fun slice member => (kept slice (List.mem_append_left _ member)).1)
    rw [List.flatMap_cons, List.length_append, size] at within ⊢
    unfold Pool.releasePassed
    split
    · rename_i passed
      have none : (pool.bytesOf first).drop position = [] :=
        List.drop_of_length_le (by rw [size]; exact passed)
      obtain ⟨left, spares, inside, shorter, unread⟩ :=
        inductionHypothesis (Accounts.release accounts)
          (show position - first.size ≤ _ by rw [same]; exact Nat.sub_le_iff_le_add'.2 within)
      rw [same] at shorter unread
      refine ⟨left, ?_, inside, ?_, unread.trans ?_⟩
      · exact Spares.trans (fun other member => kept other (List.mem_append_right _ member)) spares
      · exact Nat.le_trans shorter (Nat.le_add_left _ _)
      · rw [List.drop_append, none, List.nil_append, size]
    · have length : ((first :: rest).flatMap pool.bytesOf).length =
          first.size + (rest.flatMap pool.bytesOf).length := by
        rw [List.flatMap_cons, List.length_append, size]
      refine ⟨accounts, Spares.refl pool others, ?_, Nat.le_of_eq length, ?_⟩
      · exact length ▸ within
      · rw [List.flatMap_cons]

namespace ChunkReader

variable {reader : ChunkReader} {pool : Pool} {others : List Slice}

/-! ### The bytes that have not been read -/

/-- The bytes that have not been read. -/
def unread (reader : ChunkReader) (pool : Pool) : Bytes :=
  (reader.data.bytes pool).drop reader.offset

/-- A reader starts with all that a value owns. -/
theorem live_ofValue (value : Value) (type : ColumnType) :
    (ofValue value type).data.live = value.slices := by
  cases value <;> rfl

theorem unread_ofValue (value : Value) (type : ColumnType) (pool : Pool) :
    (ofValue value type).unread pool = value.bytes pool := by
  rw [Value.bytes_eq, ← live_ofValue value type]
  rfl

/-- The invariant of a reader. The other slices are those that it does not own. -/
structure Sound (reader : ChunkReader) (pool : Pool) (others : List Slice) : Prop where
  accounts : pool.Accounts (reader.data.live ++ others)
  offset_le : reader.offset ≤ (reader.data.bytes pool).length
  countable : (reader.data.bytes pool).length < Word.modulus

theorem Sound.holds (sound : reader.Sound pool others) :
    ∀ slice ∈ reader.data.live, pool.Holds slice :=
  fun _ member => sound.accounts.holds (List.mem_append_left _ member)

/-- The bytes that are available are those that have not been read. -/
theorem Sound.available (sound : reader.Sound pool others) :
    reader.available = (reader.unread pool).length := by
  have size : reader.data.size = (reader.data.bytes pool).length :=
    totalSize_eq sound.holds sound.countable
  unfold ChunkReader.available unread
  rw [size, Word.sub_of_le sound.offset_le sound.countable, List.length_drop]

theorem Sound.bytesAt {skip : Nat} (sound : reader.Sound pool others)
    (within : skip ≤ reader.available) (count : Nat) :
    reader.bytesAt pool skip count = ((reader.unread pool).drop skip).take count := by
  have inside := sound.offset_le
  have small := sound.countable
  rw [sound.available, unread, List.length_drop] at within
  unfold ChunkReader.bytesAt
  rw [Word.add_of_lt (by omega), Pool.gather_eq pool _ sound.holds, unread, List.drop_drop]
  rfl

/-- Moving past bytes leaves those that follow them. -/
theorem Sound.advance {count : Nat} (sound : reader.Sound pool others)
    (within : count ≤ reader.available) :
    (reader.advance count).Sound pool others ∧
      (reader.advance count).unread pool = (reader.unread pool).drop count := by
  have inside := sound.offset_le
  have small := sound.countable
  rw [sound.available, unread, List.length_drop] at within
  have moved : Word.add reader.offset count = reader.offset + count := Word.add_of_lt (by omega)
  refine ⟨⟨sound.accounts, ?_, small⟩, ?_⟩
  · show Word.add reader.offset count ≤ _
    rw [moved]
    show reader.offset + count ≤ (reader.data.bytes pool).length
    omega
  · show (reader.data.bytes pool).drop (Word.add reader.offset count) = _
    rw [moved, unread, List.drop_drop]

theorem Sound.releaseConsumed (sound : reader.Sound pool others) :
    let after := reader.releaseConsumed pool
    after.2.Sound after.1 others ∧ pool.Spares after.1 others ∧
      after.2.unread after.1 = reader.unread pool := by
  obtain ⟨left, spares, inside, shorter, unread⟩ :=
    sound.accounts.releasePassed sound.offset_le
  exact ⟨⟨left, inside, Nat.lt_of_le_of_lt shorter sound.countable⟩, spares, unread⟩

/-- Releasing a reader leaves nothing to be read. -/
theorem Sound.release (sound : reader.Sound pool others) :
    let after := reader.release pool
    after.2.Sound after.1 others ∧ pool.Spares after.1 others := by
  obtain ⟨left, spares⟩ := sound.accounts.releaseAll
  have none : 0 < Word.modulus := by decide
  exact ⟨⟨left, Nat.zero_le _, none⟩, spares⟩

/-! ### What reading on gives -/

/-- What a reader still has to give. -/
def ahead (reader : ChunkReader) (pool : Pool) : Contents :=
  match reader.phase with
  | .header => Contents.ofBytes reader.type (reader.unread pool)
  | .chunks => Contents.ofChunks (reader.unread pool)
  | .scalarRead => Contents.empty
  | .finished => ⟨[], reader.error⟩

/-- The first chunk of some contents, or how they end, with a reader that has the rest of them
ahead. -/
inductive Gives (reader : ChunkReader) : Contents → Pulled → Prop where
  | chunk {pulled : Pulled} {payload : Bytes} {chunks : List Bytes} {error : Option ClientError}
      (event : pulled.event = .chunk payload) (last : pulled.reader.payload = payload)
      (same : pulled.reader.error = reader.error)
      (rest : pulled.reader.ahead pulled.pool = ⟨chunks, error⟩) :
      Gives reader ⟨payload :: chunks, error⟩ pulled
  | ended {pulled : Pulled} {error : Option ClientError}
      (event : pulled.event = .ofError error) (last : pulled.reader.payload = [])
      (same : pulled.reader.error = error)
      (rest : pulled.reader.ahead pulled.pool = ⟨[], error⟩) : Gives reader ⟨[], error⟩ pulled

/-- What a call to `next` leaves of a sound reader, and what it gives. -/
structure Pulls (reader : ChunkReader) (pool : Pool) (others : List Slice) (contents : Contents)
    (pulled : Pulled) : Prop where
  sound : pulled.reader.Sound pulled.pool others
  spares : pool.Spares pulled.pool others
  gives : reader.Gives contents pulled

theorem Sound.finish (sound : reader.Sound pool others) (error : Option ClientError) :
    reader.Pulls pool others ⟨[], error⟩ (reader.finish pool error) := by
  obtain ⟨left, spares⟩ := sound.release
  exact ⟨⟨left.accounts, left.offset_le, left.countable⟩, spares, .ended rfl rfl rfl rfl⟩

/-- A chunk that is available is given. -/
theorem Sound.give {phase : Phase} {count : Nat} {chunks : List Bytes}
    {error : Option ClientError} (sound : reader.Sound pool others)
    (within : count ≤ reader.available)
    (rest : ∀ payload, ahead { reader.advance count with phase, payload } pool = ⟨chunks, error⟩) :
    reader.Pulls pool others ⟨(reader.unread pool).take count :: chunks, error⟩
      (reader.give pool phase count) := by
  obtain ⟨moved, -⟩ := sound.advance within
  have payload := sound.bytesAt (Nat.zero_le _) count
  rw [List.drop_zero] at payload
  refine ⟨⟨moved.accounts, moved.offset_le, moved.countable⟩, Pool.Spares.refl pool others, ?_⟩
  rw [← payload]
  exact .chunk rfl rfl rfl (rest _)

/-- A reader that goes on from another place gives what it gives from there. -/
theorem Pulls.of_moved {reader' : ChunkReader} {pool' : Pool} {contents : Contents}
    {pulled : Pulled} (pulls : reader'.Pulls pool' others contents pulled)
    (same : reader'.error = reader.error) (spares : pool.Spares pool' others) :
    reader.Pulls pool others contents pulled := by
  refine ⟨pulls.sound, spares.trans pulls.spares, ?_⟩
  cases pulls.gives with
  | chunk event last kept rest => exact .chunk event last (kept.trans same) rest
  | ended event last kept rest => exact .ended event last kept rest

theorem Sound.readScalar (sound : reader.Sound pool others) :
    reader.Pulls pool others (Contents.ofScalar reader.type (reader.unread pool))
      (reader.readScalar pool) := by
  have available := sound.available
  unfold ChunkReader.readScalar Contents.ofScalar
  rw [← available]
  dsimp only
  split
  · exact sound.finish _
  · rename_i enough
    have enough := Nat.le_of_not_lt enough
    obtain ⟨moved, rest⟩ := sound.advance enough
    have header := sound.bytesAt (Nat.zero_le _) reader.type.descriptorSize
    rw [List.drop_zero] at header
    rw [header, ScalarLength.ofDescriptor_take, ← rest, ← moved.available]
    cases ScalarLength.ofDescriptor reader.type (reader.unread pool) with
    | null => exact sound.finish _
    | of size =>
      dsimp only
      split
      · exact sound.finish _
      · rename_i whole
        split
        · exact sound.finish _
        · rename_i exactly
          have all : size.toNat = (reader.advance reader.type.descriptorSize).available := by omega
          have given : Pulls _ pool others ⟨_ :: [], none⟩
              (ChunkReader.give _ pool .scalarRead size.toNat) :=
            moved.give (Nat.le_of_eq all) fun _ => rfl
          have length : ((reader.advance _).unread pool).length = size.toNat :=
            moved.available.symm.trans all.symm
          rw [List.take_of_length_le (Nat.le_of_eq length)] at given
          exact given.of_moved rfl (Pool.Spares.refl pool others)

theorem Sound.readChunk (sound : reader.Sound pool others) :
    reader.Pulls pool others (Contents.ofChunks (reader.unread pool)) (reader.readChunk pool) := by
  have available := sound.available
  unfold ChunkReader.readChunk Contents.ofChunks
  rw [← available]
  dsimp only
  split
  · exact sound.finish _
  · rename_i enough
    have enough := Nat.le_of_not_lt enough
    obtain ⟨moved, rest⟩ := sound.advance enough
    have header := sound.bytesAt (Nat.zero_le _) ChunkLength.width
    rw [List.drop_zero] at header
    rw [header, ChunkLength.ofBytes_take, ← rest, ← moved.available]
    split
    · have none : (reader.advance ChunkLength.width).available = 0 ↔
          (reader.advance ChunkLength.width).unread pool = [] := by
        rw [moved.available, List.length_eq_zero_iff]
      by_cases ends : (reader.advance ChunkLength.width).unread pool = []
      · rw [if_pos ends, if_pos (none.2 ends)]
        exact sound.finish _
      · rw [if_neg ends, if_neg fun zero => ends (none.1 zero)]
        exact sound.finish _
    · split
      · exact sound.finish _
      · rename_i whole
        have whole := Nat.le_of_not_lt whole
        refine (moved.give whole fun payload => ?_).of_moved rfl (Pool.Spares.refl pool others)
        have left := (moved.advance whole).2
        unfold ahead
        show Contents.ofChunks (ChunkReader.unread _ pool) = _
        exact congrArg Contents.ofChunks left

theorem Sound.readPlp (sound : reader.Sound pool others) :
    reader.Pulls pool others (Contents.ofPlp (reader.unread pool)) (reader.readPlp pool) := by
  have available := sound.available
  unfold ChunkReader.readPlp Contents.ofPlp
  rw [← available]
  split
  · exact sound.finish _
  · rename_i enough
    have enough := Nat.le_of_not_lt enough
    obtain ⟨moved, rest⟩ := sound.advance enough
    have header := sound.bytesAt (Nat.zero_le _) PlpTotal.width
    rw [List.drop_zero] at header
    rw [header, PlpTotal.ofBytes_take, ← rest]
    split
    · exact sound.finish _
    · have started : Sound { reader.advance PlpTotal.width with phase := .chunks } pool others :=
        ⟨moved.accounts, moved.offset_le, moved.countable⟩
      exact started.readChunk.of_moved rfl (Pool.Spares.refl pool others)

/-- Releasing what has been passed changes nothing ahead. -/
theorem Sound.ahead_releaseConsumed (sound : reader.Sound pool others) :
    (reader.releaseConsumed pool).2.ahead (reader.releaseConsumed pool).1 =
      reader.ahead pool := by
  obtain ⟨-, -, unread⟩ := sound.releaseConsumed
  unfold ahead
  rw [unread]
  rfl

/-- Reading on gives the first chunk of what is ahead, or its end. -/
theorem Sound.next (sound : reader.Sound pool others) :
    reader.Pulls pool others (reader.ahead pool) (reader.next pool) := by
  obtain ⟨left, spares, -⟩ := sound.releaseConsumed
  have same : (reader.releaseConsumed pool).2.error = reader.error := rfl
  have last : (reader.releaseConsumed pool).2.payload = [] := rfl
  rw [← sound.ahead_releaseConsumed]
  unfold ChunkReader.next
  generalize reader.releaseConsumed pool = released at left spares same last ⊢
  obtain ⟨pool', middle⟩ := released
  dsimp only at left spares same last ⊢
  refine Pulls.of_moved ?_ same spares
  unfold ChunkReader.ahead
  cases phase : middle.phase with
  | header =>
    dsimp only
    unfold Contents.ofBytes
    split
    · exact left.readPlp
    · exact left.readScalar
  | chunks => exact left.readChunk
  | scalarRead => exact left.finish none
  | finished =>
    refine ⟨left, Pool.Spares.refl pool' others, .ended rfl last rfl ?_⟩
    unfold ChunkReader.ahead
    rw [phase]

/-! ### What an event says about the contents -/

section Gives

variable {contents : Contents} {pulled : Pulled}

theorem Gives.of_malformed {error : ClientError} (gives : reader.Gives contents pulled)
    (event : pulled.event = .malformed error) : contents = .malformed error := by
  cases gives with
  | chunk given => cases given.symm.trans event
  | @ended _ error' given =>
    cases error' with
    | none => cases given.symm.trans event
    | some error' =>
      cases given.symm.trans event
      rfl

theorem Gives.of_done (gives : reader.Gives contents pulled) (event : pulled.event = .done) :
    contents = .empty := by
  cases gives with
  | chunk given => cases given.symm.trans event
  | @ended _ error given =>
    cases error with
    | none => rfl
    | some error => cases given.symm.trans event

theorem Gives.of_chunk {payload : Bytes} (gives : reader.Gives contents pulled)
    (event : pulled.event = .chunk payload) :
    contents = .cons payload (pulled.reader.ahead pulled.pool) := by
  cases gives with
  | chunk given _ _ rest =>
    cases given.symm.trans event
    rw [rest]
    rfl
  | @ended _ error given => cases error <;> cases given.symm.trans event

end Gives

end ChunkReader

end TabularStream
