/-
This file proves that looking ahead tells what reading on will give: it says that there is a chunk
exactly when the next call gives one with a payload. It has to hold before what has been read is
given up as well as after, because a stream looks ahead first and a call to `next` gives up first.

The invariant, `Inside`, is that the reading position is not past the end of what the reader owns.
It asks for no bound on the number of bytes. Where their number is taken modulo `2^64` the reader
sees less than there is, so what it moves over is still there.
-/

import TabularStream.Proofs.Unread

namespace TabularStream

/-! ### The position -/

/-- The position within what is left is inside of the first slice that is left. -/
theorem Pool.releasePassed_lt (pool : Pool) (slices : List Slice) (position : Nat)
    {first : Slice} {rest : List Slice}
    (left : (pool.releasePassed slices position).2.2.1 = first :: rest) :
    (pool.releasePassed slices position).2.2.2 < first.size := by
  induction slices generalizing pool position with
  | nil => cases left
  | cons slice slices inductionHypothesis =>
    unfold releasePassed at left ⊢
    split at left
    · rename_i passed
      rw [if_pos passed]
      exact inductionHypothesis _ _ left
    · rename_i within
      rw [if_neg within]
      cases left
      exact Nat.lt_of_not_le within

namespace ChunkReader

variable {reader moved : ChunkReader} {pool : Pool} {others : List Slice} {ahead : Bool}
  {pulled : Pulled}

/-- A reader whose position is inside of what it owns. The other slices are those that it does not
own. -/
structure Inside (reader : ChunkReader) (pool : Pool) (others : List Slice) : Prop where
  accounts : pool.Accounts (reader.data.live ++ others)
  offset_le : reader.offset ≤ (reader.data.bytes pool).length

theorem Inside.holds (inside : reader.Inside pool others) :
    ∀ slice ∈ reader.data.live, pool.Holds slice :=
  fun _ member => inside.accounts.holds (List.mem_append_left _ member)

/-- A reader sees no more bytes than there are. -/
theorem Inside.available_le (inside : reader.Inside pool others) :
    reader.offset + reader.available ≤ (reader.data.bytes pool).length := by
  have size : reader.data.size = (reader.data.bytes pool).length % Word.modulus :=
    totalSize_mod inside.holds
  have within := inside.offset_le
  unfold available
  rw [size]
  simp only [Word.sub, Word.modulus]
  omega

theorem Inside.moves (inside : reader.Inside pool others) (moves : reader.Moves moved) :
    moved.Inside pool others := by
  induction moves with
  | stay => exact inside
  | @advance moved count _ within inductionHypothesis =>
    refine ⟨inductionHypothesis.accounts, ?_⟩
    have position : Word.add moved.offset count ≤ moved.offset + count := Nat.mod_le _ _
    have there := inductionHypothesis.available_le
    show Word.add moved.offset count ≤ (moved.data.bytes pool).length
    omega
  | enter _ inductionHypothesis =>
    exact ⟨inductionHypothesis.accounts, inductionHypothesis.offset_le⟩

theorem bytesAt_zero (reader : ChunkReader) (pool : Pool) (skip : Nat) :
    reader.bytesAt pool skip 0 = [] := by
  unfold bytesAt
  cases reader.data.live <;> rfl

/-- Bytes that are available are there. -/
theorem Inside.length_bytesAt (inside : reader.Inside pool others) {skip count : Nat}
    (within : skip + count ≤ reader.available) :
    (reader.bytesAt pool skip count).length = count := by
  have there := inside.available_le
  have position : Word.add reader.offset skip ≤ reader.offset + skip := Nat.mod_le _ _
  have bytes : reader.bytesAt pool skip count =
      ((reader.data.bytes pool).drop (Word.add reader.offset skip)).take count :=
    Pool.gather_eq pool _ inside.holds _ _
  rw [bytes, List.length_take, List.length_drop]
  omega

/-- A chunk that is available has a payload unless its length is zero. -/
theorem Inside.bytesAt_ne_nil {count : Nat} (inside : reader.Inside pool others)
    (within : count ≤ reader.available) (some : count ≠ 0) : reader.bytesAt pool 0 count ≠ [] := by
  have length : (reader.bytesAt pool 0 count).length = count :=
    inside.length_bytesAt ((Nat.zero_add count).symm ▸ within)
  exact List.ne_nil_of_length_pos (length.symm ▸ Nat.pos_of_ne_zero some)

theorem Inside.release (inside : reader.Inside pool others) :
    (reader.release pool).2.Inside (reader.release pool).1 others :=
  ⟨inside.accounts.releaseAll.1, Nat.zero_le _⟩

/-- Reading on keeps the position inside. -/
theorem Reads.inside (reads : reader.Reads pool ahead pulled)
    (inside : reader.Inside pool others) : pulled.reader.Inside pulled.pool others := by
  cases reads with
  | ends moves =>
    have released := (inside.moves moves).release
    exact ⟨released.accounts, released.offset_le⟩
  | chunk _ moves within | scalar _ moves within =>
    have given := inside.moves (moves.advance within)
    exact ⟨given.accounts, given.offset_le⟩
  | past => exact inside

/-- Looking ahead at what is here tells whether there is a chunk that is not empty. -/
theorem Reads.ahead_iff (reads : reader.Reads pool ahead pulled)
    (inside : reader.Inside pool others) :
    ahead = true ↔ ∃ payload, payload ≠ [] ∧ pulled.event = .chunk payload := by
  cases reads with
  | ends moves error => cases error <;> simp [finish, Event.ofError]
  | chunk _ moves within some =>
    have payload := (inside.moves moves).bytesAt_ne_nil within some
    exact ⟨fun _ => ⟨_, payload, rfl⟩, fun _ => rfl⟩
  | @scalar moved count _ moves within =>
    rw [bne_iff_ne]
    constructor
    · intro some
      exact ⟨_, (inside.moves moves).bytesAt_ne_nil within some, rfl⟩
    · rintro ⟨payload, some, event⟩ rfl
      cases event
      exact some (bytesAt_zero moved pool 0)
  | past => cases reader.error <;> simp [Event.ofError]

/-- Only a scalar value gives an empty chunk, and nothing comes after it. -/
theorem Reads.phase_of_nil (reads : reader.Reads pool ahead pulled)
    (inside : reader.Inside pool others) (event : pulled.event = .chunk []) :
    pulled.reader.phase = .scalarRead := by
  cases reads with
  | ends moves error => cases error <;> cases event
  | chunk _ moves within some =>
    have payload := (inside.moves moves).bytesAt_ne_nil within some
    exact absurd (Event.chunk.inj event) payload
  | scalar => rfl
  | past => cases error : reader.error <;> simp [error, Event.ofError] at event

/-! ### Before and after what has been read is given up -/

/-- A reader inside of what it owns that can look ahead over a total without its position wrapping
around. -/
structure Placed (reader : ChunkReader) (pool : Pool) (others : List Slice) : Prop where
  inside : reader.Inside pool others
  near : reader.offset + min PlpTotal.width reader.available < Word.modulus

/-- Once what has been read is given up, the position is inside of the first slice. -/
theorem Inside.offset_releaseConsumed_le (inside : reader.Inside pool others) :
    (reader.releaseConsumed pool).2.offset ≤ Word.largestSize := by
  obtain ⟨left, -, within, -⟩ := inside.accounts.releasePassed inside.offset_le
  cases slices : (pool.releasePassed reader.data.live reader.offset).2.2.1 with
  | nil =>
    rw [slices] at within
    exact Nat.le_trans within (Nat.zero_le _)
  | cons first rest =>
    have below := pool.releasePassed_lt _ _ slices
    rw [slices] at left
    have stop := left.end_le (List.mem_append_left _ List.mem_cons_self)
    have limit := left.capacity_le first.block
    show (pool.releasePassed reader.data.live reader.offset).2.2.2 ≤ _
    omega

theorem Inside.releaseConsumed (inside : reader.Inside pool others) :
    (reader.releaseConsumed pool).2.Placed (reader.releaseConsumed pool).1 others := by
  obtain ⟨left, -, within, -⟩ := inside.accounts.releasePassed inside.offset_le
  refine ⟨⟨left, within⟩, ?_⟩
  have position := inside.offset_releaseConsumed_le
  have limit : Word.largestSize + PlpTotal.width < Word.modulus := by decide
  omega

/-- What has not been read stays when what has been read is given up. -/
theorem Inside.unread_releaseConsumed (inside : reader.Inside pool others) :
    (reader.releaseConsumed pool).2.unread (reader.releaseConsumed pool).1 =
      reader.unread pool := by
  obtain ⟨-, -, -, -, unread⟩ := inside.accounts.releasePassed inside.offset_le
  exact unread

/-- A reader at the start of a value can look ahead. -/
theorem placed_ofValue {value : Value} (accounts : pool.Accounts (value.slices ++ others))
    (type : ColumnType) : (ChunkReader.ofValue value type).Placed pool others := by
  have near : 0 + PlpTotal.width < Word.modulus := by decide
  refine ⟨⟨?_, Nat.zero_le _⟩, ?_⟩
  · cases value <;> exact accounts
  · show 0 + min PlpTotal.width _ < Word.modulus
    omega

theorem Placed.bytesAt {skip : Nat} (placed : reader.Placed pool others)
    (small : skip ≤ PlpTotal.width) (within : skip ≤ reader.available) (count : Nat) :
    reader.bytesAt pool skip count = ((reader.unread pool).drop skip).take count := by
  have near := placed.near
  unfold ChunkReader.bytesAt unread
  rw [Word.add_of_lt (by omega), Pool.gather_eq pool _ placed.inside.holds, List.drop_drop]
  rfl

/-- Looking ahead sees no more than the bytes that have not been read. -/
theorem Placed.chunkAhead_congr {reader' : ChunkReader} {pool' : Pool}
    (placed : reader.Placed pool others) (placed' : reader'.Placed pool' others)
    (phase : reader'.phase = reader.phase) (type : reader'.type = reader.type)
    (available : reader'.available = reader.available)
    (unread : reader'.unread pool' = reader.unread pool) :
    reader'.chunkAhead pool' = reader.chunkAhead pool := by
  have bytes (skip count : Nat) (small : skip ≤ PlpTotal.width)
      (within : skip ≤ reader.available) :
      reader'.bytesAt pool' skip count = reader.bytesAt pool skip count := by
    rw [placed.bytesAt small within, placed'.bytesAt small (available ▸ within), unread]
  have chunk (skip : Nat) (small : skip ≤ PlpTotal.width) :
      reader'.chunkAt pool' skip = reader.chunkAt pool skip := by
    unfold chunkAt
    rw [available]
    split
    · rfl
    · rename_i enough
      rw [bytes skip _ small (by omega)]
  unfold chunkAhead
  dsimp only
  rw [phase, type, available, bytes 0 _ (Nat.zero_le _) (Nat.zero_le _),
    bytes 0 _ (Nat.zero_le _) (Nat.zero_le _), chunk 0 (Nat.zero_le _), chunk _ (Nat.le_refl _)]

theorem Placed.chunkAhead_releaseConsumed (placed : reader.Placed pool others) :
    (reader.releaseConsumed pool).2.chunkAhead (reader.releaseConsumed pool).1 =
      reader.chunkAhead pool :=
  placed.chunkAhead_congr placed.inside.releaseConsumed rfl rfl
    (available_releaseConsumed reader pool) placed.inside.unread_releaseConsumed

/-! ### Looking ahead -/

/-- Looking ahead tells whether reading on gives a chunk with a payload. -/
theorem Placed.chunkAhead_iff (placed : reader.Placed pool others) :
    reader.chunkAhead pool = true ↔
      ∃ payload, payload ≠ [] ∧ (reader.next pool).event = .chunk payload := by
  rw [← placed.chunkAhead_releaseConsumed]
  exact (reader.reads_next pool).ahead_iff placed.inside.releaseConsumed.inside

/-- Without a payload ahead the only chunk there can be is an empty one. -/
theorem Placed.eq_nil_of_chunk {payload : Bytes} (placed : reader.Placed pool others)
    (clear : reader.chunkAhead pool = false)
    (chunk : (reader.next pool).event = .chunk payload) : payload = [] := by
  refine Decidable.byContradiction fun some => ?_
  have ahead := placed.chunkAhead_iff.2 ⟨payload, some, chunk⟩
  cases clear.symm.trans ahead

theorem Placed.phase_of_nil (placed : reader.Placed pool others)
    (event : (reader.next pool).event = .chunk []) :
    (reader.next pool).reader.phase = .scalarRead :=
  (reader.reads_next pool).phase_of_nil placed.inside.releaseConsumed.inside event

/-- A chunk that has been read and given up leaves a reader that can look ahead. -/
theorem Placed.afterChunk (placed : reader.Placed pool others) :
    let pulled := reader.next pool
    (pulled.reader.releaseConsumed pulled.pool).2.Placed
      (pulled.reader.releaseConsumed pulled.pool).1 others :=
  ((reader.reads_next pool).inside placed.inside.releaseConsumed.inside).releaseConsumed

end ChunkReader

end TabularStream
