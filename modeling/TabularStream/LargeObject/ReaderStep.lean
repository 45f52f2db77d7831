/-
This file says once what a call to `next` does to a chunk reader. The reader gives up what it has
read, moves over headers that are there, and then it ends its value or gives a chunk that is there.
`Reads` lists these cases, each with what looking ahead says, and `reads_next` is that there are no
others. It asks nothing of the value, so what holds of each call is read off the cases. The first
such fact is that a call which gives a chunk makes `remaining` smaller, so that reading a value to
its end takes finitely many calls.
-/

import TabularStream.LargeObject.ChunkReader

namespace TabularStream.ChunkReader

/-! ### Moving -/

/-- Moving on over bytes that are available. -/
inductive Moves (reader : ChunkReader) : ChunkReader → Prop where
  | stay : Moves reader reader
  | advance {moved : ChunkReader} {count : Nat} (moves : Moves reader moved)
      (within : count ≤ moved.available) : Moves reader (moved.advance count)
  | enter {moved : ChunkReader} (moves : Moves reader moved) :
      Moves reader { moved with phase := .chunks }

variable {reader moved : ChunkReader} {pool : Pool}

/-- A reader that moves on keeps what it owns. -/
theorem Moves.data (moves : reader.Moves moved) : moved.data = reader.data := by
  induction moves with
  | stay => rfl
  | advance _ _ same => exact same
  | enter _ same => exact same

/-- A reader that moves on gets closer to the end. -/
theorem Moves.available_le (moves : reader.Moves moved) : moved.available ≤ reader.available := by
  induction moves with
  | stay => exact Nat.le_refl _
  | @advance moved count _ within closer =>
    have left := available_advance_add within
    omega
  | enter _ closer => exact closer

/-! ### Chunks ahead -/

/-- What is some bytes ahead is here once the reader has moved over them. -/
theorem bytesAt_advance (reader : ChunkReader) (pool : Pool) (skip count : Nat) :
    (reader.advance skip).bytesAt pool 0 count = reader.bytesAt pool skip count := by
  have position : Word.add (Word.add reader.offset skip) 0 = Word.add reader.offset skip :=
    Nat.mod_mod _ _
  unfold bytesAt advance
  dsimp only
  rw [position]

theorem chunkAt_advance {skip : Nat} (within : skip ≤ reader.available) (pool : Pool) :
    (reader.advance skip).chunkAt pool 0 = reader.chunkAt pool skip := by
  have moved := available_advance_add within
  unfold chunkAt
  rw [bytesAt_advance, ← moved, Nat.add_sub_cancel, Nat.sub_zero, Nat.zero_add,
    Nat.add_comm _ skip]
  simp only [Nat.add_lt_add_iff_left]

/-! ### The cases -/

/-- What reading on does, against what looking ahead says. -/
inductive Reads (reader : ChunkReader) (pool : Pool) : (ahead : Bool) → Pulled → Prop where
  /-- The value ends here. -/
  | ends {moved : ChunkReader} (moves : reader.Moves moved) (error : Option ClientError) :
      Reads reader pool false (moved.finish pool error)
  /-- There is a chunk of a PLP value, which is never empty. -/
  | chunk {moved : ChunkReader} {count : Nat} (going : reader.phase ≠ .finished)
      (moves : reader.Moves moved) (within : count ≤ moved.available) (some : count ≠ 0) :
      Reads reader pool true (moved.give pool .chunks count)
  /-- There is a whole scalar value, which may be empty. -/
  | scalar {moved : ChunkReader} {count : Nat} (first : reader.phase = .header)
      (moves : reader.Moves moved) (within : count ≤ moved.available) :
      Reads reader pool (count != 0) (moved.give pool .scalarRead count)
  /-- The value has ended before. -/
  | past (finished : reader.phase = .finished) :
      Reads reader pool false ⟨pool, reader, .ofError reader.error⟩

theorem reads_readChunk (going : reader.phase ≠ .finished) (moves : reader.Moves moved)
    (pool : Pool) : reader.Reads pool (moved.chunkAt pool 0) (moved.readChunk pool) := by
  unfold chunkAt readChunk
  dsimp only
  rw [Nat.zero_add, Nat.sub_zero]
  split
  · exact .ends moves _
  · rename_i enough
    have enough := Nat.le_of_not_lt enough
    have left := available_advance_add enough
    have body := moves.advance enough
    generalize ChunkLength.ofBytes _ = length
    cases last : length.isTerminator with
    | true => exact .ends body _
    | false =>
      rw [← left, Nat.add_sub_cancel, if_neg Bool.false_ne_true, Bool.not_false, Bool.true_and]
      split
      · rename_i cut
        rw [decide_eq_false (Nat.not_le.2 cut)]
        exact .ends body _
      · rename_i whole
        have whole := Nat.le_of_not_lt whole
        rw [decide_eq_true whole]
        exact .chunk going body whole (ChunkLength.toNat_ne_zero last)

theorem reads_readPlp (plp : reader.type.isPlp) (atHeader : reader.phase = .header) (pool : Pool) :
    reader.Reads pool (reader.chunkAhead pool) (reader.readPlp pool) := by
  unfold chunkAhead readPlp
  rw [atHeader]
  dsimp only
  rw [if_pos plp]
  split
  · exact .ends .stay _
  · rename_i enough
    have enough := Nat.le_of_not_lt enough
    split
    · exact .ends .stay _
    · rw [← chunkAt_advance enough]
      have going : reader.phase ≠ .finished := by simp [atHeader]
      exact reads_readChunk going (.enter (.advance .stay enough)) pool

theorem reads_readScalar (scalar : reader.type.isPlp = false) (atHeader : reader.phase = .header)
    (pool : Pool) : reader.Reads pool (reader.chunkAhead pool) (reader.readScalar pool) := by
  unfold chunkAhead readScalar
  rw [atHeader]
  dsimp only
  rw [if_neg (Bool.eq_false_iff.1 scalar)]
  split
  · exact .ends .stay _
  · rename_i enough
    have enough := Nat.le_of_not_lt enough
    have left := available_advance_add enough
    cases ScalarLength.ofDescriptor reader.type
        (reader.bytesAt pool 0 reader.type.descriptorSize) with
    | null => exact .ends .stay _
    | of size =>
      have body : reader.Moves _ := .advance .stay enough
      dsimp only
      rw [← left, Nat.add_sub_cancel]
      split
      · rename_i cut
        rw [beq_false_of_ne (Nat.ne_of_lt cut), Bool.and_false]
        exact .ends .stay _
      · rename_i whole
        split
        · rename_i longer
          rw [beq_false_of_ne (Nat.ne_of_gt longer), Bool.and_false]
          exact .ends .stay _
        · rename_i exactly
          have all := Nat.le_antisymm (Nat.le_of_not_lt exactly) (Nat.le_of_not_lt whole)
          have same : (size != 0) = (size.toNat != 0) := by
            rw [Bool.eq_iff_iff, bne_iff_ne, bne_iff_ne, ne_eq, ne_eq, ← UInt32.toNat_inj]
            rfl
          rw [all, beq_self_eq_true, Bool.and_true, same]
          exact .scalar atHeader body (Nat.le_of_eq all.symm)

/-- What a call to `next` does once it has given up what has been read. -/
theorem reads_next (reader : ChunkReader) (pool : Pool) :
    let released := reader.releaseConsumed pool
    released.2.Reads released.1 (released.2.chunkAhead released.1) (reader.next pool) := by
  unfold next
  generalize reader.releaseConsumed pool = released
  obtain ⟨pool, reader⟩ := released
  dsimp only
  cases phase : reader.phase with
  | header =>
    dsimp only
    cases plp : reader.type.isPlp with
    | true => exact reads_readPlp plp phase pool
    | false => exact reads_readScalar plp phase pool
  | chunks =>
    have ahead : reader.chunkAhead pool = reader.chunkAt pool 0 := by
      unfold chunkAhead
      rw [phase]
    rw [ahead]
    exact reads_readChunk (by simp [phase]) .stay pool
  | scalarRead =>
    have ahead : reader.chunkAhead pool = false := by
      unfold chunkAhead
      rw [phase]
    rw [ahead]
    exact .ends .stay none
  | finished =>
    have ahead : reader.chunkAhead pool = false := by
      unfold chunkAhead
      rw [phase]
    rw [ahead]
    exact .past phase

/-! ### Reading ends -/

theorem Reads.remaining_lt {ahead : Bool} {pulled : Pulled} {payload : Bytes}
    (reads : reader.Reads pool ahead pulled) (event : pulled.event = .chunk payload) :
    pulled.reader.remaining < reader.remaining := by
  cases reads with
  | ends _ error => cases error <;> cases event
  | @chunk moved count going moves within some =>
    have rank : 0 < reader.phase.rank := by
      cases phase : reader.phase <;> simp [phase, Phase.rank] at going ⊢
    have left := available_advance_add within
    have closer := moves.available_le
    show (moved.advance count).available + 1 < reader.available + reader.phase.rank
    omega
  | @scalar moved count first moves within =>
    have left := available_advance_add within
    have closer := moves.available_le
    show (moved.advance count).available + 1 < reader.available + reader.phase.rank
    rw [first]
    show _ < reader.available + 2
    omega
  | past => cases error : reader.error <;> simp [error, Event.ofError] at event

/-- Each chunk brings the reader closer to the end of its value. -/
theorem remaining_next_lt {payload : Bytes} (chunk : (reader.next pool).event = .chunk payload) :
    (reader.next pool).reader.remaining < reader.remaining := by
  rw [← remaining_releaseConsumed reader pool]
  exact (reader.reads_next pool).remaining_lt chunk

end TabularStream.ChunkReader
