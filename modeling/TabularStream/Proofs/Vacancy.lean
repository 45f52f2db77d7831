/-
This file divides the block of a receive buffer into the range that holds the readable bytes and
the one behind it that is free for writing. Room can always be made in the second one, unless that
takes a block that is too large to be had. What is copied there stays unread until it is committed,
and committing makes the front of the free range readable.
-/

import TabularStream.Proofs.Receiving

namespace TabularStream

/-! ### Blocks that are too large -/

/-- Nothing but a block that is too large keeps a pool from handing one out. -/
theorem Pool.allocate_error {pool : Pool} {size : Nat} {failure : Failure}
    (failed : pool.allocate size = .error failure) :
    failure = .tooLarge .block ∧ Word.largestSize < max size pool.config.blockSize.toNat := by
  unfold Pool.allocate at failed
  split at failed
  · cases failed
  · dsimp only at failed
    split at failed
    · rename_i large
      cases failed
      exact ⟨rfl, large⟩
    · cases failed

namespace ReceiveBuffer

variable {buffer after : ReceiveBuffer} {pool pool' : Pool} {others : List Slice}

theorem relocate_error {count : Nat} {failure : Failure}
    (small : buffer.readableBytes + count < Word.modulus)
    (failed : buffer.relocate pool count = .error failure) :
    failure = .tooLarge .block ∧
      Word.largestSize < max (buffer.readableBytes + count) pool.config.blockSize.toNat := by
  unfold relocate at failed
  rw [Word.add_of_lt small] at failed
  split at failed
  · cases failed
  · rename_i refused
    cases failed
    exact Pool.allocate_error refused

/-- Room can be made unless that takes a block that is too large. -/
theorem prepare_error {count : Nat} {failure : Failure}
    (small : buffer.readableBytes + count < Word.modulus)
    (failed : buffer.prepare pool count = .error failure) :
    failure = .tooLarge .block ∧
      Word.largestSize < max (buffer.readableBytes + count) pool.config.blockSize.toNat := by
  unfold prepare ensureWritable at failed
  split at failed
  · cases failed
  · rename_i refused
    cases failed
    split at refused
    · exact relocate_error small refused
    · split at refused
      · cases refused
      · split at refused
        · cases refused
        · exact relocate_error small refused

theorem commit_eq {count : Nat} (small : buffer.writer + count < Word.modulus) :
    buffer.commit count = if buffer.writer + count ≤ buffer.capacity
      then .ok { buffer with writer := buffer.writer + count } else .error .precondition := by
  unfold commit
  rw [Word.add_of_lt small]

theorem Sound.commit_of_le {count : Nat} (sound : buffer.Sound pool others)
    (inside : buffer.writer + count ≤ buffer.capacity) :
    buffer.commit count = .ok { buffer with writer := buffer.writer + count } := by
  have small := Nat.lt_of_le_of_lt (Nat.le_trans inside sound.capacity_le)
    (show Word.largestSize < Word.modulus by decide)
  rw [commit_eq small, if_pos inside]

/-- The room that is prepared reaches to the end of the block. -/
theorem room_of_prepare {count room : Nat}
    (success : buffer.prepare pool count = .ok (pool', after, room)) :
    room = after.capacity - after.writer := by
  unfold prepare at success
  split at success
  · cases success
    rfl
  · cases success

theorem Sound.append_error {bytes : Bytes} {failure : Failure} (sound : buffer.Sound pool others)
    (small : buffer.readableBytes + bytes.length < Word.modulus)
    (failed : buffer.append pool bytes = .error failure) :
    failure = .tooLarge .block ∧
      Word.largestSize < max (buffer.readableBytes + bytes.length) pool.config.blockSize.toNat := by
  unfold ReceiveBuffer.append at failed
  split at failed
  · cases failed
  · split at failed
    · rename_i made
      obtain ⟨receives, -, -, room⟩ := sound.prepare small made
      rw [receives.sound.commit_of_le room] at failed
      cases failed
    · rename_i refused
      cases failed
      exact prepare_error small refused

/-! ### The two parts of the block -/

/-- The range of the block that holds the readable bytes. -/
def occupied (buffer : ReceiveBuffer) : Handle :=
  buffer.block.map fun block =>
    { block with offset := block.offset + buffer.reader, size := buffer.readableBytes }

/-- The range of the block that is free for writing. -/
def vacant (buffer : ReceiveBuffer) : Handle :=
  buffer.block.map fun block =>
    { block with
      offset := block.offset + buffer.writer
      size := block.size - buffer.writer }

/-- The readable bytes are those of their range. -/
theorem Sound.bytes_occupied (sound : buffer.Sound pool others) :
    buffer.occupied.bytes pool = buffer.readable pool := by
  have inside := sound.writer_le
  have ordered := sound.reader_le
  have length := sound.readableBytes
  unfold occupied readable contents
  rcases held : buffer.block with _ | block
  · exact (readable_of_none held).symm.trans (by unfold readable contents; rw [held])
  · rw [capacity, held] at inside
    change buffer.writer ≤ block.size at inside
    rw [Memory.toList_take, Memory.toList_drop]
    exact Pool.bytesOf_part pool block
      (show buffer.reader + buffer.readableBytes ≤ block.size by omega)

theorem vacant_of_some {block : Slice} (held : buffer.block = some block) :
    buffer.vacant = some ⟨block.block, block.offset + buffer.writer, block.size - buffer.writer⟩ :=
  congrArg _ held

/-- The free range holds the bytes of the block from the writing cursor on. -/
theorem Sound.bytes_vacant {block : Slice} (sound : buffer.Sound pool others)
    (held : buffer.block = some block) :
    buffer.vacant.bytes pool = (pool.bytesOf block).drop buffer.writer := by
  have inside := sound.writer_le
  rw [capacity, held] at inside
  change buffer.writer ≤ block.size at inside
  rw [vacant_of_some held]
  refine (Pool.bytesOf_part pool block
    (show buffer.writer + (block.size - buffer.writer) ≤ block.size by omega)).trans ?_
  refine List.take_of_length_le (Nat.le_of_eq ?_)
  rw [List.length_drop, sound.accounts.holds (mem_slices held)]

theorem Sound.length_vacant (sound : buffer.Sound pool others) :
    (buffer.vacant.bytes pool).length = buffer.capacity - buffer.writer := by
  rcases Option.eq_none_or_eq_some buffer.block with held | ⟨block, held⟩
  · rw [vacant, capacity, held]
    exact (Nat.zero_sub _).symm
  · rw [sound.bytes_vacant held, List.length_drop, sound.accounts.holds (mem_slices held),
      capacity, held]
    rfl

/-- Committing makes the front of the free range readable. -/
theorem Sound.readable_commit {count : Nat} (sound : buffer.Sound pool others)
    (inside : buffer.writer + count ≤ buffer.capacity) :
    ReceiveBuffer.readable { buffer with writer := buffer.writer + count } pool =
      buffer.readable pool ++ (buffer.vacant.bytes pool).take count := by
  have raised := sound.setWriter (Nat.le_add_right buffer.writer count) inside
  have ordered := sound.reader_le
  rcases Option.eq_none_or_eq_some buffer.block with held | ⟨block, held⟩
  · have nothing : ReceiveBuffer.readable { buffer with writer := buffer.writer + count } pool = [] :=
      readable_of_none held
    rw [nothing, readable_of_none held, vacant, held]
    exact List.take_nil.symm
  · have front := congrArg Slice.offset (sound.whole block held)
    have length := sound.accounts.holds (mem_slices held)
    rw [capacity, held] at inside
    change buffer.writer + count ≤ block.size at inside
    change block.offset = 0 at front
    have whole {size : Nat} (within : size ≤ block.size) :
        pool.bytesOf ⟨block.block, 0, size⟩ = (pool.bytesOf block).take size :=
      front ▸ Pool.bytesOf_front pool block within
    rw [raised.readable_eq held, sound.readable_eq held, sound.bytes_vacant held, whole inside,
      whole (Nat.le_of_add_right_le inside), List.take_add, List.drop_append_of_le_length]
    show buffer.reader ≤ _
    rw [List.length_take, length]
    omega

/-- Copying to the free range publishes nothing, and what is copied is found at its front. -/
theorem Sound.vacant_fillRegion {bytes : Bytes} (sound : buffer.Sound pool others)
    (held : buffer.block.isSome) (fits : buffer.writer + bytes.length ≤ buffer.capacity) :
    buffer.Receives pool others buffer (buffer.fillRegion pool bytes) [] ∧
      bytes <+: buffer.vacant.bytes (buffer.fillRegion pool bytes) := by
  have quiet : buffer.Receives pool others buffer (buffer.fillRegion pool bytes) [] :=
    sound.fillRegion held fits (Nat.zero_le _)
  have filled := (sound.fillRegion held fits (Nat.le_refl bytes.length)).readable
  rw [quiet.sound.readable_commit fits, quiet.readable, List.append_nil, List.take_length] at filled
  exact ⟨quiet, List.prefix_iff_eq_take.2 (List.append_cancel_left filled).symm⟩

/-- Appending moves the writing cursor up by no more than the bytes that are appended. -/
theorem Sound.writer_append_le {bytes : Bytes} (sound : buffer.Sound pool others)
    (small : buffer.readableBytes + bytes.length < Word.modulus)
    (success : buffer.append pool bytes = .ok (pool', after)) :
    after.writer ≤ buffer.writer + bytes.length := by
  unfold ReceiveBuffer.append at success
  split at success
  · cases success
    exact Nat.le_refl _
  · split at success
    · rename_i made
      obtain ⟨receives, -, lower, room⟩ := sound.prepare small made
      rw [receives.sound.commit_of_le room] at success
      cases success
      exact Nat.add_le_add_right lower _
    · cases success

/-- Discarding does not move the writing cursor up. -/
theorem Sound.writer_discard_le (sound : buffer.Sound pool others) :
    (buffer.discard pool).2.writer ≤ buffer.writer := by
  have length := sound.readableBytes
  unfold ReceiveBuffer.discard
  split
  · exact Nat.le_refl _
  · split
    · split
      · exact Nat.zero_le _
      · exact Nat.zero_le _
    · split
      · exact Nat.le_trans (Nat.le_of_eq length) (Nat.sub_le _ _)
      · exact Nat.le_refl _

end ReceiveBuffer

end TabularStream
