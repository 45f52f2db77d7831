/-
This file says what the operations of a receive buffer do to the bytes that are readable and to
the slices that have been handed out. `ReceiveBuffer.Sound` is the invariant: the buffer holds a
whole block, its cursors are in order, and every slice of its block that belongs to somebody else
ends where the written part does or before. So what is written from the writing cursor on is
nobody's, and with a single reference to the block everything in it may be moved.

`ReceiveBuffer.Receives` is what writing, preparing room and discarding have in common: some bytes
are added to the end of the readable ones, and the bytes of other slices stay.
-/

import TabularStream.Proofs.Custody
import TabularStream.Row.Whole
import TabularStream.Session.Ownership

namespace TabularStream.ReceiveBuffer

variable {buffer after : ReceiveBuffer} {pool pool' : Pool} {others : List Slice}

/-- The invariant of a receive buffer. The other slices are those that the buffer does not own. -/
structure Sound (buffer : ReceiveBuffer) (pool : Pool) (others : List Slice) : Prop where
  accounts : pool.Accounts (buffer.slices ++ others)
  whole : ∀ block, buffer.block = some block →
    block = ⟨block.block, 0, pool.capacity block.block⟩
  reader_le : buffer.reader ≤ buffer.writer
  writer_le : buffer.writer ≤ buffer.capacity
  behind : ∀ block, buffer.block = some block → ∀ slice ∈ others, slice.block = block.block →
    slice.offset + slice.size ≤ buffer.writer

/-- What adding bytes to a buffer does, and nothing else. -/
structure Receives (buffer : ReceiveBuffer) (pool : Pool) (others : List Slice)
    (after : ReceiveBuffer) (pool' : Pool) (fresh : Bytes) : Prop where
  sound : after.Sound pool' others
  readable : after.readable pool' = buffer.readable pool ++ fresh
  same : ∀ slice ∈ others, pool'.bytesOf slice = pool.bytesOf slice

/-! ### The written part of the block -/

theorem Sound.perm {others' : List Slice} (sound : buffer.Sound pool others)
    (same : others.Perm others') : buffer.Sound pool others' where
  accounts := sound.accounts.perm (same.append_left _)
  whole := sound.whole
  reader_le := sound.reader_le
  writer_le := sound.writer_le
  behind block held slice member := sound.behind block held slice (same.mem_iff.2 member)

theorem slices_of_some {block : Slice} (held : buffer.block = some block) :
    buffer.slices = [block] := by
  rw [slices, held]
  rfl

theorem mem_slices {block : Slice} (held : buffer.block = some block) :
    block ∈ buffer.slices ++ others := by
  rw [slices_of_some held]
  exact List.mem_cons_self

theorem Sound.capacity_le (sound : buffer.Sound pool others) :
    buffer.capacity ≤ Word.largestSize := by
  unfold capacity
  cases held : buffer.block with
  | none => exact Nat.zero_le _
  | some block =>
    rw [sound.whole block held]
    exact sound.accounts.capacity_le _

theorem Sound.readableBytes (sound : buffer.Sound pool others) :
    buffer.readableBytes = buffer.writer - buffer.reader :=
  Word.sub_of_le sound.reader_le (Nat.lt_of_le_of_lt
    (Nat.le_trans sound.writer_le sound.capacity_le) (by decide))

/-- The readable bytes are the written ones from the reading cursor on. -/
theorem Sound.readable_eq {block : Slice} (sound : buffer.Sound pool others)
    (held : buffer.block = some block) :
    buffer.readable pool =
      (pool.bytesOf ⟨block.block, 0, buffer.writer⟩).drop buffer.reader := by
  have inside := sound.writer_le
  rw [capacity, held] at inside
  change buffer.writer ≤ block.size at inside
  have front := congrArg Slice.offset (sound.whole block held)
  unfold readable contents
  rw [held, sound.readableBytes]
  simp only [Handle.contents, Pool.bytesOf, Pool.contents]
  cases found : pool.block? block.block with
  | none => simp [Memory.toList_take, Memory.toList_drop]
  | some memory =>
    simp only [Memory.toList_take, Memory.toList_drop, front, List.drop_zero]
    rw [← List.drop_take, List.take_take, Nat.min_eq_left inside]

theorem readable_of_none (held : buffer.block = none) : buffer.readable pool = [] := by
  unfold readable contents
  rw [held]
  simp [Handle.contents, Memory.toList_take, Memory.toList_drop]

/-- What is readable depends on nothing but the bytes of the block. -/
theorem readable_congr (same : ∀ slice ∈ buffer.slices, pool'.bytesOf slice = pool.bytesOf slice) :
    buffer.readable pool' = buffer.readable pool := by
  unfold readable contents
  simp only [Memory.toList_take, Memory.toList_drop]
  cases held : buffer.block with
  | none => rfl
  | some block =>
    have bytes := same block (by rw [slices_of_some held]; exact List.mem_cons_self)
    exact congrArg (fun bytes : Bytes => (bytes.drop _).take _) bytes

theorem Sound.inOrder (sound : buffer.Sound pool others) : buffer.InOrder pool := by
  have size : (buffer.block.contents pool).size = buffer.capacity := by
    unfold capacity
    cases held : buffer.block with
    | none => rfl
    | some block =>
      have holds := sound.accounts.holds (mem_slices held)
      rwa [Pool.Holds, Pool.bytesOf, Memory.length_toList] at holds
  refine ⟨sound.reader_le, size ▸ sound.writer_le, ?_⟩
  rw [size]
  exact Nat.lt_of_le_of_lt sound.capacity_le (by decide)

/-- The readable bytes fit into memory. -/
theorem Sound.length_readable_le (sound : buffer.Sound pool others) :
    (buffer.readable pool).length ≤ Word.largestSize := by
  rw [length_readable sound.inOrder, sound.readableBytes]
  exact Nat.le_trans (Nat.sub_le _ _) (Nat.le_trans sound.writer_le sound.capacity_le)

/-- Moving the reading cursor within the written part keeps the invariant. -/
theorem Sound.setReader (sound : buffer.Sound pool others) {reader : Nat}
    (ordered : reader ≤ buffer.writer) : { buffer with reader }.Sound pool others where
  accounts := sound.accounts
  whole := sound.whole
  reader_le := ordered
  writer_le := sound.writer_le
  behind := sound.behind

theorem Sound.advance (sound : buffer.Sound pool others) {count : Nat}
    (within : count ≤ buffer.readableBytes) : (buffer.advance count).Sound pool others :=
  sound.setReader (inOrder_advance sound.inOrder within).reader_le

/-! ### Making room -/

/-- A block that nobody else uses is all the buffer's. -/
theorem Sound.apart_of_useCount {block : Slice} (sound : buffer.Sound pool others)
    (held : buffer.block = some block) (single : pool.useCount block = 1) :
    ∀ slice ∈ others, slice.block ≠ block.block := by
  intro slice member
  have accounts := sound.accounts
  rw [slices_of_some held] at accounts
  exact accounts.ne_of_useCount single member

/-- The readable bytes can be moved to the front of a block that nobody else uses. -/
theorem Sound.compact {block : Slice} (sound : buffer.Sound pool others)
    (held : buffer.block = some block) (single : pool.useCount block = 1) :
    buffer.Receives pool others ⟨some block, 0, buffer.readableBytes⟩
      (pool.write block 0 (buffer.contents pool)) [] := by
  have apart := sound.apart_of_useCount held single
  have front := sound.whole block held
  have length := length_readable sound.inOrder
  have inside := sound.writer_le
  have count := sound.readableBytes
  rw [capacity, held] at inside
  have size : (buffer.contents pool).size = buffer.readableBytes := by
    rw [← Memory.length_toList]
    exact length
  have compacted : ReceiveBuffer.Sound ⟨some block, 0, buffer.readableBytes⟩
      (pool.write block 0 (buffer.contents pool)) others := by
    refine ⟨?_, ?_, Nat.zero_le _, ?_, ?_⟩
    · rw [slices_of_some rfl, ← slices_of_some held]
      exact sound.accounts.write _ _ _
    · rintro _ ⟨⟩
      rwa [Pool.capacity_write]
    · rw [count]
      exact Nat.le_trans (Nat.sub_le _ _) inside
    · rintro _ ⟨⟩ slice member same
      exact absurd same (apart slice member)
  refine ⟨compacted, ?_, fun slice member => ?_⟩
  · rw [compacted.readable_eq rfl, List.append_nil, List.drop_zero, ← size, front]
    refine Pool.bytesOf_write_front ?_
    rw [size, count]
    refine Nat.le_trans (Nat.sub_le _ _) (Nat.le_trans inside ?_)
    exact Nat.le_of_eq (congrArg Slice.size front)
  · exact Pool.bytesOf_write_of_ne (apart slice member).symm _ _

/-- Giving back the block of a buffer leaves everything else. -/
theorem accounts_release {owned : List Slice}
    (accounts : pool.Accounts (buffer.slices ++ owned)) :
    (buffer.block.release pool).Accounts owned ∧
      pool.Spares (buffer.block.release pool) owned := by
  have released : buffer.block.release pool = pool.releaseAll buffer.slices := by
    unfold slices
    cases buffer.block <;> rfl
  rw [released]
  exact accounts.releaseAll

/-- The readable bytes can be moved to another block. The old one is given back, and lives on if
slices of it do. -/
theorem Sound.relocate {count : Nat} (sound : buffer.Sound pool others)
    (small : buffer.readableBytes + count < Word.modulus)
    (success : buffer.relocate pool count = .ok (pool', after)) :
    buffer.Receives pool others after pool' [] ∧ after.block.isSome ∧
      after.writer ≤ buffer.writer ∧ after.writer + count ≤ after.capacity := by
  unfold ReceiveBuffer.relocate at success
  rw [Word.add_of_lt small] at success
  split at success
  · rename_i allocated fresh allocation
    obtain ⟨front, size, enough⟩ := Pool.capacity_of_allocate allocation
    obtain ⟨handed, apart, same⟩ := sound.accounts.allocate allocation
    obtain ⟨id, offset, room⟩ := fresh
    cases success
    cases front
    dsimp only at size enough
    have length := length_readable sound.inOrder
    have readableBytes := sound.readableBytes
    have readable : (buffer.contents allocated).toList = buffer.readable pool :=
      readable_congr fun slice member => (same slice (List.mem_append_left _ member)).1
    have filled := (handed.write ⟨id, 0, room⟩ 0 (buffer.contents allocated)).perm
      List.perm_middle.symm
    obtain ⟨given, left⟩ := accounts_release filled
    have moved : ReceiveBuffer.Sound ⟨some ⟨id, 0, room⟩, 0, buffer.readableBytes⟩
        (buffer.block.release (allocated.write ⟨id, 0, room⟩ 0 (buffer.contents allocated)))
        others := by
      refine ⟨given, ?_, Nat.zero_le _, Nat.le_trans (Nat.le_add_right _ _) enough, ?_⟩
      · rintro _ ⟨⟩
        rw [(left _ List.mem_cons_self).2, Pool.capacity_write, ← size]
      · rintro _ ⟨⟩ slice member here
        exact absurd here (apart slice (List.mem_append_right _ member))
    refine ⟨⟨moved, ?_, fun slice member => ?_⟩, rfl, ?_, enough⟩
    · have written (fits : (buffer.contents allocated).size ≤ allocated.capacity id) :
          (allocated.write ⟨id, 0, room⟩ 0 (buffer.contents allocated)).bytesOf
              ⟨id, 0, (buffer.contents allocated).size⟩ = (buffer.contents allocated).toList :=
        Pool.bytesOf_write_front fits
      rw [← Memory.length_toList, readable, length] at written
      have within : buffer.readableBytes ≤ room := Nat.le_trans (Nat.le_add_right _ _) enough
      have cut (pool : Pool) := Pool.bytesOf_front pool ⟨id, 0, room⟩ within
      rw [moved.readable_eq rfl, List.append_nil, List.drop_zero,
        ← written (Nat.le_trans within (Nat.le_of_eq size)), cut, cut,
        (left _ List.mem_cons_self).1]
    · rw [(left slice (List.mem_cons_of_mem _ member)).1]
      have member := List.mem_append_right buffer.slices member
      exact (Pool.bytesOf_write_of_ne (apart slice member).symm _ _).trans (same slice member).1
    · show buffer.readableBytes ≤ buffer.writer
      omega
  · cases success

theorem Sound.refl (sound : buffer.Sound pool others) :
    buffer.Receives pool others buffer pool [] :=
  ⟨sound, (List.append_nil _).symm, fun _ _ => rfl⟩

/-- Making room adds nothing to the readable bytes. -/
theorem Sound.ensureWritable {count : Nat} (sound : buffer.Sound pool others)
    (small : buffer.readableBytes + count < Word.modulus)
    (success : buffer.ensureWritable pool count = .ok (pool', after)) :
    buffer.Receives pool others after pool' [] ∧ after.block.isSome ∧
      after.writer ≤ buffer.writer ∧ after.writer + count ≤ after.capacity := by
  have inside := sound.writer_le
  have readableBytes := sound.readableBytes
  unfold ReceiveBuffer.ensureWritable at success
  split at success
  · exact sound.relocate small success
  · rename_i block held
    have capacity : buffer.capacity = block.size := by rw [capacity, held]; rfl
    split at success
    · rename_i room
      cases success
      refine ⟨sound.refl, by rw [held]; rfl, Nat.le_refl _, ?_⟩
      omega
    · split at success
      · rename_i alone
        cases success
        refine ⟨sound.compact held alone.1, rfl, ?_, ?_⟩
        · show buffer.readableBytes ≤ buffer.writer
          omega
        · show buffer.readableBytes + count ≤ block.size
          omega
      · exact sound.relocate small success

theorem Sound.prepare {count room : Nat} (sound : buffer.Sound pool others)
    (small : buffer.readableBytes + count < Word.modulus)
    (success : buffer.prepare pool count = .ok (pool', after, room)) :
    buffer.Receives pool others after pool' [] ∧ after.block.isSome ∧
      after.writer ≤ buffer.writer ∧ after.writer + count ≤ after.capacity := by
  unfold ReceiveBuffer.prepare at success
  split at success
  · rename_i made
    cases success
    exact sound.ensureWritable small made
  · cases success

/-! ### Writing -/

theorem Sound.setWriter (sound : buffer.Sound pool others) {writer : Nat}
    (later : buffer.writer ≤ writer) (inside : writer ≤ buffer.capacity) :
    { buffer with writer }.Sound pool others where
  accounts := sound.accounts
  whole := sound.whole
  reader_le := Nat.le_trans sound.reader_le later
  writer_le := inside
  behind block held slice member same :=
    Nat.le_trans (sound.behind block held slice member same) later

/-- Committing without a sum that wraps around moves the writing cursor up. -/
theorem Sound.commit {count : Nat} (sound : buffer.Sound pool others)
    (small : buffer.writer + count < Word.modulus) (success : buffer.commit count = .ok after) :
    after = { buffer with writer := buffer.writer + count } ∧
      buffer.writer + count ≤ buffer.capacity ∧ after.Sound pool others := by
  unfold ReceiveBuffer.commit at success
  rw [Word.add_of_lt small] at success
  dsimp only at success
  split at success
  · rename_i inside
    cases success
    exact ⟨rfl, inside, sound.setWriter (Nat.le_add_right _ _) inside⟩
  · cases success

/-- Bytes that are copied behind the written ones become readable when they are committed. -/
theorem Sound.fillRegion {bytes : Bytes} {count : Nat} (sound : buffer.Sound pool others)
    (held : buffer.block.isSome) (fits : buffer.writer + bytes.length ≤ buffer.capacity)
    (within : count ≤ bytes.length) :
    buffer.Receives pool others { buffer with writer := buffer.writer + count }
      (buffer.fillRegion pool bytes) (bytes.take count) := by
  obtain ⟨block, held⟩ := Option.isSome_iff_exists.1 held
  have capacity : buffer.capacity = block.size := by rw [capacity, held]; rfl
  have whole := sound.whole block held
  have front := congrArg Slice.offset whole
  have size := congrArg Slice.size whole
  dsimp only at front size
  have filled : buffer.fillRegion pool bytes =
      pool.write block buffer.writer (Memory.ofBytes bytes) := by
    unfold ReceiveBuffer.fillRegion
    rw [held]
  rw [filled]
  have kept : buffer.Sound (pool.write block buffer.writer (Memory.ofBytes bytes)) others := by
    refine ⟨sound.accounts.write _ _ _, ?_, sound.reader_le, sound.writer_le, sound.behind⟩
    intro other held'
    rw [Pool.capacity_write]
    exact sound.whole other held'
  refine ⟨kept.setWriter (Nat.le_add_right _ _) (by omega), ?_, fun slice member => ?_⟩
  · have next : (pool.write ⟨block.block, 0, block.size⟩ buffer.writer
        (Memory.ofBytes bytes)).bytesOf ⟨block.block, 0, buffer.writer + count⟩ = _ :=
      Pool.bytesOf_write_next within (by rw [Memory.size_ofBytes, ← size]; omega)
    have there : block = ⟨block.block, 0, block.size⟩ := by rw [← front]
    rw [← there, Memory.toList_ofBytes] at next
    have length : (pool.bytesOf ⟨block.block, 0, buffer.writer⟩).length = buffer.writer := by
      have inside := sound.writer_le
      have part := Pool.bytesOf_front pool block (show buffer.writer ≤ block.size by omega)
      rw [front] at part
      rw [part, List.length_take, sound.accounts.holds (mem_slices held)]
      omega
    have raised := kept.setWriter (Nat.le_add_right buffer.writer count) (by omega)
    rw [raised.readable_eq held, sound.readable_eq held, next]
    exact List.drop_append_of_le_length (by rw [length]; exact sound.reader_le)
  · refine Pool.bytesOf_write_of_end_le _ _ (fun same => ?_)
      (sound.accounts.end_le (List.mem_append_right _ member))
    rw [front, Nat.zero_add]
    exact sound.behind block held slice member same.symm

theorem Receives.trans {middle : ReceiveBuffer} {pool'' : Pool} {first second : Bytes}
    (front : buffer.Receives pool others middle pool' first)
    (back : middle.Receives pool' others after pool'' second) :
    buffer.Receives pool others after pool'' (first ++ second) where
  sound := back.sound
  readable := by rw [back.readable, front.readable, List.append_assoc]
  same slice member := (back.same slice member).trans (front.same slice member)

/-- Appending adds the bytes to the readable ones. -/
theorem Sound.append {bytes : Bytes} (sound : buffer.Sound pool others)
    (small : buffer.readableBytes + bytes.length < Word.modulus)
    (success : buffer.append pool bytes = .ok (pool', after)) :
    buffer.Receives pool others after pool' bytes := by
  unfold ReceiveBuffer.append at success
  split at success
  · cases success
    exact sound.refl
  · split at success
    · rename_i made
      split at success
      · rename_i prepared _ _ committed done
        cases success
        obtain ⟨receives, held, -, room⟩ := sound.prepare small made
        have limit := receives.sound.capacity_le
        obtain ⟨rfl, -, -⟩ := receives.sound.commit
          (Nat.lt_of_le_of_lt (Nat.le_trans room limit) (by decide)) done
        have filled := receives.sound.fillRegion held room (Nat.le_refl bytes.length)
        rw [List.take_length] at filled
        exact receives.trans filled
      · cases success
    · cases success

/-! ### Giving space back -/

theorem sound_empty (accounts : pool.Accounts others) : empty.Sound pool others where
  accounts := accounts
  whole := by rintro _ ⟨⟩
  reader_le := Nat.le_refl 0
  writer_le := Nat.le_refl 0
  behind := by rintro _ ⟨⟩

/-- A buffer that gives its block back is empty. -/
theorem Sound.release (sound : buffer.Sound pool others) :
    (buffer.release pool).2.Sound (buffer.release pool).1 others ∧
      ∀ slice ∈ others, (buffer.release pool).1.bytesOf slice = pool.bytesOf slice := by
  obtain ⟨given, left⟩ := accounts_release sound.accounts
  exact ⟨sound_empty given, fun slice member => (left slice member).1⟩

/-- Discarding what has been read changes nothing that is readable. -/
theorem Sound.discard (sound : buffer.Sound pool others) :
    buffer.Receives pool others (buffer.discard pool).2 (buffer.discard pool).1 [] := by
  have readable := sound.readableBytes
  have length := length_readable sound.inOrder
  unfold ReceiveBuffer.discard
  split
  · exact sound.refl
  · rename_i block held
    split
    · rename_i done
      have nothing : buffer.readable pool = [] := List.length_eq_zero_iff.1 (by omega)
      split
      · rename_i single
        have zero : buffer.readableBytes = 0 := by omega
        have rewound : ReceiveBuffer.Sound ⟨some block, 0, 0⟩ pool others := by
          refine ⟨?_, ?_, Nat.le_refl 0, Nat.zero_le _, ?_⟩
          · rw [slices_of_some rfl, ← slices_of_some held]
            exact sound.accounts
          · rintro _ ⟨⟩
            exact sound.whole block held
          · rintro _ ⟨⟩ slice member same
            exact absurd same (sound.apart_of_useCount held single slice member)
        refine ⟨rewound, ?_, fun _ _ => rfl⟩
        rw [nothing, List.append_nil]
        exact List.length_eq_zero_iff.1 ((length_readable rewound.inOrder).trans
          rewound.readableBytes)
      · obtain ⟨released, same⟩ := sound.release
        unfold ReceiveBuffer.release at released same
        rw [held] at released same
        refine ⟨released, ?_, same⟩
        rw [nothing, List.append_nil]
        exact readable_of_none rfl
    · split
      · rename_i alone
        exact sound.compact held alone.2
      · exact sound.refl

/-! ### Reading -/

/-- Bytes that are read as a slice leave the front of the readable ones. -/
theorem Sound.readSlice {count : Nat} (sound : buffer.Sound pool others)
    (held : buffer.block.isSome) (within : count ≤ buffer.readableBytes) :
    ∃ pool' slice, buffer.readSlice pool count = .ok (pool', buffer.advance count, slice) ∧
      (buffer.advance count).Sound pool' (slice :: others) ∧
      pool'.bytesOf slice = (buffer.readable pool).take count ∧
      ∀ other, pool'.bytesOf other = pool.bytesOf other := by
  obtain ⟨block, held⟩ := Option.isSome_iff_exists.1 held
  have capacity : buffer.capacity = block.size := by rw [capacity, held]; rfl
  have whole := sound.whole block held
  have front := congrArg Slice.offset whole
  have size := congrArg Slice.size whole
  dsimp only at front size
  have inside := sound.writer_le
  have ordered := sound.reader_le
  have readable := sound.readableBytes
  have member : block ∈ buffer.slices ++ others := mem_slices held
  have retained := sound.accounts.retain_eq member
    (show buffer.reader + count ≤ block.size by omega)
  rw [front, Nat.zero_add] at retained
  have bytes (other : Slice) := Pool.bytesOf_addReference pool block.block other
  have moved := reader_advance sound.inOrder within
  refine ⟨_, ⟨block.block, buffer.reader, count⟩, ?_, ?_, ?_, bytes⟩
  · unfold ReceiveBuffer.readSlice
    rw [if_pos within, held]
    simp only [Handle.retain, retained]
  · have shared : (pool.addReference block.block).Accounts
        (⟨block.block, buffer.reader, count⟩ :: (buffer.slices ++ others)) :=
      sound.accounts.addReference member rfl (by dsimp only; omega)
    refine ⟨shared.perm List.perm_middle.symm, ?_, ?_, inside, ?_⟩
    · intro other held'
      rw [Pool.capacity_addReference]
      exact sound.whole other held'
    · exact (inOrder_advance sound.inOrder within).reader_le
    · intro other held' slice member' same
      rcases List.mem_cons.1 member' with rfl | member'
      · show buffer.reader + count ≤ buffer.writer
        omega
      · exact sound.behind other held' slice member' same
  · have part := Pool.bytesOf_part pool ⟨block.block, 0, buffer.writer⟩
      (show buffer.reader + count ≤ buffer.writer by omega)
    rw [Nat.zero_add] at part
    rw [bytes, sound.readable_eq held]
    exact part

/-! ### Slices that come and go -/

/-- Slices can be given back, and everything else stays as it is. -/
theorem Sound.giveBack {released : List Slice} (sound : buffer.Sound pool (released ++ others)) :
    buffer.Sound (pool.releaseAll released) others ∧
      pool.Spares (pool.releaseAll released) (buffer.slices ++ others) := by
  have shuffled : (buffer.slices ++ (released ++ others)).Perm
      (released ++ (buffer.slices ++ others)) := by
    rw [← List.append_assoc, ← List.append_assoc]
    exact List.perm_append_comm.append_right others
  obtain ⟨accounts, left⟩ := (sound.accounts.perm shuffled).releaseAll
  refine ⟨⟨accounts, ?_, sound.reader_le, sound.writer_le, ?_⟩, left⟩
  · intro block held
    rw [(left block (mem_slices held)).2]
    exact sound.whole block held
  · intro block held slice member
    exact sound.behind block held slice (List.mem_append_right released member)

/-- Slices can be handed out if those of the block of the buffer end where the written part does
or before. -/
theorem Sound.handOut {fresh : List Slice} (sound : buffer.Sound pool others)
    (accounts : pool'.Accounts (fresh ++ (buffer.slices ++ others)))
    (spares : pool.Spares pool' (buffer.slices ++ others))
    (behind : ∀ block, buffer.block = some block → ∀ slice ∈ fresh, slice.block = block.block →
      slice.offset + slice.size ≤ buffer.writer) :
    buffer.Sound pool' (fresh ++ others) := by
  refine ⟨accounts.perm ?_, ?_, sound.reader_le, sound.writer_le, ?_⟩
  · rw [← List.append_assoc, ← List.append_assoc]
    exact List.perm_append_comm.append_right others
  · intro block held
    rw [(spares block (mem_slices held)).2]
    exact sound.whole block held
  · intro block held slice member
    rcases List.mem_append.1 member with member | member
    · exact behind block held slice member
    · exact sound.behind block held slice member

/-- Slices of blocks that nobody used can be handed out. -/
theorem Sound.handOut_apart {slice : Slice} (sound : buffer.Sound pool others)
    (given : pool'.Accounts (slice :: (buffer.slices ++ others)) ∧
      (∀ other ∈ buffer.slices ++ others, other.block ≠ slice.block) ∧
        pool.Spares pool' (buffer.slices ++ others)) :
    buffer.Sound pool' (slice :: others) := by
  obtain ⟨accounts, apart, spares⟩ := given
  show buffer.Sound pool' ([slice] ++ others)
  refine sound.handOut accounts spares ?_
  intro block held other member same
  cases List.mem_singleton.1 member
  exact absurd same.symm (apart block (mem_slices held))

end TabularStream.ReceiveBuffer
