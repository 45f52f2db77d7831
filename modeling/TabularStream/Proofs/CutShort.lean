/-
This file says what decoding leaves of a sound buffer when nothing is known of the readable bytes.
Decoding may fail at any place, and then every slice that it has taken is given back. So the
buffer is sound again, with the slices of the row if there is one and with none if there is not,
and the slices of others keep their bytes.
-/

import TabularStream.Proofs.Decoding

namespace TabularStream

/-- The slices of what was read, none if reading failed. -/
def Reading.taken {Item : Type} (slices : Item → List Slice) (reading : Reading Item) :
    List Slice :=
  match reading.result with
  | .ok item => slices item
  | .error _ => []

namespace ReceiveBuffer

variable {Item : Type} {buffer after : ReceiveBuffer} {pool pool' : Pool} {others : List Slice}

/-- What reading leaves of a sound buffer, also when it fails. -/
structure Leaves (pool : Pool) (others : List Slice) (reading : Reading Item)
    (slices : Item → List Slice) : Prop where
  sound : reading.buffer.Sound reading.pool (reading.taken slices ++ others)
  same : ∀ slice ∈ others, reading.pool.bytesOf slice = pool.bytesOf slice

theorem Sound.readSlice_inversion {count : Nat} {slice : Slice} (sound : buffer.Sound pool others)
    (success : buffer.readSlice pool count = .ok (pool', after, slice)) :
    after.Sound pool' (slice :: others) ∧ ∀ other, pool'.bytesOf other = pool.bytesOf other := by
  by_cases within : count ≤ buffer.readableBytes
  · cases held : buffer.block with
    | none =>
      unfold ReceiveBuffer.readSlice at success
      rw [if_pos within, held] at success
      cases success
    | some block =>
      obtain ⟨_, _, read, taken, -, same⟩ := sound.readSlice (by rw [held]; rfl) within
      cases read.symm.trans success
      exact ⟨taken, same⟩
  · unfold ReceiveBuffer.readSlice at success
    rw [if_neg within] at success
    cases success

theorem Sound.readBytes_inversion {count : Nat} {bytes : Bytes} (sound : buffer.Sound pool others)
    (success : buffer.readBytes pool count = .ok (after, bytes)) : after.Sound pool others := by
  obtain ⟨within, rfl, -⟩ := ReceiveBuffer.readBytes_inversion success
  exact sound.advance within

/-- What is made of the bytes that were read makes no difference. -/
theorem Sound.parse_inversion {parse : Bytes → Item} {count : Nat} {item : Item}
    (sound : buffer.Sound pool others)
    (success : (match buffer.readBytes pool count with
      | .ok (past, bytes) => Except.ok (past, parse bytes)
      | .error failure => .error failure) = .ok (after, item)) : after.Sound pool others := by
  split at success
  · rename_i read
    cases success
    exact sound.readBytes_inversion read
  · cases success

/-- A reading that fails without having taken anything. -/
theorem Sound.leaves_error {slices : Item → List Slice} {failure : Failure}
    (sound : buffer.Sound pool others) :
    Leaves pool others ⟨pool, buffer, .error failure⟩ slices :=
  ⟨sound, fun _ _ => rfl⟩

/-- A slice that was taken is given back when reading on fails. -/
theorem Leaves.error_giveBack {slices : Item → List Slice} {Item' : Type}
    {slices' : Item' → List Slice} {failure : Failure} {released : List Slice} {pool'' : Pool}
    (leaves : Leaves pool' (released ++ others) ⟨pool'', after, .error failure⟩ slices)
    (before : ∀ slice ∈ others, pool'.bytesOf slice = pool.bytesOf slice) :
    Leaves pool others ⟨pool''.releaseAll released, after, .error failure⟩ slices' := by
  have given : after.Sound pool'' (released ++ others) := leaves.sound
  obtain ⟨sound, left⟩ := given.giveBack
  refine ⟨sound, fun slice member => ?_⟩
  refine (left slice (List.mem_append_right _ member)).1.trans ?_
  exact (leaves.same slice (List.mem_append_right _ member)).trans (before slice member)

/-- A slice that was taken is kept with what is read after it. -/
theorem Leaves.ok_cons {slices : Item → List Slice} {Item' : Type}
    {slices' : Item' → List Slice} {item : Item} {item' : Item'} {taken : List Slice}
    {pool'' : Pool} (leaves : Leaves pool' (taken ++ others) ⟨pool'', after, .ok item⟩ slices)
    (before : ∀ slice ∈ others, pool'.bytesOf slice = pool.bytesOf slice)
    (together : slices' item' = taken ++ slices item) :
    Leaves pool others ⟨pool'', after, .ok item'⟩ slices' := by
  refine ⟨leaves.sound.perm ?_, fun slice member => ?_⟩
  · show (slices item ++ (taken ++ others)).Perm (slices' item' ++ others)
    rw [together, ← List.append_assoc]
    exact List.perm_append_comm.append_right others
  · exact (leaves.same slice (List.mem_append_right _ member)).trans (before slice member)

/-! ### One value -/

theorem Sound.leaves_decodeScalar (type : ColumnType) (sound : buffer.Sound pool others) :
    Leaves pool others (buffer.decodeScalar pool type) Slot.slices := by
  unfold ReceiveBuffer.decodeScalar readScalarLength
  cases read : buffer.readBytes pool type.descriptorSize with
  | error failure => exact sound.leaves_error
  | ok found =>
    obtain ⟨past, bytes⟩ := found
    have moved := sound.readBytes_inversion read
    dsimp only
    cases ScalarLength.ofDescriptor type bytes with
    | null => exact ⟨moved, fun _ _ => rfl⟩
    | of size =>
      dsimp only
      split
      · exact moved.leaves_error
      · rw [sound.reset_of_onlyRead (onlyRead_of_readBytes read)]
        dsimp only
        split
        · rename_i slice success
          obtain ⟨taken, same⟩ := sound.readSlice_inversion success
          exact ⟨taken, fun other _ => same other⟩
        · exact sound.leaves_error

theorem Sound.leaves_decodeChunks (sound : buffer.Sound pool others) :
    Leaves pool others (buffer.decodeChunks pool) id := by
  fun_induction ReceiveBuffer.decodeChunks buffer pool generalizing others with
  | case1 => exact sound.leaves_error
  | case2 => exact sound.leaves_error
  | case3 => exact sound.leaves_error
  | case4 buffer pool _ _ _ pool' after slice success =>
    obtain ⟨taken, same⟩ := sound.readSlice_inversion success
    exact ⟨taken, fun other _ => same other⟩
  | case5 buffer pool _ _ _ pool' after slice success _ pool'' last slices decoded =>
    rename_i inductionHypothesis
    obtain ⟨taken, same⟩ := sound.readSlice_inversion success
    have rest := inductionHypothesis (show after.Sound pool' ([slice] ++ others) from taken)
    rw [decoded] at rest
    exact rest.ok_cons (fun other _ => same other) rfl
  | case6 buffer pool _ _ _ pool' after slice success _ pool'' last failure decoded =>
    rename_i inductionHypothesis
    obtain ⟨taken, same⟩ := sound.readSlice_inversion success
    have rest := inductionHypothesis (show after.Sound pool' ([slice] ++ others) from taken)
    rw [decoded] at rest
    exact rest.error_giveBack fun other _ => same other

theorem Sound.leaves_decodePlp (sound : buffer.Sound pool others) :
    Leaves pool others (buffer.decodePlp pool) Slot.slices := by
  unfold ReceiveBuffer.decodePlp
  split
  · exact sound.leaves_error
  · rename_i enough
    split
    · exact ⟨sound.advance (Nat.le_of_not_lt enough), fun _ _ => rfl⟩
    · split
      · exact sound.leaves_error
      · rename_i pool' after total success
        obtain ⟨taken, same⟩ := sound.readSlice_inversion success
        have rest :=
          Sound.leaves_decodeChunks (show after.Sound pool' ([total] ++ others) from taken)
        split
        · rename_i decoded
          rw [decoded] at rest
          exact rest.ok_cons (fun other _ => same other) rfl
        · rename_i decoded
          rw [decoded] at rest
          exact rest.error_giveBack fun other _ => same other

theorem Sound.leaves_decodeValue (type : ColumnType) (sound : buffer.Sound pool others) :
    Leaves pool others (buffer.decodeValue pool type) Slot.slices := by
  unfold ReceiveBuffer.decodeValue
  split
  · exact sound.leaves_decodePlp
  · exact sound.leaves_decodeScalar type

/-! ### Whole rows -/

theorem Sound.leaves_decodeSlots (layout : RowLayout) (sound : buffer.Sound pool others) :
    Leaves pool others (buffer.decodeSlots pool layout) (·.flatMap Slot.slices) := by
  induction layout generalizing buffer pool others with
  | nil => exact ⟨sound, fun _ _ => rfl⟩
  | cons column columns inductionHypothesis =>
    cases column with
    | none =>
      have rest := inductionHypothesis sound
      unfold ReceiveBuffer.decodeSlots
      split
      · rename_i decoded
        rw [decoded] at rest
        exact Leaves.ok_cons (show Leaves pool ([] ++ others) _ _ from rest) (fun _ _ => rfl) rfl
      · rename_i decoded
        rw [decoded] at rest
        exact ⟨rest.sound, rest.same⟩
    | some type =>
      have value := sound.leaves_decodeValue type
      unfold ReceiveBuffer.decodeSlots
      split
      · rename_i decoded
        rw [decoded] at value
        exact ⟨value.sound, value.same⟩
      · rename_i slot decoded
        rw [decoded] at value
        have rest := inductionHypothesis value.sound
        split
        · rename_i more
          rw [more] at rest
          exact rest.ok_cons value.same rfl
        · rename_i more
          rw [more] at rest
          exact rest.error_giveBack value.same

theorem Sound.leaves_decodeLayout (layout : RowLayout) (sound : buffer.Sound pool others) :
    Leaves pool others (buffer.decodeLayout pool layout) Row.slices := by
  have leaves := sound.leaves_decodeSlots layout
  unfold decodeLayout
  generalize buffer.decodeSlots pool layout = reading at leaves
  obtain ⟨pool', after, result⟩ := reading
  cases result <;> exact ⟨leaves.sound, leaves.same⟩

/-- Decoding the body of a token leaves a sound buffer, whether it gives a row or not. -/
theorem Sound.leaves_decode (token : RowToken) (columns : List ColumnType)
    (sound : buffer.Sound pool others) :
    Leaves pool others (token.decode buffer pool columns) Row.slices := by
  cases token with
  | row => exact sound.leaves_decodeLayout _
  | bitmapRow =>
    unfold RowToken.decode decodeBitmap
    dsimp only
    split
    · exact sound.leaves_error
    · rename_i read
      exact (sound.readBytes_inversion read).leaves_decodeLayout _

end ReceiveBuffer

end TabularStream
