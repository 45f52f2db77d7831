/-
This file proves that a row that cannot be decoded yet costs nothing: decoding fails wherever the
bytes run out, and then the pool is the same as before and the buffer differs in its reading cursor
only. So the cursor can be set back, and what is done from there on is done as if decoding had never
been tried.

The step is `Borrows`. A reading that succeeds has added one reference to the block of the buffer
for each slice, and one that fails has added none, because the slices taken so far are given back
and the block is never the last one's: the buffer itself holds it. Each function of the decoder
borrows if those that it calls do.
-/

import TabularStream.Proofs.Acceptance
import TabularStream.Proofs.WrittenLengths

namespace TabularStream

/-! ### References that come and go -/

namespace Pool

/-- The pool with more references to a block. -/
def addReferences (pool : Pool) (id : BlockId) (count : Nat) : Pool :=
  pool.updateBlock id fun block => { block with references := block.references + count }

variable {pool : Pool} {slice : Slice}

theorem updateBlock_updateBlock (pool : Pool) (id : BlockId) (first second : Block → Block) :
    (pool.updateBlock id first).updateBlock id second =
      pool.updateBlock id fun block => second (first block) := by
  unfold updateBlock
  dsimp only
  rw [List.modify_modify_eq]
  refine congrArg (Pool.mk pool.config · pool.free) ?_
  refine congrArg (pool.blocks.modify id) (funext fun place => ?_)
  exact Option.map_map _ _ place

theorem addReference_eq (pool : Pool) (id : BlockId) :
    pool.addReference id = pool.addReferences id 1 := rfl

@[simp] theorem addReferences_zero (pool : Pool) (id : BlockId) : pool.addReferences id 0 = pool :=
  congrArg (Pool.mk pool.config · pool.free)
    ((congrArg (pool.blocks.modify id) Option.map_id).trans (List.modify_id id pool.blocks))

theorem addReferences_addReferences (pool : Pool) (id : BlockId) (first second : Nat) :
    (pool.addReferences id first).addReferences id second =
      pool.addReferences id (first + second) := by
  unfold addReferences
  rw [updateBlock_updateBlock]
  simp only [Nat.add_assoc]

/-- References that are added are counted, if the block is there. -/
theorem useCount_addReferences (used : 0 < pool.useCount slice) (count : Nat) :
    (pool.addReferences slice.block count).useCount slice = pool.useCount slice + count := by
  unfold useCount addReferences at *
  rw [block?_updateBlock, if_pos rfl]
  cases found : pool.block? slice.block with
  | none =>
    rw [found] at used
    exact absurd used (Nat.lt_irrefl 0)
  | some block => rfl

/-- Giving back a reference that was added undoes it, because the block had one before. -/
theorem release_addReferences (used : 0 < pool.useCount slice) {part : Slice}
    (same : part.block = slice.block) (count : Nat) :
    (pool.addReferences slice.block (count + 1)).release part =
      pool.addReferences slice.block count := by
  have counted : (pool.addReferences slice.block (count + 1)).useCount part =
      pool.useCount slice + (count + 1) := by
    rw [← useCount_addReferences used]
    unfold useCount
    rw [same]
  rw [release_eq, if_neg (by omega), same]
  unfold dropReference addReferences
  rw [updateBlock_updateBlock]
  rfl

theorem releaseAll_addReferences (used : 0 < pool.useCount slice) {parts : List Slice}
    (same : ∀ part ∈ parts, part.block = slice.block) (count : Nat) :
    (pool.addReferences slice.block (count + parts.length)).releaseAll parts =
      pool.addReferences slice.block count := by
  induction parts with
  | nil => rfl
  | cons part parts inductionHypothesis =>
    obtain ⟨first, others⟩ := List.forall_mem_cons.1 same
    show (release _ part).releaseAll parts = _
    rw [List.length_cons, ← Nat.add_assoc, release_addReferences used first]
    exact inductionHypothesis others

end Pool

namespace ReceiveBuffer

/-! ### Reading borrows -/

/-- A reading has added a reference to a block for each slice that it gives, and no others. -/
structure Borrows {Item : Type} (block : Slice) (pool : Pool) (reading : Reading Item)
    (slices : Item → List Slice) : Prop where
  pool : reading.pool = pool.addReferences block.block (reading.taken slices).length
  mine : ∀ slice ∈ reading.taken slices, slice.block = block.block

section Borrowing

variable {First Item Next : Type} {buffer middle after : ReceiveBuffer}
  {pool pool' pool'' : Pool} {block : Slice} {first : First} {item : Item} {next : Next}
  {ofFirst : First → List Slice} {ofNext : Next → List Slice} {slices : Item → List Slice}

/-- A reading that gives no slices leaves the pool. -/
theorem borrows_nothing {reading : Reading Item} (same : reading.pool = pool)
    (none : reading.taken slices = []) : Borrows block pool reading slices where
  pool := by rw [none, same, List.length_nil, Pool.addReferences_zero]
  mine slice member := by rw [none] at member; cases member

theorem Borrows.used {reading : Reading Item} (borrows : Borrows block pool reading slices)
    (used : 0 < pool.useCount block) : 0 < reading.pool.useCount block := by
  rw [borrows.pool, Pool.useCount_addReferences used]
  omega

/-- What is read next adds to the references. -/
theorem Borrows.ok_append (front : Borrows block pool ⟨pool', middle, .ok first⟩ ofFirst)
    (back : Borrows block pool' ⟨pool'', after, .ok next⟩ ofNext)
    (together : slices item = ofFirst first ++ ofNext next) :
    Borrows block pool ⟨pool'', after, .ok item⟩ slices where
  pool := by
    show pool'' = pool.addReferences block.block (slices item).length
    rw [together, List.length_append, ← Pool.addReferences_addReferences]
    exact front.pool ▸ back.pool
  mine slice member := by
    have member : slice ∈ slices item := member
    rw [together] at member
    rcases List.mem_append.1 member with member | member
    · exact front.mine slice member
    · exact back.mine slice member

/-- When what is read next fails, the references that were added before are given back. -/
theorem Borrows.error_releaseAll {failure : Failure} (used : 0 < pool.useCount block)
    (front : Borrows block pool ⟨pool', middle, .ok first⟩ ofFirst)
    (back : Borrows block pool' ⟨pool'', after, .error failure⟩ ofNext) :
    Borrows block pool ⟨pool''.releaseAll (ofFirst first), after, .error failure⟩ slices := by
  have added : pool' = pool.addReferences block.block (ofFirst first).length := front.pool
  have same : pool'' = pool'.addReferences block.block 0 := back.pool
  have undone := Pool.releaseAll_addReferences used front.mine 0
  refine borrows_nothing ?_ rfl
  rw [Nat.zero_add, Pool.addReferences_zero] at undone
  rw [same, Pool.addReferences_zero, added]
  exact undone

/-- A slice that is read is a reference to the block of the buffer. -/
theorem borrows_readSlice {count : Nat} {slice : Slice} (held : buffer.block = some block)
    (success : buffer.readSlice pool count = .ok (pool', after, slice)) :
    Borrows block pool ⟨pool', after, .ok slice⟩ fun slice => [slice] := by
  have reference (mine : slice.block = block.block)
      (added : pool' = pool.addReference block.block) :
      Borrows block pool ⟨pool', after, .ok slice⟩ fun slice => [slice] :=
    ⟨added.trans (Pool.addReference_eq pool block.block),
      fun other member => List.mem_singleton.1 member ▸ mine⟩
  unfold readSlice at success
  rw [held] at success
  split at success
  · split at success
    · rename_i retained
      cases success
      unfold Handle.retain Pool.retain at retained
      dsimp only at retained
      split at retained
      · cases retained
        exact reference rfl rfl
      · cases retained
    · cases success
  · cases success

theorem borrows_decodeScalar (held : buffer.block = some block) (type : ColumnType) :
    Borrows block pool (buffer.decodeScalar pool type) Slot.slices := by
  unfold decodeScalar readScalarLength
  cases read : buffer.readBytes pool type.descriptorSize with
  | error failure => exact borrows_nothing rfl rfl
  | ok found =>
    obtain ⟨past, bytes⟩ := found
    have moved := onlyRead_of_readBytes read
    dsimp only
    cases ScalarLength.ofDescriptor type bytes with
    | null => exact borrows_nothing rfl rfl
    | of size =>
      dsimp only
      split
      · exact borrows_nothing rfl rfl
      · split
        · exact borrows_nothing rfl rfl
        · rename_i start back
          have returned := moved.trans (onlyRead_of_reset back)
          split
          · rename_i taken
            have slice := borrows_readSlice (returned.1.trans held) taken
            exact ⟨slice.pool, slice.mine⟩
          · exact borrows_nothing rfl rfl

theorem borrows_decodeChunks (held : buffer.block = some block)
    (used : 0 < pool.useCount block) : Borrows block pool (buffer.decodeChunks pool) id := by
  fun_induction decodeChunks buffer pool with
  | case1 => exact borrows_nothing rfl rfl
  | case2 => exact borrows_nothing rfl rfl
  | case3 => exact borrows_nothing rfl rfl
  | case4 buffer pool _ _ _ pool' after slice success =>
    have slice := borrows_readSlice held success
    exact ⟨slice.pool, slice.mine⟩
  | case5 buffer pool _ _ _ pool' after slice success _ pool'' last slices decoded
      inductionHypothesis =>
    have slice := borrows_readSlice held success
    have rest := inductionHypothesis ((onlyRead_of_readSlice success).1.trans held)
      (slice.used used)
    rw [decoded] at rest
    exact slice.ok_append rest rfl
  | case6 buffer pool _ _ _ pool' after slice success _ pool'' last failure decoded
      inductionHypothesis =>
    have slice := borrows_readSlice held success
    have rest := inductionHypothesis ((onlyRead_of_readSlice success).1.trans held)
      (slice.used used)
    rw [decoded] at rest
    exact slice.error_releaseAll used rest

theorem borrows_decodePlp (held : buffer.block = some block) (used : 0 < pool.useCount block) :
    Borrows block pool (buffer.decodePlp pool) Slot.slices := by
  unfold decodePlp
  split
  · exact borrows_nothing rfl rfl
  · split
    · exact borrows_nothing rfl rfl
    · split
      · exact borrows_nothing rfl rfl
      · rename_i pool' after total success
        have slice := borrows_readSlice held success
        have rest := borrows_decodeChunks ((onlyRead_of_readSlice success).1.trans held)
          (slice.used used)
        dsimp only at rest
        split
        · rename_i decoded
          rw [decoded] at rest
          exact slice.ok_append rest rfl
        · rename_i decoded
          rw [decoded] at rest
          exact slice.error_releaseAll used rest

theorem borrows_decodeValue (held : buffer.block = some block) (used : 0 < pool.useCount block)
    (type : ColumnType) : Borrows block pool (buffer.decodeValue pool type) Slot.slices := by
  unfold decodeValue
  split
  · exact borrows_decodePlp held used
  · exact borrows_decodeScalar held type

theorem borrows_decodeSlots (held : buffer.block = some block) (used : 0 < pool.useCount block)
    (layout : RowLayout) :
    Borrows block pool (buffer.decodeSlots pool layout) (·.flatMap Slot.slices) := by
  induction layout generalizing buffer pool with
  | nil => exact borrows_nothing rfl rfl
  | cons column columns inductionHypothesis =>
    cases column with
    | none =>
      have rest := inductionHypothesis held used
      unfold decodeSlots
      split
      · rename_i decoded
        rw [decoded] at rest
        exact ⟨rest.pool, rest.mine⟩
      · rename_i decoded
        rw [decoded] at rest
        exact ⟨rest.pool, rest.mine⟩
    | some type =>
      have value := borrows_decodeValue held used type
      have moved := onlyRead_decodeValue buffer pool type
      unfold decodeSlots
      split
      · rename_i decoded
        rw [decoded] at value
        exact ⟨value.pool, value.mine⟩
      · rename_i pool' past slot decoded
        rw [decoded] at value moved
        have rest := inductionHypothesis (moved.1.trans held) (value.used used)
        dsimp only at rest
        split
        · rename_i more
          rw [more] at rest
          exact value.ok_append rest rfl
        · rename_i more
          rw [more] at rest
          exact value.error_releaseAll used rest

theorem borrows_decodeLayout (held : buffer.block = some block) (used : 0 < pool.useCount block)
    (layout : RowLayout) :
    Borrows block pool (buffer.decodeLayout pool layout) Row.slices := by
  have borrows := borrows_decodeSlots held used layout
  unfold decodeLayout
  generalize buffer.decodeSlots pool layout = reading at borrows
  obtain ⟨pool', after, result⟩ := reading
  cases result <;> exact ⟨borrows.pool, borrows.mine⟩

/-- Decoding the body of a token adds a reference for each slice of the row, and none if it
fails. -/
theorem borrows_decode (held : buffer.block = some block) (used : 0 < pool.useCount block)
    (token : RowToken) (columns : List ColumnType) :
    Borrows block pool (token.decode buffer pool columns) Row.slices := by
  cases token with
  | row => exact borrows_decodeLayout held used _
  | bitmapRow =>
    unfold RowToken.decode decodeBitmap
    dsimp only
    split
    · exact borrows_nothing rfl rfl
    · rename_i read
      exact borrows_decodeLayout ((onlyRead_of_readBytes read).1.trans held) used _

end Borrowing

/-! ### Buffers as they are laid out -/

/-- The layout of a buffer. It holds a whole block or none; what is in front of the reading cursor
has been read, what follows up to the writing cursor is readable, and the rest of the block is free.
The pool keeps the accounts of the slices that are handed out. -/
structure Laid (buffer : ReceiveBuffer) (pool : Pool) : Prop where
  accounts : ∃ others, pool.Accounts (buffer.slices ++ others)
  whole : ∀ block, buffer.block = some block →
    block = ⟨block.block, 0, pool.capacity block.block⟩
  reader_le : buffer.reader ≤ buffer.writer
  writer_le : buffer.writer ≤ buffer.capacity

variable {buffer after : ReceiveBuffer} {pool pool' : Pool} {others : List Slice} {block : Slice}

theorem Sound.laid (sound : buffer.Sound pool others) : buffer.Laid pool :=
  ⟨⟨others, sound.accounts⟩, sound.whole, sound.reader_le, sound.writer_le⟩

/-- To count the slices of others it is enough to know their blocks. So they may be taken to be
empty, and then they end where the written part does or before. -/
theorem Laid.exists_sound (laid : buffer.Laid pool) : ∃ others, buffer.Sound pool others := by
  obtain ⟨others, accounts⟩ := laid.accounts
  have blocks (id : BlockId) :
      Pool.handlesOn id (buffer.slices ++ others.map fun slice => ⟨slice.block, 0, 0⟩) =
        Pool.handlesOn id (buffer.slices ++ others) := by
    unfold Pool.handlesOn
    rw [List.countP_append, List.countP_append, List.countP_map]
    rfl
  refine ⟨others.map fun slice => ⟨slice.block, 0, 0⟩, ⟨?_, ?_, accounts.bounded,
    accounts.free_iff, accounts.nodup, accounts.pooled_le⟩, laid.whole, laid.reader_le,
    laid.writer_le, ?_⟩
  · intro id block found
    rw [blocks]
    exact accounts.counted id block found
  · intro slice member
    rcases List.mem_append.1 member with mine | empty
    · exact accounts.inside slice (List.mem_append_left _ mine)
    · obtain ⟨other, there, rfl⟩ := List.mem_map.1 empty
      obtain ⟨block, found, -⟩ := accounts.inside other (List.mem_append_right _ there)
      exact ⟨block, found, Nat.zero_le _⟩
  · intro block _ slice member _
    obtain ⟨other, -, rfl⟩ := List.mem_map.1 member
    exact Nat.zero_le _

/-- The buffer itself refers to its block. -/
theorem Sound.used (sound : buffer.Sound pool others) (held : buffer.block = some block) :
    0 < pool.useCount block := by
  have member : block ∈ buffer.slices ++ others := mem_slices held
  rw [sound.accounts.useCount member]
  exact Pool.handlesOn_pos member

/-- Decoding fails for want of bytes only. The pool is the same then, and so is the buffer up to its
reading cursor, which has not moved back or past the readable bytes. -/
theorem Sound.decode_error (sound : buffer.Sound pool others) (held : buffer.block = some block)
    {token : RowToken} {columns : List ColumnType} {failure : Failure}
    (fails : (token.decode buffer pool columns).result = .error failure) :
    failure = .client .decodePreconditionViolated ∧
      ∃ reader, (token.decode buffer pool columns).pool = pool ∧
        (token.decode buffer pool columns).buffer = { buffer with reader } ∧
        buffer.reader ≤ reader ∧ reader ≤ buffer.writer := by
  have present : buffer.block.isSome := by rw [held]; rfl
  have short : token.split columns (buffer.readable pool) = none := by
    cases found : token.split columns (buffer.readable pool) with
    | none => rfl
    | some cut =>
      obtain ⟨_, _, _, decoded, -⟩ := sound.decode present found
      rw [decoded] at fails
      cases fails
  have stops := sound.decode_stopsAt present short
  have borrows := borrows_decode held (sound.used held) token columns
  have left := (sound.leaves_decode token columns).sound
  have runsOut := stops.runsOut
  have place := stops.buffer
  have same := borrows.pool
  unfold Reading.taken at same
  rw [runsOut] at same
  rw [place] at left
  refine ⟨?_, _, same.trans (Pool.addReferences_zero _ _), place, Nat.le_add_right _ _,
    left.reader_le⟩
  exact Except.error.inj (fails.symm.trans runsOut)

/-- Appending does not lose the block. -/
theorem Sound.isSome_append {bytes : Bytes} (sound : buffer.Sound pool others)
    (small : buffer.readableBytes + bytes.length < Word.modulus) (held : buffer.block.isSome)
    (success : buffer.append pool bytes = .ok (pool', after)) : after.block.isSome := by
  unfold ReceiveBuffer.append at success
  split at success
  · cases success
    exact held
  · split at success
    · rename_i made
      obtain ⟨-, present, -⟩ := sound.prepare small made
      split at success
      · rename_i committed
        cases success
        unfold ReceiveBuffer.commit at committed
        dsimp only at committed
        split at committed
        · cases committed
          exact present
        · cases committed
      · cases success
    · cases success

end ReceiveBuffer

/-! ### Trying again -/

namespace Session

/-- The operation that reads the body of a token. -/
def readBody : RowToken → Op
  | .row => .row .decode
  | .bitmapRow => .row .decodeBitmap

theorem step_readBody (session : Session) (token : RowToken) :
    session.step (readBody token) =
      session.receiveRow (token.decode session.buffer session.pool session.columns) := by
  cases token <;> rfl

/-- A sound buffer that holds a block, with the columns of a session. -/
structure Holds (session : Session) (others : List Slice) (columns : List ColumnType) : Prop where
  sound : session.buffer.Sound session.pool others
  held : session.buffer.block.isSome
  columns : session.columns = columns

variable {session : Session} {others : List Slice} {columns : List ColumnType}

/-- A buffer that receives more still holds a block. -/
theorem Holds.append (holds : session.Holds others columns) {fragment : Bytes}
    (fits : fragment.length ≤ Word.largestSize) :
    (session.step (.buffer (.append fragment))).session.Holds others columns := by
  have sound := holds.sound
  have room : Word.largestSize + Word.largestSize < Word.modulus := by decide
  have limit := sound.capacity_le
  have inside := sound.writer_le
  have readable := sound.readableBytes
  have small : session.buffer.readableBytes + fragment.length < Word.modulus := by omega
  unfold step performBuffer
  dsimp only
  cases appended : session.buffer.append session.pool fragment with
  | error failure => exact holds
  | ok grown =>
    exact ⟨(sound.append small appended).sound, sound.isSome_append small holds.held appended,
      holds.columns⟩

theorem Holds.appends (holds : session.Holds others columns) {fragments : List Bytes}
    (fits : ∀ fragment ∈ fragments, fragment.length ≤ Word.largestSize) :
    (session.after (appends fragments)).Holds others columns := by
  induction fragments generalizing session with
  | nil => exact holds
  | cons fragment fragments inductionHypothesis =>
    obtain ⟨first, rest⟩ := List.forall_mem_cons.1 fits
    exact inductionHypothesis (holds.append first) rest

/-- A session whose body is readable as a whole gives a row. -/
theorem Holds.row (holds : session.Holds others columns) {token : RowToken}
    (whole : session.Answers token columns true) :
    ∃ row after, session.step (readBody token) =
        ⟨after, .ok (.made session.rows.length)⟩ ∧ after.rows = session.rows ++ [some row] := by
  obtain ⟨cut, found⟩ := Option.isSome_iff_exists.1 ((answers_iff holds.sound).1 whole)
  obtain ⟨pool, buffer, row, decoded, -⟩ := holds.sound.decode holds.held found
  rw [step_readBody, holds.columns, decoded]
  exact ⟨row, _, rfl, rfl⟩

/-- Setting the reading cursor to a place in front of the writing cursor. -/
theorem step_reset {index : Nat} (small : index < Word.modulus)
    (within : index ≤ session.buffer.writer) :
    session.step (.buffer (.reset (UInt64.ofNat index))) =
      ⟨{ session with buffer := { session.buffer with reader := index } }, .ok .nothing⟩ := by
  have number : (UInt64.ofNat index).toNat = index := UInt64.toNat_ofNat_of_lt small
  unfold step performBuffer ReceiveBuffer.reset
  dsimp only
  rw [number, if_pos within]
  rfl

/-- A session in which decoding has failed differs in the reading cursor only. -/
theorem step_readBody_error {block : Slice} {failure : Failure}
    (sound : session.buffer.Sound session.pool others) (held : session.buffer.block = some block)
    (token : RowToken) (fails : (session.step (readBody token)).result = .error failure) :
    failure = .client .decodePreconditionViolated ∧
      ∃ reader, (session.step (readBody token)).session =
          { session with buffer := { session.buffer with reader } } ∧
        session.buffer.reader ≤ reader ∧ reader ≤ session.buffer.writer := by
  rw [step_readBody] at fails ⊢
  have stopped (failure : Failure) (fails :
      (token.decode session.buffer session.pool session.columns).result = .error failure) :=
    sound.decode_error held fails
  generalize token.decode session.buffer session.pool session.columns = reading at fails stopped
  obtain ⟨pool, buffer, failure | row⟩ := reading
  · obtain ⟨rfl, reader, rfl, rfl, later, within⟩ := stopped failure rfl
    exact ⟨(Except.error.inj fails).symm, reader, rfl, later, within⟩
  · cases fails

/-- A row that fails to be decoded leaks nothing and can be retried. Decoding fails for want of
bytes only. Then the pool is as it was, with its blocks and their references and bytes, and the
cursor is somewhere in the readable bytes. After it has been set back nothing tells that decoding
was tried: every operation from there on has the same outcome. So a row is decoded as soon as the
rest of its bytes has been appended, in whatever fragments, and it is the one that would have been
decoded. -/
theorem failed_decoding_leaves_no_trace {block : Slice}
    (laid : session.buffer.Laid session.pool) (held : session.buffer.block = some block)
    (token : RowToken) {failure : Failure}
    (fails : (session.step (readBody token)).result = .error failure) :
    let failed := (session.step (readBody token)).session
    let back : Op := .buffer (.reset (UInt64.ofNat session.buffer.reader))
    failure = .client .decodePreconditionViolated ∧
      failed.pool.outstanding = session.pool.outstanding ∧
      failed.pool.pooled = session.pool.pooled ∧
      failed.pool.useCount block = session.pool.useCount block ∧
      failed.pool.bytesOf block = session.pool.bytesOf block ∧
      session.buffer.reader ≤ failed.buffer.reader ∧
      failed.buffer.reader ≤ failed.buffer.writer ∧
      failed =
        { session with buffer := { session.buffer with reader := failed.buffer.reader } } ∧
      (failed.after [back]).unread = session.unread ∧
      (∀ ops, failed.run (back :: ops) = ⟨session, .ok .nothing⟩ :: session.run ops) ∧
      ∀ fragments, (∀ fragment ∈ fragments, fragment.length ≤ Word.largestSize) →
        let untried := session.after (appends fragments)
        let retried := failed.after (back :: appends fragments)
        untried.Answers token session.columns true →
          ∃ row after, untried.step (readBody token) =
              ⟨after, .ok (.made untried.rows.length)⟩ ∧
            after.rows = untried.rows ++ [some row] ∧
            retried.step (readBody token) = untried.step (readBody token) := by
  intro failed back
  obtain ⟨others, sound⟩ := laid.exists_sound
  obtain ⟨cause, reader, moved, later, within⟩ := step_readBody_error sound held token fails
  have limit := sound.capacity_le
  have inside := sound.writer_le
  have ordered := sound.reader_le
  have small : session.buffer.reader < Word.modulus :=
    Nat.lt_of_le_of_lt (show _ ≤ Word.largestSize by omega) (by decide)
  have undone : failed.step back = ⟨session, .ok .nothing⟩ := by
    show (session.step (readBody token)).session.step back = _
    rw [moved]
    exact step_reset small ordered
  have again (ops : List Op) : failed.after (back :: ops) = session.after ops :=
    congrArg (fun outcome : Outcome => outcome.session.after ops) undone
  have same : failed = { session with buffer := { session.buffer with reader } } := moved
  refine ⟨cause, by rw [same], by rw [same], by rw [same], by rw [same], by rw [same]; exact later,
    by rw [same]; exact within, by rw [same], congrArg unread (again []), fun ops => ?_,
    fun fragments fits => ?_⟩
  · show failed.step back :: (failed.step back).session.run ops = _
    rw [undone]
  · intro untried retried whole
    have present : session.buffer.block.isSome := by rw [held]; rfl
    have holds : session.Holds others session.columns := ⟨sound, present, rfl⟩
    obtain ⟨row, after, read, rows⟩ := (holds.appends fits).row whole
    refine ⟨row, after, read, rows, ?_⟩
    rw [show retried = untried from again _]

theorem Reachable.laid (reachable : session.Reachable) : session.buffer.Laid session.pool :=
  ReceiveBuffer.Sound.laid reachable.sound

/-- A session that has received a row up to the middle of the second chunk of its first value. -/
def cutSession : Session :=
  (Session.fresh {} threeColumns).after [.buffer (.append (bitmapBody.take 20))]

theorem failed_decoding_leaves_no_trace_cutSession :
    let failed := (cutSession.step (readBody .bitmapRow)).session
    let retried :=
      failed.after (.buffer (.reset (UInt64.ofNat cutSession.buffer.reader)) ::
        appends [bitmapBody.drop 20])
    failed.buffer.reader = 15 ∧ failed.buffer.writer = 20 ∧
      failed.pool.useCount ⟨0, 0, 8192⟩ = 1 ∧
      ∃ row after, retried.step (readBody .bitmapRow) = ⟨after, .ok (.made 0)⟩ ∧
        after.rows = [some row] := by
  intro failed retried
  have new : Session.new {} threeColumns = .ok (Session.fresh {} threeColumns) := rfl
  have reachable : cutSession.Reachable := (Session.Reachable.new new).after (by decide)
  have fails : (cutSession.step (readBody .bitmapRow)).result =
      .error (.client .decodePreconditionViolated) := by decide +kernel
  obtain ⟨-, -, -, references, -, -, -, -, -, -, again⟩ :=
    failed_decoding_leaves_no_trace reachable.laid (show _ = some ⟨0, 0, 8192⟩ by decide +kernel)
      .bitmapRow fails
  have whole : (cutSession.after (appends [bitmapBody.drop 20])).Answers .bitmapRow
      cutSession.columns true := by
    have small : ∀ op ∈ appends [bitmapBody.drop 20], op.Small := by decide
    exact (answers_iff (reachable.after small).sound).2 (by decide +kernel)
  obtain ⟨row, after, read, rows, same⟩ := again [bitmapBody.drop 20] (by decide) whole
  exact ⟨by decide +kernel, by decide +kernel, references.trans (by decide +kernel), row, after,
    same.trans read, rows⟩

end Session

end TabularStream
