/-
This file says how far the bounds checks hold that compare a sum with a bound. A slice of a slice, a
commit and the room for more bytes are each asked for with words that are added to others first,
and the sum is taken modulo `2^64`. `Session.bounds_hold_below_wrapping` says that the three checks
do what they should exactly as long as the sum is a word. Once it is not, a check compares what is
left of the sum, and what it lets through is always out of range.

Every other operation takes any argument. So the statements hold for all sessions that are reached
without a sum that wraps, by whatever arguments.
-/

import TabularStream.Proofs.References
import TabularStream.Proofs.Vacancy

namespace TabularStream

/-- Is a slice a range of another one? -/
def Slice.Within (part whole : Slice) : Prop :=
  part.block = whole.block ∧ whole.offset ≤ part.offset ∧
    part.offset + part.size ≤ whole.offset + whole.size

instance (part whole : Slice) : Decidable (part.Within whole) :=
  inferInstanceAs (Decidable (_ ∧ _ ∧ _))

/-- What is left of a sum of words that is too large for one. -/
theorem Word.add_of_wrap {left right : Nat} (first : left < modulus) (second : right < modulus)
    (wraps : modulus ≤ left + right) : add left right = left + right - modulus := by
  simp only [add, modulus] at *
  omega

/-! ### Slices of slices -/

namespace Pool

variable {pool : Pool} {owned : List Slice} {slice : Slice} {offset size : Nat}

/-- The check of the range decides, as a slice that passes it always ends inside of the block. -/
theorem Accounts.retain_guard (accounts : pool.Accounts owned) (member : slice ∈ owned) :
    pool.retain slice offset size =
      if Word.add offset size ≤ slice.size then
        .ok (pool.addReference slice.block, ⟨slice.block, Word.add slice.offset offset, size⟩)
      else .error .precondition := by
  have inside := accounts.end_le member
  have small := accounts.capacity_le slice.block
  have ends (guard : Word.add offset size ≤ slice.size) :
      Word.add (Word.add slice.offset offset) size ≤ pool.capacity slice.block := by
    have regrouped : Word.add (Word.add slice.offset offset) size =
        Word.add slice.offset (Word.add offset size) := by
      unfold Word.add
      rw [Nat.mod_add_mod, Nat.add_mod_mod, Nat.add_assoc]
    rw [regrouped, Word.add_of_le (show _ ≤ _ by omega) small]
    omega
  unfold retain
  by_cases guard : Word.add offset size ≤ slice.size
  · rw [if_pos guard]
    exact if_pos ⟨guard, ends guard⟩
  · rw [if_neg guard]
    exact if_neg fun both => guard both.1

/-- Only ranges and what wraps are let through. -/
theorem Accounts.retain_word (accounts : pool.Accounts owned) (member : slice ∈ owned)
    {after : Pool} {part : Slice} (success : pool.retain slice offset size = .ok (after, part)) :
    Word.add offset size ≤ slice.size ∧ after = pool.addReference slice.block ∧
      part = ⟨slice.block, Word.add slice.offset offset, size⟩ := by
  rw [accounts.retain_guard member] at success
  split at success
  · rename_i guard
    cases success
    exact ⟨guard, rfl, rfl⟩
  · cases success

/-- A slice that is let through is a range of its parent exactly if the sum is a word. If it is not,
either the start wraps and lies in front of the parent, or the end lies behind it. -/
theorem Accounts.within_iff (accounts : pool.Accounts owned) (member : slice ∈ owned)
    (first : offset < Word.modulus) (guard : Word.add offset size ≤ slice.size) :
    Slice.Within ⟨slice.block, Word.add slice.offset offset, size⟩ slice ↔
      offset + size < Word.modulus := by
  have inside := accounts.end_le member
  have small := accounts.capacity_le slice.block
  have room : Word.largestSize < Word.modulus := by decide
  unfold Slice.Within
  dsimp only
  constructor
  · rintro ⟨-, starts, ends⟩
    by_contra wraps
    by_cases near : slice.offset + offset < Word.modulus
    · rw [Word.add_of_lt near] at ends
      omega
    · rw [Word.add_of_wrap (by omega) first (Nat.not_lt.1 near)] at starts
      omega
  · intro fits
    rw [Word.add_of_lt fits] at guard
    rw [Word.add_of_lt (show slice.offset + offset < Word.modulus by omega)]
    exact ⟨rfl, Nat.le_add_right _ _, by omega⟩

end Pool

/-! ### Room in a buffer -/

namespace ReceiveBuffer

variable {buffer after : ReceiveBuffer} {pool pool' : Pool} {others : List Slice} {count room : Nat}

/-- Whatever is asked for, a block that is moved to is not larger than blocks can be. -/
theorem Sound.capacity_relocate_le (sound : buffer.Sound pool others)
    (success : buffer.relocate pool count = .ok (pool', after)) :
    after.capacity ≤ Word.largestSize := by
  unfold ReceiveBuffer.relocate at success
  split at success
  · rename_i allocated fresh allocation
    obtain ⟨-, size, -⟩ := Pool.capacity_of_allocate allocation
    obtain ⟨handed, -, -⟩ := sound.accounts.allocate allocation
    cases success
    exact Nat.le_trans (Nat.le_of_eq size) (handed.capacity_le fresh.block)
  · cases success

theorem Sound.capacity_ensureWritable_le (sound : buffer.Sound pool others)
    (success : buffer.ensureWritable pool count = .ok (pool', after)) :
    after.capacity ≤ Word.largestSize := by
  have limit := sound.capacity_le
  unfold ReceiveBuffer.ensureWritable at success
  split at success
  · exact sound.capacity_relocate_le success
  · rename_i block held
    have same : buffer.capacity = block.size := by rw [capacity, held]; rfl
    split at success
    · cases success
      exact limit
    · split at success
      · cases success
        exact Nat.le_trans (Nat.le_of_eq same.symm) limit
      · exact sound.capacity_relocate_le success

/-- Whatever is asked for, the room that is made is not larger than a block can be. -/
theorem Sound.room_le (sound : buffer.Sound pool others)
    (success : buffer.prepare pool count = .ok (pool', after, room)) :
    room ≤ Word.largestSize := by
  unfold ReceiveBuffer.prepare at success
  split at success
  · rename_i made
    cases success
    exact Nat.le_trans (Nat.sub_le _ _) (sound.capacity_ensureWritable_le made)
  · cases success

/-- The room that is made is enough exactly if the sum is a word. -/
theorem Sound.room_enough_iff (sound : buffer.Sound pool others)
    (success : buffer.prepare pool count = .ok (pool', after, room)) :
    count ≤ room ↔ buffer.readableBytes + count < Word.modulus := by
  constructor
  · intro enough
    have most := sound.room_le success
    have limit := sound.capacity_le
    have inside := sound.writer_le
    have readable := sound.readableBytes
    have twice : Word.largestSize + Word.largestSize < Word.modulus := by decide
    omega
  · intro fits
    have left := (sound.prepare fits success).2.2.2
    have same := room_of_prepare success
    omega

/-- A commit that is let through stays inside of the block exactly if the sum is a word. If it is
not, the writing cursor moves back. -/
theorem Sound.commit_guard (sound : buffer.Sound pool others) (word : count < Word.modulus)
    (success : buffer.commit count = .ok after) :
    (buffer.writer + count ≤ buffer.capacity ↔ buffer.writer + count < Word.modulus) ∧
      (buffer.writer + count < Word.modulus → after.writer = buffer.writer + count) ∧
      (Word.modulus ≤ buffer.writer + count →
        after.writer = buffer.writer + count - Word.modulus ∧ after.writer < buffer.writer) := by
  have limit := sound.capacity_le
  have inside := sound.writer_le
  have room : Word.largestSize < Word.modulus := by decide
  unfold ReceiveBuffer.commit at success
  dsimp only at success
  split at success
  · rename_i guard
    cases success
    refine ⟨⟨fun within => by omega, fun fits => ?_⟩, Word.add_of_lt, fun wraps => ?_⟩
    · rwa [Word.add_of_lt fits] at guard
    · have left := Word.add_of_wrap (show buffer.writer < Word.modulus by omega) word wraps
      exact ⟨left, show Word.add _ _ < _ by omega⟩
  · cases success

end ReceiveBuffer

/-! ### The checks of a session -/

namespace Session

variable {session : Session}

/-- The sessions that are reached from new ones by operations whose sums are words. Their arguments
are any words. -/
inductive ReachedExactly : Session → Prop where
  | new {config : PoolConfig} {columns : List ColumnType} {session : Session}
      (made : Session.new config columns = .ok session) : ReachedExactly session
  | step {session : Session} {op : Op} (before : ReachedExactly session)
      (exact : op.Exact session) : ReachedExactly (session.step op).session

/-- Such sessions have the invariant. -/
theorem ReachedExactly.sound (reached : session.ReachedExactly) : session.Sound := by
  induction reached with
  | new made =>
    cases new_inversion made
    exact sound_fresh _ _
  | step before exact inductionHypothesis => exact inductionHypothesis.step_exact exact

/-- Arguments below `2^63` are harmless. -/
theorem Reachable.reachedExactly (reachable : session.Reachable) : session.ReachedExactly := by
  induction reachable with
  | new made => exact .new made
  | step before small inductionHypothesis =>
    exact .step inductionHypothesis (before.sound.exact_of_small small)

/-- Slices and cursors are inside of their blocks. A slice of a slice, a commit and the room for
more bytes are checked by comparing what the sum leaves with the bound, and what passes the check is in
range exactly if the sum is a word. -/
theorem bounds_hold_below_wrapping (reached : session.ReachedExactly) :
    let buffer := session.buffer
    let pool := session.pool
    (buffer.reader ≤ buffer.writer ∧ buffer.writer ≤ buffer.capacity ∧
      ∀ slice ∈ session.owned, slice.offset + slice.size ≤ pool.capacity slice.block) ∧
    (∀ slice ∈ session.owned, ∀ offset size : UInt64,
      let sum := offset.toNat + size.toNat
      ((∃ made, pool.retain slice offset.toNat size.toNat = .ok made) ↔
        sum % Word.modulus ≤ slice.size) ∧
      ∀ pool' part, pool.retain slice offset.toNat size.toNat = .ok (pool', part) →
        (sum ≤ slice.size ↔ sum < Word.modulus) ∧ (part.Within slice ↔ sum < Word.modulus) ∧
        (sum < Word.modulus → pool'.bytesOf part =
          ((pool.bytesOf slice).drop offset.toNat).take size.toNat)) ∧
    (∀ count : UInt64,
      let sum := buffer.writer + count.toNat
      ((∃ after, buffer.commit count.toNat = .ok after) ↔
        sum % Word.modulus ≤ buffer.capacity) ∧
      ∀ after, buffer.commit count.toNat = .ok after →
        (sum ≤ buffer.capacity ↔ sum < Word.modulus) ∧
        (sum < Word.modulus → after.writer = sum) ∧
        (Word.modulus ≤ sum → after.writer = sum - Word.modulus ∧
          after.writer < buffer.writer)) ∧
    ∀ count : UInt64, ∀ pool' after room,
      buffer.prepare pool count.toNat = .ok (pool', after, room) →
        (count.toNat ≤ room ↔ buffer.readableBytes + count.toNat < Word.modulus) := by
  intro buffer pool
  have sound : buffer.Sound pool session.handedOut := reached.sound
  have accounts : pool.Accounts session.owned := by
    rw [owned_eq]
    exact sound.accounts
  refine ⟨⟨sound.reader_le, sound.writer_le, fun slice member => accounts.end_le member⟩,
    fun slice member offset size => ⟨?_, fun pool' part success => ?_⟩,
    fun count => ⟨?_, fun after success => sound.commit_guard count.toNat_lt success⟩,
    fun count pool' after room success => sound.room_enough_iff success⟩
  · rw [accounts.retain_guard member]
    split
    · rename_i guard
      exact iff_of_true ⟨_, rfl⟩ guard
    · rename_i refused
      exact iff_of_false nofun refused
  · obtain ⟨guard, rfl, rfl⟩ := accounts.retain_word member success
    have inside := accounts.end_le member
    have small := accounts.capacity_le slice.block
    have room : Word.largestSize < Word.modulus := by decide
    refine ⟨⟨fun within => by omega, fun fits => ?_⟩,
      accounts.within_iff member offset.toNat_lt guard, fun fits => ?_⟩
    · rwa [Word.add_of_lt fits] at guard
    · rw [Word.add_of_lt fits] at guard
      rw [Word.add_of_lt (show slice.offset + offset.toNat < Word.modulus by omega),
        Pool.bytesOf_addReference, Pool.bytesOf_part pool slice guard]
  · unfold ReceiveBuffer.commit
    dsimp only
    split
    · rename_i guard
      exact iff_of_true ⟨_, rfl⟩ guard
    · rename_i refused
      exact iff_of_false nofun refused

/-- A session with a block of its own and two bytes to read. -/
def halfFullSession : Session :=
  (fresh ⟨4, 1⟩ []).after [.slice (.allocate 4), .buffer (.append [1, 2])]

theorem bounds_hold_below_wrapping_halfFullSession :
    (¬ ∃ made, halfFullSession.pool.retain ⟨0, 0, 4⟩ 3 18446744073709551612 = .ok made) ∧
      (∀ after, halfFullSession.buffer.commit 2 = .ok after → after.writer = 4) ∧
      ∀ pool after room,
        halfFullSession.buffer.prepare halfFullSession.pool 9 = .ok (pool, after, room) →
          9 ≤ room := by
  have new : Session.new ⟨4, 1⟩ [] = .ok (fresh ⟨4, 1⟩ []) := rfl
  have reachable : halfFullSession.Reachable := (Session.Reachable.new new).after (by decide)
  obtain ⟨-, retains, commits, prepares⟩ := bounds_hold_below_wrapping reachable.reachedExactly
  have outside : ¬ (3 + 18446744073709551612) % Word.modulus ≤ 4 := by decide
  refine ⟨?_, fun after success => ?_, fun pool after room success => ?_⟩
  · exact fun made => outside ((retains _ (by decide) 3 18446744073709551612).1.1 made)
  · exact ((commits 2).2 after success).2.1 (by decide)
  · exact (prepares 9 pool after room success).2 (by decide)

/-- Sums that wrap pass the checks: a slice starts far behind its parent, the writing cursor moves
back, and there is less room than was asked for. -/
theorem wrapped_sums_pass_checks :
    halfFullSession.Reachable ∧
      (⟨0, 0, 4⟩ ∈ halfFullSession.owned ∧
        (halfFullSession.pool.retain ⟨0, 0, 4⟩ (Word.modulus - 1) 1).map Prod.snd =
          .ok ⟨0, Word.modulus - 1, 1⟩ ∧ ¬ Slice.Within ⟨0, Word.modulus - 1, 1⟩ ⟨0, 0, 4⟩) ∧
      ((halfFullSession.buffer.commit (Word.modulus - 1)).map ReceiveBuffer.writer = .ok 1 ∧
        ¬ halfFullSession.buffer.writer + (Word.modulus - 1) ≤ halfFullSession.buffer.capacity) ∧
      (halfFullSession.buffer.prepare halfFullSession.pool (Word.modulus - 1)).map
        (fun made => made.2.2) = .ok 2 := by
  have new : Session.new ⟨4, 1⟩ [] = .ok (fresh ⟨4, 1⟩ []) := rfl
  have reachable : halfFullSession.Reachable := (Session.Reachable.new new).after (by decide)
  exact ⟨reachable, by decide +kernel, by decide +kernel, by decide +kernel⟩

end Session

end TabularStream
