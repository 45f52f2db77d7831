/-
This file keeps the accounts of a pool. `Pool.Accounts pool owned` says that a pool and the slices
that have been handed out from it agree: a block counts exactly the slices of it, a slice lies
inside of a block that the pool still has, and the blocks that wait to be reused are those without
slices.

Every operation of the pool turns accounts into accounts. None of them changes the bytes of a
slice that is owned before and after it, apart from writing, which changes nothing in front of the
place that is written to. So a block that is handed out again, or given up, was nobody's.
-/

import TabularStream.LargeObject.ChunkReader

namespace TabularStream

theorem Word.add_of_le {left right bound : Nat} (fits : left + right ≤ bound)
    (small : bound ≤ Word.largestSize) : Word.add left right = left + right :=
  Word.add_of_lt (Nat.lt_of_le_of_lt (Nat.le_trans fits small) (by decide))

/-- What is in front of the place that is written to stays. -/
theorem overwrite_front (storage : Bytes) (offset : Nat) (bytes : Bytes) (start count : Nat)
    (before : start + count ≤ offset) (fits : start + count ≤ storage.length) :
    ((overwrite storage offset bytes).drop start).take count =
      (storage.drop start).take count := by
  have front : start + count ≤ (storage.take offset).length := by
    rw [List.length_take]
    omega
  rw [overwrite, List.append_assoc, List.drop_append_of_le_length (by omega),
    List.take_append_of_le_length (by rw [List.length_drop]; omega), List.drop_take,
    List.take_take]
  congr 1
  omega

namespace Pool

variable {pool after : Pool} {owned : List Slice} {slice other : Slice} {id : BlockId}

/-- The number of slices of a block among the given ones. -/
def handlesOn (id : BlockId) (slices : List Slice) : Nat :=
  slices.countP fun slice => slice.block == id

/-- The pool and the slices that have been handed out agree. -/
structure Accounts (pool : Pool) (owned : List Slice) : Prop where
  counted : ∀ id block, pool.block? id = some block → block.references = handlesOn id owned
  inside : ∀ slice ∈ owned, ∃ block, pool.block? slice.block = some block ∧
    slice.offset + slice.size ≤ block.memory.size
  bounded : ∀ id block, pool.block? id = some block → block.memory.size ≤ Word.largestSize
  free_iff : ∀ id, id ∈ pool.free ↔ ∃ block, pool.block? id = some block ∧ block.references = 0
  nodup : pool.free.Nodup
  pooled_le : pool.pooled ≤ pool.config.maxPooledBlocks.toNat

/-! ### Counting slices -/

theorem handlesOn_cons (id : BlockId) (slice : Slice) (owned : List Slice) :
    handlesOn id (slice :: owned) = handlesOn id owned + if slice.block = id then 1 else 0 := by
  simp only [handlesOn, List.countP_cons, beq_iff_eq]

theorem handlesOn_pos (member : slice ∈ owned) : 0 < handlesOn slice.block owned :=
  List.countP_pos_iff.2 ⟨slice, member, by simp⟩

theorem ne_of_handlesOn_eq_zero (none : handlesOn id owned = 0) (member : other ∈ owned) :
    other.block ≠ id := by
  rintro rfl
  exact absurd none (Nat.ne_of_gt (handlesOn_pos member))

theorem Accounts.perm {owned' : List Slice} (accounts : pool.Accounts owned)
    (same : owned.Perm owned') : pool.Accounts owned' where
  counted id block found := (accounts.counted id block found).trans (same.countP_eq _)
  inside slice member := accounts.inside slice (same.mem_iff.2 member)
  bounded := accounts.bounded
  free_iff := accounts.free_iff
  nodup := accounts.nodup
  pooled_le := accounts.pooled_le

theorem accounts_empty (config : PoolConfig) : (empty config).Accounts [] where
  counted id block found := by simp [block?, empty] at found
  inside slice member := by cases member
  bounded id block found := by simp [block?, empty] at found
  free_iff id := by simp [block?, empty]
  nodup := List.nodup_nil
  pooled_le := Nat.zero_le _

/-! ### Looking at a slice that is owned -/

/-- The block of a slice that is owned is there, and in use. -/
theorem Accounts.block (accounts : pool.Accounts owned) (member : slice ∈ owned) :
    ∃ block, pool.block? slice.block = some block ∧
      slice.offset + slice.size ≤ block.memory.size ∧
      block.references = handlesOn slice.block owned ∧ 0 < block.references := by
  obtain ⟨block, found, inside⟩ := accounts.inside slice member
  have counted := accounts.counted _ _ found
  exact ⟨block, found, inside, counted, counted ▸ handlesOn_pos member⟩

theorem Accounts.holds (accounts : pool.Accounts owned) (member : slice ∈ owned) :
    pool.Holds slice := by
  obtain ⟨block, found, inside⟩ := accounts.inside slice member
  simp only [Holds, bytesOf, contents, found, Memory.length_toList, Memory.size_take,
    Memory.size_drop]
  omega

theorem Accounts.useCount (accounts : pool.Accounts owned) (member : slice ∈ owned) :
    pool.useCount slice = handlesOn slice.block owned := by
  obtain ⟨block, found, -, counted, -⟩ := accounts.block member
  simp only [Pool.useCount, found, counted]

theorem Accounts.end_le (accounts : pool.Accounts owned) (member : slice ∈ owned) :
    slice.offset + slice.size ≤ pool.capacity slice.block := by
  obtain ⟨block, found, inside⟩ := accounts.inside slice member
  simpa only [capacity, found] using inside

theorem Accounts.capacity_le (accounts : pool.Accounts owned) (id : BlockId) :
    pool.capacity id ≤ Word.largestSize := by
  unfold capacity
  split
  · rename_i block found
    exact accounts.bounded id block found
  · exact Nat.zero_le _

/-- With a single reference to its block, a slice is the only one of it. -/
theorem Accounts.ne_of_useCount (accounts : pool.Accounts (slice :: owned))
    (single : pool.useCount slice = 1) (member : other ∈ owned) : other.block ≠ slice.block := by
  rw [accounts.useCount List.mem_cons_self, handlesOn_cons, if_pos rfl] at single
  exact ne_of_handlesOn_eq_zero (Nat.succ.inj single) member

theorem bytesOf_congr (same : (after.block? slice.block).map Block.memory =
      (pool.block? slice.block).map Block.memory) : after.bytesOf slice = pool.bytesOf slice := by
  unfold bytesOf contents
  cases found : pool.block? slice.block <;> cases found' : after.block? slice.block <;>
    simp_all

/-- The slices hold in both pools the same bytes, in blocks of the same size. -/
def Spares (pool after : Pool) (slices : List Slice) : Prop :=
  ∀ other ∈ slices, after.bytesOf other = pool.bytesOf other ∧
    after.capacity other.block = pool.capacity other.block

theorem Spares.refl (pool : Pool) (slices : List Slice) : pool.Spares pool slices :=
  fun _ _ => ⟨rfl, rfl⟩

theorem Spares.trans {last : Pool} {slices : List Slice} (first : pool.Spares after slices)
    (second : after.Spares last slices) : pool.Spares last slices := fun other member =>
  ⟨(second other member).1.trans (first other member).1,
    (second other member).2.trans (first other member).2⟩

theorem spares_of_block? {slices : List Slice}
    (same : ∀ other ∈ slices, after.block? other.block = pool.block? other.block) :
    pool.Spares after slices := by
  intro other member
  refine ⟨bytesOf_congr (congrArg _ (same other member)), ?_⟩
  unfold capacity
  rw [same other member]

/-- A part of a slice holds the bytes at its place. -/
theorem bytesOf_part (pool : Pool) (slice : Slice) {offset count : Nat}
    (within : offset + count ≤ slice.size) :
    pool.bytesOf ⟨slice.block, slice.offset + offset, count⟩ =
      ((pool.bytesOf slice).drop offset).take count := by
  unfold bytesOf contents
  dsimp only
  cases pool.block? slice.block with
  | none => simp
  | some block =>
    simp only [Memory.toList_take, Memory.toList_drop]
    rw [List.drop_take, List.take_take, List.drop_drop, Nat.min_eq_left (by omega)]

theorem bytesOf_front (pool : Pool) (slice : Slice) {count : Nat} (within : count ≤ slice.size) :
    pool.bytesOf { slice with size := count } = (pool.bytesOf slice).take count :=
  bytesOf_part pool slice (show 0 + count ≤ slice.size by rwa [Nat.zero_add])

/-! ### One more reference -/

/-- A block that somebody uses can be shared. -/
theorem Accounts.addReference (accounts : pool.Accounts owned) (member : slice ∈ owned)
    {part : Slice} (same : part.block = slice.block)
    (inside : part.offset + part.size ≤ pool.capacity slice.block) :
    (pool.addReference slice.block).Accounts (part :: owned) := by
  obtain ⟨shared, found, -, counted, used⟩ := accounts.block member
  have lookup (id : BlockId) := block?_updateBlock pool slice.block id
    fun block => { block with references := block.references + 1 }
  refine ⟨?_, ?_, ?_, ?_, accounts.nodup, accounts.pooled_le⟩
  · intro id block present
    rw [Pool.addReference, lookup] at present
    rw [handlesOn_cons, same]
    split at present
    · subst id
      rw [found] at present
      cases present
      rw [if_pos rfl, ← counted]
    · rename_i apart
      rw [if_neg apart]
      exact accounts.counted id block present
  · intro any here
    rw [Pool.addReference, lookup]
    rcases List.mem_cons.1 here with rfl | here
    · rw [if_pos same.symm, same, found]
      refine ⟨_, rfl, ?_⟩
      simpa only [capacity, found] using inside
    · obtain ⟨block, present, within⟩ := accounts.inside any here
      rw [present]
      split
      · exact ⟨_, rfl, within⟩
      · exact ⟨_, rfl, within⟩
  · intro id block present
    rw [Pool.addReference, lookup] at present
    split at present
    · obtain ⟨before, earlier, rfl⟩ := Option.map_eq_some_iff.1 present
      exact accounts.bounded id before earlier
    · exact accounts.bounded id block present
  · intro id
    rw [Pool.addReference, lookup]
    refine (accounts.free_iff id).trans ?_
    split
    · subst id
      rw [found]
      simp only [Option.map_some, Option.some.injEq, exists_eq_left']
      constructor
      · exact fun idle => absurd idle (Nat.ne_of_gt used)
      · exact fun idle => absurd idle (Nat.succ_ne_zero _)
    · rfl

/-- A range of a slice can be retained, and it becomes a slice of the same block. -/
theorem Accounts.retain_eq (accounts : pool.Accounts owned) (member : slice ∈ owned)
    {offset size : Nat} (within : offset + size ≤ slice.size) :
    pool.retain slice offset size =
      .ok (pool.addReference slice.block, ⟨slice.block, slice.offset + offset, size⟩) := by
  have fits := accounts.end_le member
  have small := accounts.capacity_le slice.block
  have start := Word.add_of_le (show slice.offset + offset ≤ _ by omega) small
  have length := Word.add_of_le (show offset + size ≤ _ by omega) small
  have stop := Word.add_of_le (show slice.offset + offset + size ≤ _ by omega) small
  simp only [retain, start, length, stop]
  rw [if_pos ⟨within, by omega⟩]

/-- Only a range of a slice can be retained. -/
theorem Accounts.retain_inversion (accounts : pool.Accounts owned) (member : slice ∈ owned)
    {offset size : Nat} {part : Slice} (small : offset + size < Word.modulus)
    (success : pool.retain slice offset size = .ok (after, part)) :
    offset + size ≤ slice.size ∧ after = pool.addReference slice.block ∧
      part = ⟨slice.block, slice.offset + offset, size⟩ := by
  by_cases within : offset + size ≤ slice.size
  · rw [accounts.retain_eq member within] at success
    cases success
    exact ⟨within, rfl, rfl⟩
  · unfold retain at success
    rw [Word.add_of_lt small, if_neg fun both => within both.1] at success
    cases success

/-! ### One reference less -/

/-- The pool with one reference less to a block. -/
def dropReference (pool : Pool) (id : BlockId) : Pool :=
  pool.updateBlock id fun block => { block with references := block.references - 1 }

theorem release_eq (pool : Pool) (slice : Slice) :
    pool.release slice = if pool.useCount slice = 1
      then (pool.dropReference slice.block).recycle slice.block
      else pool.dropReference slice.block := rfl

theorem block?_dropReference (pool : Pool) (id other : BlockId) :
    (pool.dropReference id).block? other = (pool.block? other).map fun block =>
      if id = other then { block with references := block.references - 1 } else block := by
  rw [dropReference, block?_updateBlock]
  split
  · rfl
  · rw [Option.map_id']

theorem block?_recycle (pool : Pool) (id other : BlockId) :
    (pool.recycle id).block? other =
      if pool.free.length < pool.config.maxPooledBlocks.toNat then pool.block? other
      else if id = other then none else pool.block? other := by
  unfold recycle
  split
  · rfl
  · simp only [block?, List.getElem?_set]
    split
    · split <;> rfl
    · rfl

theorem free_recycle (pool : Pool) (id : BlockId) :
    (pool.recycle id).free = if pool.free.length < pool.config.maxPooledBlocks.toNat
      then pool.free ++ [id] else pool.free := by
  unfold recycle
  split <;> rfl

theorem config_recycle (pool : Pool) (id : BlockId) : (pool.recycle id).config = pool.config := by
  unfold recycle
  split <;> rfl

/-- Taking back a slice leaves the blocks of all others as they are, apart from their counts. -/
theorem Accounts.block?_release (accounts : pool.Accounts (slice :: owned))
    (member : other ∈ owned) :
    (pool.release slice).block? other.block =
      (pool.dropReference slice.block).block? other.block := by
  rw [release_eq]
  split
  · rename_i single
    rw [block?_recycle, if_neg (accounts.ne_of_useCount single member).symm, ite_self]
  · rfl

theorem Accounts.spares_release (accounts : pool.Accounts (slice :: owned)) :
    pool.Spares (pool.release slice) owned := by
  intro other member
  constructor
  · refine bytesOf_congr ?_
    rw [accounts.block?_release member, block?_dropReference, Option.map_map]
    refine congrArg (fun change => Option.map change _) (funext fun block => ?_)
    simp only [Function.comp_apply]
    split <;> rfl
  · unfold capacity
    rw [accounts.block?_release member, block?_dropReference]
    cases pool.block? other.block with
    | none => rfl
    | some block =>
      dsimp only [Option.map_some]
      split <;> rfl

theorem Accounts.counted_dropReference (accounts : pool.Accounts (slice :: owned)) (id : BlockId)
    (block : Block) (found : (pool.dropReference slice.block).block? id = some block) :
    block.references = handlesOn id owned ∧ block.memory.size ≤ Word.largestSize := by
  rw [block?_dropReference] at found
  obtain ⟨before, present, rfl⟩ := Option.map_eq_some_iff.1 found
  have counted := accounts.counted id before present
  have bounded := accounts.bounded id before present
  rw [handlesOn_cons] at counted
  split
  · rename_i same
    rw [if_pos same] at counted
    refine ⟨?_, bounded⟩
    show before.references - 1 = _
    rw [counted, Nat.add_sub_cancel]
  · rename_i apart
    rw [if_neg apart] at counted
    exact ⟨counted, bounded⟩

theorem Accounts.inside_release (accounts : pool.Accounts (slice :: owned)) :
    ∀ other ∈ owned, ∃ block, (pool.release slice).block? other.block = some block ∧
      other.offset + other.size ≤ block.memory.size := by
  intro other member
  obtain ⟨block, found, within⟩ := accounts.inside other (List.mem_cons_of_mem _ member)
  rw [accounts.block?_release member, block?_dropReference, found]
  refine ⟨_, rfl, ?_⟩
  split <;> exact within

/-- The free blocks after one reference to a block has been given back are those that were free,
and the block itself if nobody uses it any more. -/
theorem Accounts.idle_dropReference (accounts : pool.Accounts (slice :: owned)) (id : BlockId) :
    (∃ block, (pool.dropReference slice.block).block? id = some block ∧ block.references = 0) ↔
      id ∈ pool.free ∨ (id = slice.block ∧ pool.useCount slice = 1) := by
  obtain ⟨shared, found, -, -, used⟩ := accounts.block List.mem_cons_self
  have count : pool.useCount slice = shared.references := by simp only [Pool.useCount, found]
  rw [block?_dropReference, accounts.free_iff, count]
  by_cases same : id = slice.block
  · subst same
    rw [found]
    simp only [Option.map_some, if_true, Option.some.injEq, exists_eq_left', true_and]
    omega
  · simp only [same, false_and, or_false, Ne.symm same, if_false, Option.map_id']

theorem Accounts.notMem_free (accounts : pool.Accounts owned) (member : slice ∈ owned) :
    slice.block ∉ pool.free := by
  intro idle
  obtain ⟨shared, found, -, -, used⟩ := accounts.block member
  obtain ⟨block, present, none⟩ := (accounts.free_iff _).1 idle
  rw [found] at present
  cases present
  exact absurd none (Nat.ne_of_gt used)

/-- The last slice of a block is taken back, and the block waits to be reused. -/
theorem Accounts.recycle_of_room (accounts : pool.Accounts (slice :: owned))
    (single : pool.useCount slice = 1)
    (room : pool.free.length < pool.config.maxPooledBlocks.toNat) :
    ((pool.dropReference slice.block).recycle slice.block).Accounts owned := by
  have dropped := accounts.counted_dropReference
  have inside := accounts.inside_release
  rw [release_eq, if_pos single] at inside
  have same (id : BlockId) :=
    (block?_recycle (pool.dropReference slice.block) slice.block id).trans (if_pos room)
  have free := (free_recycle (pool.dropReference slice.block) slice.block).trans (if_pos room)
  refine ⟨fun id block present => (dropped id block ((same id).symm.trans present)).1, inside,
    fun id block present => (dropped id block ((same id).symm.trans present)).2, ?_, ?_, ?_⟩
  · intro id
    rw [free, same, accounts.idle_dropReference, List.mem_append, List.mem_singleton]
    simp only [single, and_true]
    rfl
  · rw [free]
    refine List.nodup_append.2 ⟨accounts.nodup, by simp, ?_⟩
    rintro id member _ last rfl
    exact accounts.notMem_free List.mem_cons_self (List.mem_singleton.1 last ▸ member)
  · rw [pooled, free, config_recycle, List.length_append]
    exact room

/-- The last slice of a block is taken back, and the block is given up. -/
theorem Accounts.recycle_of_full (accounts : pool.Accounts (slice :: owned))
    (single : pool.useCount slice = 1)
    (full : ¬ pool.free.length < pool.config.maxPooledBlocks.toNat) :
    ((pool.dropReference slice.block).recycle slice.block).Accounts owned := by
  have dropped := accounts.counted_dropReference
  have inside := accounts.inside_release
  rw [release_eq, if_pos single] at inside
  have same (id : BlockId) :=
    (block?_recycle (pool.dropReference slice.block) slice.block id).trans (if_neg full)
  have free := (free_recycle (pool.dropReference slice.block) slice.block).trans (if_neg full)
  have others {id : BlockId} {block : Block} (present :
      ((pool.dropReference slice.block).recycle slice.block).block? id = some block) :
      (pool.dropReference slice.block).block? id = some block := by
    rw [same] at present
    split at present
    · cases present
    · exact present
  refine ⟨fun id block present => (dropped id block (others present)).1, inside,
    fun id block present => (dropped id block (others present)).2, ?_, ?_, ?_⟩
  · intro id
    rw [free, same]
    split
    · subst id
      refine ⟨fun member => absurd member (accounts.notMem_free List.mem_cons_self), ?_⟩
      rintro ⟨_, none, _⟩
      cases none
    · rename_i apart
      rw [accounts.idle_dropReference]
      simp only [Ne.symm apart, false_and, or_false]
      rfl
  · rw [free]
    exact accounts.nodup
  · rw [pooled, free, config_recycle]
    exact accounts.pooled_le

/-- A slice that is taken back is nobody's any more. -/
theorem Accounts.release (accounts : pool.Accounts (slice :: owned)) :
    (pool.release slice).Accounts owned := by
  have dropped := accounts.counted_dropReference
  have inside := accounts.inside_release
  rw [release_eq] at inside ⊢
  by_cases single : pool.useCount slice = 1
  · rw [if_pos single]
    by_cases room : pool.free.length < pool.config.maxPooledBlocks.toNat
    · exact accounts.recycle_of_room single room
    · exact accounts.recycle_of_full single room
  · rw [if_neg single] at inside ⊢
    refine ⟨fun id block present => (dropped id block present).1, inside,
      fun id block present => (dropped id block present).2, ?_, accounts.nodup,
      accounts.pooled_le⟩
    intro id
    rw [accounts.idle_dropReference]
    simp only [single, and_false, or_false]
    rfl

/-- Taking slices back leaves the accounts of the others, and their bytes and blocks. -/
theorem Accounts.releaseAll {released : List Slice} (accounts : pool.Accounts (released ++ owned)) :
    (pool.releaseAll released).Accounts owned ∧ pool.Spares (pool.releaseAll released) owned := by
  induction released generalizing pool with
  | nil => exact ⟨accounts, Spares.refl pool owned⟩
  | cons first rest inductionHypothesis =>
    obtain ⟨left, same⟩ := inductionHypothesis (Accounts.release accounts)
    have first : pool.Spares (pool.release first) owned := fun other member =>
      Accounts.spares_release accounts other (List.mem_append_right rest member)
    exact ⟨left, first.trans same⟩

/-! ### Handing out blocks -/

/-- Handing out a block changes nothing but that block. -/
structure HandedOut (pool after : Pool) (id : BlockId) (block : Block) : Prop where
  there : after.block? id = some block
  single : block.references = 1
  bounded : block.memory.size ≤ Word.largestSize
  same : ∀ other, other ≠ id → after.block? other = pool.block? other
  free_iff : ∀ other, other ∈ after.free ↔ other ≠ id ∧ other ∈ pool.free
  nodup : after.free.Nodup
  pooled_le : after.pooled ≤ after.config.maxPooledBlocks.toNat

/-- A block of which there was no slice can be handed out. -/
theorem Accounts.handOut {block : Block} (accounts : pool.Accounts owned)
    (handed : HandedOut pool after slice.block block)
    (apart : ∀ other ∈ owned, other.block ≠ slice.block)
    (inside : slice.offset + slice.size ≤ block.memory.size) :
    after.Accounts (slice :: owned) := by
  refine ⟨?_, ?_, ?_, ?_, handed.nodup, handed.pooled_le⟩
  · intro id found present
    rw [handlesOn_cons]
    by_cases here : id = slice.block
    · subst here
      cases handed.there.symm.trans present
      rw [if_pos rfl, handed.single]
      refine congrArg (· + 1) (List.countP_eq_zero.2 fun other member => ?_).symm
      simpa using apart other member
    · rw [if_neg (Ne.symm here)]
      exact accounts.counted _ _ ((handed.same id here).symm.trans present)
  · intro other member
    rcases List.mem_cons.1 member with rfl | member
    · exact ⟨block, handed.there, inside⟩
    · obtain ⟨found, present, within⟩ := accounts.inside other member
      exact ⟨found, (handed.same _ (apart other member)).trans present, within⟩
  · intro id found present
    by_cases here : id = slice.block
    · subst here
      cases handed.there.symm.trans present
      exact handed.bounded
    · exact accounts.bounded _ _ ((handed.same id here).symm.trans present)
  · intro id
    rw [handed.free_iff, accounts.free_iff]
    by_cases here : id = slice.block
    · subst here
      rw [handed.there]
      simp [handed.single]
    · rw [handed.same id here]
      simp only [ne_eq, here, not_false_eq_true, true_and]

theorem handedOut_of_free {block : Block} (accounts : pool.Accounts owned) (idle : id ∈ pool.free)
    (present : pool.block? id = some block) :
    HandedOut pool ({ pool with free := pool.free.erase id }.addReference id) id
      { block with references := block.references + 1 } := by
  obtain ⟨found, present', none⟩ := (accounts.free_iff id).1 idle
  cases present.symm.trans present'
  have lookup (other : BlockId) := block?_updateBlock { pool with free := pool.free.erase id }
    id other fun block => { block with references := block.references + 1 }
  refine ⟨?_, congrArg (· + 1) none, accounts.bounded id block present, ?_, ?_,
    accounts.nodup.erase _, Nat.le_trans List.length_erase_le accounts.pooled_le⟩
  · refine (lookup id).trans ((if_pos rfl).trans ?_)
    exact congrArg (Option.map _) (show block? { pool with free := _ } id = _ from present)
  · exact fun other apart => (lookup other).trans (if_neg apart.symm)
  · exact fun other => accounts.nodup.mem_erase_iff

theorem handedOut_of_new (block : Block) (accounts : pool.Accounts owned)
    (single : block.references = 1) (bounded : block.memory.size ≤ Word.largestSize) :
    HandedOut pool { pool with blocks := pool.blocks ++ [some block] } pool.blocks.length
      block := by
  have absent : pool.block? pool.blocks.length = none := by simp [block?]
  refine ⟨by simp [block?], single, bounded, ?_, ?_, accounts.nodup, accounts.pooled_le⟩
  · intro other apart
    simp only [block?, List.getElem?_append]
    by_cases old : other < pool.blocks.length
    · rw [if_pos old]
    · have past : pool.blocks.length < other :=
        Nat.lt_of_le_of_ne (Nat.le_of_not_lt old) apart.symm
      rw [if_neg old, List.getElem?_eq_none (l := [some block]) (Nat.sub_pos_of_lt past),
        List.getElem?_eq_none (Nat.le_of_lt past)]
  · intro other
    refine ⟨fun member => ⟨?_, member⟩, fun member => member.2⟩
    rintro rfl
    obtain ⟨found, present, -⟩ := (accounts.free_iff _).1 member
    cases absent.symm.trans present

/-- What is allocated is a block of which there was no slice, and every other slice keeps its
bytes. -/
theorem Accounts.allocate {size : Nat} (accounts : pool.Accounts owned)
    (success : pool.allocate size = .ok (after, slice)) :
    after.Accounts (slice :: owned) ∧ (∀ other ∈ owned, other.block ≠ slice.block) ∧
      pool.Spares after owned := by
  unfold Pool.allocate at success
  split at success
  · rename_i id found
    cases success
    have idle := List.mem_of_find?_eq_some found
    obtain ⟨block, present, none⟩ := (accounts.free_iff id).1 idle
    have handed := handedOut_of_free accounts idle present
    have apart (other : Slice) (member : other ∈ owned) : other.block ≠ id :=
      ne_of_handlesOn_eq_zero ((accounts.counted id block present).symm.trans none) member
    refine ⟨accounts.handOut handed apart ?_, apart,
      spares_of_block? fun other member => handed.same _ (apart other member)⟩
    simp only [capacity, present, Nat.zero_add, Nat.le_refl]
  · dsimp only at success
    split at success
    · cases success
    · rename_i small
      cases success
      generalize max size pool.config.blockSize.toNat = room at small
      have handed := handedOut_of_new ⟨Memory.replicate room 0, 1⟩ accounts rfl
        (Nat.le_of_not_lt small)
      have apart (other : Slice) (member : other ∈ owned) :
          other.block ≠ pool.blocks.length := by
        intro same
        obtain ⟨block, present, -⟩ := accounts.inside other member
        rw [same] at present
        simp [block?] at present
      exact ⟨accounts.handOut handed apart (by simp), apart,
        spares_of_block? fun other member => handed.same _ (apart other member)⟩

/-! ### Writing -/

theorem block?_write (pool : Pool) (slice : Slice) (position : Nat) (fresh : Memory)
    (id : BlockId) : (pool.write slice position fresh).block? id =
      (pool.block? id).map fun block => if slice.block = id
        then { block with memory := block.memory.overwrite (slice.offset + position) fresh }
        else block := by
  rw [write, block?_updateBlock]
  split
  · rfl
  · rw [Option.map_id']

/-- Writing moves no reference. -/
theorem Accounts.write (accounts : pool.Accounts owned) (slice : Slice) (position : Nat)
    (fresh : Memory) : (pool.write slice position fresh).Accounts owned := by
  have lookup := block?_write pool slice position fresh
  have back {id : BlockId} {block : Block}
      (present : (pool.write slice position fresh).block? id = some block) :
      ∃ before, pool.block? id = some before ∧ block.references = before.references ∧
        block.memory.size = before.memory.size := by
    rw [lookup] at present
    obtain ⟨before, found, rfl⟩ := Option.map_eq_some_iff.1 present
    refine ⟨before, found, ?_, ?_⟩
    · split <;> rfl
    · split
      · exact Memory.size_overwrite _ _ _
      · rfl
  refine ⟨?_, ?_, ?_, ?_, accounts.nodup, accounts.pooled_le⟩
  · intro id block present
    obtain ⟨before, found, references, -⟩ := back present
    exact references.trans (accounts.counted id before found)
  · intro other member
    obtain ⟨before, found, within⟩ := accounts.inside other member
    rw [lookup, found]
    refine ⟨_, rfl, ?_⟩
    split
    · exact Nat.le_trans within (Nat.le_of_eq (Memory.size_overwrite _ _ _).symm)
    · exact within
  · intro id block present
    obtain ⟨before, found, -, size⟩ := back present
    exact size ▸ accounts.bounded id before found
  · intro id
    refine (accounts.free_iff id).trans ?_
    rw [lookup]
    cases pool.block? id with
    | none => simp
    | some block =>
      simp only [Option.map_some, Option.some.injEq, exists_eq_left']
      split <;> rfl

/-- Writing past the end of a slice leaves its bytes. -/
theorem bytesOf_write_of_end_le (slice : Slice) {position : Nat} (fresh : Memory)
    (before : slice.block = other.block → other.offset + other.size ≤ slice.offset + position)
    (fits : other.offset + other.size ≤ pool.capacity other.block) :
    (pool.write slice position fresh).bytesOf other = pool.bytesOf other := by
  by_cases same : slice.block = other.block
  · unfold bytesOf contents
    rw [block?_write]
    unfold capacity at fits
    cases found : pool.block? other.block with
    | none => rfl
    | some block =>
      rw [found] at fits
      have stop := before same
      dsimp only [Option.map_some]
      rw [if_pos same]
      simp only [Memory.toList_take, Memory.toList_drop, Memory.toList_overwrite]
      have front := overwrite_front block.memory.toList (slice.offset + position) fresh.toList
        other.offset other.size stop (by simpa using fits)
      exact front
  · exact bytesOf_write_of_ne same position fresh

/-- Bytes written past the front of a block follow what is in front of them. -/
theorem bytesOf_write_next {size position count : Nat} {fresh : Memory}
    (within : count ≤ fresh.size) (fits : position + fresh.size ≤ pool.capacity id) :
    (pool.write ⟨id, 0, size⟩ position fresh).bytesOf ⟨id, 0, position + count⟩ =
      pool.bytesOf ⟨id, 0, position⟩ ++ fresh.toList.take count := by
  unfold bytesOf contents
  rw [block?_write]
  unfold capacity at fits
  cases found : pool.block? id with
  | none =>
    rw [found] at fits
    have nothing : count = 0 := by
      dsimp only at fits
      omega
    simp [nothing]
  | some block =>
    rw [found] at fits
    have room : fresh.toList.length ≤ block.memory.toList.length - position := by
      rw [Memory.length_toList, Memory.length_toList]
      dsimp only at fits
      omega
    have front : (block.memory.toList.take position).length = position := by
      rw [List.length_take, Memory.length_toList]
      dsimp only at fits
      omega
    simp only [Option.map_some, if_true, Nat.zero_add, Memory.toList_take, Memory.toList_drop,
      Memory.toList_overwrite, List.drop_zero, overwrite, List.take_of_length_le room]
    rw [List.append_assoc, List.take_append, front, Nat.add_sub_cancel_left,
      List.take_of_length_le (by omega), List.take_append_of_le_length (by simpa using within)]

/-! ### Copies -/

/-- A slice can be made shorter. -/
theorem Accounts.shorten {part : Slice} (accounts : pool.Accounts (slice :: owned))
    (same : part.block = slice.block)
    (inside : part.offset + part.size ≤ pool.capacity slice.block) :
    pool.Accounts (part :: owned) := by
  refine ⟨?_, ?_, accounts.bounded, accounts.free_iff, accounts.nodup, accounts.pooled_le⟩
  · intro id block found
    rw [handlesOn_cons, same, ← handlesOn_cons]
    exact accounts.counted id block found
  · intro other member
    rcases List.mem_cons.1 member with rfl | member
    · obtain ⟨block, found, -⟩ := accounts.inside slice List.mem_cons_self
      rw [same]
      refine ⟨block, found, ?_⟩
      simpa only [capacity, found] using inside
    · exact accounts.inside other (List.mem_cons_of_mem _ member)

/-- A copy is a slice of a block of its own. -/
theorem Accounts.copyOf {bytes : Bytes} (accounts : pool.Accounts owned)
    (success : pool.copyOf bytes = .ok (after, slice)) :
    after.Accounts (slice :: owned) ∧ (∀ other ∈ owned, other.block ≠ slice.block) ∧
      pool.Spares after owned := by
  unfold Pool.copyOf at success
  split at success
  · rename_i allocated whole allocation
    cases success
    obtain ⟨front, size, enough⟩ := capacity_of_allocate allocation
    obtain ⟨handed, apart, same⟩ := accounts.allocate allocation
    refine ⟨(handed.write whole 0 _).shorten rfl ?_, apart, fun other member => ?_⟩
    · rw [capacity_write]
      show whole.offset + bytes.length ≤ _
      omega
    · rw [bytesOf_write_of_ne (apart other member).symm, capacity_write]
      exact same other member
  · cases success

end Pool

end TabularStream
