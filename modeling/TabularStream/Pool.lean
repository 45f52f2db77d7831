/-
This file holds the pool of memory blocks and the slices handed out from it. A block counts the
slices that refer to it. Nobody else touches the counts: `allocate` hands out a slice of a whole
block, `retain` hands out another slice of a block that is already in use, and `release` takes a
slice back. A block without references waits in the list of free blocks until it is handed out
again, or is given up when enough blocks wait already.

Blocks are named by numbers that are never used twice, so a slice of a block that has been given
up cannot be mistaken for a slice of a later one. Releasing is the business of whoever owns a
slice, and the functions of the other files say where each slice goes.
-/

import TabularStream.Failure
import TabularStream.Memory
import TabularStream.Word

namespace TabularStream

/-! ### Blocks, slices and pools -/

/-- The name of a block. -/
abbrev BlockId := Nat

/-- A block of memory. -/
structure Block where
  memory : Memory
  /-- The number of slices that refer to the block. -/
  references : Nat
  deriving DecidableEq, Repr

/-- A range of bytes in a block, with one reference to the block. -/
structure Slice where
  block : BlockId
  offset : Nat
  size : Nat
  deriving DecidableEq, Repr

/-- The number of bytes of some slices together, as a 64-bit word. -/
def totalSize : List Slice → Nat
  | [] => 0
  | slice :: rest => Word.add slice.size (totalSize rest)

/-- How a pool is tuned. -/
structure PoolConfig where
  /-- The least size of a new block. -/
  blockSize : UInt64 := 8192
  /-- How many free blocks are kept for reuse. -/
  maxPooledBlocks : UInt64 := 16
  deriving DecidableEq, Repr

/-- A pool of blocks. -/
structure Pool where
  config : PoolConfig
  /-- The blocks by their names, with nothing in place of those that were given up. -/
  blocks : List (Option Block)
  /-- The blocks without references, in the order in which they became free. -/
  free : List BlockId
  deriving DecidableEq, Repr

namespace Pool

/-- The greatest number of free blocks that a pool can keep. A free block takes the room of a
64-bit word in their list. -/
def largestFreeList : Nat := Word.largestSize / 8

/-- A pool without blocks. -/
def empty (config : PoolConfig) : Pool := ⟨config, [], []⟩

/-- A pool without blocks, with room set aside for all the free blocks that it may keep. -/
def new (config : PoolConfig) : Except Failure Pool :=
  if largestFreeList < config.maxPooledBlocks.toNat then .error (.tooLarge .reserve)
  else .ok (empty config)

/-! ### Looking at a pool -/

/-- The block of the given name, unless it was given up. -/
def block? (pool : Pool) (id : BlockId) : Option Block := pool.blocks[id]?.join

/-- The size of a block. -/
def capacity (pool : Pool) (id : BlockId) : Nat :=
  match pool.block? id with
  | some block => block.memory.size
  | none => 0

/-- The number of slices that refer to the block of the given slice. -/
def useCount (pool : Pool) (slice : Slice) : Nat :=
  match pool.block? slice.block with
  | some block => block.references
  | none => 0

/-- The memory in the range of a slice. -/
def contents (pool : Pool) (slice : Slice) : Memory :=
  match pool.block? slice.block with
  | some block => (block.memory.drop slice.offset).take slice.size
  | none => Memory.empty

/-- The bytes in the range of a slice. -/
def bytesOf (pool : Pool) (slice : Slice) : Bytes := (pool.contents slice).toList

/-- The number of blocks that wait to be reused. -/
def pooled (pool : Pool) : Nat := pool.free.length

/-- The number of blocks in use. -/
def outstanding (pool : Pool) : Nat := pool.blocks.countP Option.isSome - pool.pooled

/-! ### Changing one block -/

/-- The pool with one of its blocks changed. -/
def updateBlock (pool : Pool) (id : BlockId) (change : Block → Block) : Pool :=
  { pool with blocks := pool.blocks.modify id (Option.map change) }

/-- The pool with one more reference to a block. -/
def addReference (pool : Pool) (id : BlockId) : Pool :=
  pool.updateBlock id fun block => { block with references := block.references + 1 }

/-- Replace the bytes of a slice from the given position on. -/
def write (pool : Pool) (slice : Slice) (position : Nat) (fresh : Memory) : Pool :=
  pool.updateBlock slice.block fun block =>
    { block with memory := block.memory.overwrite (slice.offset + position) fresh }

/-- Set every byte of a slice to the same value. -/
def fill (pool : Pool) (slice : Slice) (byte : UInt8) : Pool :=
  pool.write slice 0 (Memory.replicate slice.size byte)

/-! ### What a change leaves alone -/

theorem block?_updateBlock (pool : Pool) (id other : BlockId) (change : Block → Block) :
    (pool.updateBlock id change).block? other =
      if id = other then (pool.block? other).map change else pool.block? other := by
  simp only [block?, updateBlock, List.getElem?_modify]
  split
  · cases pool.blocks[other]? <;> rfl
  · simp

@[simp] theorem capacity_addReference (pool : Pool) (id other : BlockId) :
    (pool.addReference id).capacity other = pool.capacity other := by
  simp only [capacity, addReference, block?_updateBlock]
  by_cases same : id = other
  · cases pool.block? other <;> simp [same]
  · rw [if_neg same]

@[simp] theorem contents_addReference (pool : Pool) (id : BlockId) (slice : Slice) :
    (pool.addReference id).contents slice = pool.contents slice := by
  simp only [contents, addReference, block?_updateBlock]
  by_cases same : id = slice.block
  · cases pool.block? slice.block <;> simp [same]
  · rw [if_neg same]

@[simp] theorem bytesOf_addReference (pool : Pool) (id : BlockId) (slice : Slice) :
    (pool.addReference id).bytesOf slice = pool.bytesOf slice :=
  congrArg Memory.toList (contents_addReference pool id slice)

@[simp] theorem capacity_write (pool : Pool) (slice : Slice) (position : Nat) (fresh : Memory)
    (other : BlockId) : (pool.write slice position fresh).capacity other = pool.capacity other := by
  simp only [capacity, write, block?_updateBlock]
  by_cases same : slice.block = other
  · cases pool.block? other <;> simp [same]
  · rw [if_neg same]

/-- Writing to one block changes no slice of another. -/
theorem bytesOf_write_of_ne {pool : Pool} {slice other : Slice} (apart : slice.block ≠ other.block)
    (position : Nat) (fresh : Memory) :
    (pool.write slice position fresh).bytesOf other = pool.bytesOf other := by
  simp only [bytesOf, contents, write, block?_updateBlock, if_neg apart]

/-- What is written to the front of a whole block is found there. -/
theorem bytesOf_write_front {pool : Pool} {id : BlockId} {size : Nat} {fresh : Memory}
    (fits : fresh.size ≤ pool.capacity id) :
    (pool.write ⟨id, 0, size⟩ 0 fresh).bytesOf ⟨id, 0, fresh.size⟩ = fresh.toList := by
  simp only [capacity] at fits
  simp only [bytesOf, contents, write, block?_updateBlock, if_true]
  cases found : pool.block? id with
  | none =>
    rw [found] at fits
    have empty : fresh.toList.length = 0 := by simpa using fits
    exact (List.length_eq_zero_iff.1 empty).symm
  | some block =>
    rw [found] at fits
    have read := overwrite_read block.memory.toList 0 fresh.toList (by simpa using fits)
    simpa using read

/-! ### Handing out and taking back -/

/-- A slice of a whole block of at least the given size, with the only reference to it. The
first free block that is big enough is used with the bytes that it holds; if there is none, a new
block of zeros is made. -/
def allocate (pool : Pool) (size : Nat) : Except Failure (Pool × Slice) :=
  match pool.free.find? fun id => decide (size ≤ pool.capacity id) with
  | some id =>
    .ok ({ pool with free := pool.free.erase id }.addReference id, ⟨id, 0, pool.capacity id⟩)
  | none =>
    let capacity := max size pool.config.blockSize.toNat
    if Word.largestSize < capacity then .error (.tooLarge .block)
    else
      .ok ({ pool with blocks := pool.blocks ++ [some ⟨Memory.replicate capacity 0, 1⟩] },
        ⟨pool.blocks.length, 0, capacity⟩)

/-- A slice that holds the given bytes, at the front of a block of its own. -/
def copyOf (pool : Pool) (bytes : Bytes) : Except Failure (Pool × Slice) :=
  match pool.allocate bytes.length with
  | .ok (pool, whole) =>
    .ok (pool.write whole 0 (Memory.ofBytes bytes), { whole with size := bytes.length })
  | .error failure => .error failure

/-- What is allocated is a whole block, and big enough. -/
theorem capacity_of_allocate {pool after : Pool} {size : Nat} {slice : Slice}
    (success : pool.allocate size = .ok (after, slice)) :
    slice.offset = 0 ∧ slice.size = after.capacity slice.block ∧ size ≤ slice.size := by
  unfold allocate at success
  split at success
  · rename_i id found
    cases success
    refine ⟨rfl, ?_, by simpa using List.find?_some found⟩
    rw [capacity_addReference]
    rfl
  · dsimp only at success
    split at success
    · cases success
    · cases success
      refine ⟨rfl, ?_, Nat.le_max_left _ _⟩
      simp [capacity, block?]

/-- Another slice of the block of a slice, inside of it. The given slice keeps its own
reference. -/
def retain (pool : Pool) (slice : Slice) (offset size : Nat) : Except Failure (Pool × Slice) :=
  let start := Word.add slice.offset offset
  if Word.add offset size ≤ slice.size ∧ Word.add start size ≤ pool.capacity slice.block then
    .ok (pool.addReference slice.block, ⟨slice.block, start, size⟩)
  else .error .precondition

/-- Keep a block without references for reuse, or give it up if enough blocks are kept. -/
def recycle (pool : Pool) (id : BlockId) : Pool :=
  if pool.free.length < pool.config.maxPooledBlocks.toNat then
    { pool with free := pool.free ++ [id] }
  else { pool with blocks := pool.blocks.set id none }

/-- Take a slice back. The last one returns its block to the pool. -/
def release (pool : Pool) (slice : Slice) : Pool :=
  let after := pool.updateBlock slice.block fun block =>
    { block with references := block.references - 1 }
  if pool.useCount slice = 1 then after.recycle slice.block else after

/-- Take slices back, in order. -/
def releaseAll (pool : Pool) (slices : List Slice) : Pool := slices.foldl release pool

end Pool

/-! ### Handles that may be empty -/

/-- A place for a slice. An empty handle owns nothing, and releasing it has no effect. -/
abbrev Handle := Option Slice

namespace Handle

/-- The number of bytes that a handle owns. -/
def size (handle : Handle) : Nat :=
  match handle with
  | some slice => slice.size
  | none => 0

/-- The memory that a handle owns. -/
def contents (handle : Handle) (pool : Pool) : Memory :=
  match handle with
  | some slice => pool.contents slice
  | none => Memory.empty

/-- The bytes that a handle owns. -/
def bytes (handle : Handle) (pool : Pool) : Bytes :=
  match handle with
  | some slice => pool.bytesOf slice
  | none => []

/-- The number of references to the block of a handle, 0 if it is empty. -/
def useCount (handle : Handle) (pool : Pool) : Nat :=
  match handle with
  | some slice => pool.useCount slice
  | none => 0

/-- Take back what a handle owns. -/
def release (handle : Handle) (pool : Pool) : Pool :=
  match handle with
  | some slice => pool.release slice
  | none => pool

/-- Set every byte that a handle owns. -/
def fill (handle : Handle) (pool : Pool) (byte : UInt8) : Pool :=
  match handle with
  | some slice => pool.fill slice byte
  | none => pool

/-- Another slice inside of the one that a handle owns. An empty handle has none. -/
def retain (handle : Handle) (pool : Pool) (offset size : Nat) : Except Failure (Pool × Slice) :=
  match handle with
  | some slice => pool.retain slice offset size
  | none => .error .precondition

end Handle

end TabularStream
