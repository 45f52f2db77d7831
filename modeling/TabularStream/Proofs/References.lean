/-
This file says what the accounts of a pool come to in a session. Whatever has been done, and
whatever of it failed, each block counts the handles of the objects of the session, and the blocks
that wait to be reused are the ones without a handle. So the blocks that the pool has are of two
kinds, those that wait and those with a handle, and the number of blocks in use is that of the
second kind: no block is lost, and none is handed out while somebody has a handle on it.
-/

import Mathlib.Data.List.Dedup
import Mathlib.Data.List.Perm.Basic
import TabularStream.Proofs.Reachable

namespace TabularStream

namespace Pool

variable {pool : Pool} {owned : List Slice} {id : BlockId}

/-! ### The blocks of a pool -/

/-- The names of the blocks that a pool has. -/
def present (pool : Pool) : List BlockId :=
  (List.range pool.blocks.length).filter fun id => (pool.block? id).isSome

theorem nodup_present (pool : Pool) : pool.present.Nodup := List.nodup_range.filter _

theorem mem_present : id ∈ pool.present ↔ ∃ block, pool.block? id = some block := by
  rw [present, List.mem_filter, List.mem_range, Option.isSome_iff_exists, and_iff_right_iff_imp]
  rintro ⟨block, found⟩
  refine Nat.lt_of_not_le fun past => ?_
  rw [block?, List.getElem?_eq_none past] at found
  cases found

theorem blocks_eq_map (pool : Pool) :
    pool.blocks = (List.range pool.blocks.length).map pool.block? := by
  refine List.ext_getElem (by simp) fun id here _ => ?_
  simp [block?, here]

theorem length_present (pool : Pool) : pool.present.length = pool.blocks.countP Option.isSome := by
  conv_rhs => rw [pool.blocks_eq_map, List.countP_map]
  rw [present, List.countP_eq_length_filter]
  rfl

/-! ### Blocks that wait, and blocks with a handle -/

/-- The blocks with a handle. -/
def inUse (owned : List Slice) : List BlockId := (owned.map Slice.block).dedup

theorem mem_inUse : id ∈ inUse owned ↔ ∃ slice ∈ owned, slice.block = id := by
  rw [inUse, List.mem_dedup, List.mem_map]

/-- A block of the pool waits, or somebody has a handle on it. -/
theorem Accounts.perm_present (accounts : pool.Accounts owned) :
    pool.present.Perm (pool.free ++ inUse owned) := by
  have apart : ∀ id ∈ pool.free, id ∉ inUse owned := by
    intro id idle used
    obtain ⟨slice, member, rfl⟩ := mem_inUse.1 used
    exact accounts.notMem_free member idle
  have nodup : (pool.free ++ inUse owned).Nodup :=
    List.nodup_append'.2 ⟨accounts.nodup, List.nodup_dedup _, apart⟩
  refine (List.perm_ext_iff_of_nodup pool.nodup_present nodup).2 fun id => ?_
  rw [mem_present, List.mem_append, accounts.free_iff, mem_inUse]
  constructor
  · rintro ⟨block, found⟩
    rcases Nat.eq_zero_or_pos block.references with idle | used
    · exact .inl ⟨block, found, idle⟩
    · rw [accounts.counted id block found] at used
      obtain ⟨slice, member, same⟩ := List.countP_pos_iff.1 used
      exact .inr ⟨slice, member, eq_of_beq same⟩
  · rintro (⟨block, found, -⟩ | ⟨slice, member, rfl⟩)
    · exact ⟨block, found⟩
    · obtain ⟨block, found, -⟩ := accounts.inside slice member
      exact ⟨block, found⟩

/-- The blocks in use are those with a handle. -/
theorem Accounts.outstanding (accounts : pool.Accounts owned) :
    pool.outstanding = (inUse owned).length := by
  rw [Pool.outstanding, ← length_present, accounts.perm_present.length_eq, List.length_append,
    pooled, Nat.add_sub_cancel_left]

end Pool

namespace Session

variable {session : Session}

/-! ### The blocks of a session -/

theorem owned_eq (session : Session) :
    session.owned = session.buffer.slices ++ session.handedOut := by
  simp only [owned, handedOut, List.append_assoc]

theorem Reachable.accounts (reachable : session.Reachable) :
    session.pool.Accounts session.owned := by
  rw [owned_eq]
  exact ReceiveBuffer.Sound.accounts reachable.sound

/-- The references of a block are the handles on it, and the blocks that wait are those without
any, none of them twice and no more than the pool may keep. The block of a handle is there. So the
blocks in use are those with a handle, a block that is allocated has none, and without handles no
block is in use. -/
theorem references_are_handles (reachable : session.Reachable) :
    (∀ id block, session.pool.block? id = some block → block.references = session.handles id) ∧
      session.pool.free.Nodup ∧
      (∀ id, id ∈ session.pool.free ↔
        ∃ block, session.pool.block? id = some block ∧ block.references = 0) ∧
      session.pool.free.length ≤ session.pool.config.maxPooledBlocks.toNat ∧
      (∀ slice ∈ session.owned, ∃ block, session.pool.block? slice.block = some block ∧
        slice.offset + slice.size ≤ block.memory.size) ∧
      session.pool.outstanding = (session.owned.map Slice.block).dedup.length ∧
      (∀ size pool slice, session.pool.allocate size = .ok (pool, slice) →
        ∀ other ∈ session.owned, other.block ≠ slice.block) ∧
      (session.owned = [] → session.pool.outstanding = 0) := by
  have accounts := reachable.accounts
  refine ⟨accounts.counted, accounts.nodup, accounts.free_iff, accounts.pooled_le,
    accounts.inside, accounts.outstanding, fun size pool slice success => ?_, fun nothing => ?_⟩
  · exact (accounts.allocate success).2.1
  · rw [accounts.outstanding, nothing]
    rfl

/-- Two handles on one block, two blocks that are given back, of which one is kept and taken for
the receive buffer, and an operation that fails. -/
def busySession : Session :=
  (Session.fresh ⟨2, 1⟩ []).after
    [.slice (.copyOf [1, 2, 3]), .slice (.duplicate 0), .value (.ofParts [[4], [5]]),
      .value (.drop 0), .buffer (.append [6]), .composite (.add 0 0)]

theorem references_are_handles_busySession :
    busySession.pool.pooled = 0 ∧ busySession.pool.outstanding = 2 ∧
      ∀ block, busySession.pool.block? 0 = some block → block.references = 2 := by
  have new : Session.new ⟨2, 1⟩ [] = .ok (Session.fresh ⟨2, 1⟩ []) := rfl
  have reachable : busySession.Reachable := (Session.Reachable.new new).after (by decide)
  obtain ⟨counted, -, -, -, -, outstanding, -⟩ := references_are_handles reachable
  have blocks : busySession.owned.map Slice.block = [1, 0, 0] := by decide +kernel
  rw [blocks] at outstanding
  have handles : busySession.handles 0 = 2 := by decide +kernel
  exact ⟨by decide +kernel, outstanding, fun block found => handles ▸ counted 0 block found⟩

end Session

end TabularStream
