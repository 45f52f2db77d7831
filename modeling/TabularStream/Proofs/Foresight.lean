/-
This file proves that looking ahead foresees the next call in every state that a chunk reader can
get into, and that it leaves no trace.

Looking ahead peeks at positions past the reading position, as words. `Placed` says that they do
not wrap around. Giving up what has been read establishes it, so it remains to see that a call to
`next`, which starts by doing that, does not go far enough to lose it again: it passes a total, the
length of a chunk and the chunk at most. The bound is `stride`. No bound on the size of the value
is needed.
-/

import TabularStream.Proofs.FlatReader

namespace TabularStream

/-! ### How far one call goes -/

namespace ChunkReader

/-- How many bytes a call to `next` passes at most. -/
def stride : Nat := PlpTotal.width + (ChunkLength.width + UInt32.size)

variable {reader : ChunkReader} {pool : Pool} {others : List Slice}

theorem offset_advance_le (reader : ChunkReader) (count : Nat) :
    (reader.advance count).offset ≤ reader.offset + count :=
  Nat.mod_le _ _

theorem offset_give_le (reader : ChunkReader) (pool : Pool) (phase : Phase) (size : UInt32) :
    (reader.give pool phase size.toNat).reader.offset ≤ reader.offset + UInt32.size := by
  have moved : (reader.give pool phase size.toNat).reader.offset ≤ reader.offset + size.toNat :=
    reader.offset_advance_le size.toNat
  have small : size.toNat < UInt32.size := size.toNat_lt
  omega

theorem offset_readScalar_le (reader : ChunkReader) (pool : Pool) :
    (reader.readScalar pool).reader.offset ≤ reader.offset + stride := by
  have room : reader.type.descriptorSize ≤ PlpTotal.width :=
    Nat.le_trans reader.type.descriptorSize_le (by decide)
  unfold readScalar
  dsimp only
  split
  · exact Nat.zero_le _
  · split
    · exact Nat.zero_le _
    · rename_i size _
      split
      · exact Nat.zero_le _
      · split
        · exact Nat.zero_le _
        · have body := reader.offset_advance_le reader.type.descriptorSize
          have given := offset_give_le (reader.advance reader.type.descriptorSize) pool
            .scalarRead size
          calc ((reader.advance reader.type.descriptorSize).give pool _ size.toNat).reader.offset
              ≤ reader.offset + reader.type.descriptorSize + UInt32.size :=
                Nat.le_trans given (Nat.add_le_add_right body _)
            _ ≤ reader.offset + PlpTotal.width + (ChunkLength.width + UInt32.size) :=
                Nat.add_le_add (Nat.add_le_add_left room _) (Nat.le_add_left _ _)
            _ = reader.offset + stride := Nat.add_assoc _ _ _

theorem offset_readChunk_le (reader : ChunkReader) (pool : Pool) :
    (reader.readChunk pool).reader.offset ≤
      reader.offset + (ChunkLength.width + UInt32.size) := by
  unfold readChunk
  dsimp only
  split
  · exact Nat.zero_le _
  · split
    · exact Nat.zero_le _
    · split
      · exact Nat.zero_le _
      · have body := reader.offset_advance_le ChunkLength.width
        have given := offset_give_le (reader.advance ChunkLength.width) pool .chunks
          (ChunkLength.ofBytes (reader.bytesAt pool 0 ChunkLength.width)).size
        calc ((reader.advance ChunkLength.width).give pool _ _).reader.offset
            ≤ reader.offset + ChunkLength.width + UInt32.size :=
              Nat.le_trans given (Nat.add_le_add_right body _)
          _ = reader.offset + (ChunkLength.width + UInt32.size) := Nat.add_assoc _ _ _

theorem offset_readPlp_le (reader : ChunkReader) (pool : Pool) :
    (reader.readPlp pool).reader.offset ≤ reader.offset + stride := by
  unfold readPlp
  split
  · exact Nat.zero_le _
  · split
    · exact Nat.zero_le _
    · have body := reader.offset_advance_le PlpTotal.width
      have chunk := offset_readChunk_le
        { reader.advance PlpTotal.width with phase := .chunks } pool
      calc (readChunk { reader.advance PlpTotal.width with phase := .chunks } pool).reader.offset
          ≤ reader.offset + PlpTotal.width + (ChunkLength.width + UInt32.size) :=
            Nat.le_trans chunk (Nat.add_le_add_right body _)
        _ = reader.offset + stride := Nat.add_assoc _ _ _

/-- A call to `next` goes at most a stride past what has been given up. -/
theorem offset_next_le (reader : ChunkReader) (pool : Pool) :
    (reader.next pool).reader.offset ≤ (reader.releaseConsumed pool).2.offset + stride := by
  unfold next
  generalize reader.releaseConsumed pool = released
  obtain ⟨pool, reader⟩ := released
  dsimp only
  cases reader.phase with
  | header =>
    dsimp only
    split
    · exact reader.offset_readPlp_le pool
    · exact reader.offset_readScalar_le pool
  | chunks =>
    have chunk := reader.offset_readChunk_le pool
    exact Nat.le_trans chunk (Nat.add_le_add_left (Nat.le_add_left _ _) _)
  | scalarRead => exact Nat.zero_le _
  | finished => exact Nat.le_add_right _ _

/-! ### Every state -/

/-- A reader that has read on can look ahead. -/
theorem Placed.next (placed : reader.Placed pool others) :
    (reader.next pool).reader.Placed (reader.next pool).pool others := by
  have inside := (reader.reads_next pool).inside placed.inside.releaseConsumed.inside
  refine ⟨inside, ?_⟩
  have start := placed.inside.offset_releaseConsumed_le
  have moved := reader.offset_next_le pool
  have limit : Word.largestSize + stride + PlpTotal.width < Word.modulus := by decide
  omega

theorem Placed.release (placed : reader.Placed pool others) :
    (reader.release pool).2.Placed (reader.release pool).1 others := by
  refine ⟨placed.inside.release, ?_⟩
  have limit : 0 + PlpTotal.width < Word.modulus := by decide
  show 0 + min PlpTotal.width _ < Word.modulus
  omega

theorem Placed.use (placed : reader.Placed pool others) (use : Use) :
    (reader.use pool use).2.1.Placed (reader.use pool use).1 others := by
  cases use with
  | op op =>
    cases op with
    | next => exact placed.next
    | payload => exact placed
    | error => exact placed
    | releaseConsumed => exact placed.inside.releaseConsumed
    | release => exact placed.release
  | chunkAhead => exact placed

/-- However a reader has been used it can look ahead, and no check has failed. -/
theorem Placed.useAll (placed : reader.Placed pool others) (uses : List Use) :
    (reader.useAll pool uses).2.1.Placed (reader.useAll pool uses).1 others ∧
      Checked.useAll reader pool uses = .ok (reader.useAll pool uses) := by
  induction uses generalizing reader pool with
  | nil => exact ⟨placed, rfl⟩
  | cons use uses inductionHypothesis =>
    obtain ⟨after, checked⟩ := inductionHypothesis (placed.use use)
    refine ⟨after, ?_⟩
    rw [Checked.useAll, Checked.use_eq placed]
    show (Checked.useAll (reader.use pool use).2.1 (reader.use pool use).1 uses >>= _) = _
    rw [checked]
    rfl

/-! ### No trace -/

/-- What is left if the reader never looks ahead. -/
theorem useAll_filter (reader : ChunkReader) (pool : Pool) (uses : List Use) :
    let blind := reader.useAll pool (uses.filter (· != .chunkAhead))
    blind.1 = (reader.useAll pool uses).1 ∧ blind.2.1 = (reader.useAll pool uses).2.1 := by
  induction uses generalizing reader pool with
  | nil => exact ⟨rfl, rfl⟩
  | cons use uses inductionHypothesis =>
    cases use with
    | op op =>
      obtain ⟨after, left, answer⟩ := reader.use pool (.op op)
      rw [List.filter_cons_of_pos (by rfl)]
      exact inductionHypothesis _ _
    | chunkAhead => exact inductionHypothesis reader pool

/-! ### Looking ahead -/

/-- Looking ahead foresees what the next call gives. However the reader of a value has been used,
it says that there is a chunk exactly when the next call gives one with a payload. It says the same
before and after what has been read is given up, it fails no check, and a reader that has not looked
ahead is in the same state as one that has. -/
theorem chunkAhead_foresees_next {session : Session} (reachable : session.Reachable)
    {value : Value} (owned : value.slices.Subperm session.handedOut) (type : ColumnType)
    (uses : List Use) :
    let start := ofValue value type
    let used := start.useAll session.pool uses
    let released := used.2.1.releaseConsumed used.1
    let blind := start.useAll session.pool (uses.filter (· != .chunkAhead))
    (used.2.1.chunkAhead used.1 = true ↔
        ∃ payload, payload ≠ [] ∧ (used.2.1.next used.1).event = .chunk payload) ∧
      released.2.chunkAhead released.1 = used.2.1.chunkAhead used.1 ∧
      Checked.useAll start session.pool (uses ++ [.chunkAhead]) =
        .ok (start.useAll session.pool (uses ++ [.chunkAhead])) ∧
      blind.1 = used.1 ∧ blind.2.1 = used.2.1 := by
  obtain ⟨others, accounts⟩ := reachable.accounts_of_subperm owned
  have start : (ofValue value type).Placed session.pool others := placed_ofValue accounts type
  have used := (start.useAll uses).1
  have checked := (start.useAll (uses ++ [.chunkAhead])).2
  exact ⟨used.chunkAhead_iff, used.chunkAhead_releaseConsumed, checked,
    (ofValue value type).useAll_filter session.pool uses⟩

/-- A PLP value of two chunks, cut within its total, both lengths and the second payload. -/
def strewnParts : List Bytes :=
  [[5, 0, 0, 0], [0, 0, 0, 0, 2, 0], [], [0, 0, 1, 2, 3], [0, 0, 0, 3, 4], [5, 0, 0, 0, 0]]

/-- A session whose only value has these parts. -/
def strewnSession : Session := (Session.fresh {} []).after [.value (.ofParts strewnParts)]

/-- The value, with one slice for each part. -/
def strewnValue : Value := .chunked (Composite.ofList strewnSession.handedOut)

/-- The second chunk is foreseen while the first one has not been given up. -/
theorem chunkAhead_foresees_next_strewnValue :
    let used := (ofValue strewnValue ⟨.varbinaryMax, .part, 0, .usAscii, 0, 0⟩).useAll
      strewnSession.pool [.chunkAhead, .op .next]
    strewnSession.Reachable ∧ strewnValue.slices.Subperm strewnSession.handedOut ∧
      used.2.1.offset = 14 ∧ used.2.1.chunkAhead used.1 = true ∧
      ∃ payload, payload ≠ [] ∧ (used.2.1.next used.1).event = .chunk payload := by
  have new : Session.new {} [] = .ok (Session.fresh {} []) := rfl
  have reachable : strewnSession.Reachable := (Session.Reachable.new new).after (by decide)
  have owned : strewnValue.slices.Subperm strewnSession.handedOut := List.Subperm.refl _
  have foresees := (chunkAhead_foresees_next reachable owned
    ⟨.varbinaryMax, .part, 0, .usAscii, 0, 0⟩ [.chunkAhead, .op .next]).1
  intro used
  have ahead : used.2.1.chunkAhead used.1 = true := by decide +kernel
  exact ⟨reachable, owned, by decide +kernel, ahead, foresees.1 ahead⟩

end ChunkReader

end TabularStream
