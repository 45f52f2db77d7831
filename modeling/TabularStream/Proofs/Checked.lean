/-
This file holds a second version of the chunk reader, in which everything that the caller has to
see to is checked where it is relied upon: a component is asked for only if there is one, bytes are
read only if so many are available, a length is parsed only from enough bytes, and a slice is
taken back only if it is counted. The checked reader fails where a check does.

The main statement is that no check ever fails: used in any way, the checked reader of a value does
what the reader does.
-/

import TabularStream.Proofs.Lookahead

namespace TabularStream

/-! ### The checks -/

namespace Checked

/-- Read across slices. Going on past the last one fails. -/
def gather (pool : Pool) : (slices : List Slice) → (skip count : Nat) → Except Failure Memory
  | _, _, 0 => .ok Memory.empty
  | [], _, _ => .error .outOfRange
  | first :: rest, skip, count =>
    if first.size ≤ skip then gather pool rest (skip - first.size) count
    else
      (gather pool rest 0 (count - (first.size - skip))).map fun more =>
        ((pool.contents first).drop skip).take count ++ more

/-- Take a slice back. Its block has to count it. -/
def release (pool : Pool) (slice : Slice) : Except Failure Pool :=
  if pool.useCount slice = 0 then .error .precondition else .ok (pool.release slice)

/-- Take slices back, in order. -/
def releaseAll (pool : Pool) : List Slice → Except Failure Pool
  | [] => .ok pool
  | first :: rest => do
    let pool ← release pool first
    releaseAll pool rest

/-- Release the slices that end at or before a position. -/
def releasePassed (pool : Pool) :
    (slices : List Slice) → (position : Nat) → Except Failure (Pool × Nat × List Slice × Nat)
  | [], position => .ok (pool, 0, [], position)
  | first :: rest, position =>
    if first.size ≤ position then do
      let pool ← release pool first
      let (pool, count, left, position) ← releasePassed pool rest (position - first.size)
      return (pool, count + 1, left, position)
    else .ok (pool, 0, first :: rest, position)

/-- The total at the front of bytes that hold a whole one. -/
def total (bytes : Bytes) : Except Failure PlpTotal :=
  if bytes.length < PlpTotal.width then .error .precondition else .ok (.ofBytes bytes)

/-- The chunk length at the front of bytes that hold a whole one. -/
def chunkLength (bytes : Bytes) : Except Failure ChunkLength :=
  if bytes.length < ChunkLength.width then .error .precondition else .ok (.ofBytes bytes)

variable (reader : ChunkReader) (pool : Pool)

/-- Read bytes and move past them. So many have to be available. -/
def read (count : Nat) : Except Failure (ChunkReader × Bytes) :=
  if reader.available < count then .error .precondition
  else
    (gather pool reader.data.live reader.offset count).map fun memory =>
      (reader.advance count, memory.toList)

/-- Look at bytes past the reading position, if so many are available. -/
def peek (skip count : Nat) : Except Failure (Option Bytes) :=
  if reader.available < Word.add skip count then .ok none
  else
    (gather pool reader.data.live (Word.add reader.offset skip) count).map fun memory =>
      some memory.toList

/-! ### The reader -/

def releaseConsumed : Except Failure (Pool × ChunkReader) := do
  let (pool, count, left, offset) ← releasePassed pool reader.data.live reader.offset
  return (pool, { reader with data := ⟨reader.data.released + count, left⟩, offset, payload := [] })

def releaseReader : Except Failure (Pool × ChunkReader) := do
  let pool ← releaseAll pool reader.data.live
  return (pool, { reader with
    data := Composite.empty, phase := .finished, offset := 0, payload := [] })

def finish (error : Option ClientError) : Except Failure Pulled := do
  let (pool, reader) ← releaseReader reader pool
  return ⟨pool, { reader with error }, .ofError error⟩

def give (phase : ChunkReader.Phase) (count : Nat) : Except Failure Pulled := do
  let (past, payload) ← read reader pool count
  return ⟨pool, { past with phase, payload }, .chunk payload⟩

def readScalar : Except Failure Pulled :=
  if reader.available < reader.type.descriptorSize then
    finish reader pool (some .incompleteMessage)
  else do
    let (body, descriptor) ← read reader pool reader.type.descriptorSize
    match ← ScalarLength.parse reader.type descriptor with
    | .null => finish body pool none
    | .of size =>
      if body.available < size.toNat then finish body pool (some .incompleteMessage)
      else if size.toNat < body.available then finish body pool (some .extraBytes)
      else give body pool .scalarRead size.toNat

def readChunk : Except Failure Pulled :=
  if reader.available < ChunkLength.width then finish reader pool (some .plpMissingTerminator)
  else do
    let (body, header) ← read reader pool ChunkLength.width
    let length ← chunkLength header
    if length.isTerminator then
      finish body pool (if body.available = 0 then none else some .extraBytes)
    else if body.available < length.toNat then finish body pool (some .plpChunkTruncated)
    else give body pool .chunks length.toNat

def readPlp : Except Failure Pulled :=
  if reader.available < PlpTotal.width then finish reader pool (some .incompleteMessage)
  else do
    let (body, header) ← read reader pool PlpTotal.width
    let total ← total header
    if total.isNull then finish body pool none
    else readChunk { body with phase := .chunks } pool

def next : Except Failure Pulled := do
  let (pool, reader) ← releaseConsumed reader pool
  match reader.phase with
  | .header => if reader.type.isPlp then readPlp reader pool else readScalar reader pool
  | .chunks => readChunk reader pool
  | .scalarRead => finish reader pool none
  | .finished => return ⟨pool, reader, .ofError reader.error⟩

def chunkAt (skip : Nat) : Except Failure Bool := do
  match ← peek reader pool skip ChunkLength.width with
  | none => return false
  | some header =>
    let length ← chunkLength header
    return !length.isTerminator &&
      decide (length.toNat ≤ Word.sub (Word.sub reader.available skip) ChunkLength.width)

/-- A descriptor is copied to a place of eight bytes. -/
def descriptorRoom : Nat := 8

def chunkAhead : Except Failure Bool :=
  match reader.phase with
  | .header =>
    if reader.type.isPlp then do
      match ← peek reader pool 0 PlpTotal.width with
      | none => return false
      | some header =>
        let total ← total header
        if total.isNull then return false else chunkAt reader pool PlpTotal.width
    else if descriptorRoom < reader.type.descriptorSize then .error .precondition
    else do
      match ← peek reader pool 0 reader.type.descriptorSize with
      | none => return false
      | some descriptor =>
        match ← ScalarLength.parse reader.type descriptor with
        | .null => return false
        | .of size =>
          return size != 0 && Word.sub reader.available reader.type.descriptorSize == size.toNat
  | .chunks => chunkAt reader pool 0
  | .scalarRead => .ok false
  | .finished => .ok false

/-! ### No check fails -/

section Agreement

variable {reader : ChunkReader} {pool : Pool} {slices others : List Slice}

theorem gather_eq (held : ∀ slice ∈ slices, pool.Holds slice) {skip count : Nat}
    (within : count ≠ 0 → skip + count ≤ (slices.flatMap pool.bytesOf).length) :
    gather pool slices skip count = .ok (pool.gather slices skip count) := by
  induction slices generalizing skip count with
  | nil =>
    cases count with
    | zero => rfl
    | succ count => exact absurd (within (Nat.succ_ne_zero _)) (Nat.not_succ_le_zero _)
  | cons first rest inductionHypothesis =>
    have size : (pool.bytesOf first).length = first.size := held first List.mem_cons_self
    have others : ∀ slice ∈ rest, pool.Holds slice :=
      fun slice member => held slice (List.mem_cons_of_mem _ member)
    rw [List.flatMap_cons, List.length_append, size] at within
    cases count with
    | zero => rfl
    | succ count =>
      have inside := within (Nat.succ_ne_zero _)
      rw [gather, Pool.gather]
      · split
        · exact inductionHypothesis others fun _ => by omega
        · rw [inductionHypothesis others fun _ => by omega]
          rfl
      · exact fun absurd => Nat.noConfusion absurd
      · exact fun absurd => Nat.noConfusion absurd

theorem release_eq {slice : Slice} (accounts : pool.Accounts (slice :: others)) :
    release pool slice = .ok (pool.release slice) := by
  have counted := accounts.useCount List.mem_cons_self
  have used : 0 < Pool.handlesOn slice.block (slice :: others) :=
    Pool.handlesOn_pos List.mem_cons_self
  exact if_neg (by omega)

theorem releaseAll_eq (accounts : pool.Accounts (slices ++ others)) :
    releaseAll pool slices = .ok (pool.releaseAll slices) := by
  induction slices generalizing pool with
  | nil => rfl
  | cons first rest inductionHypothesis =>
    rw [releaseAll, release_eq accounts]
    exact inductionHypothesis (Pool.Accounts.release accounts)

theorem releasePassed_eq (accounts : pool.Accounts (slices ++ others)) (position : Nat) :
    releasePassed pool slices position = .ok (pool.releasePassed slices position) := by
  induction slices generalizing pool position with
  | nil => rfl
  | cons first rest inductionHypothesis =>
    unfold releasePassed Pool.releasePassed
    split
    · rw [release_eq accounts]
      show (releasePassed (pool.release first) rest (position - first.size) >>= _) = _
      rw [inductionHypothesis (Pool.Accounts.release accounts)]
      rfl
    · rfl

/-- A reader inside of what it owns, whose position is a word. Moving on keeps both. -/
structure Addressed (reader : ChunkReader) (pool : Pool) (others : List Slice) : Prop where
  inside : reader.Inside pool others
  offset_lt : reader.offset < Word.modulus

theorem Addressed.moves {moved : ChunkReader} (addressed : Addressed reader pool others)
    (moves : reader.Moves moved) : Addressed moved pool others := by
  refine ⟨addressed.inside.moves moves, ?_⟩
  induction moves with
  | stay => exact addressed.offset_lt
  | advance => exact Word.add_lt _ _
  | enter _ inductionHypothesis => exact inductionHypothesis

theorem addressed_of_placed (placed : reader.Placed pool others) :
    Addressed reader pool others :=
  ⟨placed.inside, Nat.lt_of_le_of_lt (Nat.le_add_right _ _) placed.near⟩

theorem read_eq (addressed : Addressed reader pool others) {count : Nat}
    (within : count ≤ reader.available) :
    read reader pool count = .ok (reader.advance count, reader.bytesAt pool 0 count) := by
  have there := addressed.inside.available_le
  have start : Word.add reader.offset 0 = reader.offset := Word.add_of_lt addressed.offset_lt
  have gathered : gather pool reader.data.live reader.offset count = _ :=
    gather_eq addressed.inside.holds fun _ => by
      show _ ≤ (reader.data.bytes pool).length
      omega
  unfold read ChunkReader.bytesAt
  rw [if_neg (Nat.not_lt.2 within), gathered, start]
  rfl

theorem scalarLength_eq (inside : reader.Inside pool others)
    (enough : reader.type.descriptorSize ≤ reader.available) :
    ScalarLength.parse reader.type (reader.bytesAt pool 0 reader.type.descriptorSize) =
      .ok (.ofDescriptor reader.type (reader.bytesAt pool 0 reader.type.descriptorSize)) := by
  have width : (reader.bytesAt pool 0 reader.type.descriptorSize).length = _ :=
    inside.length_bytesAt (by omega)
  exact if_neg (by omega)

theorem chunkLength_eq (inside : reader.Inside pool others) {skip : Nat}
    (enough : skip + ChunkLength.width ≤ reader.available) :
    chunkLength (reader.bytesAt pool skip ChunkLength.width) =
      .ok (.ofBytes (reader.bytesAt pool skip ChunkLength.width)) := by
  have width := inside.length_bytesAt enough
  exact if_neg (by omega)

theorem total_eq (inside : reader.Inside pool others)
    (enough : PlpTotal.width ≤ reader.available) :
    total (reader.bytesAt pool 0 PlpTotal.width) =
      .ok (.ofBytes (reader.bytesAt pool 0 PlpTotal.width)) := by
  have width : (reader.bytesAt pool 0 PlpTotal.width).length = _ :=
    inside.length_bytesAt (by omega)
  exact if_neg (by omega)

theorem finish_eq (inside : reader.Inside pool others) (error : Option ClientError) :
    finish reader pool error = .ok (reader.finish pool error) := by
  unfold finish releaseReader
  rw [releaseAll_eq inside.accounts]
  rfl

theorem give_eq (addressed : Addressed reader pool others) (phase : ChunkReader.Phase)
    {count : Nat} (within : count ≤ reader.available) :
    give reader pool phase count = .ok (reader.give pool phase count) := by
  unfold give
  rw [read_eq addressed within]
  rfl

theorem readScalar_eq (addressed : Addressed reader pool others) :
    readScalar reader pool = .ok (reader.readScalar pool) := by
  unfold readScalar ChunkReader.readScalar
  dsimp only
  split
  · exact finish_eq addressed.inside _
  · rename_i enough
    have enough := Nat.le_of_not_lt enough
    have moved := addressed.moves (.advance .stay enough)
    rw [read_eq addressed enough]
    show (ScalarLength.parse reader.type _ >>= _) = _
    rw [scalarLength_eq addressed.inside enough]
    show (match ScalarLength.ofDescriptor _ _ with | .null => _ | .of size => _) = _
    cases ScalarLength.ofDescriptor reader.type
      (reader.bytesAt pool 0 reader.type.descriptorSize) with
    | null => exact finish_eq moved.inside _
    | of size =>
      dsimp only
      split
      · exact finish_eq moved.inside _
      · rename_i whole
        split
        · exact finish_eq moved.inside _
        · exact give_eq moved _ (Nat.le_of_not_lt whole)

theorem readChunk_eq (addressed : Addressed reader pool others) :
    readChunk reader pool = .ok (reader.readChunk pool) := by
  unfold readChunk ChunkReader.readChunk
  dsimp only
  split
  · exact finish_eq addressed.inside _
  · rename_i enough
    have enough := Nat.le_of_not_lt enough
    have moved := addressed.moves (.advance .stay enough)
    rw [read_eq addressed enough]
    show (chunkLength _ >>= _) = _
    rw [chunkLength_eq addressed.inside (by rwa [Nat.zero_add])]
    show (if _ then _ else _) = _
    split
    · exact finish_eq moved.inside _
    · split
      · exact finish_eq moved.inside _
      · rename_i whole
        exact give_eq moved _ (Nat.le_of_not_lt whole)

theorem readPlp_eq (addressed : Addressed reader pool others) :
    readPlp reader pool = .ok (reader.readPlp pool) := by
  unfold readPlp ChunkReader.readPlp
  split
  · exact finish_eq addressed.inside _
  · rename_i enough
    have enough := Nat.le_of_not_lt enough
    rw [read_eq addressed enough]
    show (total _ >>= _) = _
    rw [total_eq addressed.inside enough]
    show (if _ then _ else _) = _
    split
    · exact finish_eq (addressed.moves (.advance .stay enough)).inside _
    · exact readChunk_eq (addressed.moves (.enter (.advance .stay enough)))

theorem releaseConsumed_eq (inside : reader.Inside pool others) :
    releaseConsumed reader pool = .ok (reader.releaseConsumed pool) := by
  unfold releaseConsumed
  rw [releasePassed_eq inside.accounts]
  rfl

theorem releaseReader_eq (inside : reader.Inside pool others) :
    releaseReader reader pool = .ok (reader.release pool) := by
  unfold releaseReader
  rw [releaseAll_eq inside.accounts]
  rfl

theorem next_eq (inside : reader.Inside pool others) :
    next reader pool = .ok (reader.next pool) := by
  have left := addressed_of_placed inside.releaseConsumed
  unfold next ChunkReader.next
  rw [releaseConsumed_eq inside]
  generalize reader.releaseConsumed pool = released at left ⊢
  obtain ⟨pool', middle⟩ := released
  show (match middle.phase with
    | .header => _ | .chunks => _ | .scalarRead => _ | .finished => _) = _
  dsimp only at left ⊢
  cases middle.phase with
  | header =>
    dsimp only
    split
    · exact readPlp_eq left
    · exact readScalar_eq left
  | chunks => exact readChunk_eq left
  | scalarRead => exact finish_eq left.inside none
  | finished => rfl

theorem peek_eq (placed : reader.Placed pool others) {skip count : Nat}
    (near : skip ≤ PlpTotal.width) (small : skip + count < Word.modulus) :
    peek reader pool skip count =
      .ok (if reader.available < skip + count then none
        else some (reader.bytesAt pool skip count)) := by
  have there := placed.inside.available_le
  have ahead := placed.near
  unfold peek
  rw [Word.add_of_lt small]
  split
  · rfl
  · have start : Word.add reader.offset skip = reader.offset + skip := Word.add_of_lt (by omega)
    have gathered : gather pool reader.data.live (reader.offset + skip) count = _ :=
      gather_eq placed.inside.holds fun _ => by
        show _ ≤ (reader.data.bytes pool).length
        omega
    unfold ChunkReader.bytesAt
    rw [start, gathered]
    rfl

theorem chunkAt_eq (placed : reader.Placed pool others) {skip : Nat}
    (near : skip ≤ PlpTotal.width) :
    chunkAt reader pool skip = .ok (reader.chunkAt pool skip) := by
  have small : skip + ChunkLength.width < Word.modulus :=
    Nat.lt_of_le_of_lt (Nat.add_le_add_right near _) (by decide)
  unfold chunkAt ChunkReader.chunkAt
  rw [peek_eq placed near small]
  by_cases short : reader.available < skip + ChunkLength.width
  · rw [if_pos short, if_pos short]
    rfl
  · rw [if_neg short, if_neg short]
    show (chunkLength _ >>= _) = _
    rw [chunkLength_eq placed.inside (Nat.le_of_not_lt short)]
    have fits : reader.available < Word.modulus := Word.sub_lt _ _
    have rest : Word.sub (Word.sub reader.available skip) ChunkLength.width =
        reader.available - skip - ChunkLength.width := by
      rw [Word.sub_of_le (by omega) fits, Word.sub_of_le (by omega) (by omega)]
    rw [rest]
    rfl

theorem chunkAhead_eq (placed : reader.Placed pool others) :
    chunkAhead reader pool = .ok (reader.chunkAhead pool) := by
  unfold chunkAhead ChunkReader.chunkAhead
  cases reader.phase with
  | header =>
    dsimp only
    split
    · rw [peek_eq placed (Nat.zero_le _) (by decide), Nat.zero_add]
      by_cases short : reader.available < PlpTotal.width
      · rw [if_pos short, if_pos short]
        rfl
      · rw [if_neg short, if_neg short]
        show (total _ >>= _) = _
        rw [total_eq placed.inside (Nat.le_of_not_lt short)]
        show (if _ then _ else _) = _
        split
        · rfl
        · exact chunkAt_eq placed (Nat.le_refl _)
    · have room : reader.type.descriptorSize ≤ descriptorRoom :=
        Nat.le_trans reader.type.descriptorSize_le (by decide)
      have small : 0 + reader.type.descriptorSize < Word.modulus :=
        Nat.lt_of_le_of_lt (Nat.add_le_add_left room _) (by decide)
      rw [if_neg (Nat.not_lt.2 room), peek_eq placed (Nat.zero_le _) small, Nat.zero_add]
      by_cases short : reader.available < reader.type.descriptorSize
      · rw [if_pos short, if_pos short]
        rfl
      · rw [if_neg short, if_neg short]
        show (ScalarLength.parse _ _ >>= _) = _
        rw [scalarLength_eq placed.inside (Nat.le_of_not_lt short)]
        show (match ScalarLength.ofDescriptor _ _ with | .null => _ | .of size => _) = _
        have fits : reader.available < Word.modulus := Word.sub_lt _ _
        cases ScalarLength.ofDescriptor reader.type
            (reader.bytesAt pool 0 reader.type.descriptorSize) with
        | null => rfl
        | of size =>
          dsimp only
          rw [Word.sub_of_le (Nat.le_of_not_lt short) fits]
          rfl
  | chunks => exact chunkAt_eq placed (Nat.zero_le _)
  | scalarRead => rfl
  | finished => rfl

end Agreement

end Checked

end TabularStream
