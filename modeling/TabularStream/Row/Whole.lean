/-
This file says that moving the cursor of a buffer past a row is cutting the row off its readable
bytes. It holds for every buffer whose cursors are in order and inside of its block: the buffer
passes a row exactly when `RowLayout.after` finds its end, and what is readable afterwards is what
follows the row.
-/

import TabularStream.Row.Extent
import TabularStream.Row.Passing

namespace TabularStream.ReceiveBuffer

/-! ### Cursors in order -/

/-- The cursors are in order and inside of the block. -/
structure InOrder (buffer : ReceiveBuffer) (pool : Pool) : Prop where
  reader_le : buffer.reader ≤ buffer.writer
  writer_le : buffer.writer ≤ (buffer.block.contents pool).size
  size_lt : (buffer.block.contents pool).size < Word.modulus

theorem readableBytes_of_inOrder {buffer : ReceiveBuffer} {pool : Pool}
    (order : buffer.InOrder pool) : buffer.readableBytes = buffer.writer - buffer.reader :=
  Word.sub_of_le order.reader_le (Nat.lt_of_le_of_lt order.writer_le order.size_lt)

theorem length_readable {buffer : ReceiveBuffer} {pool : Pool} (order : buffer.InOrder pool) :
    (buffer.readable pool).length = buffer.readableBytes := by
  have inside := order.writer_le
  rw [readable, Memory.length_toList, contents, Memory.size_take, Memory.size_drop,
    readableBytes_of_inOrder order]
  omega

theorem reader_advance {buffer : ReceiveBuffer} {pool : Pool} {count : Nat}
    (order : buffer.InOrder pool) (within : count ≤ buffer.readableBytes) :
    (buffer.advance count).reader = buffer.reader + count := by
  have ordered := order.reader_le
  have inside := order.writer_le
  have bounded := order.size_lt
  rw [readableBytes_of_inOrder order] at within
  exact Word.add_of_lt (by omega)

theorem inOrder_advance {buffer : ReceiveBuffer} {pool : Pool} {count : Nat}
    (order : buffer.InOrder pool) (within : count ≤ buffer.readableBytes) :
    (buffer.advance count).InOrder pool := by
  refine ⟨?_, order.writer_le, order.size_lt⟩
  have ordered := order.reader_le
  rw [reader_advance order within]
  rw [readableBytes_of_inOrder order] at within
  show buffer.reader + count ≤ buffer.writer
  omega

/-- Moving the cursor cuts off the front of the readable bytes. -/
theorem readable_advance {buffer : ReceiveBuffer} {pool : Pool} {count : Nat}
    (order : buffer.InOrder pool) (within : count ≤ buffer.readableBytes) :
    (buffer.advance count).readable pool = (buffer.readable pool).drop count := by
  have moved := readableBytes_advance_add within
  simp only [readable, contents, Memory.toList_take, Memory.toList_drop]
  rw [reader_advance order within, List.drop_take, List.drop_drop]
  congr 1
  omega

/-! ### Passing and cutting off -/

/-- A buffer has passed what was cut off its readable bytes: either nothing was found, or what is
left is readable and the cursors are still in order. -/
def Agrees (pool : Pool) (passed : ReceiveBuffer × Bool) : Option Bytes → Prop
  | none => passed.2 = false
  | some rest => passed.2 = true ∧ passed.1.readable pool = rest ∧ passed.1.InOrder pool

theorem agrees_advance {buffer : ReceiveBuffer} {pool : Pool} {count : Nat}
    (order : buffer.InOrder pool) (within : count ≤ buffer.readableBytes) :
    Agrees pool (buffer.advance count, true) (some ((buffer.readable pool).drop count)) :=
  ⟨rfl, readable_advance order within, inOrder_advance order within⟩

theorem passScalar_agrees {buffer : ReceiveBuffer} {pool : Pool} (order : buffer.InOrder pool)
    (type : ColumnType) :
    Agrees pool (buffer.passScalar pool type) (type.afterScalar (buffer.readable pool)) := by
  have length := length_readable order
  unfold passScalar readScalarLength readBytes ColumnType.afterScalar
  by_cases enough : type.descriptorSize ≤ buffer.readableBytes
  · have moved := readableBytes_advance_add enough
    have same : ScalarLength.ofDescriptor type (buffer.peek pool type.descriptorSize) =
        ScalarLength.ofDescriptor type (buffer.readable pool) := by
      rw [peek_eq, ScalarLength.ofDescriptor_take]
    rw [if_pos enough, if_neg (by omega)]
    dsimp only
    rw [same]
    cases ScalarLength.ofDescriptor type (buffer.readable pool) with
    | null =>
      rw [if_neg (by simp [ScalarLength.size])]
      exact agrees_advance order enough
    | of size =>
      have past := inOrder_advance order enough
      dsimp only [ScalarLength.size]
      rw [← readable_advance order enough, length_readable past]
      by_cases short : (buffer.advance type.descriptorSize).readableBytes < size.toNat
      · simp only [short, if_true]
        rfl
      · simp only [short, if_false]
        exact agrees_advance past (Nat.le_of_not_lt short)
  · rw [if_neg enough, if_pos (by omega)]
    rfl

theorem passChunks_agrees {buffer : ReceiveBuffer} {pool : Pool} (order : buffer.InOrder pool) :
    Agrees pool (buffer.passChunks pool) (afterChunks (buffer.readable pool)) := by
  have length := length_readable order
  unfold passChunks afterChunks
  by_cases enough : ChunkLength.width ≤ buffer.readableBytes
  · have moved := readableBytes_advance_add enough
    have past := inOrder_advance order enough
    have same : ChunkLength.ofBytes (buffer.peek pool ChunkLength.width) =
        ChunkLength.ofBytes (buffer.readable pool) := by
      rw [peek_eq, ChunkLength.ofBytes_take]
    have read : buffer.readChunkLength pool = .ok (buffer.advance ChunkLength.width,
        ChunkLength.ofBytes (buffer.readable pool)) := by
      rw [readChunkLength, readBytes, if_pos enough]
      exact congrArg (fun length => Except.ok (buffer.advance ChunkLength.width, length)) same
    rw [if_neg (by omega)]
    split
    · rename_i failed
      rw [read] at failed
      cases failed
    · rename_i success
      rw [read] at success
      cases success
      dsimp only
      rw [← readable_advance order enough, length_readable past]
      split
      · exact ⟨rfl, rfl, past⟩
      · split
        · rfl
        · rename_i whole
          have within := Nat.le_of_not_lt whole
          have shorter := readableBytes_advance_add within
          rw [← readable_advance past within]
          exact passChunks_agrees (inOrder_advance past within)
  · have failed : buffer.readChunkLength pool = .error .precondition := by
      rw [readChunkLength, readBytes, if_neg enough]
    rw [if_pos (by omega)]
    split
    · rfl
    · rename_i success
      rw [failed] at success
      cases success
termination_by buffer.readableBytes
decreasing_by
  simp only [ChunkLength.width] at *
  omega

theorem passPlp_agrees {buffer : ReceiveBuffer} {pool : Pool} (order : buffer.InOrder pool) :
    Agrees pool (buffer.passPlp pool) (afterPlp (buffer.readable pool)) := by
  have length := length_readable order
  unfold passPlp readTotal readBytes afterPlp
  by_cases enough : PlpTotal.width ≤ buffer.readableBytes
  · have same : PlpTotal.ofBytes (buffer.peek pool PlpTotal.width) =
        PlpTotal.ofBytes (buffer.readable pool) := by
      rw [peek_eq, PlpTotal.ofBytes_take]
    rw [if_pos enough, if_neg (by omega)]
    dsimp only
    rw [same]
    split
    · exact agrees_advance order enough
    · rw [← readable_advance order enough]
      exact passChunks_agrees (inOrder_advance order enough)
  · rw [if_neg enough, if_pos (by omega)]
    rfl

theorem passValue_agrees {buffer : ReceiveBuffer} {pool : Pool} (order : buffer.InOrder pool)
    (type : ColumnType) :
    Agrees pool (buffer.passValue pool type) (type.afterValue (buffer.readable pool)) := by
  unfold passValue ColumnType.afterValue
  split
  · exact passPlp_agrees order
  · exact passScalar_agrees order type

/-- Moving past a row is cutting it off the readable bytes. -/
theorem passLayout_agrees {buffer : ReceiveBuffer} {pool : Pool} (order : buffer.InOrder pool)
    (columns : RowLayout) :
    Agrees pool (buffer.passLayout pool columns) (columns.after (buffer.readable pool)) := by
  induction columns generalizing buffer with
  | nil => exact ⟨rfl, rfl, order⟩
  | cons column columns inductionHypothesis =>
    cases column with
    | none => exact inductionHypothesis order
    | some type =>
      have value := passValue_agrees order type
      unfold passLayout RowLayout.after
      generalize buffer.passValue pool type = passed at value
      obtain ⟨past, whole⟩ := passed
      cases found : type.afterValue (buffer.readable pool) with
      | none =>
        rw [found] at value
        cases value
        rfl
      | some rest =>
        rw [found] at value
        obtain ⟨complete, readable, pastOrder⟩ := value
        cases complete
        exact readable ▸ inductionHypothesis pastOrder

end TabularStream.ReceiveBuffer
