/-
This file says what the value of a column looks like on the wire, apart from any way of reading it.
`WrittenValue` relates the bytes of a value to its contents: nothing for NULL, one payload for a
scalar, the payloads of the chunks for a PLP value. The main statement says that `afterValue` finds
the end of exactly what the grammar allows: a front of the bytes is a written value if and only if
the rest is what follows it.
-/

import TabularStream.Row.Extent

namespace TabularStream

/-! ### The grammar -/

/-- The chunks of a PLP value with the given payloads, the empty one at the end included. -/
inductive WrittenChunks : List Bytes → Bytes → Prop where
  | terminator : WrittenChunks [] (ChunkLength.encode ⟨0⟩)
  | chunk {payload rest : Bytes} {payloads : List Bytes} {length : ChunkLength}
      (nonempty : length.isTerminator = false) (size : payload.length = length.toNat)
      (others : WrittenChunks payloads rest) :
      WrittenChunks (payload :: payloads) (length.encode ++ payload ++ rest)

/-- The bytes of a value of a column with the given payloads, or of NULL. -/
inductive WrittenValue (type : ColumnType) : Option (List Bytes) → Bytes → Prop where
  | null {descriptor : Bytes} (scalar : type.isPlp = false)
      (width : descriptor.length = type.descriptorSize)
      (length : ScalarLength.ofDescriptor type descriptor = .null) :
      WrittenValue type none descriptor
  | scalar {descriptor payload : Bytes} {size : UInt32} (scalar : type.isPlp = false)
      (width : descriptor.length = type.descriptorSize)
      (length : ScalarLength.ofDescriptor type descriptor = .of size)
      (exactly : payload.length = size.toNat) :
      WrittenValue type (some [payload]) (descriptor ++ payload)
  | plpNull {total : PlpTotal} (plp : type.isPlp = true) (absent : total.isNull = true) :
      WrittenValue type none total.encode
  | plp {total : PlpTotal} {payloads : List Bytes} {chunks : Bytes} (plp : type.isPlp = true)
      (present : total.isNull = false) (written : WrittenChunks payloads chunks) :
      WrittenValue type (some payloads) (total.encode ++ chunks)

/-! ### Reading finds the end of what is written -/

theorem afterChunks_append {payloads : List Bytes} {front : Bytes}
    (written : WrittenChunks payloads front) (rest : Bytes) :
    afterChunks (front ++ rest) = some rest := by
  induction written with
  | terminator =>
    unfold afterChunks
    have enough : ¬ (ChunkLength.encode ⟨0⟩ ++ rest).length < ChunkLength.width := by simp
    have ends : ChunkLength.isTerminator ⟨0⟩ = true := rfl
    simp only [enough, ends, if_false, if_true, ChunkLength.ofBytes_encode_append]
    rw [List.drop_left' (ChunkLength.encode_length _)]
  | @chunk payload others payloads length nonempty size _ inductionHypothesis =>
    unfold afterChunks
    have shape : length.encode ++ payload ++ others ++ rest =
        length.encode ++ (payload ++ (others ++ rest)) := by simp
    have enough : ¬ (length.encode ++ (payload ++ (others ++ rest))).length <
        ChunkLength.width := by simp
    have whole : ¬ (payload ++ (others ++ rest)).length < length.toNat := by simp [size]
    rw [shape]
    simp only [enough, nonempty, if_false, Bool.false_eq_true, ChunkLength.ofBytes_encode_append]
    rw [List.drop_left' (ChunkLength.encode_length _), if_neg whole, List.drop_left' size,
      inductionHypothesis]

theorem ChunkLength.eq_zero_of_isTerminator {length : ChunkLength}
    (ends : length.isTerminator = true) : length = ⟨0⟩ := by
  obtain ⟨size⟩ := length
  simpa [isTerminator] using ends

theorem exists_writtenChunks_of_afterChunks {bytes rest : Bytes}
    (found : afterChunks bytes = some rest) :
    ∃ payloads front, WrittenChunks payloads front ∧ bytes = front ++ rest := by
  fun_induction afterChunks bytes with
  | case1 => cases found
  | case2 bytes enough length left ends =>
    refine ⟨[], _, .terminator, ?_⟩
    rw [← ChunkLength.eq_zero_of_isTerminator ends, ← Option.some.inj found,
      ChunkLength.encode_ofBytes (Nat.le_of_not_lt enough), List.take_append_drop]
  | case3 => cases found
  | case4 bytes enough length left goes whole inductionHypothesis =>
    obtain ⟨payloads, front, written, split⟩ := inductionHypothesis found
    have size : (left.take length.toNat).length = length.toNat :=
      List.length_take_of_le (Nat.le_of_not_lt whole)
    refine ⟨_, _, .chunk (Bool.not_eq_true _ ▸ goes) size written, ?_⟩
    rw [ChunkLength.encode_ofBytes (Nat.le_of_not_lt enough), List.append_assoc, List.append_assoc,
      ← split, List.take_append_drop, List.take_append_drop]

/-- What `afterChunks` leaves is what follows some chunks. -/
theorem afterChunks_eq_some_iff {bytes rest : Bytes} :
    afterChunks bytes = some rest ↔
      ∃ payloads front, WrittenChunks payloads front ∧ bytes = front ++ rest := by
  refine ⟨exists_writtenChunks_of_afterChunks, ?_⟩
  rintro ⟨payloads, front, written, rfl⟩
  exact afterChunks_append written rest

theorem ColumnType.afterValue_append {type : ColumnType} {contents : Option (List Bytes)}
    {front : Bytes} (written : WrittenValue type contents front) (rest : Bytes) :
    type.afterValue (front ++ rest) = some rest := by
  cases written with
  | null scalar width length =>
    have enough : ¬ (front ++ rest).length < type.descriptorSize := by simp [width]
    rw [afterValue, if_neg (by simp [scalar]), afterScalar, if_neg enough,
      ScalarLength.ofDescriptor_append width, length, List.drop_left' width]
    exact if_neg (Nat.not_lt_zero _)
  | @scalar descriptor payload size scalar width length exactly =>
    have shape : descriptor ++ payload ++ rest = descriptor ++ (payload ++ rest) := by simp
    have enough : ¬ (descriptor ++ (payload ++ rest)).length < type.descriptorSize := by
      simp [width]
    have whole : ¬ (payload ++ rest).length < (ScalarLength.of size).size := by
      simp [ScalarLength.size, exactly]
    rw [shape, afterValue, if_neg (by simp [scalar]), afterScalar, if_neg enough,
      ScalarLength.ofDescriptor_append width, length, List.drop_left' width, if_neg whole]
    exact congrArg some (List.drop_left' exactly)
  | @plpNull total plp absent =>
    have enough : ¬ (total.encode ++ rest).length < PlpTotal.width := by simp
    rw [afterValue, if_pos plp, afterPlp, if_neg enough, PlpTotal.ofBytes_encode_append,
      if_pos absent, List.drop_left' total.encode_length]
  | @plp total payloads chunks plp present written =>
    have shape : total.encode ++ chunks ++ rest = total.encode ++ (chunks ++ rest) := by simp
    have enough : ¬ (total.encode ++ (chunks ++ rest)).length < PlpTotal.width := by simp
    rw [shape, afterValue, if_pos plp, afterPlp, if_neg enough, PlpTotal.ofBytes_encode_append,
      if_neg (by simp [present]), List.drop_left' total.encode_length]
    exact afterChunks_append written rest

theorem ColumnType.exists_writtenValue_of_afterValue {type : ColumnType} {bytes rest : Bytes}
    (found : type.afterValue bytes = some rest) :
    ∃ contents front, WrittenValue type contents front ∧ bytes = front ++ rest := by
  unfold afterValue at found
  split at found
  · rename_i plp
    unfold afterPlp at found
    split at found
    · cases found
    · rename_i enough
      have total := PlpTotal.encode_ofBytes (Nat.le_of_not_lt enough)
      split at found
      · rename_i absent
        refine ⟨none, _, .plpNull plp absent, ?_⟩
        rw [← Option.some.inj found, total, List.take_append_drop]
      · rename_i present
        obtain ⟨payloads, front, written, split⟩ := exists_writtenChunks_of_afterChunks found
        refine ⟨_, _, .plp plp (Bool.not_eq_true _ ▸ present) written, ?_⟩
        rw [total, List.append_assoc, ← split, List.take_append_drop]
  · rename_i scalar
    unfold afterScalar at found
    dsimp only at found
    split at found
    · cases found
    · rename_i enough
      have width : (bytes.take type.descriptorSize).length = type.descriptorSize :=
        List.length_take_of_le (Nat.le_of_not_lt enough)
      have same := ScalarLength.ofDescriptor_take type bytes
      split at found
      · cases found
      · rename_i whole
        cases length : ScalarLength.ofDescriptor type bytes with
        | null =>
          rw [length] at found same
          refine ⟨_, _, .null (Bool.not_eq_true _ ▸ scalar) width same, ?_⟩
          rw [← Option.some.inj found]
          exact (List.take_append_drop _ _).symm
        | of size =>
          rw [length] at found same whole
          have payload : ((bytes.drop type.descriptorSize).take size.toNat).length =
              size.toNat := List.length_take_of_le (Nat.le_of_not_lt whole)
          refine ⟨_, _, .scalar (Bool.not_eq_true _ ▸ scalar) width same payload, ?_⟩
          rw [← Option.some.inj found, List.append_assoc]
          simp only [ScalarLength.size, List.take_append_drop]

/-- What `afterValue` leaves is what follows a value. -/
theorem ColumnType.afterValue_eq_some_iff {type : ColumnType} {bytes rest : Bytes} :
    type.afterValue bytes = some rest ↔
      ∃ contents front, WrittenValue type contents front ∧ bytes = front ++ rest := by
  refine ⟨exists_writtenValue_of_afterValue, ?_⟩
  rintro ⟨contents, front, written, rfl⟩
  exact afterValue_append written rest

end TabularStream
