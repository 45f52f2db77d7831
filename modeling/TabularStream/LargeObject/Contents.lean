/-
This file says what a value contains, from its bytes as one string: the payloads of its chunks in
order, and the error at which it ends if it is malformed. Nothing is said of how the value is cut
into components or when it is read. The main statements are that the bytes of a written value
contain exactly its payloads and end without an error, and what they contain if more bytes follow.
-/

import TabularStream.Row.Grammar

namespace TabularStream

/-- The chunks of a value up to its end, and the error that ends it, if one does. -/
structure Contents where
  chunks : List Bytes
  error : Option ClientError
  deriving DecidableEq, Repr

namespace Contents

/-- No chunks and no error. -/
def empty : Contents := ⟨[], none⟩

/-- No chunks but an error. -/
def malformed (error : ClientError) : Contents := ⟨[], some error⟩

/-- One more chunk in front. -/
def cons (chunk : Bytes) (contents : Contents) : Contents :=
  ⟨chunk :: contents.chunks, contents.error⟩

/-- The chunks of a PLP value. Nothing may follow the empty one. -/
def ofChunks (bytes : Bytes) : Contents :=
  if bytes.length < ChunkLength.width then malformed .plpMissingTerminator
  else
    let length := ChunkLength.ofBytes bytes
    let rest := bytes.drop ChunkLength.width
    if length.isTerminator then if rest = [] then empty else malformed .extraBytes
    else if rest.length < length.toNat then malformed .plpChunkTruncated
    else cons (rest.take length.toNat) (ofChunks (rest.drop length.toNat))
termination_by bytes.length
decreasing_by
  simp only [List.length_drop, ChunkLength.width] at *
  omega

/-- The contents of a PLP value. What follows a NULL total is not looked at. -/
def ofPlp (bytes : Bytes) : Contents :=
  if bytes.length < PlpTotal.width then malformed .incompleteMessage
  else if (PlpTotal.ofBytes bytes).isNull then empty
  else ofChunks (bytes.drop PlpTotal.width)

/-- The contents of a scalar value. What follows a NULL descriptor is not looked at. -/
def ofScalar (type : ColumnType) (bytes : Bytes) : Contents :=
  if bytes.length < type.descriptorSize then malformed .incompleteMessage
  else
    match ScalarLength.ofDescriptor type bytes with
    | .null => empty
    | .of size =>
      let payload := bytes.drop type.descriptorSize
      if payload.length < size.toNat then malformed .incompleteMessage
      else if size.toNat < payload.length then malformed .extraBytes
      else cons payload empty

/-- The contents of a value of a column. -/
def ofBytes (type : ColumnType) (bytes : Bytes) : Contents :=
  if type.isPlp then ofPlp bytes else ofScalar type bytes

/-! ### Written values -/

/-- Bytes behind the terminator are the error at which the chunks end. -/
theorem ofChunks_append {payloads : List Bytes} {front : Bytes}
    (written : WrittenChunks payloads front) (rest : Bytes) :
    ofChunks (front ++ rest) = ⟨payloads, if rest = [] then none else some .extraBytes⟩ := by
  induction written with
  | terminator =>
    have ends : ChunkLength.isTerminator ⟨0⟩ = true := rfl
    unfold ofChunks
    dsimp only
    rw [if_neg (by simp), ChunkLength.ofBytes_encode_append, if_pos ends,
      List.drop_left' (ChunkLength.encode_length _)]
    split <;> rfl
  | @chunk payload others payloads length nonempty size _ inductionHypothesis =>
    have shape : length.encode ++ payload ++ others ++ rest =
        length.encode ++ (payload ++ (others ++ rest)) := by simp
    have enough : ¬ (length.encode ++ (payload ++ (others ++ rest))).length <
        ChunkLength.width := by simp
    have whole : ¬ (payload ++ (others ++ rest)).length < length.toNat := by simp [size]
    unfold ofChunks
    rw [shape]
    simp only [enough, nonempty, if_false, Bool.false_eq_true, ChunkLength.ofBytes_encode_append]
    rw [List.drop_left' (ChunkLength.encode_length _), if_neg whole, List.take_left' size,
      List.drop_left' size, inductionHypothesis, cons]

theorem ofChunks_of_written {payloads : List Bytes} {bytes : Bytes}
    (written : WrittenChunks payloads bytes) : ofChunks bytes = ⟨payloads, none⟩ := by
  have contents := ofChunks_append written []
  rw [List.append_nil] at contents
  exact contents

/-- What bytes contain that start with a written value. Bytes behind NULL make no difference. -/
theorem ofBytes_append {type : ColumnType} {contents : Option (List Bytes)} {front : Bytes}
    (written : WrittenValue type contents front) (rest : Bytes) :
    ofBytes type (front ++ rest) =
      match contents with
      | none => empty
      | some payloads =>
        if rest = [] then ⟨payloads, none⟩
        else ⟨if type.isPlp then payloads else [], some .extraBytes⟩ := by
  cases written with
  | null scalar width length =>
    rw [ofBytes, if_neg (by simp [scalar]), ofScalar, if_neg (by simp [width]),
      ScalarLength.ofDescriptor_append width, length]
  | @scalar descriptor payload size scalar width length exactly =>
    have enough : ¬ (descriptor ++ (payload ++ rest)).length < type.descriptorSize := by
      simp [width]
    rw [List.append_assoc, ofBytes, if_neg (by simp [scalar]), ofScalar, if_neg enough,
      ScalarLength.ofDescriptor_append width, length, scalar]
    dsimp only
    rw [List.drop_left' width, if_neg (by simp [exactly])]
    by_cases nothing : rest = []
    · rw [if_neg (by simp [exactly, nothing]), if_pos nothing, nothing, List.append_nil]
      rfl
    · have more : size.toNat < (payload ++ rest).length := by
        have positive := List.length_pos_iff.2 nothing
        rw [List.length_append]
        omega
      rw [if_pos more, if_neg nothing]
      rfl
  | @plpNull total plp absent =>
    rw [ofBytes, if_pos plp, ofPlp, if_neg (by simp), PlpTotal.ofBytes_encode_append,
      if_pos absent]
  | @plp total payloads chunks plp present written =>
    have enough : ¬ (total.encode ++ (chunks ++ rest)).length < PlpTotal.width := by simp
    rw [List.append_assoc, ofBytes, if_pos plp, ofPlp, if_neg enough,
      PlpTotal.ofBytes_encode_append, if_neg (by simp [present]),
      List.drop_left' total.encode_length, ofChunks_append written]
    simp only [plp, if_true]
    split <;> rfl

/-- A written value contains its payloads, and NULL contains nothing. -/
theorem ofBytes_of_written {type : ColumnType} {contents : Option (List Bytes)} {bytes : Bytes}
    (written : WrittenValue type contents bytes) :
    ofBytes type bytes = ⟨contents.getD [], none⟩ := by
  have same := ofBytes_append written []
  rw [List.append_nil] at same
  rw [same]
  cases contents <;> rfl

end Contents

end TabularStream
