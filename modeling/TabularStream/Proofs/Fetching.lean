/-
This file says which bytes a chunk reader takes from its value when it gives a chunk: a header, and
the payload of the chunk behind it. `Fetches` says so of one call, and it is proved once for each
kind of header. `Fetched` collects the calls: after some chunks, what has been taken is the
descriptor and the payload of a scalar value, or the total of a PLP value and its first chunks with
their lengths.

The value may be malformed in any way and have any number of bytes. What is needed is that the
position of the reader does not wrap around, and that follows from giving up what has been read
before each call.
-/

import TabularStream.Proofs.Decoding
import TabularStream.Proofs.Foresight

namespace TabularStream

/-! ### Chunks with their lengths -/

/-- A chunk with its length in front. -/
def chunkRecord (payload : Bytes) : Bytes :=
  (ChunkLength.mk (UInt32.ofNat payload.length)).encode ++ payload

/-- Some bytes may be the payload of a chunk: a length of zero would end the value. -/
def Chunkable (payload : Bytes) : Prop :=
  payload ≠ [] ∧ payload.length < UInt32.size

theorem chunkRecords_eq (payloads : List Bytes) :
    chunkRecords payloads = payloads.map chunkRecord ++ [ChunkLength.encode ⟨0⟩] := by
  induction payloads with
  | nil => rfl
  | cons payload payloads inductionHypothesis =>
    rw [chunkRecords, inductionHypothesis]
    rfl

/-- A length that announces a payload is the one in front of it. -/
theorem chunkRecord_eq {length : ChunkLength} {payload : Bytes}
    (size : payload.length = length.toNat) : chunkRecord payload = length.encode ++ payload := by
  rw [chunkRecord, ChunkLength.eq_of_toNat size]

theorem chunkable_of_length {length : ChunkLength} {payload : Bytes}
    (some : length.isTerminator = false) (size : payload.length = length.toNat) :
    Chunkable payload := by
  refine ⟨List.ne_nil_of_length_pos ?_, size ▸ length.size.toNat_lt⟩
  rw [size]
  exact Nat.pos_of_ne_zero (ChunkLength.toNat_ne_zero some)

/-- A chunk in front of some bytes is the first one of them. -/
theorem Contents.ofChunks_chunkRecord {payload : Bytes} (chunk : Chunkable payload)
    (rest : Bytes) : ofChunks (chunkRecord payload ++ rest) = cons payload (ofChunks rest) := by
  have size : (ChunkLength.mk (UInt32.ofNat payload.length)).toNat = payload.length :=
    UInt32.toNat_ofNat_of_lt' chunk.2
  have some : (ChunkLength.mk (UInt32.ofNat payload.length)).isTerminator = false := by
    refine beq_eq_false_iff_ne.2 fun zero => chunk.1 (List.length_eq_zero_iff.1 ?_)
    rw [← size, ChunkLength.toNat, zero]
    rfl
  rw [ofChunks, chunkRecord, List.append_assoc, if_neg (by simp)]
  dsimp only
  rw [ChunkLength.ofBytes_encode_append, if_neg (by simp [some]),
    List.drop_left' (ChunkLength.encode_length _), size, if_neg (by simp), List.take_left' rfl,
    List.drop_left' rfl]

theorem Contents.ofChunks_records {payloads : List Bytes}
    (chunks : ∀ payload ∈ payloads, Chunkable payload) (rest : Bytes) :
    ofChunks ((payloads.map chunkRecord).flatten ++ rest) =
      ⟨payloads ++ (ofChunks rest).chunks, (ofChunks rest).error⟩ := by
  induction payloads with
  | nil => rfl
  | cons payload payloads inductionHypothesis =>
    obtain ⟨first, others⟩ := List.forall_mem_cons.1 chunks
    rw [List.map_cons, List.flatten_cons, List.append_assoc, ofChunks_chunkRecord first,
      inductionHypothesis others]
    rfl

namespace ChunkReader

variable {reader : ChunkReader} {pool : Pool} {others : List Slice} {payload : Bytes}

/-! ### One chunk -/

/-- A reader takes a header, and the payload behind it. -/
structure Fetches (reader : ChunkReader) (pool : Pool) (header payload : Bytes)
    (pulled : Pulled) : Prop where
  still : pulled.pool = pool
  data : pulled.reader.data = reader.data
  type : pulled.reader.type = reader.type
  offset : pulled.reader.offset = reader.offset + (header ++ payload).length
  unread : reader.unread pool = header ++ payload ++ pulled.reader.unread pool

/-- The position of a reader does not wrap around within some bytes. -/
def Clear (reader : ChunkReader) (count : Nat) : Prop := reader.offset + count < Word.modulus

theorem Clear.mono {count more : Nat} (clear : reader.Clear more) (fewer : count ≤ more) :
    reader.Clear count :=
  Nat.lt_of_le_of_lt (Nat.add_le_add_left fewer _) clear

theorem Clear.advance {count more : Nat} (clear : reader.Clear (count + more)) :
    (reader.advance count).Clear more := by
  have moved := Nat.add_le_add_right (reader.offset_advance_le count) more
  rw [Nat.add_assoc] at moved
  exact Nat.lt_of_le_of_lt moved clear

/-- Moving past bytes that are available. -/
theorem Inside.passes {count : Nat} (inside : reader.Inside pool others)
    (within : count ≤ reader.available) (clear : reader.Clear count) :
    (reader.bytesAt pool 0 count).length = count ∧
      (reader.advance count).offset = reader.offset + count ∧
      reader.unread pool =
        reader.bytesAt pool 0 count ++ (reader.advance count).unread pool := by
  have there := inside.available_le
  have start : Word.add reader.offset 0 = reader.offset :=
    Word.add_of_lt (clear.mono (Nat.zero_le count))
  have past : Word.add reader.offset count = reader.offset + count := Word.add_of_lt clear
  have bytes : reader.bytesAt pool 0 count = (reader.unread pool).take count := by
    unfold ChunkReader.bytesAt
    rw [start]
    exact Pool.gather_eq pool _ inside.holds _ _
  have rest : (reader.advance count).unread pool = (reader.unread pool).drop count := by
    show (reader.data.bytes pool).drop (Word.add reader.offset count) = _
    rw [past, unread, List.drop_drop]
  refine ⟨?_, past, ?_⟩
  · rw [bytes, List.length_take, unread, List.length_drop]
    omega
  · rw [bytes, rest, List.take_append_drop]

theorem Inside.fetches_give {count : Nat} (inside : reader.Inside pool others)
    (within : count ≤ reader.available) (clear : reader.Clear count) (phase : Phase) :
    reader.Fetches pool [] (reader.bytesAt pool 0 count) (reader.give pool phase count) := by
  obtain ⟨length, offset, unread⟩ := inside.passes within clear
  refine ⟨rfl, rfl, rfl, ?_, unread⟩
  rw [List.nil_append, length]
  exact offset

/-- A chunk behind a header. -/
theorem Inside.fetches_behind {count : Nat} {header : Bytes} {pulled : Pulled}
    (inside : reader.Inside pool others) (within : count ≤ reader.available)
    (clear : reader.Clear count)
    (fetches : (reader.advance count).Fetches pool header payload pulled) :
    reader.Fetches pool (reader.bytesAt pool 0 count ++ header) payload pulled := by
  obtain ⟨length, offset, unread⟩ := inside.passes within clear
  refine ⟨fetches.still, fetches.data, fetches.type, ?_, ?_⟩
  · have sum : (reader.bytesAt pool 0 count ++ header ++ payload).length =
        count + (header ++ payload).length := by
      rw [List.append_assoc, List.length_append, length]
    rw [fetches.offset, offset, sum, Nat.add_assoc]
  · rw [unread, fetches.unread, List.append_assoc, List.append_assoc, List.append_assoc]

/-- What is read of a PLP value that gives a chunk. -/
theorem eq_of_readChunk (chunk : (reader.readChunk pool).event = .chunk payload) :
    let length := ChunkLength.ofBytes (reader.bytesAt pool 0 ChunkLength.width)
    let body := reader.advance ChunkLength.width
    ChunkLength.width ≤ reader.available ∧ length.isTerminator = false ∧
      length.toNat ≤ body.available ∧
      reader.readChunk pool = body.give pool .chunks length.toNat := by
  unfold readChunk at chunk ⊢
  dsimp only at chunk ⊢
  by_cases short : reader.available < ChunkLength.width
  · rw [if_pos short] at chunk
    cases chunk
  · rw [if_neg short] at chunk ⊢
    by_cases ends : (ChunkLength.ofBytes
        (reader.bytesAt pool 0 ChunkLength.width)).isTerminator = true
    · rw [if_pos ends] at chunk
      split at chunk <;> cases chunk
    · rw [if_neg ends] at chunk ⊢
      split at chunk
      · cases chunk
      · rename_i whole
        rw [if_neg whole]
        exact ⟨Nat.le_of_not_lt short, Bool.eq_false_iff.2 ends, Nat.le_of_not_lt whole, rfl⟩

/-- What is read of a scalar value that gives its payload. -/
theorem eq_of_readScalar (chunk : (reader.readScalar pool).event = .chunk payload) :
    let width := reader.type.descriptorSize
    let body := reader.advance width
    width ≤ reader.available ∧ ∃ size,
      ScalarLength.ofDescriptor reader.type (reader.bytesAt pool 0 width) = .of size ∧
      size.toNat ≤ body.available ∧
      reader.readScalar pool = body.give pool .scalarRead size.toNat := by
  unfold readScalar at chunk ⊢
  dsimp only at chunk ⊢
  by_cases short : reader.available < reader.type.descriptorSize
  · rw [if_pos short] at chunk
    cases chunk
  · rw [if_neg short] at chunk ⊢
    cases length : ScalarLength.ofDescriptor reader.type
        (reader.bytesAt pool 0 reader.type.descriptorSize) with
    | null =>
      rw [length] at chunk
      cases chunk
    | of size =>
      rw [length] at chunk
      dsimp only at chunk ⊢
      split at chunk
      · cases chunk
      · rename_i whole
        split at chunk
        · cases chunk
        · rename_i exactly
          rw [if_neg whole, if_neg exactly]
          exact ⟨Nat.le_of_not_lt short, size, rfl, Nat.le_of_not_lt whole, rfl⟩

/-- What is read of a PLP value that gives its first chunk. -/
theorem eq_of_readPlp (chunk : (reader.readPlp pool).event = .chunk payload) :
    PlpTotal.width ≤ reader.available ∧
      (PlpTotal.ofBytes (reader.bytesAt pool 0 PlpTotal.width)).isNull = false ∧
      reader.readPlp pool =
        { reader.advance PlpTotal.width with phase := .chunks }.readChunk pool := by
  unfold readPlp at chunk ⊢
  by_cases short : reader.available < PlpTotal.width
  · rw [if_pos short] at chunk
    cases chunk
  · rw [if_neg short] at chunk ⊢
    split at chunk
    · cases chunk
    · rename_i present
      rw [if_neg present]
      exact ⟨Nat.le_of_not_lt short, Bool.eq_false_iff.2 present, rfl⟩

theorem Inside.fetches_readChunk (inside : reader.Inside pool others)
    (clear : reader.Clear (ChunkLength.width + UInt32.size))
    (chunk : (reader.readChunk pool).event = .chunk payload) :
    Chunkable payload ∧ (reader.readChunk pool).reader.phase = .chunks ∧
      ∃ header, header ++ payload = chunkRecord payload ∧
        reader.Fetches pool header payload (reader.readChunk pool) := by
  obtain ⟨enough, some, whole, same⟩ := eq_of_readChunk chunk
  have first : reader.Clear ChunkLength.width := clear.mono (Nat.le_add_right _ _)
  have width := (inside.passes enough first).1
  have body := inside.moves (.advance .stay enough)
  have encoded := ChunkLength.encode_ofBytes (Nat.le_of_eq width.symm)
  rw [List.take_of_length_le (Nat.le_of_eq width)] at encoded
  generalize ChunkLength.ofBytes _ = length at some whole same encoded
  have clear := clear.advance.mono (Nat.le_of_lt length.size.toNat_lt)
  rw [same] at chunk ⊢
  cases chunk
  have exactly := (body.passes whole clear).1
  refine ⟨chunkable_of_length some exactly, rfl, _, ?_,
    inside.fetches_behind enough first (body.fetches_give whole clear .chunks)⟩
  rw [List.append_nil, chunkRecord_eq exactly, encoded]

theorem Inside.fetches_readPlp (inside : reader.Inside pool others) (clear : reader.Clear stride)
    (chunk : (reader.readPlp pool).event = .chunk payload) :
    Chunkable payload ∧ (reader.readPlp pool).reader.phase = .chunks ∧
      ∃ (total : PlpTotal) (header : Bytes), total.isNull = false ∧
        header ++ payload = total.encode ++ chunkRecord payload ∧
        reader.Fetches pool header payload (reader.readPlp pool) := by
  obtain ⟨enough, present, same⟩ := eq_of_readPlp chunk
  have first : reader.Clear PlpTotal.width := clear.mono (Nat.le_add_right _ _)
  have width := (inside.passes enough first).1
  have body : Inside { reader.advance PlpTotal.width with phase := .chunks } pool others :=
    inside.moves (.enter (.advance .stay enough))
  rw [same] at chunk ⊢
  obtain ⟨some, phase, front, record, fetches⟩ := body.fetches_readChunk clear.advance chunk
  refine ⟨some, phase, _, _, present, ?_, inside.fetches_behind enough first
    ⟨fetches.still, fetches.data, fetches.type, fetches.offset, fetches.unread⟩⟩
  rw [List.append_assoc, record, PlpTotal.encode_ofBytes (Nat.le_of_eq width.symm),
    List.take_of_length_le (Nat.le_of_eq width)]

theorem Inside.fetches_readScalar (inside : reader.Inside pool others)
    (clear : reader.Clear stride) (chunk : (reader.readScalar pool).event = .chunk payload) :
    (reader.readScalar pool).reader.phase = .scalarRead ∧
      ∃ (descriptor : Bytes) (size : UInt32), descriptor.length = reader.type.descriptorSize ∧
        ScalarLength.ofDescriptor reader.type descriptor = .of size ∧
        payload.length = size.toNat ∧
        reader.Fetches pool descriptor payload (reader.readScalar pool) := by
  obtain ⟨enough, size, length, whole, same⟩ := eq_of_readScalar chunk
  have room : reader.type.descriptorSize ≤ PlpTotal.width :=
    Nat.le_trans reader.type.descriptorSize_le (by decide)
  have clear : reader.Clear (reader.type.descriptorSize + UInt32.size) :=
    clear.mono (Nat.add_le_add room (Nat.le_add_left _ _))
  have first : reader.Clear reader.type.descriptorSize := clear.mono (Nat.le_add_right _ _)
  have body := inside.moves (.advance .stay enough)
  have clear := clear.advance.mono (Nat.le_of_lt size.toNat_lt)
  rw [same] at chunk ⊢
  cases chunk
  have fetches := inside.fetches_behind enough first (body.fetches_give whole clear .scalarRead)
  rw [List.append_nil] at fetches
  exact ⟨rfl, _, size, (inside.passes enough first).1, length, (body.passes whole clear).1,
    fetches⟩

/-! ### All chunks -/

/-- The bytes that a reader has taken with some chunks, by how far it has come: none, the
descriptor and the payload of a scalar value, or the total of a PLP value and its first chunks with
their lengths. -/
inductive Fetched (type : ColumnType) : Phase → List Bytes → Bytes → Prop where
  | nothing : Fetched type .header [] []
  | scalar {descriptor payload : Bytes} {size : UInt32} (plain : type.isPlp = false)
      (width : descriptor.length = type.descriptorSize)
      (length : ScalarLength.ofDescriptor type descriptor = .of size)
      (exactly : payload.length = size.toNat) :
      Fetched type .scalarRead [payload] (descriptor ++ payload)
  | chunks {total : PlpTotal} {payloads : List Bytes} (plp : type.isPlp = true)
      (present : total.isNull = false) (chunks : ∀ payload ∈ payloads, Chunkable payload) :
      Fetched type .chunks payloads (total.encode ++ (payloads.map chunkRecord).flatten)

theorem Fetched.concat {type : ColumnType} {payloads : List Bytes} {front : Bytes}
    (fetched : Fetched type .chunks payloads front) (chunk : Chunkable payload) :
    Fetched type .chunks (payloads ++ [payload]) (front ++ chunkRecord payload) := by
  cases fetched with
  | chunks plp present chunks =>
    have all : ∀ other ∈ payloads ++ [payload], Chunkable other := by
      intro other member
      rcases List.mem_append.1 member with before | last
      · exact chunks other before
      · exact List.mem_singleton.1 last ▸ chunk
    have more := Fetched.chunks plp present all
    rwa [List.map_append, List.flatten_append, List.map_singleton, List.flatten_singleton,
      ← List.append_assoc] at more

/-- The header in front of a payload, by how far the reader has come, and how far it comes. -/
inductive Heads (type : ColumnType) : Phase → Bytes → Bytes → Phase → Prop where
  | scalar {descriptor payload : Bytes} {size : UInt32} (plain : type.isPlp = false)
      (width : descriptor.length = type.descriptorSize)
      (length : ScalarLength.ofDescriptor type descriptor = .of size)
      (exactly : payload.length = size.toNat) :
      Heads type .header descriptor payload .scalarRead
  | total {total : PlpTotal} {header payload : Bytes} (plp : type.isPlp = true)
      (present : total.isNull = false) (some : Chunkable payload)
      (bytes : header ++ payload = total.encode ++ chunkRecord payload) :
      Heads type .header header payload .chunks
  | length {header payload : Bytes} (some : Chunkable payload)
      (bytes : header ++ payload = chunkRecord payload) :
      Heads type .chunks header payload .chunks

/-- A header and a payload more have been taken. -/
theorem Fetched.next {type : ColumnType} {phase phase' : Phase} {payloads : List Bytes}
    {front header : Bytes} (fetched : Fetched type phase payloads front)
    (heads : Heads type phase header payload phase') :
    Fetched type phase' (payloads ++ [payload]) (front ++ (header ++ payload)) := by
  cases heads with
  | scalar plain width length exactly =>
    cases fetched
    exact .scalar plain width length exactly
  | total plp present some bytes =>
    cases fetched
    have first := Fetched.chunks plp present fun other member =>
      List.mem_singleton.1 member ▸ some
    rw [List.nil_append, List.nil_append, bytes]
    rwa [List.map_singleton, List.flatten_singleton] at first
  | length some bytes =>
    rw [bytes]
    exact fetched.concat some

/-- A call that gives a chunk takes it from what is left once the reader has given up what it had
read before. -/
theorem Inside.fetches_next (inside : reader.Inside pool others)
    (chunk : (reader.next pool).event = .chunk payload) :
    let released := reader.releaseConsumed pool
    ∃ header, released.2.Fetches released.1 header payload (reader.next pool) ∧
      Heads reader.type reader.phase header payload (reader.next pool).reader.phase := by
  have left := inside.releaseConsumed.inside
  have clear : (reader.releaseConsumed pool).2.Clear stride := by
    have limit : Word.largestSize + stride < Word.modulus := by decide
    exact Nat.lt_of_le_of_lt (Nat.add_le_add_right inside.offset_releaseConsumed_le _) limit
  have phase : (reader.releaseConsumed pool).2.phase = reader.phase := rfl
  have type : (reader.releaseConsumed pool).2.type = reader.type := rfl
  rw [← phase, ← type]
  unfold next at chunk ⊢
  generalize reader.releaseConsumed pool = released at left clear chunk ⊢
  obtain ⟨pool', reader'⟩ := released
  dsimp only at left clear chunk ⊢
  cases going : reader'.phase with
  | header =>
    rw [going] at chunk
    dsimp only at chunk ⊢
    by_cases plp : reader'.type.isPlp = true
    · rw [if_pos plp] at chunk ⊢
      obtain ⟨some, phase, total, header, present, bytes, fetches⟩ :=
        left.fetches_readPlp clear chunk
      rw [phase]
      exact ⟨header, fetches, .total plp present some bytes⟩
    · rw [if_neg plp] at chunk ⊢
      obtain ⟨phase, descriptor, size, width, length, exactly, fetches⟩ :=
        left.fetches_readScalar clear chunk
      rw [phase]
      exact ⟨descriptor, fetches, .scalar (Bool.eq_false_iff.2 plp) width length exactly⟩
  | chunks =>
    rw [going] at chunk
    have clear : reader'.Clear (ChunkLength.width + UInt32.size) :=
      clear.mono (Nat.le_add_left _ _)
    obtain ⟨some, phase, header, record, fetches⟩ := left.fetches_readChunk clear chunk
    dsimp only
    rw [phase]
    exact ⟨header, fetches, .length some record⟩
  | scalarRead =>
    rw [going] at chunk
    cases chunk
  | finished =>
    rw [going] at chunk
    cases error : reader'.error <;> simp [error, Event.ofError] at chunk

end ChunkReader

end TabularStream
