/-
This file reads lengths back that have been written. Any number of them are written one after
the other, the bytes arrive in the receive buffer in fragments, and they are read in the order in
which they were written: `Session.written_lengths_read_back` says what is found.

A length that its strategy has no descriptor for is refused when it is written, and then what is
read is what was written. There is one exception. A strategy that writes NULL as a number has to
refuse that number as a length, which those of one and of two bytes do. The one of four bytes does
not, and so the length `FFFFFFFF` comes back as NULL.
-/

import TabularStream.Proofs.ByteQueue

namespace TabularStream

/-! ### Scalar lengths -/

namespace ScalarLength

variable {type : ColumnType} {length : ScalarLength} {bytes : Bytes}

/-- Is the length one that is written like NULL? -/
def TakenForNull (type : ColumnType) (length : ScalarLength) : Prop :=
  type.strategy = .long ∧ length = of 0xFFFFFFFF

instance (type : ColumnType) (length : ScalarLength) : Decidable (TakenForNull type length) :=
  inferInstanceAs (Decidable (_ ∧ _))

/-- What is read where a length was written. -/
def readBack (type : ColumnType) (length : ScalarLength) : ScalarLength :=
  if type.strategy = .fixed then of type.maxLength
  else if TakenForNull type length then null else length

/-- What a descriptor that holds a number is read as. -/
theorem ofDescriptor_littleEndian {number : Nat} (described : type.strategy ≠ .fixed)
    (fits : number < byteRange type.descriptorSize) :
    ofDescriptor type (littleEndian type.descriptorSize number) =
      if type.strategy.nullMarker? = some number then null else of (UInt32.ofNat number) := by
  have read := ofLittleEndian_take_append fits []
  rw [List.append_nil] at read
  unfold ofDescriptor
  rw [if_neg described, read]

/-- The marker for NULL is a number that the descriptor can hold. -/
theorem marker_lt {strategy : LengthStrategy} {marker : Nat}
    (found : strategy.nullMarker? = some marker) : marker < byteRange strategy.descriptorSize := by
  cases strategy <;> cases found <;> decide

/-- NULL is written as the marker of the strategy. -/
theorem encode_null (written : encode type null = .ok bytes) (described : type.strategy ≠ .fixed) :
    ∃ marker, type.strategy.nullMarker? = some marker ∧
      bytes = littleEndian type.descriptorSize marker := by
  obtain ⟨serverType, strategy, maxLength, charset, precision, scale⟩ := type
  cases strategy with
  | fixed => exact absurd rfl described
  | byte =>
    cases written
    exact ⟨_, rfl, rfl⟩
  | ushort =>
    cases written
    exact ⟨_, rfl, rfl⟩
  | long =>
    cases written
    exact ⟨_, rfl, rfl⟩
  | part => cases written

/-- A length is written as a number. In one and in two bytes this is never the marker for NULL,
and a part has none, but in four bytes it may be. -/
theorem encode_of {size : UInt32} (written : encode type (of size) = .ok bytes)
    (described : type.strategy ≠ .fixed) :
    size.toNat < byteRange type.descriptorSize ∧
      bytes = littleEndian type.descriptorSize size.toNat ∧
      (type.strategy.nullMarker? = some size.toNat ↔ TakenForNull type (of size)) := by
  obtain ⟨serverType, strategy, maxLength, charset, precision, scale⟩ := type
  have word : size.toNat < byteRange 4 := size.toNat_lt
  cases strategy with
  | fixed => exact absurd rfl described
  | byte =>
    simp only [encode] at written
    split at written
    · cases written
    · rename_i accepted
      cases written
      have bounds : size.toNat ≠ 0 ∧ size.toNat ≤ 0xFF := by
        simpa [UInt32.lt_iff_toNat_lt, ← UInt32.toNat_inj] using accepted
      refine ⟨Nat.lt_succ_of_le bounds.2, rfl, fun found => ?_, fun taken => ?_⟩
      · exact absurd (Option.some.inj found).symm bounds.1
      · cases taken.1
  | ushort =>
    simp only [encode] at written
    split at written
    · cases written
    · rename_i accepted
      cases written
      have below : size.toNat < 0xFFFF := by simpa [UInt32.lt_iff_toNat_lt] using accepted
      refine ⟨Nat.lt_succ_of_lt below, rfl, fun found => ?_, fun taken => ?_⟩
      · exact absurd (Option.some.inj found).symm (Nat.ne_of_lt below)
      · cases taken.1
  | long =>
    cases written
    refine ⟨word, rfl, ?_⟩
    simp [TakenForNull, LengthStrategy.nullMarker?, ← UInt32.toNat_inj, eq_comm]
  | part =>
    cases written
    exact ⟨word, rfl, by simp [TakenForNull, LengthStrategy.nullMarker?]⟩

/-- A descriptor is as long as its strategy says, and is read as the length that was written,
unless that is taken for NULL. -/
theorem ofDescriptor_encode (written : encode type length = .ok bytes) :
    bytes.length = type.descriptorSize ∧ ofDescriptor type bytes = readBack type length := by
  by_cases fixed : type.strategy = .fixed
  · have nothing : bytes = [] := by
      unfold encode at written
      rw [fixed] at written
      cases written
      rfl
    unfold ofDescriptor readBack
    rw [nothing, if_pos fixed, if_pos fixed, ColumnType.descriptorSize, fixed]
    exact ⟨rfl, rfl⟩
  · unfold readBack
    rw [if_neg fixed]
    cases length with
    | null =>
      obtain ⟨marker, found, rfl⟩ := encode_null written fixed
      rw [ofDescriptor_littleEndian fixed (marker_lt found), if_pos found, ite_self]
      exact ⟨littleEndian_length _ _, rfl⟩
    | of size =>
      obtain ⟨fits, rfl, taken⟩ := encode_of written fixed
      rw [ofDescriptor_littleEndian fixed fits, UInt32.ofNat_toNat]
      exact ⟨littleEndian_length _ _, if_congr taken rfl rfl⟩

end ScalarLength

/-! ### Lengths of all kinds -/

/-- A length that can be written. -/
inductive WireLength where
  | scalar (type : ColumnType) (length : ScalarLength)
  | total (value : PlpTotal)
  | chunk (length : ChunkLength)
  deriving DecidableEq, Repr

namespace WireLength

/-- The bytes of a length. -/
def encode : WireLength → Except Failure Bytes
  | scalar type length => ScalarLength.encode type length
  | total value => .ok value.encode
  | chunk length => .ok length.encode

/-- The bytes of some lengths, one after the other. -/
def encodeAll : List WireLength → Except Failure Bytes
  | [] => .ok []
  | length :: rest => do
    let front ← length.encode
    let back ← encodeAll rest
    return front ++ back

/-- Is the length one that its column can have? Values of fixed length all have the same. -/
def Expected : WireLength → Prop
  | scalar type length => type.strategy = .fixed → length = .of type.maxLength
  | total _ => True
  | chunk _ => True

/-- Is the length one that is written like NULL? -/
def TakenForNull : WireLength → Prop
  | scalar type length => ScalarLength.TakenForNull type length
  | total _ => False
  | chunk _ => False

/-- What is read where a length was written. -/
def readBack : WireLength → WireLength
  | scalar type length => scalar type (ScalarLength.readBack type length)
  | total value => total value
  | chunk length => chunk length

/-- The operation that asks if a length of this kind can be read. -/
def question : WireLength → Session.Op
  | scalar type _ => .buffer (.canReadScalarLength type)
  | total _ => .buffer .canReadTotal
  | chunk _ => .buffer .canReadChunkLength

/-- The operation that reads a length of this kind. -/
def reading : WireLength → Session.Op
  | scalar type _ => .buffer (.readScalarLength type)
  | total _ => .buffer .readTotal
  | chunk _ => .buffer .readChunkLength

/-- The answer of an operation that reads this length. -/
def reply : WireLength → Session.Reply
  | scalar _ length => .scalarLength length
  | total value => .total value
  | chunk length => .count length.toNat

/-- The answer is that of the length that was written, unless this is taken for NULL. -/
theorem reply_readBack {length : WireLength} (expected : length.Expected) :
    length.readBack.reply = length.reply ↔ ¬ length.TakenForNull := by
  cases length with
  | scalar type length =>
    simp only [readBack, TakenForNull, reply, Session.Reply.scalarLength.injEq,
      ScalarLength.readBack]
    by_cases fixed : type.strategy = .fixed
    · have apart : ¬ ScalarLength.TakenForNull type length := by
        rintro ⟨long, -⟩
        cases fixed.symm.trans long
      rw [if_pos fixed]
      exact iff_of_true (expected fixed).symm apart
    · rw [if_neg fixed]
      by_cases taken : ScalarLength.TakenForNull type length
      · have different : ScalarLength.null ≠ length := by
          rw [taken.2]
          exact nofun
        rw [if_pos taken]
        exact iff_of_false different (not_not_intro taken)
      · rw [if_neg taken]
        exact iff_of_true rfl taken
  | total value => exact iff_of_true rfl id
  | chunk length => exact iff_of_true rfl id

/-- The number of bytes of lengths of this kind. -/
def width : WireLength → Nat
  | scalar type _ => type.descriptorSize
  | total _ => PlpTotal.width
  | chunk _ => ChunkLength.width

/-- What bytes stand for that are read as a length of this kind. -/
def decode (bytes : Bytes) : WireLength → WireLength
  | scalar type _ => scalar type (ScalarLength.ofDescriptor type bytes)
  | total _ => total (PlpTotal.ofBytes bytes)
  | chunk _ => chunk (ChunkLength.ofBytes bytes)

/-- The bytes of a length are as many as those of its kind, and stand for what is read back. -/
theorem decode_encode {length : WireLength} {bytes : Bytes} (written : length.encode = .ok bytes) :
    bytes.length = length.width ∧ length.decode bytes = length.readBack := by
  cases length with
  | scalar type length =>
    obtain ⟨width, read⟩ := ScalarLength.ofDescriptor_encode written
    exact ⟨width, congrArg (scalar type) read⟩
  | total value =>
    cases written
    have read := value.ofBytes_encode_append []
    rw [List.append_nil] at read
    exact ⟨value.encode_length, congrArg total read⟩
  | chunk length =>
    cases written
    have read := length.ofBytes_encode_append []
    rw [List.append_nil] at read
    exact ⟨length.encode_length, congrArg chunk read⟩

end WireLength

/-! ### How a pool is tuned -/

theorem Pool.config_allocate {pool after : Pool} {size : Nat} {slice : Slice}
    (success : pool.allocate size = .ok (after, slice)) : after.config = pool.config := by
  unfold Pool.allocate at success
  split at success
  · cases success
    rfl
  · dsimp only at success
    split at success
    · cases success
    · cases success
      rfl

theorem Pool.config_release (pool : Pool) (slice : Slice) :
    (pool.release slice).config = pool.config := by
  unfold Pool.release
  dsimp only
  split
  · exact Pool.config_recycle _ _
  · rfl

namespace ReceiveBuffer

variable {buffer after : ReceiveBuffer} {pool pool' : Pool}

theorem config_relocate {count : Nat} (success : buffer.relocate pool count = .ok (pool', after)) :
    pool'.config = pool.config := by
  unfold relocate at success
  split at success
  · rename_i allocation
    have same := Pool.config_allocate allocation
    cases success
    cases buffer.block with
    | none => exact same
    | some block => exact (Pool.config_release _ _).trans same
  · cases success

theorem config_prepare {count room : Nat}
    (success : buffer.prepare pool count = .ok (pool', after, room)) :
    pool'.config = pool.config := by
  unfold prepare ensureWritable at success
  split at success
  · rename_i made
    cases success
    split at made
    · exact config_relocate made
    · split at made
      · cases made
        rfl
      · split at made
        · cases made
          rfl
        · exact config_relocate made
  · cases success

theorem config_append {bytes : Bytes} (success : buffer.append pool bytes = .ok (pool', after)) :
    pool'.config = pool.config := by
  unfold append at success
  split at success
  · cases success
    rfl
  · split at success
    · rename_i made
      have same := config_prepare made
      split at success
      · cases success
        unfold fillRegion
        split
        · exact same
        · exact same
      · cases success
    · cases success

end ReceiveBuffer

namespace Session

variable {session : Session}

/-! ### Reading one length -/

theorem step_question (session : Session) (length : WireLength) :
    session.step length.question =
      ⟨session, .ok (.flag (length.width ≤ session.buffer.readableBytes))⟩ := by
  cases length <;> rfl

theorem step_reading (session : Session) (length : WireLength) :
    session.step length.reading =
      session.reading length.width fun bytes => (length.decode bytes).reply := by
  cases length with
  | scalar type length =>
    exact session.attempt_parse _ (ScalarLength.ofDescriptor type) .scalarLength
  | total value => exact session.attempt_parse _ PlpTotal.ofBytes .total
  | chunk length =>
    exact session.attempt_parse _ ChunkLength.ofBytes fun found => .count found.toNat

/-- A length that the unread bytes start with can be read, and is read back. -/
theorem Sound.reads_length (sound : session.Sound) {length : WireLength} {front rest : Bytes}
    (written : length.encode = .ok front) (unread : session.unread = front ++ rest) :
    session.step length.question = ⟨session, .ok (.flag true)⟩ ∧
      (session.step length.reading).result = .ok length.readBack.reply ∧
      (session.step length.reading).session.Sound ∧
      (session.step length.reading).session.unread = rest := by
  obtain ⟨width, read⟩ := WireLength.decode_encode written
  have within : length.width ≤ session.buffer.readableBytes := by
    rw [← sound.length_unread, unread, List.length_append]
    omega
  have past : (session.buffer.advance length.width).readable session.pool = rest := by
    rw [ReceiveBuffer.readable_advance (ReceiveBuffer.Sound.inOrder sound) within,
      ← Session.unread, unread, List.drop_left' width]
  rw [step_question, step_reading, reading, if_pos within, unread, List.take_left' width, read]
  exact ⟨by rw [decide_eq_true within], rfl, ReceiveBuffer.Sound.advance sound within, past⟩

/-! ### Reading many -/

/-- Ask for each length in turn, and read it. -/
def readings : List WireLength → List Op
  | [] => []
  | length :: rest => length.question :: length.reading :: readings rest

/-- The answers if each of the lengths can be read. -/
def findings : List WireLength → List (Except Failure Reply)
  | [] => []
  | length :: rest => .ok (.flag true) :: .ok length.reply :: findings rest

/-- The answers are those of the lengths that were written exactly if none of these is taken for
NULL. -/
theorem findings_readBack {lengths : List WireLength}
    (expected : ∀ length ∈ lengths, length.Expected) :
    findings (lengths.map WireLength.readBack) = findings lengths ↔
      ∀ length ∈ lengths, ¬ length.TakenForNull := by
  induction lengths with
  | nil => exact iff_of_true rfl (List.forall_mem_nil _)
  | cons length lengths inductionHypothesis =>
    obtain ⟨first, others⟩ := List.forall_mem_cons.1 expected
    rw [List.forall_mem_cons, ← inductionHypothesis others, ← WireLength.reply_readBack first]
    simp only [List.map_cons, findings, List.cons.injEq, Except.ok.injEq, true_and]

/-- Lengths that the unread bytes start with are read back one after the other. -/
theorem Sound.reads_lengths (sound : session.Sound) {lengths : List WireLength}
    {bytes rest : Bytes} (written : WireLength.encodeAll lengths = .ok bytes)
    (unread : session.unread = bytes ++ rest) :
    (session.run (readings lengths)).map Outcome.result =
        findings (lengths.map WireLength.readBack) ∧
      (session.after (readings lengths)).unread = rest := by
  induction lengths generalizing session bytes with
  | nil =>
    cases written
    exact ⟨rfl, unread⟩
  | cons length lengths inductionHypothesis =>
    obtain ⟨front, first, written⟩ := bind_inversion written
    obtain ⟨back, others, written⟩ := bind_inversion written
    cases written
    rw [List.append_assoc] at unread
    obtain ⟨asked, read, kept, left⟩ := sound.reads_length first unread
    obtain ⟨found, last⟩ := inductionHypothesis kept others left
    have run : session.run (readings (length :: lengths)) =
        session.step length.question :: session.step length.reading ::
          (session.step length.reading).session.run (readings lengths) := by
      rw [readings, Session.run, asked]
      rfl
    have after : session.after (readings (length :: lengths)) =
        (session.step length.reading).session.after (readings lengths) := by
      show ((session.step length.question).session.step length.reading).session.after _ = _
      rw [asked]
    rw [run, after, List.map_cons, List.map_cons, found, read, asked]
    exact ⟨rfl, last⟩

/-! ### Appending fragments -/

/-- Appending does not change how the pool is tuned. -/
theorem config_append (session : Session) (bytes : Bytes) :
    (session.step (.buffer (.append bytes))).session.pool.config = session.pool.config := by
  have stepped : session.step (.buffer (.append bytes)) = session.attempt
      ((session.buffer.append session.pool bytes).bind fun made =>
        .ok ({ session with pool := made.1, buffer := made.2 }, .nothing)) := rfl
  rw [stepped]
  rcases appended : session.buffer.append session.pool bytes with failure | made
  · rfl
  · exact ReceiveBuffer.config_append appended

/-- The operations that append fragments, one after the other. -/
def appends (fragments : List Bytes) : List Op :=
  fragments.map fun fragment => .buffer (.append fragment)

/-- Do some operations all succeed? -/
def Succeeds (session : Session) (ops : List Op) : Prop :=
  ∀ outcome ∈ session.run ops, outcome.result.isOk

/-- Fragments that are appended are unread in their order. Nothing but a block that is too large
keeps them out. -/
theorem Sound.appends_fragments (sound : session.Sound) {fragments : List Bytes}
    (small : (session.unread ++ fragments.flatten).length ≤ Word.largestSize) :
    (session.pool.config.blockSize.toNat ≤ Word.largestSize →
        session.Succeeds (appends fragments)) ∧
      (session.Succeeds (appends fragments) →
        (session.after (appends fragments)).Sound ∧
          (session.after (appends fragments)).unread = session.unread ++ fragments.flatten) := by
  induction fragments generalizing session with
  | nil => exact ⟨fun _ => List.forall_mem_nil _, fun _ => ⟨sound, (List.append_nil _).symm⟩⟩
  | cons fragment fragments inductionHypothesis =>
    have sizes : (session.unread ++ (fragment :: fragments).flatten).length =
        session.unread.length + (fragment.length + fragments.flatten.length) := by
      rw [List.length_append, List.flatten_cons, List.length_append]
    have queues := sound.queues_append (sound.add_lt (show fragment.length ≤ _ by omega)).2
    have config := session.config_append fragment
    have serves := queues.serves
    have kept := queues.sound
    have run : session.run (appends (fragment :: fragments)) =
        session.step (.buffer (.append fragment)) ::
          (session.step (.buffer (.append fragment))).session.run (appends fragments) := rfl
    have after : session.after (appends (fragment :: fragments)) =
        (session.step (.buffer (.append fragment))).session.after (appends fragments) := rfl
    unfold Succeeds
    rw [run, after, List.forall_mem_cons]
    generalize session.step (.buffer (.append fragment)) = outcome at *
    rcases serves with ⟨done, unread⟩ | ⟨refused, large⟩
    · have ok : outcome.result.isOk := by rw [done]; rfl
      rw [List.flatten_cons, ← List.append_assoc, ← unread] at small ⊢
      rw [← config]
      obtain ⟨fits, arrives⟩ := inductionHypothesis kept small
      exact ⟨fun tuned => ⟨ok, fits tuned⟩, fun all => arrives all.2⟩
    · have failed : ¬ outcome.result.isOk := by rw [refused]; exact nofun
      refine ⟨fun tuned => ?_, fun all => absurd all.1 failed⟩
      omega

/-! ### Writing and reading back -/

/-- Lengths that have been written and appended can all be read, and what is read is what was
written if none of them is taken for NULL, and only then. What follows them stays unread. -/
theorem written_lengths_read_back (reachable : session.Reachable) (nothing : session.unread = [])
    {lengths : List WireLength} {bytes : Bytes}
    (written : WireLength.encodeAll lengths = .ok bytes)
    (expected : ∀ length ∈ lengths, length.Expected) {fragments : List Bytes} {rest : Bytes}
    (cut : fragments.flatten = bytes ++ rest)
    (small : (bytes ++ rest).length ≤ Word.largestSize) :
    let filled := session.after (appends fragments)
    let found := (filled.run (readings lengths)).map Outcome.result
    (session.pool.config.blockSize.toNat ≤ Word.largestSize →
        session.Succeeds (appends fragments)) ∧
      (session.Succeeds (appends fragments) →
        found = findings (lengths.map WireLength.readBack) ∧
          (found = findings lengths ↔ ∀ length ∈ lengths, ¬ length.TakenForNull) ∧
          (filled.after (readings lengths)).unread = rest) := by
  intro filled found
  have all : session.unread ++ fragments.flatten = bytes ++ rest := by
    rw [nothing, List.nil_append, cut]
  obtain ⟨fits, arrives⟩ := reachable.sound.appends_fragments (all ▸ small)
  refine ⟨fits, fun appended => ?_⟩
  obtain ⟨sound, unread⟩ := arrives appended
  obtain ⟨read, left⟩ := sound.reads_lengths written (unread.trans all)
  refine ⟨read, ?_, left⟩
  have same : found = findings (lengths.map WireLength.readBack) := read
  rw [same]
  exact findings_readBack expected

/-- Lengths of every kind, NULL among them and those next to the markers for NULL. -/
def manyLengths : List WireLength :=
  [.scalar ⟨.intN, .byte, 4, .usAscii, 0, 0⟩ .null,
    .scalar ⟨.intN, .byte, 4, .usAscii, 0, 0⟩ (.of 0xFF),
    .scalar ⟨.varchar, .ushort, 9, .utf8, 0, 0⟩ (.of 0xFFFE), .total .null,
    .scalar ⟨.int, .fixed, 4, .usAscii, 0, 0⟩ (.of 4), .total .unknown,
    .scalar ⟨.text, .long, 9, .utf8, 0, 0⟩ (.of 0xFFFFFFFE), .chunk ⟨0xFFFFFFFF⟩,
    .scalar ⟨.varbinaryMax, .part, 0, .usAscii, 0, 0⟩ (.of 0xFFFFFFFF)]

/-- The bytes of these lengths and one more, cut into fragments. -/
def cutLengths : List Bytes :=
  [[0, 0xFF, 0xFE], [], List.replicate 9 0xFF ++ [0xFE],
    List.replicate 7 0xFF ++ [0xFE, 0xFF, 0xFF, 0xFF], List.replicate 8 0xFF ++ [7]]

theorem written_lengths_read_back_cutLengths :
    let session := (fresh ⟨2, 0⟩ []).after (appends cutLengths)
    (session.run (readings manyLengths)).map Outcome.result = findings manyLengths ∧
      (session.after (readings manyLengths)).unread = [7] := by
  have new : Session.new ⟨2, 0⟩ [] = .ok (fresh ⟨2, 0⟩ []) := rfl
  have written : WireLength.encodeAll manyLengths = .ok cutLengths.flatten.dropLast := by decide
  have expected : ∀ length ∈ manyLengths, length.Expected := by
    simp [manyLengths, WireLength.Expected]
  have cut : cutLengths.flatten = cutLengths.flatten.dropLast ++ [7] := by decide
  obtain ⟨fits, read⟩ :=
    written_lengths_read_back (.new new) rfl written expected cut (by decide)
  obtain ⟨-, same, left⟩ := read (fits (by decide))
  refine ⟨same.2 ?_, left⟩
  simp [manyLengths, WireLength.TakenForNull, ScalarLength.TakenForNull]

/-- The column of a text with lengths of four bytes. -/
def textColumn : ColumnType := ⟨.text, .long, 0xFFFF, .utf8, 0, 0⟩

/-- Written in four bytes, the length `FFFFFFFF` is accepted and comes back as NULL. -/
theorem greatest_length_taken_for_null :
    let lengths := [.scalar textColumn (.of 0xFFFFFFFF)]
    let session := (fresh {} []).after (appends [List.replicate 4 0xFF])
    WireLength.encodeAll lengths = .ok (List.replicate 4 0xFF) ∧
      (session.run (readings lengths)).map Outcome.result =
        findings [.scalar textColumn .null] ∧
      findings [.scalar textColumn .null] ≠ findings lengths := by
  exact ⟨by decide, rfl, by decide⟩

end Session

end TabularStream
