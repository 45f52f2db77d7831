/-
This file proves that the total that a PLP value declares is only informational. Two buffers hold
the same bytes but for the totals of PLP columns, none of which is that of NULL: then asking if a
row is readable gives the same answer for both, decoding moves both cursors equally far, and the
two rows have the same slots and components. Whatever reads a column of one row gives the same
answers over the other row.

`RowLayout.Relabels` relates the bytes of the two buffers, whether they hold a whole row or not.
The rows are cut off alike, so their pieces differ in totals at most, and the readers of two such
pieces start abreast.
-/

import TabularStream.Proofs.Abreast
import TabularStream.Proofs.Agreement
import TabularStream.Proofs.WireImage

namespace TabularStream

/-! ### Rows with other totals -/

/-- Bytes that differ in the totals of PLP columns at most. No total that differs is that of NULL.
The row may be cut short, and what follows it does not matter. -/
inductive RowLayout.Relabels : RowLayout → Bytes → Bytes → Prop where
  | same (columns : RowLayout) (bytes : Bytes) : Relabels columns bytes bytes
  | nil (rest rest' : Bytes) : Relabels [] rest rest'
  | absent {columns : RowLayout} {bytes bytes' : Bytes}
      (others : Relabels columns bytes bytes') : Relabels (none :: columns) bytes bytes'
  | value {type : ColumnType} {columns : RowLayout} {contents : Option (List Bytes)}
      {front rest rest' : Bytes} (written : WrittenValue type contents front)
      (others : Relabels columns rest rest') :
      Relabels (some type :: columns) (front ++ rest) (front ++ rest')
  /-- A PLP value with other totals. -/
  | total {type : ColumnType} {columns : RowLayout} {total total' : PlpTotal}
      {payloads : List Bytes} {chunks rest rest' : Bytes} (plp : type.isPlp = true)
      (present : total.isNull = false) (present' : total'.isNull = false)
      (written : WrittenChunks payloads chunks) (others : Relabels columns rest rest') :
      Relabels (some type :: columns) (total.encode ++ chunks ++ rest)
        (total'.encode ++ chunks ++ rest')
  /-- A PLP value with other totals that need not have arrived as a whole. -/
  | last {type : ColumnType} {total total' : PlpTotal} (columns : RowLayout) (rest : Bytes)
      (plp : type.isPlp = true) (present : total.isNull = false)
      (present' : total'.isNull = false) :
      Relabels (some type :: columns) (total.encode ++ rest) (total'.encode ++ rest)
  /-- Totals that have not arrived as a whole. -/
  | cut {type : ColumnType} {bytes bytes' : Bytes} (columns : RowLayout)
      (plp : type.isPlp = true) (short : bytes.length < PlpTotal.width)
      (length : bytes'.length = bytes.length) : Relabels (some type :: columns) bytes bytes'

/-- Bodies of tokens that differ in the totals of PLP columns at most. -/
inductive RowToken.Relabels (columns : List ColumnType) : RowToken → Bytes → Bytes → Prop where
  | same (token : RowToken) (body : Bytes) : Relabels columns token body body
  | row {body body' : Bytes} (values : (RowLayout.full columns).Relabels body body') :
      Relabels columns .row body body'
  | bitmapRow {bitmap bytes bytes' : Bytes} (width : bitmap.length = bitmapSize columns.length)
      (values : (RowLayout.ofBitmap bitmap columns).Relabels bytes bytes') :
      Relabels columns .bitmapRow (bitmap ++ bytes) (bitmap ++ bytes')

/-! ### Cutting both off -/

/-- The bytes of one value that differ in its total at most. -/
def ColumnType.Relabeled (type : ColumnType) (bytes bytes' : Bytes) : Prop :=
  bytes' = bytes ∨ (type.isPlp = true ∧ SameButTotal bytes bytes')

theorem ColumnType.Relabeled.length {type : ColumnType} {bytes bytes' : Bytes}
    (relabeled : type.Relabeled bytes bytes') : bytes'.length = bytes.length := by
  rcases relabeled with same | ⟨-, same⟩
  · exact congrArg List.length same
  · exact same.length

theorem ColumnType.Relabeled.behind {type : ColumnType} {bytes bytes' : Bytes}
    (relabeled : type.Relabeled bytes bytes') :
    bytes'.drop PlpTotal.width = bytes.drop PlpTotal.width := by
  rcases relabeled with same | ⟨-, same⟩
  · exact congrArg _ same
  · exact same.behind

/-- Totals that are not those of NULL, in front of the same bytes. -/
theorem sameButTotal_encode {total total' : PlpTotal} (present : total.isNull = false)
    (present' : total'.isNull = false) (rest : Bytes) :
    SameButTotal (total.encode ++ rest) (total'.encode ++ rest) where
  length := by
    rw [List.length_append, List.length_append, PlpTotal.encode_length, PlpTotal.encode_length]
  behind := by
    rw [List.drop_left' total.encode_length, List.drop_left' total'.encode_length]
  null := by
    rw [PlpTotal.ofBytes_encode_append, PlpTotal.ofBytes_encode_append, present, present']

/-- The columns of two rows that differ in totals at most. -/
structure RowLayout.Relabeled (columns : RowLayout) (pieces pieces' : List (Option Bytes)) :
    Prop where
  nulls : pieces'.map Option.isNone = pieces.map Option.isNone
  present : ∀ (index : Nat) (bytes : Bytes), pieces[index]? = some (some bytes) →
    ∃ (type : ColumnType) (bytes' : Bytes), columns[index]? = some (some type) ∧
      pieces'[index]? = some (some bytes') ∧ type.Relabeled bytes bytes'

namespace RowLayout

variable {columns : RowLayout} {pieces pieces' : List (Option Bytes)}

/-- A row that is cut off differs from itself in nothing. -/
theorem relabeled_of_split {bytes rest : Bytes}
    (found : columns.split bytes = some (pieces, rest)) :
    columns.Relabeled pieces pieces := by
  refine ⟨rfl, fun index piece present => ?_⟩
  obtain ⟨type, payloads, column, -⟩ := written_of_split found present
  exact ⟨type, piece, column, present, .inl rfl⟩

theorem Relabeled.cons_none (relabeled : columns.Relabeled pieces pieces')
    (column : Option ColumnType) :
    Relabeled (column :: columns) (none :: pieces) (none :: pieces') := by
  refine ⟨congrArg (true :: ·) relabeled.nulls, fun index bytes present => ?_⟩
  cases index with
  | zero => cases present
  | succ index => exact relabeled.present index bytes present

theorem Relabeled.cons_some (relabeled : columns.Relabeled pieces pieces') {type : ColumnType}
    {bytes bytes' : Bytes} (value : type.Relabeled bytes bytes') :
    Relabeled (some type :: columns) (some bytes :: pieces) (some bytes' :: pieces') := by
  refine ⟨congrArg (false :: ·) relabeled.nulls, fun index other present => ?_⟩
  cases index with
  | zero =>
    cases present
    exact ⟨type, bytes', rfl, rfl, value⟩
  | succ index => exact relabeled.present index other present

/-- Two rows of which decoding reads equally much, and which are cut off alike. -/
structure CutAlike (columns : RowLayout) (bytes bytes' : Bytes) : Prop where
  reach : columns.reach bytes' = columns.reach bytes
  split : Option.Rel (fun cut cut' => columns.Relabeled cut.1 cut'.1)
    (columns.split bytes) (columns.split bytes')

theorem cutAlike_same (columns : RowLayout) (bytes : Bytes) : columns.CutAlike bytes bytes := by
  refine ⟨rfl, ?_⟩
  cases found : columns.split bytes with
  | none => exact .none
  | some cut => exact .some (relabeled_of_split found)

theorem CutAlike.absent {bytes bytes' : Bytes} (others : columns.CutAlike bytes bytes') :
    CutAlike (none :: columns) bytes bytes' := by
  refine ⟨others.reach, ?_⟩
  have tails := others.split
  rw [RowLayout.split, RowLayout.split]
  generalize columns.split bytes = cut at tails
  generalize columns.split bytes' = cut' at tails
  cases tails with
  | none => exact .none
  | some relabeled => exact .some (relabeled.cons_none none)

/-- Values that are not whole, and of which decoding reads equally much. -/
theorem cutAlike_of_short {type : ColumnType} {bytes bytes' : Bytes}
    (short : type.split bytes = none) (short' : type.split bytes' = none)
    (reach : type.reach bytes' = type.reach bytes) (columns : RowLayout) :
    CutAlike (some type :: columns) bytes bytes' := by
  constructor
  · rw [RowLayout.reach, RowLayout.reach, short, short']
    exact reach
  · rw [RowLayout.split, RowLayout.split, short, short']
    exact .none

/-- Values that are whole and differ in their total at most. -/
theorem CutAlike.present {type : ColumnType} {contents : Option (List Bytes)}
    {front front' rest rest' : Bytes} (others : columns.CutAlike rest rest')
    (written : WrittenValue type contents front) (written' : WrittenValue type contents front')
    (value : type.Relabeled front front') :
    CutAlike (some type :: columns) (front ++ rest) (front' ++ rest') := by
  have first := ColumnType.split_of_written written rest
  have first' := ColumnType.split_of_written written' rest'
  constructor
  · have length := value.length
    rw [RowLayout.reach, RowLayout.reach, first, first']
    dsimp only
    rw [others.reach, List.length_append, List.length_append]
    omega
  · have tails := others.split
    rw [RowLayout.split, RowLayout.split, first, first']
    dsimp only
    generalize columns.split rest = cut at tails
    generalize columns.split rest' = cut' at tails
    cases tails with
    | none => exact .none
    | some relabeled =>
      cases contents with
      | none => exact .some (relabeled.cons_none (some type))
      | some payloads => exact .some (relabeled.cons_some value)

/-- A PLP value ends where its chunks end. -/
theorem split_total {type : ColumnType} {total : PlpTotal} {rest : Bytes}
    (plp : type.isPlp = true) (present : total.isNull = false)
    (short : afterChunks rest = none) : type.split (total.encode ++ rest) = none := by
  have enough : ¬ (total.encode ++ rest).length < PlpTotal.width := by simp
  have missing : type.afterValue (total.encode ++ rest) = none := by
    rw [ColumnType.afterValue, if_pos plp, afterPlp, if_neg enough,
      PlpTotal.ofBytes_encode_append, if_neg (by simp [present]),
      List.drop_left' total.encode_length, short]
  rw [ColumnType.split, missing]

theorem reach_total {type : ColumnType} (plp : type.isPlp = true) (total : PlpTotal)
    (rest : Bytes) :
    type.reach (total.encode ++ rest) = PlpTotal.width + reachChunks rest := by
  have enough : ¬ (total.encode ++ rest).length < PlpTotal.width := by simp
  rw [ColumnType.reach, if_pos plp, reachPlp, if_neg enough,
    List.drop_left' total.encode_length]

/-- A total that has not arrived is not read. -/
theorem stops_of_short {type : ColumnType} {bytes : Bytes} (plp : type.isPlp = true)
    (short : bytes.length < PlpTotal.width) : type.split bytes = none ∧ type.reach bytes = 0 := by
  have missing : type.afterValue bytes = none := by
    rw [ColumnType.afterValue, if_pos plp, afterPlp, if_pos short]
  refine ⟨?_, ?_⟩
  · rw [ColumnType.split, missing]
  · rw [ColumnType.reach, if_pos plp, reachPlp, if_pos short]

/-- Whether chunks are whole does not depend on the total in front of them. -/
theorem CutAlike.total {type : ColumnType} {total total' : PlpTotal} {rest rest' : Bytes}
    {payloads : List Bytes} {chunks : Bytes} (others : columns.CutAlike rest rest')
    (plp : type.isPlp = true) (present : total.isNull = false)
    (present' : total'.isNull = false) (written : WrittenChunks payloads chunks) :
    CutAlike (some type :: columns) (total.encode ++ chunks ++ rest)
      (total'.encode ++ chunks ++ rest') :=
  others.present (.plp plp present written) (.plp plp present' written)
    (.inr ⟨plp, sameButTotal_encode present present' chunks⟩)

/-- Rows that differ in totals are cut off alike. -/
theorem Relabels.cutAlike {bytes bytes' : Bytes} (relabels : columns.Relabels bytes bytes') :
    columns.CutAlike bytes bytes' := by
  induction relabels with
  | same columns bytes => exact cutAlike_same columns bytes
  | nil rest rest' => exact ⟨rfl, .some ⟨rfl, fun _ _ present => by cases present⟩⟩
  | absent others inductionHypothesis => exact inductionHypothesis.absent
  | value written others inductionHypothesis =>
    exact inductionHypothesis.present written written (.inl rfl)
  | total plp present present' written others inductionHypothesis =>
    exact inductionHypothesis.total plp present present' written
  | @last type total total' columns rest plp present present' =>
    cases ends : afterChunks rest with
    | none =>
      refine cutAlike_of_short (split_total plp present ends) (split_total plp present' ends) ?_ _
      rw [reach_total plp, reach_total plp]
    | some left =>
      obtain ⟨payloads, chunks, written, rfl⟩ := afterChunks_eq_some_iff.1 ends
      rw [← List.append_assoc, ← List.append_assoc]
      exact (cutAlike_same columns left).total plp present present' written
  | cut columns plp short length =>
    obtain ⟨whole, reach⟩ := stops_of_short plp short
    obtain ⟨whole', reach'⟩ := stops_of_short plp (length ▸ short)
    exact cutAlike_of_short whole whole' (reach'.trans reach.symm) columns

end RowLayout

/-! ### Tokens -/

/-- The columns that are present are among those of the row. -/
theorem RowLayout.Relabeled.full {layout : RowLayout} {columns : List ColumnType}
    {pieces pieces' : List (Option Bytes)} (relabeled : layout.Relabeled pieces pieces')
    (among : ∀ (index : Nat) (type : ColumnType), layout[index]? = some (some type) →
      columns[index]? = some type) :
    (RowLayout.full columns).Relabeled pieces pieces' := by
  refine ⟨relabeled.nulls, fun index bytes present => ?_⟩
  obtain ⟨type, bytes', column, present', value⟩ := relabeled.present index bytes present
  refine ⟨type, bytes', ?_, present', value⟩
  rw [RowLayout.full, List.getElem?_map, among index type column]
  rfl

namespace RowToken

variable {token : RowToken} {columns : List ColumnType} {body body' : Bytes}

theorem Relabels.reach (relabels : token.Relabels columns body body') :
    token.reach columns body' = token.reach columns body := by
  cases relabels with
  | same => rfl
  | row values => exact values.cutAlike.reach
  | @bitmapRow bitmap bytes bytes' width values =>
    have enough : ¬ (bitmap ++ bytes).length < bitmapSize columns.length := by simp [width]
    have enough' : ¬ (bitmap ++ bytes').length < bitmapSize columns.length := by simp [width]
    unfold RowToken.reach
    dsimp only
    rw [if_neg enough, if_neg enough', List.take_left' width, List.take_left' width,
      List.drop_left' width, List.drop_left' width, values.cutAlike.reach]

theorem Relabels.split (relabels : token.Relabels columns body body') :
    Option.Rel (fun cut cut' => (RowLayout.full columns).Relabeled cut.1 cut'.1)
      (token.split columns body) (token.split columns body') := by
  cases relabels with
  | same =>
    cases found : token.split columns body with
    | none => exact .none
    | some cut =>
      refine .some ⟨rfl, fun index bytes present => ?_⟩
      obtain ⟨type, payloads, column, -⟩ := written_of_split found present
      refine ⟨type, bytes, ?_, present, .inl rfl⟩
      rw [RowLayout.full, List.getElem?_map, column]
      rfl
  | row values => exact values.cutAlike.split
  | @bitmapRow bitmap bytes bytes' width values =>
    have enough : ¬ (bitmap ++ bytes).length < bitmapSize columns.length := by simp [width]
    have enough' : ¬ (bitmap ++ bytes').length < bitmapSize columns.length := by simp [width]
    have cuts := values.cutAlike.split
    unfold RowToken.split
    dsimp only
    rw [if_neg enough, if_neg enough', List.take_left' width, List.take_left' width,
      List.drop_left' width, List.drop_left' width]
    generalize (RowLayout.ofBitmap bitmap columns).split bytes = cut at cuts
    generalize (RowLayout.ofBitmap bitmap columns).split bytes' = cut' at cuts
    cases cuts with
    | none => exact .none
    | some relabeled =>
      exact .some (relabeled.full fun index type => RowLayout.ofBitmap_getElem?)

end RowToken

/-! ### Values with other totals -/

/-- What can be seen of a slot without looking at bytes: its state, and how large the data is that
it owns and each component of it. -/
def Slot.shape (slot : Slot) : String × Option (Nat × List Nat) :=
  (slot.name, slot.value?.map fun value => (value.size, value.slices.map Slice.size))

/-- Whatever reads two values gives the same answers, however it is used. -/
structure Value.ReadAlike (type : ColumnType) (value : Value) (pool : Pool) (value' : Value)
    (pool' : Pool) : Prop where
  chunks : ∀ uses, ((ChunkReader.ofValue value' type).useAll pool' uses).2.2 =
    ((ChunkReader.ofValue value type).useAll pool uses).2.2
  segments : ∀ kind config ops, ((Stream.ofValue kind value' type config).useAll pool' ops).answer =
    ((Stream.ofValue kind value type config).useAll pool ops).answer

section Values

variable {type : ColumnType} {value value' : Value} {pool pool' : Pool}
  {others others' : List Slice}

/-- Bytes end in the chunks of one list of payloads at most. -/
theorem WrittenChunks.payloads_unique {payloads payloads' : List Bytes} {chunks : Bytes}
    (written : WrittenChunks payloads chunks) (written' : WrittenChunks payloads' chunks) :
    payloads' = payloads :=
  congrArg Contents.chunks
    ((Contents.ofChunks_of_written written').symm.trans (Contents.ofChunks_of_written written))

theorem sizes_of_map_bytesOf {slices : List Slice} {parts : List Bytes}
    (held : ∀ slice ∈ slices, pool.Holds slice) (same : slices.map pool.bytesOf = parts) :
    slices.map Slice.size = parts.map List.length := by
  rw [← same, List.map_map]
  exact List.map_congr_left fun slice member => (held slice member).symm

/-- Values that differ in their totals at most are made up of components of the same sizes. -/
theorem Value.Parts.sizes (parts : value.Parts type pool) (parts' : value'.Parts type pool')
    (held : ∀ slice ∈ value.slices, pool.Holds slice)
    (held' : ∀ slice ∈ value'.slices, pool'.Holds slice)
    (relabeled : type.Relabeled (value.bytes pool) (value'.bytes pool')) :
    value'.size = value.size ∧
      value'.slices.map Slice.size = value.slices.map Slice.size := by
  cases parts with
  | scalar plain slice =>
    cases parts' with
    | scalar _ slice' =>
      have here : (pool.bytesOf slice).length = slice.size := held slice List.mem_cons_self
      have there : (pool'.bytesOf slice').length = slice'.size := held' slice' List.mem_cons_self
      have size : slice'.size = slice.size := there.symm.trans (relabeled.length.trans here)
      exact ⟨size, congrArg (· :: []) size⟩
    | chunked plp => simp [plain] at plp
  | @chunked total payloads chunks slices plp present written made =>
    cases parts' with
    | scalar plain => simp [plp] at plain
    | @chunked total' payloads' chunks' slices' _ present' written' made' =>
      have bytes := ReceiveBuffer.bytes_of_map_bytesOf made
      have bytes' := ReceiveBuffer.bytes_of_map_bytesOf made'
      rw [List.flatten_cons, written.flatten_records] at bytes
      rw [List.flatten_cons, written'.flatten_records] at bytes'
      have behind : chunks' = chunks := by
        have same : ((Composite.ofList slices').bytes pool').drop PlpTotal.width =
            ((Composite.ofList slices).bytes pool).drop PlpTotal.width := relabeled.behind
        rwa [bytes, bytes', List.drop_left' total.encode_length,
          List.drop_left' total'.encode_length] at same
      subst behind
      cases written.payloads_unique written'
      have sizes : slices'.map Slice.size = slices.map Slice.size := by
        have here : slices.map Slice.size = _ := sizes_of_map_bytesOf held made
        have there : slices'.map Slice.size = _ := sizes_of_map_bytesOf held' made'
        rw [here, there, List.map_cons, List.map_cons, total.encode_length, total'.encode_length]
      exact ⟨totalSize_congr sizes, sizes⟩

/-- Readers start abreast over values that differ in their totals at most. -/
theorem ChunkReader.abreast_ofValue (accounts : pool.Accounts (value.slices ++ others))
    (accounts' : pool'.Accounts (value'.slices ++ others'))
    (countable : (value.bytes pool).length < Word.modulus)
    (sizes : value'.slices.map Slice.size = value.slices.map Slice.size)
    (relabeled : type.Relabeled (value.bytes pool) (value'.bytes pool')) {readAs : ColumnType}
    (kind : readAs.isPlp = type.isPlp) :
    (ChunkReader.ofValue value readAs).Abreast pool others
      (ChunkReader.ofValue value' readAs) pool' others' := by
  have countable' : (value'.bytes pool').length < Word.modulus := relabeled.length ▸ countable
  refine ⟨⟨(FlatReader.mirrors_ofValue accounts countable readAs).sound,
    (FlatReader.mirrors_ofValue accounts' countable' readAs).sound, rfl, ?_⟩, ?_⟩
  · rw [ChunkReader.live_ofValue, ChunkReader.live_ofValue, sizes]
  · rw [ChunkReader.unread_ofValue, ChunkReader.unread_ofValue]
    rcases relabeled with same | ⟨plp, same⟩
    · exact .inl same
    · exact .inr ⟨rfl, kind.trans plp, same⟩

theorem Value.readAlike (accounts : pool.Accounts (value.slices ++ others))
    (accounts' : pool'.Accounts (value'.slices ++ others'))
    (countable : (value.bytes pool).length < Word.modulus)
    (sizes : value'.slices.map Slice.size = value.slices.map Slice.size)
    (relabeled : type.Relabeled (value.bytes pool) (value'.bytes pool')) {readAs : ColumnType}
    (kind : readAs.isPlp = type.isPlp) : value.ReadAlike readAs pool value' pool' := by
  have abreast := ChunkReader.abreast_ofValue accounts accounts' countable sizes relabeled kind
  refine ⟨abreast.useAll, fun kind config ops => ?_⟩
  exact Stream.Abreast.useAll ⟨abreast, rfl⟩ ops

end Values

/-! ### Rows that were decoded -/

/-- The data of a column is made up as its type says. -/
theorem WireImage.parts {pool : Pool} {layout : RowLayout} {slots : List Slot} {bytes : Bytes}
    (image : WireImage pool layout slots bytes) {index : Nat} {value : Value}
    (owned : slots[index]? = some (.owned value)) :
    ∃ type, layout[index]? = some (some type) ∧ value.Parts type pool := by
  induction image generalizing index with
  | nil => cases owned
  | leftOut _ inductionHypothesis | null _ _ inductionHypothesis =>
    cases index with
    | zero => cases owned
    | succ index => exact inductionHypothesis owned
  | @owned type _ _ _ _ _ _ _ parts _ inductionHypothesis =>
    cases index with
    | zero =>
      cases owned
      exact ⟨type, rfl, parts⟩
    | succ index => exact inductionHypothesis owned

theorem RowToken.Image.parts {token : RowToken} {columns : List ColumnType} {pool : Pool}
    {row : Row} {bytes : Bytes} (image : token.Image columns pool row bytes) {index : Nat}
    {value : Value} (owned : row.slots[index]? = some (.owned value)) :
    ∃ type, columns[index]? = some type ∧ value.Parts type pool := by
  cases image with
  | row image =>
    obtain ⟨type, column, parts⟩ := image.parts owned
    exact ⟨type, RowLayout.full_getElem? column, parts⟩
  | bitmapRow _ image =>
    obtain ⟨type, column, parts⟩ := image.parts owned
    exact ⟨type, RowLayout.ofBitmap_getElem? column, parts⟩

/-- Two rows with slots of the same shape, and columns that are read alike. A column may be read
as one of another type, if both types are PLP types or neither is. -/
structure Row.Alike (columns : List ColumnType) (row : Row) (pool : Pool) (row' : Row)
    (pool' : Pool) : Prop where
  shapes : row'.slots.map Slot.shape = row.slots.map Slot.shape
  reads : ∀ (index : Nat) (value : Value), row.slots[index]? = some (.owned value) →
    ∃ (type : ColumnType) (value' : Value), columns[index]? = some type ∧
      row'.slots[index]? = some (.owned value') ∧
      ∀ readAs : ColumnType, readAs.isPlp = type.isPlp →
        value.ReadAlike readAs pool value' pool'

/-- A row that was decoded from the pieces of its columns. The other slices are those in front of
the row's and behind them. -/
structure Row.Shows (row : Row) (columns : List ColumnType) (pool : Pool)
    (front back : List Slice) (pieces : List (Option Bytes)) : Prop where
  accounts : pool.Accounts (front ++ (row.slices ++ back))
  fresh : ∀ slot ∈ row.slots, slot.IsFresh
  wires : row.slots.map (Slot.wire? pool) = pieces
  parts : ∀ (index : Nat) (value : Value), row.slots[index]? = some (.owned value) →
    ∃ type, columns[index]? = some type ∧ value.Parts type pool
  countable : ∀ piece, some piece ∈ pieces → piece.length < Word.modulus

namespace Row

variable {row row' : Row} {columns : List ColumnType} {pool pool' : Pool}
  {front back front' back' : List Slice} {pieces pieces' : List (Option Bytes)}

theorem Shows.nulls (shows : row.Shows columns pool front back pieces) :
    row.slots.map Slot.isNull = pieces.map Option.isNone := by
  rw [← shows.wires, List.map_map]
  refine List.map_congr_left fun slot member => ?_
  rcases shows.fresh slot member with rfl | ⟨value, rfl⟩ <;> rfl

theorem Shows.piece (shows : row.Shows columns pool front back pieces) {index : Nat}
    {value : Value} (owned : row.slots[index]? = some (.owned value)) :
    pieces[index]? = some (some (value.bytes pool)) := by
  rw [← shows.wires, List.getElem?_map, owned]
  rfl

theorem Shows.exists_owned (shows : row.Shows columns pool front back pieces) {index : Nat}
    {bytes : Bytes} (present : pieces[index]? = some (some bytes)) :
    ∃ value, row.slots[index]? = some (.owned value) ∧ value.bytes pool = bytes := by
  rw [← shows.wires, List.getElem?_map] at present
  obtain ⟨slot, there, wire⟩ := Option.map_eq_some_iff.1 present
  rcases shows.fresh slot (List.mem_of_getElem? there) with rfl | ⟨value, rfl⟩
  · cases wire
  · exact ⟨value, there, Option.some.inj wire⟩

theorem exists_accounts (accounts : pool.Accounts (front ++ (row.slices ++ back)))
    {index : Nat} {value : Value} (owned : row.slots[index]? = some (.owned value)) :
    ∃ others, pool.Accounts (value.slices ++ others) := by
  have taken : row.take index = .ok (some value, row.setSlot index .transferred) := by
    unfold Row.take
    rw [owned]
  exact ⟨_, Row.accounts_take taken accounts⟩

/-- Where one of two rows that differ in totals at most owns a value, the other does so too. Both
values have components of the same sizes and are read alike. -/
theorem Shows.pair (shows : row.Shows columns pool front back pieces)
    (shows' : row'.Shows columns pool' front' back' pieces')
    (relabeled : (RowLayout.full columns).Relabeled pieces pieces') {index : Nat} {value : Value}
    (owned : row.slots[index]? = some (.owned value)) :
    ∃ (type : ColumnType) (value' : Value), columns[index]? = some type ∧
      row'.slots[index]? = some (.owned value') ∧
      (Slot.owned value').shape = (Slot.owned value).shape ∧
      ∀ readAs : ColumnType, readAs.isPlp = type.isPlp →
        value.ReadAlike readAs pool value' pool' := by
  obtain ⟨type, bytes', column, present', same⟩ := relabeled.present _ _ (shows.piece owned)
  have column := RowLayout.full_getElem? column
  obtain ⟨value', owned', rfl⟩ := shows'.exists_owned present'
  obtain ⟨others, accounts⟩ := exists_accounts shows.accounts owned
  obtain ⟨others', accounts'⟩ := exists_accounts shows'.accounts owned'
  obtain ⟨_, column', parts⟩ := shows.parts index value owned
  cases column.symm.trans column'
  obtain ⟨_, column', parts'⟩ := shows'.parts index value' owned'
  cases column.symm.trans column'
  have held : ∀ slice ∈ value.slices, pool.Holds slice :=
    fun slice member => accounts.holds (List.mem_append_left _ member)
  have held' : ∀ slice ∈ value'.slices, pool'.Holds slice :=
    fun slice member => accounts'.holds (List.mem_append_left _ member)
  obtain ⟨size, sizes⟩ := parts.sizes parts' held held' same
  have countable := shows.countable _ (List.mem_of_getElem? (shows.piece owned))
  refine ⟨type, value', column, owned', ?_, fun readAs kind => ?_⟩
  · show (_, some (value'.size, value'.slices.map Slice.size)) =
      (_, some (value.size, value.slices.map Slice.size))
    rw [size, sizes]
    rfl
  · exact Value.readAlike accounts accounts' countable sizes same kind

/-- Rows that differ in totals at most have slots of the same shape. -/
theorem Shows.shapes (shows : row.Shows columns pool front back pieces)
    (shows' : row'.Shows columns pool' front' back' pieces')
    (relabeled : (RowLayout.full columns).Relabeled pieces pieces') :
    row'.slots.map Slot.shape = row.slots.map Slot.shape := by
  have nulls : row'.slots.map Slot.isNull = row.slots.map Slot.isNull := by
    rw [shows.nulls, shows'.nulls, relabeled.nulls]
  refine List.ext_getElem? fun index => ?_
  have null : (row'.slots.map Slot.isNull)[index]? = (row.slots.map Slot.isNull)[index]? := by
    rw [nulls]
  rw [List.getElem?_map, List.getElem?_map] at null ⊢
  cases there : row.slots[index]? with
  | none =>
    rw [there] at null
    rw [Option.map_eq_none_iff.1 null]
  | some slot =>
    rcases shows.fresh slot (List.mem_of_getElem? there) with rfl | ⟨value, rfl⟩
    · rw [there] at null
      obtain ⟨slot', there', isNull⟩ := Option.map_eq_some_iff.1 null
      rw [there']
      cases slot' with
      | null => rfl
      | owned | transferred | released => cases isNull
    · obtain ⟨_, value', -, there', shape, -⟩ := shows.pair shows' relabeled there
      rw [there']
      exact congrArg some shape

/-- Rows that differ in totals at most are alike. -/
theorem Shows.alike (shows : row.Shows columns pool front back pieces)
    (shows' : row'.Shows columns pool' front' back' pieces')
    (relabeled : (RowLayout.full columns).Relabeled pieces pieces') :
    row.Alike columns pool row' pool' := by
  refine ⟨?_, fun index value owned => ?_⟩
  · exact shows.shapes shows' relabeled
  · obtain ⟨type, value', column, owned', -, reads⟩ := shows.pair shows' relabeled owned
    exact ⟨type, value', column, owned', reads⟩

end Row

namespace Session

variable {session session' : Session} {token : RowToken} {columns : List ColumnType}

/-- Decoding a row that is readable as a whole reads as much as it reaches. -/
theorem Sound.decode_shows (sound : session.Sound) (held : session.buffer.block.isSome)
    {pieces : List (Option Bytes)} {rest : Bytes}
    (found : token.split columns session.unread = some (pieces, rest)) :
    ∃ pool row back, token.decode session.buffer session.pool columns =
        ⟨pool, { session.buffer with
          reader := session.buffer.reader + token.reach columns session.unread }, .ok row⟩ ∧
      row.Shows columns pool session.buffer.slices back pieces := by
  obtain ⟨pool, after, row, decoded, takes, fresh, wires⟩ :=
    ReceiveBuffer.Sound.decode sound held found
  obtain ⟨front, cut, image⟩ := ReceiveBuffer.Sound.image_of_decode sound held found decoded
  have moved := ReceiveBuffer.onlyRead_decode token session.buffer session.pool columns
  rw [decoded] at moved
  have place := ReceiveBuffer.Sound.eq_of_takes sound takes moved cut
  have reach := RowToken.reach_of_split found
  have length : session.unread.length = front.length + rest.length := by
    rw [← List.length_append, ← cut]
    rfl
  have count : token.reach columns session.unread = front.length := by omega
  refine ⟨pool, row, session.handedOut, ?_, ?_, fresh, wires, ?_, fun piece member => ?_⟩
  · rw [count, ← place, decoded]
  · have accounts := takes.sound.accounts
    rw [place] at accounts
    exact accounts
  · exact fun index value owned => image.parts owned
  · have inside := (RowToken.length_le_of_split found).2 piece member
    have limit := Nat.le_trans inside (ReceiveBuffer.Sound.length_readable_le sound)
    exact Nat.lt_of_le_of_lt limit (by decide)

/-- Decoding a row that is not whole fails where it has read as much as it reaches. -/
theorem Sound.decode_stops (sound : session.Sound) (held : session.buffer.block.isSome)
    (short : token.split columns session.unread = none) :
    ∃ pool, token.decode session.buffer session.pool columns =
      ⟨pool, { session.buffer with
        reader := session.buffer.reader + token.reach columns session.unread },
        .error (.client .decodePreconditionViolated)⟩ := by
  have stops := ReceiveBuffer.Sound.decode_stopsAt sound held short
  generalize token.decode session.buffer session.pool columns = reading at stops
  obtain ⟨pool, _, _⟩ := reading
  obtain ⟨rfl, rfl⟩ := stops
  exact ⟨pool, rfl⟩

/-- Two buffers hold the same bytes but for totals of PLP columns, none of which is that of NULL.
Asking if a row is readable gives the same answer for both, and decoding moves both cursors equally
far. It fails for both for want of bytes, or it gives two rows whose slots have the same states and
components of the same sizes. Where one row owns the data of a column the other one does so too,
and a chunk reader or a stream gives the same answers over both, whatever is done with it. -/
theorem decoding_ignores_totals (reachable : session.Reachable) (reachable' : session'.Reachable)
    (held : session.buffer.block.isSome) (held' : session'.buffer.block.isSome)
    (relabels : token.Relabels columns session.unread session'.unread) :
    ∃ whole count pool pool' result result',
      session.Answers token columns whole ∧ session'.Answers token columns whole ∧
      token.decode session.buffer session.pool columns =
        ⟨pool, { session.buffer with reader := session.buffer.reader + count }, result⟩ ∧
      token.decode session'.buffer session'.pool columns =
        ⟨pool', { session'.buffer with reader := session'.buffer.reader + count }, result'⟩ ∧
      (whole = false → result = .error (.client .decodePreconditionViolated) ∧
        result' = .error (.client .decodePreconditionViolated)) ∧
      (whole = true → ∃ row row', result = .ok row ∧ result' = .ok row' ∧
        row.Alike columns pool row' pool') := by
  have sound := reachable.sound
  have sound' := reachable'.sound
  have answers := sound.answers token columns
  have answers' := sound'.answers token columns
  have cuts := relabels.split
  generalize found : token.split columns session.unread = cut at answers cuts
  generalize found' : token.split columns session'.unread = cut' at answers' cuts
  cases cuts with
  | none =>
    obtain ⟨pool, stops⟩ := sound.decode_stops held found
    obtain ⟨pool', stops'⟩ := sound'.decode_stops held' found'
    rw [relabels.reach] at stops'
    exact ⟨false, _, pool, pool', _, _, answers, answers', stops, stops', fun _ => ⟨rfl, rfl⟩,
      fun whole => by cases whole⟩
  | some relabeled =>
    obtain ⟨pool, row, back, decoded, shows⟩ := sound.decode_shows held found
    obtain ⟨pool', row', back', decoded', shows'⟩ := sound'.decode_shows held' found'
    rw [relabels.reach] at decoded'
    exact ⟨true, _, pool, pool', _, _, answers, answers', decoded, decoded',
      fun short => (by cases short),
      fun _ => ⟨row, row', rfl, rfl, shows.alike shows' relabeled⟩⟩

/-- A large object in two chunks, as it follows its total. -/
def objectChunks : Bytes :=
  (ChunkLength.mk 2).encode ++ [1, 2] ++
    ((ChunkLength.mk 1).encode ++ [3] ++ (ChunkLength.mk 0).encode)

/-- A row with a bitmap that leaves out the second of three columns. The first one is a large
object that declares some total. -/
def declaringBody (total : PlpTotal) : Bytes :=
  [2] ++ (total.encode ++ objectChunks ++ [1, 7])

/-- A session that has received this row. -/
def declaringSession (total : PlpTotal) : Session :=
  (Session.fresh {} threeColumns).after [.buffer (.append (declaringBody total))]

theorem decoding_ignores_totals_declaringSession :
    ∃ count pool pool' row row',
      RowToken.bitmapRow.decode (declaringSession .unknown).buffer (declaringSession .unknown).pool
          threeColumns =
        ⟨pool, { (declaringSession .unknown).buffer with reader := 0 + count }, .ok row⟩ ∧
      RowToken.bitmapRow.decode (declaringSession ⟨1⟩).buffer (declaringSession ⟨1⟩).pool
          threeColumns =
        ⟨pool', { (declaringSession ⟨1⟩).buffer with reader := 0 + count }, .ok row'⟩ ∧
      row.Alike threeColumns pool row' pool' := by
  have new : Session.new {} threeColumns = .ok (Session.fresh {} threeColumns) := rfl
  have reachable : (declaringSession .unknown).Reachable :=
    (Session.Reachable.new new).after (by decide)
  have reachable' : (declaringSession ⟨1⟩).Reachable := (Session.Reachable.new new).after (by decide)
  have received : (declaringSession .unknown).unread = declaringBody .unknown := by decide +kernel
  have received' : (declaringSession ⟨1⟩).unread = declaringBody ⟨1⟩ := by decide +kernel
  have object : WrittenChunks [[1, 2], [3]] objectChunks :=
    .chunk rfl rfl (.chunk rfl rfl .terminator)
  have relabels : RowToken.bitmapRow.Relabels threeColumns (declaringSession .unknown).unread
      (declaringSession ⟨1⟩).unread := by
    rw [received, received']
    exact .bitmapRow rfl (.total rfl (by decide) (by decide) object (.same _ _))
  obtain ⟨whole, count, pool, pool', result, result', answers, -, decoded, decoded', -, alike⟩ :=
    decoding_ignores_totals reachable reachable' (by decide) (by decide) relabels
  have yes : (RowToken.bitmapRow.split threeColumns (declaringSession .unknown).unread).isSome =
      true := by decide +kernel
  have answered := reachable.sound.answers .bitmapRow threeColumns
  rw [yes] at answered
  cases (Reading.mk.inj (answers.symm.trans answered)).2.2
  obtain ⟨row, row', rfl, rfl, same⟩ := alike rfl
  exact ⟨count, pool, pool', row, row', decoded, decoded', same⟩

end Session

end TabularStream
