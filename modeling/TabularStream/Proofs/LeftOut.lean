/-
This file proves that a row with a bitmap and one without carry the same row. The bytes of a row
without a bitmap are the fields of its columns, one after the other. Some of the columns that are
NULL can be marked in a bitmap and their fields, which hold nothing but a NULL marker, left out. Then
the other layout cuts the bytes into the same pieces, so both rows are decoded into slots in the same
states with the same data, also where a column keeps its marker.

The induction is on the fields. Since each column moves the others to the front, the columns that are
left out are given by a function of the index, for which the bitmap stands.
-/

import TabularStream.Proofs.Acceptance

namespace TabularStream

/-! ### Bitmaps -/

/-- A bitmap marks just the given ones of a number of columns. Its other bits are arbitrary. -/
structure Marks (columns : Nat) (bitmap : Bytes) (absent : Nat → Bool) : Prop where
  width : bitmap.length = bitmapSize columns
  bits : ∀ index, index < columns → isMarkedNull bitmap index = absent index

/-- The byte with the given bits, the least significant one first. -/
def byteOfBits (bits : Nat → Bool) : UInt8 :=
  UInt8.ofBitVec (BitVec.ofBoolListLE ((List.range 8).map bits))

theorem testBit_byteOfBits (bits : Nat → Bool) {index : Nat} (inside : index < 8) :
    (byteOfBits bits).toNat.testBit index = bits index := by
  show (BitVec.ofBoolListLE ((List.range 8).map bits)).getLsbD index = bits index
  rw [BitVec.getLsbD_ofBoolListLE, List.getD_eq_getElem?_getD, List.getElem?_map,
    List.getElem?_range inside]
  rfl

/-- Any columns can be marked. -/
theorem exists_marks (columns : Nat) (absent : Nat → Bool) :
    ∃ bitmap, Marks columns bitmap absent := by
  refine ⟨(List.range (bitmapSize columns)).map fun byte =>
    byteOfBits fun bit => absent (8 * byte + bit), ?_, fun index inside => ?_⟩
  · rw [List.length_map, List.length_range]
  · have byte : index / 8 < bitmapSize columns := by
      unfold bitmapSize
      omega
    have place : 8 * (index / 8) + index % 8 = index := Nat.div_add_mod index 8
    unfold isMarkedNull
    rw [List.getD_eq_getElem?_getD, List.getElem?_map, List.getElem?_range byte, Option.map_some,
      Option.getD_some, testBit_byteOfBits _ (Nat.mod_lt index (by decide)), place]

/-! ### Fields -/

/-- The bytes of each column of a row, with the contents of the columns. -/
inductive WrittenFields : List ColumnType → List (Option (List Bytes)) → List Bytes → Prop where
  | nil : WrittenFields [] [] []
  | cons {type : ColumnType} {columns : List ColumnType} {content : Option (List Bytes)}
      {contents : List (Option (List Bytes))} {field : Bytes} {fields : List Bytes}
      (value : WrittenValue type content field) (others : WrittenFields columns contents fields) :
      WrittenFields (type :: columns) (content :: contents) (field :: fields)

/-- The fields of the columns that are not left out. -/
def withoutFields (absent : Nat → Bool) (fields : List Bytes) : Bytes :=
  (fields.mapIdx fun index field => if absent index then [] else field).flatten

/-- The layout of a row that leaves out some columns. -/
def RowLayout.without (absent : Nat → Bool) (columns : List ColumnType) : RowLayout :=
  columns.mapIdx fun index type => if absent index then none else some type

variable {columns : List ColumnType} {contents : List (Option (List Bytes))} {fields : List Bytes}
  {absent : Nat → Bool} {bitmap : Bytes}

/-- The pieces of a row: the field of each column that is not NULL. -/
def piecesOf (contents : List (Option (List Bytes))) (fields : List Bytes) : List (Option Bytes) :=
  contents.zipWith (fun content field => content.map fun _ => field) fields

theorem withoutFields_cons (absent : Nat → Bool) (field : Bytes) (fields : List Bytes) :
    withoutFields absent (field :: fields) = (if absent 0 then [] else field) ++
      withoutFields (fun index => absent (index + 1)) fields := by
  unfold withoutFields
  rw [List.mapIdx_cons, List.flatten_cons]

theorem RowLayout.without_cons (absent : Nat → Bool) (type : ColumnType)
    (columns : List ColumnType) :
    without absent (type :: columns) = (if absent 0 then none else some type) ::
      without (fun index => absent (index + 1)) columns :=
  List.mapIdx_cons

theorem withoutFields_none (fields : List Bytes) :
    withoutFields (fun _ => false) fields = fields.flatten := by
  induction fields with
  | nil => rfl
  | cons field fields inductionHypothesis =>
    rw [withoutFields_cons, inductionHypothesis]
    rfl

theorem RowLayout.without_none (columns : List ColumnType) :
    without (fun _ => false) columns = full columns := by
  induction columns with
  | nil => rfl
  | cons type columns inductionHypothesis =>
    rw [without_cons, inductionHypothesis]
    rfl

/-- A bitmap stands for the columns that it marks. -/
theorem Marks.ofBitmap (marks : Marks columns.length bitmap absent) :
    RowLayout.ofBitmap bitmap columns = RowLayout.without absent columns := by
  refine List.ext_getElem? fun index => ?_
  unfold RowLayout.ofBitmap RowLayout.without
  rw [List.getElem?_mapIdx, List.getElem?_mapIdx]
  cases found : columns[index]? with
  | none => rfl
  | some type =>
    have inside : index < columns.length := (List.getElem?_eq_some_iff.1 found).1
    rw [Option.map_some, Option.map_some, marks.bits index inside]

/-- Whatever NULL columns are left out, the pieces are the same. -/
theorem WrittenFields.split (written : WrittenFields columns contents fields)
    (nulls : ∀ index, index < columns.length → absent index = true → contents[index]? = some none)
    (rest : Bytes) :
    (RowLayout.without absent columns).split (withoutFields absent fields ++ rest) =
      some (piecesOf contents fields, rest) := by
  induction written generalizing absent with
  | nil => rfl
  | @cons type columns content contents field fields value others inductionHypothesis =>
    have later := @inductionHypothesis (fun index => absent (index + 1))
      fun index inside marked => nulls (index + 1) (Nat.succ_lt_succ inside) marked
    rw [RowLayout.without_cons, withoutFields_cons, List.append_assoc]
    cases first : absent 0 with
    | true =>
      have null : some content = some none := nulls 0 (Nat.succ_pos _) first
      cases null
      show ((RowLayout.without _ columns).split (withoutFields _ fields ++ rest)).map _ = _
      rw [later]
      rfl
    | false =>
      show (RowLayout.split (some type :: RowLayout.without _ columns)
        (field ++ (withoutFields _ fields ++ rest))) = _
      rw [RowLayout.split, ColumnType.split_of_written value]
      dsimp only
      rw [later]
      rfl

/-- The bytes of a row without a bitmap are its fields. -/
theorem WrittenFields.split_row (written : WrittenFields columns contents fields) (rest : Bytes) :
    RowToken.row.split columns (fields.flatten ++ rest) =
      some (piecesOf contents fields, rest) := by
  have found : (RowLayout.without (fun _ => false) columns).split
      (withoutFields (fun _ => false) fields ++ rest) = some (piecesOf contents fields, rest) :=
    written.split (fun _ _ marked => absurd marked Bool.false_ne_true) rest
  rw [withoutFields_none, RowLayout.without_none] at found
  exact found

theorem WrittenFields.split_bitmapRow (written : WrittenFields columns contents fields)
    (marks : Marks columns.length bitmap absent)
    (nulls : ∀ index, index < columns.length → absent index = true → contents[index]? = some none)
    (rest : Bytes) :
    RowToken.bitmapRow.split columns (bitmap ++ withoutFields absent fields ++ rest) =
      some (piecesOf contents fields, rest) := by
  have found := written.split nulls rest
  have enough : ¬ (bitmap ++ (withoutFields absent fields ++ rest)).length <
      bitmapSize columns.length := by
    rw [List.length_append, marks.width]
    omega
  rw [List.append_assoc, RowToken.split, if_neg enough, List.take_left' marks.width,
    List.drop_left' marks.width, marks.ofBitmap, found]

/-- The body of a row without a bitmap is its fields. -/
theorem written_row_iff {body : Bytes} : RowToken.row.Written columns contents body ↔
    ∃ fields, WrittenFields columns contents fields ∧ body = fields.flatten := by
  constructor
  · rintro ⟨values⟩
    induction columns generalizing contents body with
    | nil =>
      cases values
      exact ⟨[], .nil, rfl⟩
    | cons type columns inductionHypothesis =>
      cases values with
      | present value others =>
        obtain ⟨fields, written, rfl⟩ := inductionHypothesis others
        exact ⟨_ :: fields, .cons value written, rfl⟩
  · rintro ⟨fields, written, rfl⟩
    refine .row ?_
    induction written with
    | nil => exact .nil
    | cons value _ inductionHypothesis => exact .present value inductionHypothesis

/-! ### Decoding -/

namespace Session

variable {session : Session}

/-- The answer is yes exactly if the unread bytes start with a body. -/
theorem Sound.answers_true_iff (sound : session.Sound) {token : RowToken} :
    session.Answers token columns true ↔ ∃ contents front rest,
      token.Written columns contents front ∧ session.unread = front ++ rest :=
  (answers_iff sound).trans RowToken.isSome_split_iff

/-- A row that is decoded shows its pieces, and the cursor is at its end. -/
theorem Sound.decode_seen (sound : session.Sound) (held : session.buffer.block.isSome)
    {token : RowToken} {pieces : List (Option Bytes)} {front rest : Bytes}
    (found : token.split columns (front ++ rest) = some (pieces, rest))
    (cut : session.unread = front ++ rest) :
    ∃ pool row, token.decode session.buffer session.pool columns =
        ⟨pool, { session.buffer with reader := session.buffer.reader + front.length }, .ok row⟩ ∧
      row.seen pool = pieces.map seenPiece := by
  rw [← cut] at found
  obtain ⟨pool, row, decoded, fresh, wires, holds⟩ := sound.decode_of_split held found cut
  refine ⟨pool, row, decoded, Row.seen_eq fresh wires holds fun piece member => ?_⟩
  exact Nat.le_trans ((RowToken.length_le_of_split found).2 piece member)
    (ReceiveBuffer.Sound.length_readable_le sound)

/-- A row with a bitmap carries the row that it leaves NULL columns out of. The body of a row without
a bitmap is made of the fields of its columns. Mark any columns that are NULL in a bitmap, leave out
their fields, and let a session receive the rest after the bitmap: that is a whole body, decoding
takes just this body, and the row shows what the other shows, the states of its slots and the bytes
of each column. -/
theorem bitmap_rows_carry_rows {session' : Session} (reachable : session.Reachable)
    (held : session.buffer.block.isSome) (reachable' : session'.Reachable)
    (held' : session'.buffer.block.isSome) (columns : List ColumnType) :
    (session.Answers .row columns true ↔ ∃ contents fields rest,
        WrittenFields columns contents fields ∧ session.unread = fields.flatten ++ rest) ∧
      ∀ contents fields rest, WrittenFields columns contents fields →
        session.unread = fields.flatten ++ rest →
        ∀ absent, (∀ index, index < columns.length → absent index = true →
            contents[index]? = some none) →
          (∃ bitmap, Marks columns.length bitmap absent) ∧
          ∀ bitmap rest', Marks columns.length bitmap absent →
            session'.unread = bitmap ++ withoutFields absent fields ++ rest' →
            session'.Answers .bitmapRow columns true ∧
            ∃ pool row pool' row',
              RowToken.row.decode session.buffer session.pool columns =
                ⟨pool, { session.buffer with
                  reader := session.buffer.reader + fields.flatten.length }, .ok row⟩ ∧
              RowToken.bitmapRow.decode session'.buffer session'.pool columns =
                ⟨pool', { session'.buffer with
                  reader := session'.buffer.reader +
                    (bitmap ++ withoutFields absent fields).length }, .ok row'⟩ ∧
              row.seen pool = (piecesOf contents fields).map seenPiece ∧
              row'.seen pool' = row.seen pool := by
  have sound := reachable.sound
  have sound' := reachable'.sound
  refine ⟨sound.answers_true_iff.trans ⟨?_, ?_⟩, ?_⟩
  · rintro ⟨contents, body, rest, whole, cut⟩
    obtain ⟨fields, written, rfl⟩ := written_row_iff.1 whole
    exact ⟨contents, fields, rest, written, cut⟩
  · rintro ⟨contents, fields, rest, written, cut⟩
    exact ⟨contents, _, rest, written_row_iff.2 ⟨fields, written, rfl⟩, cut⟩
  · intro contents fields rest written cut absent nulls
    refine ⟨exists_marks columns.length absent, fun bitmap rest' marks cut' => ?_⟩
    obtain ⟨pool, row, decoded, seen⟩ := sound.decode_seen held (written.split_row rest) cut
    have found := written.split_bitmapRow marks nulls rest'
    obtain ⟨pool', row', decoded', seen'⟩ := sound'.decode_seen held' found cut'
    have answers := sound'.answers .bitmapRow columns
    rw [cut', found] at answers
    exact ⟨answers, pool, row, pool', row', decoded, decoded', seen, seen'.trans seen.symm⟩

/-- Eight columns for small numbers, and one for large binary objects. -/
def nineColumns : List ColumnType :=
  List.replicate 8 ⟨.intN, .byte, 4, .usAscii, 0, 0⟩ ++ [⟨.varbinaryMax, .part, 0, .usAscii, 0, 0⟩]

/-- The fields of a row that is NULL but for its first number. -/
def nineFields : List Bytes :=
  ([1] ++ [7]) :: List.replicate 7 [0] ++ [PlpTotal.null.encode]

/-- A session that has received these fields and the byte that announces the next row. -/
def fullSession : Session :=
  (Session.fresh {} nineColumns).after [.buffer (.append (nineFields.flatten ++ [0xD2]))]

/-- The columns of the second number and of the object. -/
def isPruned (index : Nat) : Bool := index == 1 || index == 8

/-- A session that has received the same row without these columns, which are marked in the two bytes
of a bitmap. The other numbers keep their markers. -/
def prunedSession : Session :=
  (Session.fresh {} nineColumns).after
    [.buffer (.append ([0x02, 0xFF] ++ [1, 7, 0, 0, 0, 0, 0, 0]))]

theorem bitmap_rows_carry_rows_prunedSession :
    prunedSession.Answers .bitmapRow nineColumns true ∧
      ∃ pool row pool' row',
        RowToken.row.decode fullSession.buffer fullSession.pool nineColumns =
          ⟨pool, { fullSession.buffer with reader := 17 }, .ok row⟩ ∧
        RowToken.bitmapRow.decode prunedSession.buffer prunedSession.pool nineColumns =
          ⟨pool', { prunedSession.buffer with reader := 10 }, .ok row'⟩ ∧
        row'.seen pool' = row.seen pool := by
  have new : Session.new {} nineColumns = .ok (Session.fresh {} nineColumns) := rfl
  have reachable : fullSession.Reachable := (Session.Reachable.new new).after (by decide)
  have reachable' : prunedSession.Reachable := (Session.Reachable.new new).after (by decide)
  have null : WrittenValue ⟨.intN, .byte, 4, .usAscii, 0, 0⟩ none [0] := .null rfl rfl rfl
  have written : WrittenFields nineColumns (some [[7]] :: List.replicate 8 none) nineFields :=
    .cons (.scalar rfl rfl rfl rfl) (.cons null (.cons null (.cons null (.cons null (.cons null
      (.cons null (.cons null (.cons (.plpNull rfl rfl) .nil))))))))
  have marks : Marks nineColumns.length [0x02, 0xFF] isPruned := ⟨rfl, by decide⟩
  have cut : fullSession.unread = nineFields.flatten ++ [0xD2] := by decide +kernel
  have cut' : prunedSession.unread = [0x02, 0xFF] ++ withoutFields isPruned nineFields ++ [] := by
    decide +kernel
  obtain ⟨-, carries⟩ :=
    bitmap_rows_carry_rows reachable (by decide) reachable' (by decide) nineColumns
  obtain ⟨-, same⟩ := carries _ _ _ written cut isPruned fun index _ pruned => by
    rcases Bool.or_eq_true_iff.1 pruned with second | last
    · obtain rfl := beq_iff_eq.1 second
      rfl
    · obtain rfl := beq_iff_eq.1 last
      rfl
  obtain ⟨answers, pool, row, pool', row', decoded, decoded', -, seen⟩ := same _ _ marks cut'
  exact ⟨answers, pool, row, pool', row', decoded, decoded', seen⟩

end Session

end TabularStream
