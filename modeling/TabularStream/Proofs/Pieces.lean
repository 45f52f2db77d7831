/-
This file cuts the bytes of a row into the bytes of its columns. `ColumnType.split` gives the
bytes of the first value, or nothing if it is NULL, and what follows it; `RowLayout.split` does so
for a whole row, and `RowToken.split` and `splitToken` for a row with the byte that announces it.
Nothing is read from a buffer: these are the functions that decoding is compared with.

The grammar of rows says what is cut: `ColumnType.split_eq_some_iff`. What has been cut off
does not depend on what follows it, so bytes that arrive later change nothing.
-/

import TabularStream.LargeObject.Contents
import TabularStream.Row.Token

namespace TabularStream

/-! ### One value -/

/-- Is the first value NULL? -/
def ColumnType.startsNull (type : ColumnType) (bytes : Bytes) : Bool :=
  if type.isPlp then (PlpTotal.ofBytes bytes).isNull
  else (ScalarLength.ofDescriptor type bytes).isNull

/-- The bytes of the first value, or nothing if it is NULL, and what follows them. -/
def ColumnType.split (type : ColumnType) (bytes : Bytes) : Option (Option Bytes × Bytes) :=
  match type.afterValue bytes with
  | none => none
  | some rest =>
    some (if type.startsNull bytes then none else some (bytes.take (bytes.length - rest.length)),
      rest)

theorem ColumnType.startsNull_of_written {type : ColumnType} {contents : Option (List Bytes)}
    {front : Bytes} (written : WrittenValue type contents front) (rest : Bytes) :
    type.startsNull (front ++ rest) = contents.isNone := by
  unfold startsNull
  cases written with
  | null scalar width length =>
    rw [if_neg (by simp [scalar]), ScalarLength.ofDescriptor_append width, length]
    rfl
  | scalar scalar width length _ =>
    rw [if_neg (by simp [scalar]), List.append_assoc, ScalarLength.ofDescriptor_append width,
      length]
    rfl
  | plpNull plp absent =>
    rw [if_pos plp, PlpTotal.ofBytes_encode_append, absent]
    rfl
  | plp plp present _ =>
    rw [if_pos plp, List.append_assoc, PlpTotal.ofBytes_encode_append, present]
    rfl

theorem ColumnType.split_of_written {type : ColumnType} {contents : Option (List Bytes)}
    {front : Bytes} (written : WrittenValue type contents front) (rest : Bytes) :
    type.split (front ++ rest) = some (contents.map fun _ => front, rest) := by
  have length : (front ++ rest).length - rest.length = front.length := by
    rw [List.length_append, Nat.add_sub_cancel]
  rw [split, afterValue_append written]
  dsimp only
  rw [startsNull_of_written written, length, List.take_left]
  cases contents <;> rfl

/-- What is cut off is a value, and all of it. -/
theorem ColumnType.split_eq_some_iff {type : ColumnType} {bytes rest : Bytes}
    {piece : Option Bytes} : type.split bytes = some (piece, rest) ↔
      ∃ contents front, WrittenValue type contents front ∧ bytes = front ++ rest ∧
        piece = contents.map fun _ => front := by
  constructor
  · intro found
    have after : type.afterValue bytes = some rest := by
      unfold split at found
      split at found
      · cases found
      · rename_i after
        cases found
        exact after
    obtain ⟨contents, front, written, rfl⟩ := afterValue_eq_some_iff.1 after
    rw [split_of_written written] at found
    cases found
    exact ⟨contents, front, written, rfl, rfl⟩
  · rintro ⟨contents, front, written, rfl, rfl⟩
    exact split_of_written written rest

theorem ColumnType.afterValue_eq_split (type : ColumnType) (bytes : Bytes) :
    type.afterValue bytes = (type.split bytes).map Prod.snd := by
  unfold split
  cases type.afterValue bytes <;> rfl

/-! ### Whole rows -/

/-- The bytes of each column of a row, nothing for those that are NULL or left out, and what
follows the row. -/
def RowLayout.split : RowLayout → Bytes → Option (List (Option Bytes) × Bytes)
  | [], bytes => some ([], bytes)
  | none :: columns, bytes =>
    (RowLayout.split columns bytes).map fun (pieces, rest) => (none :: pieces, rest)
  | some type :: columns, bytes =>
    match type.split bytes with
    | none => none
    | some (piece, rest) =>
      (RowLayout.split columns rest).map fun (pieces, last) => (piece :: pieces, last)

theorem RowLayout.after_eq_split (columns : RowLayout) (bytes : Bytes) :
    columns.after bytes = (columns.split bytes).map Prod.snd := by
  induction columns generalizing bytes with
  | nil => rfl
  | cons column columns inductionHypothesis =>
    cases column with
    | none =>
      rw [after, inductionHypothesis, split]
      cases RowLayout.split columns bytes <;> rfl
    | some type =>
      rw [after, ColumnType.afterValue_eq_split, split]
      cases type.split bytes with
      | none => rfl
      | some cut =>
        dsimp only [Option.map_some]
        rw [inductionHypothesis]
        cases RowLayout.split columns cut.2 <;> rfl

/-- Cutting a row in front of other bytes is cutting the row alone. -/
theorem RowLayout.split_append {columns : RowLayout} {bytes rest : Bytes}
    {pieces : List (Option Bytes)} (found : columns.split bytes = some (pieces, rest))
    (more : Bytes) : columns.split (bytes ++ more) = some (pieces, rest ++ more) := by
  induction columns generalizing bytes pieces with
  | nil =>
    cases found
    rfl
  | cons column columns inductionHypothesis =>
    cases column with
    | none =>
      obtain ⟨⟨others, last⟩, tail, same⟩ := Option.map_eq_some_iff.1 found
      cases same
      rw [split, inductionHypothesis tail]
      rfl
    | some type =>
      unfold split at found ⊢
      split at found
      · cases found
      · rename_i piece middle cut
        obtain ⟨⟨others, last⟩, tail, same⟩ := Option.map_eq_some_iff.1 found
        cases same
        obtain ⟨contents, front, written, rfl, rfl⟩ := ColumnType.split_eq_some_iff.1 cut
        rw [List.append_assoc, ColumnType.split_of_written written]
        dsimp only
        rw [inductionHypothesis tail]
        rfl

/-- The bytes of a row are no more than what it was cut off from. -/
theorem RowLayout.length_le_of_split {columns : RowLayout} {bytes rest : Bytes}
    {pieces : List (Option Bytes)} (found : columns.split bytes = some (pieces, rest)) :
    rest.length ≤ bytes.length ∧ ∀ piece, some piece ∈ pieces → piece.length ≤ bytes.length := by
  induction columns generalizing bytes pieces with
  | nil =>
    cases found
    exact ⟨Nat.le_refl _, fun _ member => by cases member⟩
  | cons column columns inductionHypothesis =>
    cases column with
    | none =>
      obtain ⟨⟨others, last⟩, tail, same⟩ := Option.map_eq_some_iff.1 found
      cases same
      obtain ⟨shorter, each⟩ := inductionHypothesis tail
      refine ⟨shorter, fun piece member => each piece ?_⟩
      simpa using member
    | some type =>
      unfold split at found
      split at found
      · cases found
      · rename_i first middle cut
        obtain ⟨⟨others, last⟩, tail, same⟩ := Option.map_eq_some_iff.1 found
        cases same
        obtain ⟨shorter, each⟩ := inductionHypothesis tail
        obtain ⟨contents, front, -, rfl, rfl⟩ := ColumnType.split_eq_some_iff.1 cut
        rw [List.length_append]
        refine ⟨by omega, fun piece member => ?_⟩
        rcases List.mem_cons.1 member with same | member
        · obtain ⟨_, _, rfl⟩ := Option.map_eq_some_iff.1 same.symm
          omega
        · have bound := each piece member
          omega

/-- Each column of a row is what its type says. -/
theorem RowLayout.written_of_split {columns : RowLayout} {bytes rest : Bytes}
    {pieces : List (Option Bytes)} (found : columns.split bytes = some (pieces, rest))
    {index : Nat} {piece : Bytes} (present : pieces[index]? = some (some piece)) :
    ∃ type payloads, columns[index]? = some (some type) ∧
      WrittenValue type (some payloads) piece := by
  induction columns generalizing bytes pieces index with
  | nil =>
    cases found
    cases present
  | cons column columns inductionHypothesis =>
    cases column with
    | none =>
      obtain ⟨⟨others, last⟩, tail, same⟩ := Option.map_eq_some_iff.1 found
      cases same
      cases index with
      | zero => cases present
      | succ index => exact inductionHypothesis tail present
    | some type =>
      unfold split at found
      split at found
      · cases found
      · rename_i first middle cut
        obtain ⟨⟨others, last⟩, tail, same⟩ := Option.map_eq_some_iff.1 found
        cases same
        cases index with
        | zero =>
          obtain ⟨contents, front, written, -, rfl⟩ := ColumnType.split_eq_some_iff.1 cut
          obtain ⟨payloads, rfl, rfl⟩ := Option.map_eq_some_iff.1 (Option.some.inj present)
          exact ⟨type, payloads, rfl, written⟩
        | succ index => exact inductionHypothesis tail present

/-! ### Rows with the byte that announces them -/

/-- The columns of the body of a token, and what follows it. -/
def RowToken.split (token : RowToken) (columns : List ColumnType) (body : Bytes) :
    Option (List (Option Bytes) × Bytes) :=
  match token with
  | row => (RowLayout.full columns).split body
  | bitmapRow =>
    let size := bitmapSize columns.length
    if body.length < size then none
    else (RowLayout.ofBitmap (body.take size) columns).split (body.drop size)

theorem RowToken.split_append {token : RowToken} {columns : List ColumnType} {body rest : Bytes}
    {pieces : List (Option Bytes)} (found : token.split columns body = some (pieces, rest))
    (more : Bytes) : token.split columns (body ++ more) = some (pieces, rest ++ more) := by
  cases token with
  | row => exact RowLayout.split_append found more
  | bitmapRow =>
    unfold split at found ⊢
    dsimp only at found ⊢
    split at found
    · cases found
    · rename_i enough
      have inside := Nat.le_of_not_lt enough
      rw [if_neg (by rw [List.length_append]; omega), List.take_append_of_le_length inside,
        List.drop_append_of_le_length inside]
      exact RowLayout.split_append found more

theorem RowToken.length_le_of_split {token : RowToken} {columns : List ColumnType}
    {body rest : Bytes} {pieces : List (Option Bytes)}
    (found : token.split columns body = some (pieces, rest)) :
    rest.length ≤ body.length ∧ ∀ piece, some piece ∈ pieces → piece.length ≤ body.length := by
  cases token with
  | row => exact RowLayout.length_le_of_split found
  | bitmapRow =>
    unfold split at found
    dsimp only at found
    split at found
    · cases found
    · obtain ⟨shorter, each⟩ := RowLayout.length_le_of_split found
      rw [List.length_drop] at shorter each
      exact ⟨by omega, fun piece member => by have bound := each piece member; omega⟩

/-- The columns of the first token, if it is a row and whole, and what follows it. -/
def splitToken (columns : List ColumnType) : Bytes → Option (List (Option Bytes) × Bytes)
  | [] => none
  | byte :: body =>
    match RowToken.ofByte? byte with
    | none => none
    | some token => token.split columns body

theorem splitToken_append {columns : List ColumnType} {bytes rest : Bytes}
    {pieces : List (Option Bytes)} (found : splitToken columns bytes = some (pieces, rest))
    (more : Bytes) : splitToken columns (bytes ++ more) = some (pieces, rest ++ more) := by
  cases bytes with
  | nil => cases found
  | cons byte body =>
    unfold splitToken at found
    unfold splitToken
    rw [List.cons_append]
    dsimp only at found ⊢
    split at found
    · cases found
    · exact RowToken.split_append found more

theorem length_lt_of_splitToken {columns : List ColumnType} {bytes rest : Bytes}
    {pieces : List (Option Bytes)} (found : splitToken columns bytes = some (pieces, rest)) :
    rest.length < bytes.length ∧ ∀ piece, some piece ∈ pieces → piece.length ≤ bytes.length := by
  cases bytes with
  | nil => cases found
  | cons byte body =>
    unfold splitToken at found
    dsimp only at found
    split at found
    · cases found
    · obtain ⟨shorter, each⟩ := RowToken.length_le_of_split found
      exact ⟨Nat.lt_succ_of_le shorter, fun piece member => Nat.le_succ_of_le (each piece member)⟩

end TabularStream
