/-
This file proves that resuming the reading of a result set is safe and that it is all or nothing.
Whatever has been received, there is an answer and no check fails on the way to it. Either the
next token is a whole row, which is given and nothing else is moved past, or everything is left as
it was: the cursor is moved to ask whether the row is whole, within the token and once more within
its columns, and is set back on every path that gives no row.

Taking a slice adds a reference to the block, so the references that a row adds are its slices.
-/

import TabularStream.Proofs.Acceptance
import TabularStream.Proofs.CheckedRows

namespace TabularStream

/-! ### Whole tokens -/

/-- The bytes start with a whole row token: the byte that announces it, then its body. -/
def StartsWithRow (columns : List ColumnType) (bytes body : Bytes) : Prop :=
  ∃ byte token contents rest, RowToken.ofByte? byte = some token ∧
    token.Written columns contents body ∧ bytes = byte :: (body ++ rest)

theorem StartsWithRow.unique {columns : List ColumnType} {bytes body body' : Bytes}
    (starts : StartsWithRow columns bytes body) (starts' : StartsWithRow columns bytes body') :
    body = body' := by
  obtain ⟨byte, token, contents, rest, kind, written, rfl⟩ := starts
  obtain ⟨byte', token', contents', rest', kind', written', same⟩ := starts'
  obtain ⟨rfl, bodies⟩ := List.cons.inj same
  cases kind.symm.trans kind'
  exact written.front_unique written' bodies

theorem RowToken.ofByte?_eq_none_iff {byte : UInt8} :
    ofByte? byte = none ↔ byte ≠ 0xD1 ∧ byte ≠ 0xD2 := by
  unfold ofByte?
  by_cases row : byte = 0xD1
  · simp [row]
  · by_cases bitmapRow : byte = 0xD2
    · simp [bitmapRow]
    · simp [row, bitmapRow]

theorem splitToken_of_startsWithRow {columns : List ColumnType} {bytes body : Bytes}
    (starts : StartsWithRow columns bytes body) : ∃ cut, splitToken columns bytes = some cut := by
  obtain ⟨byte, token, contents, rest, kind, written, rfl⟩ := starts
  obtain ⟨pieces, found, -⟩ := RowToken.split_of_written written rest
  refine ⟨(pieces, rest), ?_⟩
  unfold splitToken
  dsimp only
  rw [kind]
  exact found

theorem startsWithRow_of_splitToken {columns : List ColumnType} {bytes rest : Bytes}
    {pieces : List (Option Bytes)} (found : splitToken columns bytes = some (pieces, rest)) :
    ∃ front body, bytes = front ++ rest ∧ front.length = 1 + body.length ∧
      StartsWithRow columns bytes body := by
  cases bytes with
  | nil => cases found
  | cons byte bytes =>
    unfold splitToken at found
    dsimp only at found
    split at found
    · cases found
    · rename_i token kind
      obtain ⟨contents, body, written, rfl⟩ := RowToken.exists_written_of_split found
      exact ⟨byte :: body, body, rfl, Nat.add_comm _ _, byte, token, contents, rest, kind, written,
        rfl⟩

namespace ReceiveBuffer

variable {buffer after : ReceiveBuffer} {pool pool' : Pool} {others taken : List Slice}
  {rest : Bytes}

/-- What is not a row is told by the first byte. -/
theorem verdict_eq_unexpected_iff {bytes : Bytes} {error : ClientError} :
    verdict bytes = .unexpected error ↔ error = .unexpectedToken ∧
      ∃ byte rest, bytes = byte :: rest ∧ byte ≠ 0xD1 ∧ byte ≠ 0xD2 := by
  cases bytes with
  | nil =>
    constructor
    · exact fun impossible => by cases impossible
    · rintro ⟨-, _, _, impossible, -⟩
      cases impossible
  | cons byte rest =>
    unfold verdict
    dsimp only
    cases kind : RowToken.ofByte? byte with
    | none =>
      have neither := RowToken.ofByte?_eq_none_iff.1 kind
      constructor
      · rintro ⟨⟩
        exact ⟨rfl, byte, rest, rfl, neither⟩
      · rintro ⟨rfl, -⟩
        rfl
    | some token =>
      constructor
      · exact fun impossible => by cases impossible
      · rintro ⟨-, _, _, same, neither⟩
        cases same
        cases kind.symm.trans (RowToken.ofByte?_eq_none_iff.2 neither)

theorem verdict_ne_row (bytes : Bytes) (row : Row) : verdict bytes ≠ .row row := by
  intro same
  cases bytes with
  | nil => cases same
  | cons byte rest =>
    unfold verdict at same
    dsimp only at same
    cases kind : RowToken.ofByte? byte with
    | none =>
      rw [kind] at same
      cases same
    | some token =>
      rw [kind] at same
      cases same

/-- Resuming moves nothing but the reading cursor. -/
theorem Sound.onlyRead_resume (sound : buffer.Sound pool others) (columns : List ColumnType) :
    buffer.OnlyRead (buffer.resume pool columns).buffer := by
  unfold resume
  split
  · exact .refl buffer
  · rename_i byte rest front
    have length := length_readable sound.inOrder
    have within : 1 ≤ buffer.readableBytes := by
      rw [← length]
      refine List.length_pos_of_ne_nil fun empty => ?_
      rw [peek_eq, empty] at front
      cases front
    have moved : buffer.OnlyRead (buffer.advance 1) := ⟨rfl, rfl⟩
    split
    · exact .refl buffer
    · rename_i token kind
      rw [(sound.advance within).canDecode]
      cases token.split columns ((buffer.advance 1).readable pool) with
      | none => exact .refl buffer
      | some cut => exact moved.trans (onlyRead_decode token (buffer.advance 1) pool columns)

/-- Each slice that is taken adds a reference to the block. -/
theorem Takes.useCount (sound : buffer.Sound pool others)
    (takes : buffer.Takes pool others after pool' taken rest) :
    after.block.useCount pool' = buffer.block.useCount pool + taken.length := by
  have mine := takes.mine
  have same := takes.block
  cases held : buffer.block with
  | none =>
    rw [held] at mine same
    have nothing : taken = [] :=
      List.eq_nil_iff_forall_not_mem.2 fun slice member => by cases mine slice member
    rw [same, nothing]
    rfl
  | some block =>
    rw [held] at mine same
    have ours : taken.countP (fun slice => slice.block == block.block) = taken.length :=
      List.countP_eq_length.2 fun slice member =>
        beq_iff_eq.2 (Option.some.inj (mine slice member)).symm
    have before := sound.accounts.useCount (mem_slices held)
    have later := takes.sound.accounts.useCount (mem_slices same)
    rw [slices_of_some held] at before
    rw [slices_of_some same] at later
    unfold Pool.handlesOn at before later
    rw [List.countP_append] at before later
    rw [List.countP_append, ours] at later
    rw [same]
    show pool'.useCount block = pool.useCount block + taken.length
    omega

end ReceiveBuffer

/-! ### All or nothing -/

namespace Session

variable {session : Session}

/-- Resuming gives an answer and fails no check, whatever has been received. It finds an unexpected
token exactly if the first readable byte announces no row. Unless it gives a row nothing has
changed. It gives a row exactly if the readable bytes start with a whole one, and then the cursor
has moved past the token and each slice of the row is a new reference to the block. -/
theorem resuming_is_atomic (reachable : session.Reachable) (columns : List ColumnType) :
    ∃ pool after resumed,
      session.buffer.resume session.pool columns = ⟨pool, after, .ok resumed⟩ ∧
      Checked.resume session.buffer session.pool columns = .ok (pool, after, resumed) ∧
      (∀ error, resumed = .unexpected error ↔ error = .unexpectedToken ∧
        ∃ byte rest, session.unread = byte :: rest ∧ byte ≠ 0xD1 ∧ byte ≠ 0xD2) ∧
      ((∀ row, resumed ≠ .row row) → pool = session.pool ∧ after = session.buffer) ∧
      (∀ row, resumed = .row row → ∃ body, StartsWithRow columns session.unread body) ∧
      ∀ body, StartsWithRow columns session.unread body → ∃ row, resumed = .row row ∧
        after = { session.buffer with reader := session.buffer.reader + (1 + body.length) } ∧
        after.block.useCount pool =
          session.buffer.block.useCount session.pool + row.slices.length := by
  have sound : session.buffer.Sound session.pool session.handedOut := reachable.sound
  have repeats := Checked.resume_repeats sound columns
  cases found : splitToken columns session.unread with
  | none =>
    have done := sound.resume_of_none found
    have nothing (body : Bytes) : ¬ StartsWithRow columns session.unread body := by
      intro starts
      obtain ⟨cut, whole⟩ := splitToken_of_startsWithRow starts
      cases found.symm.trans whole
    rw [done] at repeats
    exact ⟨_, _, _, done, repeats _ rfl, fun error => ReceiveBuffer.verdict_eq_unexpected_iff,
      fun _ => ⟨rfl, rfl⟩, fun row same => absurd same (ReceiveBuffer.verdict_ne_row _ row),
      fun body starts => absurd starts (nothing body)⟩
  | some cut =>
    obtain ⟨pieces, rest⟩ := cut
    obtain ⟨pool, after, row, done, takes, -, -⟩ := sound.resume_of_some found
    obtain ⟨front, body, split, length, starts⟩ := startsWithRow_of_splitToken found
    have moved := sound.onlyRead_resume columns
    rw [done] at repeats moved
    refine ⟨pool, after, .row row, done, repeats _ rfl, ?_, fun none => absurd rfl (none row),
      fun _ _ => ⟨body, starts⟩, ?_⟩
    · intro error
      obtain ⟨byte, token, _, _, kind, -, first⟩ := starts
      constructor
      · exact fun impossible => by cases impossible
      · rintro ⟨-, _, _, same, neither⟩
        cases first.symm.trans same
        cases kind.symm.trans (RowToken.ofByte?_eq_none_iff.2 neither)
    · intro body' starts'
      have place := sound.eq_of_takes takes moved split
      rw [length, starts.unique starts'] at place
      exact ⟨row, rfl, place, takes.useCount sound⟩

/-- A session that has received a row and the byte that announces the next. -/
def resumedSession : Session :=
  (Session.fresh {} threeColumns).after [.buffer (.append ([0xD2] ++ bitmapBody ++ [0xD1]))]

/-- The row holds five slices: four of the object, and the number. -/
theorem resuming_is_atomic_resumedSession :
    resumedSession.Reachable ∧ StartsWithRow threeColumns resumedSession.unread bitmapBody ∧
      ∃ pool after row, resumedSession.buffer.resume resumedSession.pool threeColumns =
          ⟨pool, after, .ok (.row row)⟩ ∧
        after = { resumedSession.buffer with reader := 29 } ∧ row.slices.length = 5 := by
  have new : Session.new {} threeColumns = .ok (Session.fresh {} threeColumns) := rfl
  have reachable : resumedSession.Reachable := (Session.Reachable.new new).after (by decide)
  have object : WrittenChunks [[1, 2], [3, 4, 5]] ((ChunkLength.mk 2).encode ++ [1, 2] ++
      ((ChunkLength.mk 3).encode ++ [3, 4, 5] ++ (ChunkLength.mk 0).encode)) :=
    .chunk rfl rfl (.chunk rfl rfl .terminator)
  have number : WrittenValue ⟨.intN, .byte, 4, .usAscii, 0, 0⟩ (some [[7]]) ([1] ++ [7]) :=
    .scalar rfl rfl rfl rfl
  have written : RowToken.bitmapRow.Written threeColumns
      [some [[1, 2], [3, 4, 5]], none, some [[7]]] bitmapBody :=
    .bitmapRow rfl (.present (.plp rfl rfl object) (.absent (.present number .nil)))
  have starts : StartsWithRow threeColumns resumedSession.unread bitmapBody :=
    ⟨0xD2, .bitmapRow, _, [0xD1], rfl, written, by decide +kernel⟩
  obtain ⟨pool, after, resumed, done, -, -, -, -, whole⟩ :=
    resuming_is_atomic reachable threeColumns
  obtain ⟨row, rfl, place, count⟩ := whole bitmapBody starts
  have one : resumedSession.buffer.block.useCount resumedSession.pool = 1 := by decide +kernel
  have six : (resumedSession.buffer.resume resumedSession.pool threeColumns).buffer.block.useCount
      (resumedSession.buffer.resume resumedSession.pool threeColumns).pool = 6 := by
    decide +kernel
  rw [done] at six
  change after.block.useCount pool = 6 at six
  exact ⟨reachable, starts, pool, after, row, done, place, by omega⟩

end Session

end TabularStream
