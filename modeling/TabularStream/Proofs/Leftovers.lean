/-
This file says what becomes of bytes that a value leaves over. The bytes of a value may go on after
all that its lengths account for, in the same component or in a later one, and none of them should
be dropped without a word: `FlatReader.leftover_bytes_reported` says what a reader answers that is
used up to its end and is not released before.

A value that is not NULL has its end checked, be it that of its payload or its terminator, and the
bytes behind it are reported. At the length of a NULL value the reader stops, and does not look at
what follows.
-/

import TabularStream.Proofs.FlatReader

namespace TabularStream

/-! ### Bytes that start with no value -/

namespace Contents

/-- Where reading finds no end of some chunks, their contents end with an error. -/
theorem error_ofChunks {bytes : Bytes} (short : afterChunks bytes = none) :
    (ofChunks bytes).error ≠ none := by
  fun_induction afterChunks bytes with
  | case1 bytes few =>
    unfold ofChunks
    rw [if_pos few]
    exact Option.some_ne_none _
  | case2 => cases short
  | case3 bytes enough length left goes few =>
    unfold ofChunks
    dsimp only
    rw [if_neg enough, if_neg goes, if_pos few]
    exact Option.some_ne_none _
  | case4 bytes enough length left goes whole inductionHypothesis =>
    unfold ofChunks
    dsimp only
    rw [if_neg enough, if_neg goes, if_neg whole]
    exact inductionHypothesis short

/-- So do those of a PLP value. -/
theorem error_ofPlp {bytes : Bytes} (short : afterPlp bytes = none) :
    (ofPlp bytes).error ≠ none := by
  unfold afterPlp at short
  unfold ofPlp
  split at short
  · rename_i few
    rw [if_pos few]
    exact nofun
  · rename_i enough
    rw [if_neg enough]
    split at short
    · cases short
    · rename_i present
      rw [if_neg present]
      exact error_ofChunks short

/-- So do those of a scalar value. -/
theorem error_ofScalar {type : ColumnType} {bytes : Bytes} (short : type.afterScalar bytes = none) :
    (ofScalar type bytes).error ≠ none := by
  unfold ColumnType.afterScalar at short
  unfold ofScalar
  dsimp only at short
  split at short
  · rename_i few
    rw [if_pos few]
    exact nofun
  · rename_i enough
    rw [if_neg enough]
    split at short
    · rename_i few
      cases length : ScalarLength.ofDescriptor type bytes with
      | null =>
        rw [length] at few
        exact absurd few (Nat.not_lt_zero _)
      | of size =>
        rw [length] at few
        have missing : (bytes.drop type.descriptorSize).length < size.toNat := few
        dsimp only
        rw [if_pos missing]
        exact nofun
    · cases short

/-- Bytes whose contents end without an error start with a written value. -/
theorem exists_writtenValue {type : ColumnType} {bytes : Bytes}
    (fine : (ofBytes type bytes).error = none) :
    ∃ contents front rest, WrittenValue type contents front ∧ bytes = front ++ rest := by
  cases after : type.afterValue bytes with
  | some rest =>
    obtain ⟨contents, front, written, split⟩ := ColumnType.afterValue_eq_some_iff.1 after
    exact ⟨contents, front, rest, written, split⟩
  | none =>
    unfold ColumnType.afterValue at after
    unfold ofBytes at fine
    split at after
    · rename_i plp
      rw [if_pos plp] at fine
      exact absurd fine (error_ofPlp after)
    · rename_i scalar
      rw [if_neg scalar] at fine
      exact absurd fine (error_ofScalar after)

end Contents

/-! ### What a reader finds -/

namespace ChunkReader

/-- What a reader finds that is asked for the next chunk: the chunks, and from then on the end. -/
def found (chunks : List Bytes) (ending : Event) (pulls : Nat) : List Event :=
  (chunks.take pulls).map .chunk ++ List.replicate (pulls - chunks.length) ending

/-- What an answer says that was found. -/
def Answer.event? : Answer → Option Event
  | .reply (.event event) => some event
  | _ => none

theorem found_zero (chunks : List Bytes) (ending : Event) : found chunks ending 0 = [] := by
  unfold found
  rw [Nat.zero_sub]
  rfl

theorem found_nil_succ (ending : Event) (pulls : Nat) :
    found [] ending (pulls + 1) = ending :: found [] ending pulls := by
  simp [found, List.replicate_succ]

theorem found_cons_succ (chunk : Bytes) (chunks : List Bytes) (ending : Event) (pulls : Nat) :
    found (chunk :: chunks) ending (pulls + 1) = .chunk chunk :: found chunks ending pulls := by
  unfold found
  rw [List.length_cons, Nat.add_sub_add_right]
  rfl

/-- What is not a chunk is the end, and is found after all chunks. -/
theorem mem_found_iff {chunks : List Bytes} {ending event : Event} {pulls : Nat}
    (last : ∀ chunk, event ≠ .chunk chunk) :
    event ∈ found chunks ending pulls ↔ event = ending ∧ chunks.length < pulls := by
  have apart : event ∉ (chunks.take pulls).map Event.chunk := by
    rw [List.mem_map]
    rintro ⟨chunk, -, same⟩
    exact last chunk same.symm
  unfold found
  rw [List.mem_append, List.mem_replicate, or_iff_right apart]
  exact ⟨fun ⟨more, same⟩ => ⟨same, by omega⟩, fun ⟨same, more⟩ => ⟨by omega, same⟩⟩

end ChunkReader

namespace FlatReader

variable {flat : FlatReader} {reader : ChunkReader} {pool : Pool} {others : List Slice}

/-- A reader that is not released finds what its contents say. -/
theorem Mirrors.finds (mirrors : flat.Mirrors reader pool others) {uses : List ChunkReader.Use}
    (kept : .op .release ∉ uses) :
    (reader.useAll pool uses).2.2.filterMap ChunkReader.Answer.event? =
      ChunkReader.found flat.rest.chunks (.ofError flat.rest.error) (uses.count (.op .next)) := by
  induction uses generalizing flat reader pool with
  | nil => exact (ChunkReader.found_zero _ _).symm
  | cons use uses inductionHypothesis =>
    rw [List.mem_cons, not_or] at kept
    obtain ⟨confirms, after⟩ := mirrors.use use
    have later := inductionHypothesis after kept.2
    cases use with
    | op op =>
      cases op with
      | next =>
        have asked : (reader.useAll pool (.op .next :: uses)).2.2.filterMap
            ChunkReader.Answer.event? = (reader.next pool).event :: _ := congrArg _ later
        have event {expected : ChunkReader.Event}
            (known : (flat.use (.op .next)).2 = some (.reply (.event expected))) :
            (reader.next pool).event = expected :=
          ChunkReader.Reply.event.inj (ChunkReader.Answer.reply.inj (confirms _ known))
        rw [asked, List.count_cons_self]
        obtain ⟨⟨chunks, error⟩, payload, known⟩ := flat
        cases chunks with
        | nil =>
          rw [event rfl]
          exact (ChunkReader.found_nil_succ _ _).symm
        | cons chunk chunks =>
          rw [event rfl]
          exact (ChunkReader.found_cons_succ _ _ _ _).symm
      | payload => exact later
      | error => exact later
      | releaseConsumed => exact later
      | release => exact absurd rfl kept.1
    | chunkAhead => exact later

/-- What is found by the reader of a value, unless it is released. Behind a value that is not NULL
all bytes are reported, and behind NULL none are. Where the reader finds the end and no error, the
lengths, payloads and terminator are all of the bytes, or the value is NULL. The bytes are one
string, so their number is a word. -/
theorem leftover_bytes_reported {session : Session} (reachable : session.Reachable) {value : Value}
    (owned : value.slices.Subperm session.handedOut)
    (countable : (value.bytes session.pool).length < Word.modulus) (type : ColumnType)
    {uses : List ChunkReader.Use} (kept : .op .release ∉ uses) :
    let answers := ((ChunkReader.ofValue value type).useAll session.pool uses).2.2
    let found := answers.filterMap ChunkReader.Answer.event?
    let pulls := uses.count (.op .next)
    (∀ contents front rest, WrittenValue type contents front →
      value.bytes session.pool = front ++ rest →
        found = match contents with
          | none => ChunkReader.found [] .done pulls
          | some payloads =>
            if rest = [] then ChunkReader.found payloads .done pulls
            else ChunkReader.found (if type.isPlp then payloads else [])
              (.malformed .extraBytes) pulls) ∧
      (.done ∈ found → ∃ contents front rest, WrittenValue type contents front ∧
        value.bytes session.pool = front ++ rest ∧ (rest = [] ∨ contents = none)) := by
  intro answers found pulls
  obtain ⟨others, accounts⟩ := reachable.accounts_of_subperm owned
  have finds : found = ChunkReader.found (Contents.ofBytes type (value.bytes session.pool)).chunks
      (.ofError (Contents.ofBytes type (value.bytes session.pool)).error) pulls :=
    (mirrors_ofValue accounts countable type).finds kept
  rw [finds]
  refine ⟨fun contents front rest written split => ?_, fun done => ?_⟩
  · rw [split, Contents.ofBytes_append written]
    cases contents with
    | none => rfl
    | some payloads =>
      dsimp only
      split <;> rfl
  · have fine : (Contents.ofBytes type (value.bytes session.pool)).error = none := by
      have last (chunk : Bytes) : ChunkReader.Event.done ≠ .chunk chunk := nofun
      obtain ⟨same, -⟩ := (ChunkReader.mem_found_iff last).1 done
      cases error : (Contents.ofBytes type (value.bytes session.pool)).error with
      | none => rfl
      | some error =>
        rw [error] at same
        cases same
    obtain ⟨contents, front, rest, written, split⟩ := Contents.exists_writtenValue fine
    refine ⟨contents, front, rest, written, split, ?_⟩
    rw [split, Contents.ofBytes_append written] at fine
    cases contents with
    | none => exact .inr rfl
    | some payloads =>
      by_cases nothing : rest = []
      · exact .inl nothing
      · dsimp only at fine
        rw [if_neg nothing] at fine
        cases fine

/-- A PLP value of two chunks and its terminator, with a byte left over in a part of its own. -/
def leftParts : List Bytes :=
  [[3, 0, 0, 0, 0, 0, 0, 0, 2, 0], [0, 0, 8, 9, 1, 0, 0, 0, 7, 0, 0, 0], [0], [5]]

/-- A session whose only value has these parts. -/
def leftOverSession : Session := (Session.fresh {} []).after [.value (.ofParts leftParts)]

/-- The value, with one slice for each part. -/
def leftOverValue : Value := .chunked (Composite.ofList leftOverSession.handedOut)

theorem leftover_bytes_reported_leftOverValue :
    ((ChunkReader.ofValue leftOverValue ⟨.varbinaryMax, .part, 0, .usAscii, 0, 0⟩).useAll
      leftOverSession.pool
      [.chunkAhead, .op .next, .op .releaseConsumed, .op .next, .op .next, .op .error,
        .op .next]).2.2.filterMap ChunkReader.Answer.event? =
      [.chunk [8, 9], .chunk [7], .malformed .extraBytes, .malformed .extraBytes] := by
  have new : Session.new {} [] = .ok (Session.fresh {} []) := rfl
  have reachable : leftOverSession.Reachable := (Session.Reachable.new new).after (by decide)
  let chunks := (ChunkLength.mk 2).encode ++ [8, 9] ++
    ((ChunkLength.mk 1).encode ++ [7] ++ (ChunkLength.mk 0).encode)
  have written : WrittenValue ⟨.varbinaryMax, .part, 0, .usAscii, 0, 0⟩ (some [[8, 9], [7]])
      ((PlpTotal.mk 3).encode ++ chunks) :=
    .plp rfl rfl (.chunk rfl rfl (.chunk rfl rfl .terminator))
  have split : leftOverValue.bytes leftOverSession.pool =
      (PlpTotal.mk 3).encode ++ chunks ++ [5] := by decide +kernel
  have owned : leftOverValue.slices.Subperm leftOverSession.handedOut := List.Subperm.refl _
  exact (leftover_bytes_reported reachable owned (by decide) _ (by decide)).1 _ _ _ written split

/-- A column whose lengths have one byte. -/
def nullableColumn : ColumnType := ⟨.intN, .byte, 4, .usAscii, 0, 0⟩

/-- A session whose only value is NULL, with two bytes left over. -/
def nullSession : Session := (Session.fresh {} []).after [.value (.ofParts [[0x00, 0xAA, 0xBB]])]

/-- The value of this session. -/
def nullValue : Value := .chunked (Composite.ofList nullSession.handedOut)

/-- Behind the length of NULL two bytes are dropped: the reader finds the end at once and no error,
although no written value has all these bytes. -/
theorem bytes_behind_null_dropped :
    nullSession.Reachable ∧ nullValue.slices.Subperm nullSession.handedOut ∧
      nullValue.bytes nullSession.pool = [0x00, 0xAA, 0xBB] ∧
      WrittenValue nullableColumn none [0x00] ∧
      (∀ contents, ¬ WrittenValue nullableColumn contents [0x00, 0xAA, 0xBB]) ∧
      ((ChunkReader.ofValue nullValue nullableColumn).useAll nullSession.pool
        [.op .next, .op .error]).2.2 = [.reply (.event .done), .reply (.error none)] := by
  have new : Session.new {} [] = .ok (Session.fresh {} []) := rfl
  have reachable : nullSession.Reachable := (Session.Reachable.new new).after (by decide)
  refine ⟨reachable, List.Subperm.refl _, by decide +kernel, .null rfl rfl rfl, ?_,
    by decide +kernel⟩
  intro contents written
  have whole := ColumnType.afterValue_append written []
  cases whole

end FlatReader

end TabularStream
