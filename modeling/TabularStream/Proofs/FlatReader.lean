/-
This file compares a chunk reader with one that knows the contents of its value from the start. The
flat reader has the bytes of the value as one string, and releasing what has been read means
nothing to it. However a reader is used, it gives the answers of the flat one; only a payload that
has been given up in the meantime is not asked for. So it makes no difference how the value is cut
into components.
-/

import Mathlib.Data.List.Forall2
import TabularStream.Proofs.Checked
import TabularStream.Proofs.Reachable

namespace TabularStream

/-! ### Looking ahead -/

/-- Do some contents start with a chunk that is not empty? -/
def Contents.startsFull (contents : Contents) : Bool :=
  match contents.chunks with
  | [] => false
  | chunk :: _ => !chunk.isEmpty

namespace ChunkReader

variable {reader : ChunkReader} {pool : Pool} {others : List Slice}

theorem Gives.startsFull_iff {contents : Contents} {pulled : Pulled}
    (gives : reader.Gives contents pulled) : contents.startsFull = true ↔
      ∃ payload, payload ≠ [] ∧ pulled.event = .chunk payload := by
  cases gives with
  | @chunk _ payload _ _ event =>
    rw [event]
    cases payload with
    | nil => simp [Contents.startsFull]
    | cons byte rest => simp [Contents.startsFull]
  | @ended _ error event =>
    rw [event]
    cases error <;> simp [Contents.startsFull, Event.ofError]

theorem Sound.placed (sound : reader.Sound pool others) : reader.Placed pool others := by
  have inside : reader.Inside pool others := ⟨sound.accounts, sound.offset_le⟩
  refine ⟨inside, ?_⟩
  have there := inside.available_le
  have countable := sound.countable
  omega

/-- Looking ahead tells whether what has not been read starts with a chunk that is not empty. -/
theorem Sound.chunkAhead (sound : reader.Sound pool others) :
    reader.chunkAhead pool = (reader.ahead pool).startsFull :=
  Bool.eq_iff_iff.2 (sound.placed.chunkAhead_iff.trans sound.next.gives.startsFull_iff.symm)

end ChunkReader

/-! ### Using a reader -/

namespace ChunkReader

/-- The ways to use a reader, looking ahead included. -/
inductive Use where
  | op (op : Op)
  | chunkAhead
  deriving DecidableEq, Repr

/-- The answers of a reader, and what it says about the next chunk. -/
inductive Answer where
  | reply (reply : Reply)
  | ahead (chunk : Bool)
  deriving DecidableEq, Repr

/-- Use a reader. -/
def use (reader : ChunkReader) (pool : Pool) : Use → Pool × ChunkReader × Answer
  | .op op =>
    let (pool, reader, reply) := reader.perform pool op
    (pool, reader, .reply reply)
  | .chunkAhead => (pool, reader, .ahead (reader.chunkAhead pool))

/-- Use a reader several times. -/
def useAll (reader : ChunkReader) (pool : Pool) : List Use → Pool × ChunkReader × List Answer
  | [] => (pool, reader, [])
  | use :: uses =>
    let (pool, reader, answer) := reader.use pool use
    let (pool, reader, answers) := reader.useAll pool uses
    (pool, reader, answer :: answers)

end ChunkReader

namespace Checked

/-- Use a reader with all checks. -/
def use (reader : ChunkReader) (pool : Pool) :
    ChunkReader.Use → Except Failure (Pool × ChunkReader × ChunkReader.Answer)
  | .op .next => do
    let pulled ← next reader pool
    return (pulled.pool, pulled.reader, .reply (.event pulled.event))
  | .op .payload => return (pool, reader, .reply (.payload reader.payload))
  | .op .error => return (pool, reader, .reply (.error reader.error))
  | .op .releaseConsumed => do
    let (pool, reader) ← releaseConsumed reader pool
    return (pool, reader, .reply .nothing)
  | .op .release => do
    let (pool, reader) ← releaseReader reader pool
    return (pool, reader, .reply .nothing)
  | .chunkAhead => do
    let chunk ← chunkAhead reader pool
    return (pool, reader, .ahead chunk)

/-- Use a reader several times with all checks. -/
def useAll (reader : ChunkReader) (pool : Pool) :
    List ChunkReader.Use → Except Failure (Pool × ChunkReader × List ChunkReader.Answer)
  | [] => return (pool, reader, [])
  | use :: uses => do
    let (pool, reader, answer) ← Checked.use reader pool use
    let (pool, reader, answers) ← useAll reader pool uses
    return (pool, reader, answer :: answers)

theorem use_eq {reader : ChunkReader} {pool : Pool} {others : List Slice}
    (placed : reader.Placed pool others) (use : ChunkReader.Use) :
    Checked.use reader pool use = .ok (reader.use pool use) := by
  cases use with
  | op op =>
    cases op with
    | next =>
      unfold Checked.use
      rw [next_eq placed.inside]
      rfl
    | payload => rfl
    | error => rfl
    | releaseConsumed =>
      unfold Checked.use
      rw [releaseConsumed_eq placed.inside]
      rfl
    | release =>
      unfold Checked.use
      rw [releaseReader_eq placed.inside]
      rfl
  | chunkAhead =>
    unfold Checked.use
    rw [chunkAhead_eq placed]
    rfl

end Checked

/-! ### The flat reader -/

/-- A reader of contents that are known. -/
structure FlatReader where
  /-- What has not been read. -/
  rest : Contents
  /-- The chunk that was read last, unless it has been given up. -/
  payload : Option Bytes
  /-- What was found to be wrong with the value. -/
  error : Option ClientError
  deriving DecidableEq, Repr

namespace FlatReader

/-- A reader at the start of the bytes of a value. -/
def ofBytes (type : ColumnType) (bytes : Bytes) : FlatReader :=
  ⟨Contents.ofBytes type bytes, some [], none⟩

/-- Use a flat reader. A payload that has been given up has no answer. -/
def use (reader : FlatReader) : ChunkReader.Use → FlatReader × Option ChunkReader.Answer
  | .op .next =>
    match reader.rest.chunks with
    | [] =>
      (⟨reader.rest, some [], reader.rest.error⟩,
        some (.reply (.event (.ofError reader.rest.error))))
    | chunk :: chunks =>
      (⟨⟨chunks, reader.rest.error⟩, some chunk, reader.error⟩,
        some (.reply (.event (.chunk chunk))))
  | .op .payload => (reader, reader.payload.map fun payload => .reply (.payload payload))
  | .op .error => (reader, some (.reply (.error reader.error)))
  | .op .releaseConsumed => ({ reader with payload := none }, some (.reply .nothing))
  | .op .release => (⟨⟨[], reader.error⟩, some [], reader.error⟩, some (.reply .nothing))
  | .chunkAhead => (reader, some (.ahead reader.rest.startsFull))

/-- Use a flat reader several times. -/
def useAll (reader : FlatReader) : List ChunkReader.Use → List (Option ChunkReader.Answer)
  | [] => []
  | use :: uses => (reader.use use).2 :: (reader.use use).1.useAll uses

/-- An answer is the expected one, if one is expected. -/
def Confirms (answer : ChunkReader.Answer) (expected : Option ChunkReader.Answer) : Prop :=
  ∀ known, expected = some known → answer = known

/-- A chunk reader and a flat reader have come equally far. -/
structure Mirrors (flat : FlatReader) (reader : ChunkReader) (pool : Pool)
    (others : List Slice) : Prop where
  sound : reader.Sound pool others
  rest : flat.rest = reader.ahead pool
  error : flat.error = reader.error
  payload : ∀ payload, flat.payload = some payload → reader.payload = payload

variable {flat : FlatReader} {reader : ChunkReader} {pool : Pool} {others : List Slice}

theorem Mirrors.next (mirrors : flat.Mirrors reader pool others) :
    Confirms (.reply (.event (reader.next pool).event)) (flat.use (.op .next)).2 ∧
      (flat.use (.op .next)).1.Mirrors (reader.next pool).reader (reader.next pool).pool
        others := by
  have pulls := mirrors.sound.next
  have gives := pulls.gives
  rw [← mirrors.rest] at gives
  obtain ⟨⟨chunks, error⟩, payload, found⟩ := flat
  cases gives with
  | chunk event last same rest =>
    refine ⟨fun known expected => ?_, pulls.sound, rest.symm, mirrors.error.trans same.symm, ?_⟩
    · cases expected
      rw [event]
    · rintro _ ⟨⟩
      exact last
  | ended event last same rest =>
    refine ⟨fun known expected => ?_, pulls.sound, rest.symm, same.symm, ?_⟩
    · cases expected
      rw [event]
    · rintro _ ⟨⟩
      exact last

/-- Using both readers in the same way gives the same answer and leaves them equally far. -/
theorem Mirrors.use (mirrors : flat.Mirrors reader pool others) (use : ChunkReader.Use) :
    Confirms (reader.use pool use).2.2 (flat.use use).2 ∧
      (flat.use use).1.Mirrors (reader.use pool use).2.1 (reader.use pool use).1 others := by
  cases use with
  | op op =>
    cases op with
    | next => exact mirrors.next
    | payload =>
      refine ⟨fun known expected => ?_, mirrors⟩
      obtain ⟨payload, present, rfl⟩ := Option.map_eq_some_iff.1 expected
      exact congrArg (fun bytes => ChunkReader.Answer.reply (.payload bytes))
        (mirrors.payload payload present)
    | error =>
      refine ⟨fun known expected => ?_, mirrors⟩
      cases expected
      exact congrArg (fun error => ChunkReader.Answer.reply (.error error)) mirrors.error.symm
    | releaseConsumed =>
      have left := mirrors.sound.releaseConsumed.1
      have same := mirrors.sound.ahead_releaseConsumed
      exact ⟨fun known expected => by cases expected; rfl, left, mirrors.rest.trans same.symm,
        mirrors.error, nofun⟩
    | release =>
      refine ⟨fun known expected => by cases expected; rfl, mirrors.sound.release.1, ?_,
        mirrors.error, ?_⟩
      · exact congrArg (Contents.mk []) mirrors.error
      · rintro _ ⟨⟩
        rfl
  | chunkAhead =>
    refine ⟨fun known expected => ?_, mirrors⟩
    cases expected
    exact congrArg ChunkReader.Answer.ahead
      (mirrors.sound.chunkAhead.trans (congrArg Contents.startsFull mirrors.rest.symm))

theorem Mirrors.useAll (mirrors : flat.Mirrors reader pool others) (uses : List ChunkReader.Use) :
    Checked.useAll reader pool uses = .ok (reader.useAll pool uses) ∧
      List.Forall₂ Confirms (reader.useAll pool uses).2.2 (flat.useAll uses) := by
  induction uses generalizing flat reader pool with
  | nil => exact ⟨rfl, .nil⟩
  | cons use uses inductionHypothesis =>
    obtain ⟨confirms, after⟩ := mirrors.use use
    obtain ⟨checked, others⟩ := inductionHypothesis after
    refine ⟨?_, .cons confirms others⟩
    rw [Checked.useAll, Checked.use_eq mirrors.sound.placed]
    show (Checked.useAll (reader.use pool use).2.1 (reader.use pool use).1 uses >>= _) = _
    rw [checked]
    rfl

/-- A reader of a value starts where the flat reader of its bytes does. -/
theorem mirrors_ofValue {value : Value} (accounts : pool.Accounts (value.slices ++ others))
    (countable : (value.bytes pool).length < Word.modulus) (type : ColumnType) :
    (ofBytes type (value.bytes pool)).Mirrors (ChunkReader.ofValue value type) pool others := by
  have live := ChunkReader.live_ofValue value type
  have bytes := ChunkReader.unread_ofValue value type pool
  refine ⟨⟨live ▸ accounts, Nat.zero_le _, ?_⟩, ?_, rfl, ?_⟩
  · rw [← bytes] at countable
    exact countable
  · unfold ChunkReader.ahead
    show Contents.ofBytes type (value.bytes pool) =
      Contents.ofBytes type ((ChunkReader.ofValue value type).unread pool)
    rw [bytes]
  · rintro _ ⟨⟩
    rfl

/-- The reader of a value fails no check, and gives the answers of the flat reader of its bytes,
however the value is cut into components and however the reader is used. The bytes are one string,
so their number is a word. -/
theorem chunk_reader_answers {session : Session} (reachable : session.Reachable) {value : Value}
    (owned : value.slices.Subperm session.handedOut)
    (countable : (value.bytes session.pool).length < Word.modulus) (type : ColumnType)
    (uses : List ChunkReader.Use) :
    Checked.useAll (ChunkReader.ofValue value type) session.pool uses =
        .ok ((ChunkReader.ofValue value type).useAll session.pool uses) ∧
      List.Forall₂ Confirms ((ChunkReader.ofValue value type).useAll session.pool uses).2.2
        ((ofBytes type (value.bytes session.pool)).useAll uses) := by
  obtain ⟨front, same, inside⟩ := owned
  obtain ⟨others, split⟩ := inside.exists_perm_append
  have accounts := ReceiveBuffer.Sound.accounts reachable.sound
  have mine := accounts.perm (List.perm_append_comm.trans
    ((split.trans (same.append_right others)).append_right session.buffer.slices))
  rw [List.append_assoc] at mine
  exact (mirrors_ofValue mine countable type).useAll uses

/-- A PLP value with one chunk, cut within its total, its lengths and its payload. -/
def cutParts : List Bytes :=
  [[3, 0, 0], [0, 0, 0, 0, 0, 3], [], [0, 0, 0, 1, 2], [3, 0, 0], [0, 0]]

/-- A session whose only value has these parts. -/
def cutSession : Session := (Session.fresh {} []).after [.value (.ofParts cutParts)]

/-- The value, with one slice for each part. -/
def cutValue : Value := .chunked (Composite.ofList cutSession.handedOut)

theorem chunk_reader_answers_cutValue :
    List.Forall₂ Confirms
      ((ChunkReader.ofValue cutValue ⟨.varbinaryMax, .part, 0, .usAscii, 0, 0⟩).useAll
        cutSession.pool [.chunkAhead, .op .next, .op .payload, .op .releaseConsumed, .op .next]).2.2
      [some (.ahead true), some (.reply (.event (.chunk [1, 2, 3]))),
        some (.reply (.payload [1, 2, 3])), some (.reply .nothing),
        some (.reply (.event .done))] := by
  have new : Session.new {} [] = .ok (Session.fresh {} []) := rfl
  have reachable : cutSession.Reachable := (Session.Reachable.new new).after (by decide)
  have owned : cutValue.slices.Subperm cutSession.handedOut := List.Subperm.refl _
  have answers := (chunk_reader_answers reachable owned (by decide)
    ⟨.varbinaryMax, .part, 0, .usAscii, 0, 0⟩
    [.chunkAhead, .op .next, .op .payload, .op .releaseConsumed, .op .next]).2
  have expected : (ofBytes ⟨.varbinaryMax, .part, 0, .usAscii, 0, 0⟩
      (cutValue.bytes cutSession.pool)).useAll
        [.chunkAhead, .op .next, .op .payload, .op .releaseConsumed, .op .next] =
      [some (.ahead true), some (.reply (.event (.chunk [1, 2, 3]))),
        some (.reply (.payload [1, 2, 3])), some (.reply .nothing),
        some (.reply (.event .done))] := by
    decide +kernel
  exact expected ▸ answers

end FlatReader

end TabularStream
