/-
This file says that the receive buffer does what a queue of bytes does. Bytes come in at one end,
by appending or by preparing, copying and committing, and are read at the other, while blocks are
compacted, left to the owners of slices, exchanged and reused. `Session.Serves` says of each
operation what a queue replies, and what it holds afterwards.

Every lemma of this file is about one operation of a sound session. The writing cursor and the
size of the operation have to have a sum that does not wrap around; `Session.Queues` says by how
much the cursor moves, so that this can be seen to it for operations one after the other.
-/

import TabularStream.Proofs.Fragments
import TabularStream.Proofs.Vacancy

namespace TabularStream

namespace Session

variable {session after : Session}

/-! ### What a queue does -/

/-- The bytes that the block holds from the writing cursor on. -/
def vacant (session : Session) : Bytes := session.buffer.vacant.bytes session.pool

/-- The bytes that are committed when some have been copied to the block: those first, and if more
are committed than were copied, what the block holds behind them. -/
def copied (session : Session) (bytes : Bytes) (count : Nat) : Bytes :=
  bytes.take count ++
    ((session.writeBytes bytes 0).session.vacant.drop bytes.length).take (count - bytes.length)

/-- There is no room for `count` more bytes, since that would take a block that is too large. -/
def Refuses (session : Session) (count : Nat) (outcome : Outcome) : Prop :=
  outcome = ⟨session, .error (.tooLarge .block)⟩ ∧
    Word.largestSize < max (session.unread.length + count) session.pool.config.blockSize.toNat

/-- The first `count` bytes are read, and the reply is made of them. If there are fewer, reading
fails and changes nothing. -/
def Reads (session : Session) (count : Nat) (reply : Bytes → Reply) (outcome : Outcome) : Prop :=
  if count ≤ session.unread.length then
    outcome.result = .ok (reply (session.unread.take count)) ∧
      outcome.session.unread = session.unread.drop count
  else outcome = ⟨session, .error .precondition⟩

/-- There are `room` bytes to write to, at least `count` of them, in the block of the unread bytes
and behind them. Writing there changes nothing that is unread. -/
def HasRoom (session : Session) (count room : Nat) : Prop :=
  count ≤ room ∧
    (∃ front back, session.buffer.occupied = some front ∧ session.buffer.vacant = some back ∧
      session.pool.bytesOf front = session.unread ∧ back.size = room ∧
      back.block = front.block ∧ front.offset + front.size ≤ back.offset ∧
      back.offset + back.size ≤ session.pool.capacity back.block) ∧
    ∀ bytes : Bytes, bytes.length ≤ room →
      session.buffer.readable (session.buffer.fillRegion session.pool bytes) = session.unread

/-- What a queue of bytes does for an operation: what it replies, and what it holds afterwards.
Operations on slices and composites leave it alone. -/
def Serves (session : Session) (op : Op) (outcome : Outcome) : Prop :=
  let queue := session.unread
  match op with
  | .buffer (.append bytes) =>
    outcome.result = .ok .nothing ∧ outcome.session.unread = queue ++ bytes ∨
      session.Refuses bytes.length outcome
  | .buffer (.prepare count) =>
    (∃ room, outcome.result = .ok (.count room) ∧ outcome.session.unread = queue ∧
      outcome.session.HasRoom count.toNat room) ∨ session.Refuses count.toNat outcome
  | .buffer (.commit count) =>
    if count.toNat ≤ session.vacant.length then
      outcome.result = .ok .nothing ∧
        outcome.session.unread = queue ++ session.vacant.take count.toNat
    else outcome = ⟨session, .error .precondition⟩
  | .buffer (.write bytes count) =>
    (∃ room, outcome.result = .ok (.count room) ∧ bytes.length ≤ room ∧
        outcome.session.unread = queue ++ session.copied bytes count.toNat) ∨
      (outcome.result = .error .precondition ∧ bytes.length < count.toNat ∧
        outcome.session.unread = queue) ∨ session.Refuses bytes.length outcome
  | .buffer .readable => outcome = ⟨session, .ok (.bytes queue)⟩
  | .buffer (.skip count) => session.Reads count.toNat (fun _ => .nothing) outcome
  | .buffer (.readUnsigned width) =>
    session.Reads width (fun front => .integer (ofLittleEndian front)) outcome
  | .buffer (.readSigned width) =>
    session.Reads width
      (fun front => .integer ((ofLittleEndian front : Int).bmod (byteRange width))) outcome
  | .buffer (.readSlice count) =>
    if count.toNat ≤ queue.length ∧ session.buffer.block.isSome then
      ∃ slice, outcome.result = .ok (.made session.slices.length) ∧
        outcome.session.slices = session.slices ++ [some slice] ∧
        outcome.session.pool.bytesOf slice = queue.take count.toNat ∧
        outcome.session.unread = queue.drop count.toNat
    else outcome = ⟨session, .error .precondition⟩
  | .buffer .discard => outcome.result = .ok .nothing ∧ outcome.session.unread = queue
  | .buffer .release => outcome.result = .ok .nothing ∧ outcome.session.unread = []
  | _ => outcome.session.unread = queue

/-- The operations of a queue, and those that keep, pass on and release slices. -/
def Op.usesQueue : Op → Bool
  | .buffer (.reset _) => false
  | .buffer (.readScalarLength _) => false
  | .buffer .readTotal => false
  | .buffer .readChunkLength => false
  | .buffer _ => true
  | .slice (.fill _ _) => false
  | .slice _ => true
  | .composite _ => true
  | .row _ => false
  | .value _ => false

/-- The size that an operation of a queue adds to others. -/
def Op.amount : Op → Nat
  | .buffer (.append bytes) => bytes.length
  | .buffer (.prepare count) => count.toNat
  | .buffer (.commit count) => count.toNat
  | .buffer (.write bytes count) => max bytes.length count.toNat
  | .slice (.retain _ offset size) => offset.toNat + size.toNat
  | _ => 0

/-- The sizes that some operations add, together. -/
def amounts : List Op → Nat
  | [] => 0
  | op :: ops => op.amount + amounts ops

/-! ### Making room and committing -/

/-- An operation does what a queue does, keeps the invariant of the session and moves the writing
cursor up by no more than its size. -/
structure Queues (session : Session) (op : Op) (outcome : Outcome) : Prop where
  sound : outcome.session.Sound
  writer_le : outcome.session.buffer.writer ≤ session.buffer.writer + op.amount
  serves : session.Serves op outcome

theorem Sound.length_unread (sound : session.Sound) :
    session.unread.length = session.buffer.readableBytes :=
  ReceiveBuffer.length_readable (ReceiveBuffer.Sound.inOrder sound)

theorem Sound.readableBytes_add_lt (sound : session.Sound) {size : Nat}
    (small : session.buffer.writer + size < Word.modulus) :
    session.buffer.readableBytes + size < Word.modulus := by
  have length := ReceiveBuffer.Sound.readableBytes sound
  omega

/-- An operation that fails and changes nothing. -/
theorem Sound.queues_error (sound : session.Sound) {op : Op} {failure : Failure}
    (serves : session.Serves op ⟨session, .error failure⟩) :
    session.Queues op ⟨session, .error failure⟩ :=
  ⟨sound, Nat.le_add_right _ _, serves⟩

theorem Sound.queues_append (sound : session.Sound) {bytes : Bytes}
    (small : session.buffer.writer + bytes.length < Word.modulus) :
    session.Queues (.buffer (.append bytes)) (session.step (.buffer (.append bytes))) := by
  have fits := sound.readableBytes_add_lt small
  have stepped : session.step (.buffer (.append bytes)) = session.attempt
      ((session.buffer.append session.pool bytes).bind fun made =>
        .ok ({ session with pool := made.1, buffer := made.2 }, .nothing)) := rfl
  rw [stepped]
  rcases appended : session.buffer.append session.pool bytes with failure | ⟨pool, buffer⟩
  · obtain ⟨rfl, large⟩ := ReceiveBuffer.Sound.append_error sound fits appended
    rw [← sound.length_unread] at large
    exact sound.queues_error (.inr ⟨rfl, large⟩)
  · have receives := ReceiveBuffer.Sound.append sound fits appended
    have writer := ReceiveBuffer.Sound.writer_append_le sound fits appended
    exact ⟨receives.sound, writer, .inl ⟨rfl, receives.readable⟩⟩

/-- Preparing room leaves the unread bytes, and room behind them in their block. -/
theorem Sound.hasRoom (sound : session.Sound) {count : Nat} (held : session.buffer.block.isSome)
    (enough : session.buffer.writer + count ≤ session.buffer.capacity) :
    session.HasRoom count (session.buffer.capacity - session.buffer.writer) := by
  obtain ⟨block, held⟩ := Option.isSome_iff_exists.1 held
  have capacity : session.buffer.capacity = block.size := by
    rw [ReceiveBuffer.capacity, held]
    rfl
  have inside := ReceiveBuffer.Sound.writer_le sound
  have ordered := ReceiveBuffer.Sound.reader_le sound
  have length := ReceiveBuffer.Sound.readableBytes sound
  have whole := ReceiveBuffer.Sound.whole sound block held
  have front := congrArg Slice.offset whole
  have size := congrArg Slice.size whole
  dsimp only at front size
  have bytes := ReceiveBuffer.Sound.bytes_occupied sound
  rw [ReceiveBuffer.occupied, held] at bytes
  refine ⟨by omega, ⟨_, _, congrArg _ held, congrArg _ held, bytes, ?_, rfl, ?_, ?_⟩, ?_⟩
  · exact congrArg (· - session.buffer.writer) capacity.symm
  · show block.offset + session.buffer.reader + session.buffer.readableBytes ≤
      block.offset + session.buffer.writer
    omega
  · show block.offset + session.buffer.writer + (block.size - session.buffer.writer) ≤
      session.pool.capacity block.block
    omega
  · intro bytes fits
    have filled := ReceiveBuffer.Sound.fillRegion sound (held ▸ rfl)
      (show session.buffer.writer + bytes.length ≤ session.buffer.capacity by omega)
      (Nat.zero_le _)
    rw [List.take_zero] at filled
    exact filled.readable.trans (List.append_nil _)

theorem Sound.queues_prepare (sound : session.Sound) {count : UInt64}
    (small : session.buffer.writer + count.toNat < Word.modulus) :
    session.Queues (.buffer (.prepare count)) (session.step (.buffer (.prepare count))) := by
  have fits := sound.readableBytes_add_lt small
  have stepped : session.step (.buffer (.prepare count)) = session.attempt
      ((session.buffer.prepare session.pool count.toNat).bind fun made =>
        .ok ({ session with pool := made.1, buffer := made.2.1 }, .count made.2.2)) := rfl
  rw [stepped]
  rcases made : session.buffer.prepare session.pool count.toNat with
    failure | ⟨pool, buffer, room⟩
  · obtain ⟨rfl, large⟩ := ReceiveBuffer.prepare_error fits made
    rw [← sound.length_unread] at large
    exact sound.queues_error (.inr ⟨rfl, large⟩)
  · obtain ⟨receives, held, lower, enough⟩ := ReceiveBuffer.Sound.prepare sound fits made
    have prepared : Session.Sound { session with pool, buffer } := receives.sound
    refine ⟨prepared, Nat.le_trans lower (Nat.le_add_right _ _), .inl ⟨room, rfl, ?_, ?_⟩⟩
    · exact receives.readable.trans (List.append_nil _)
    · exact ReceiveBuffer.room_of_prepare made ▸ prepared.hasRoom held enough

theorem Sound.queues_commit (sound : session.Sound) {count : UInt64}
    (small : session.buffer.writer + count.toNat < Word.modulus) :
    session.Queues (.buffer (.commit count)) (session.step (.buffer (.commit count))) := by
  have length : session.vacant.length = _ := ReceiveBuffer.Sound.length_vacant sound
  have ordered := ReceiveBuffer.Sound.writer_le sound
  have stepped : session.step (.buffer (.commit count)) = session.attempt
      ((session.buffer.commit count.toNat).bind fun buffer =>
        .ok ({ session with buffer }, .nothing)) := rfl
  rw [stepped]
  by_cases inside : session.buffer.writer + count.toNat ≤ session.buffer.capacity
  · rw [ReceiveBuffer.Sound.commit_of_le sound inside]
    have raised := ReceiveBuffer.Sound.setWriter sound (Nat.le_add_right _ _) inside
    refine ⟨raised, Nat.le_refl _, ?_⟩
    refine (if_pos (show count.toNat ≤ session.vacant.length by omega)).mpr ?_
    exact ⟨rfl, ReceiveBuffer.Sound.readable_commit sound inside⟩
  · rw [ReceiveBuffer.commit_eq small, if_neg inside]
    refine sound.queues_error ?_
    exact (if_neg (show ¬ count.toNat ≤ session.vacant.length by omega)).mpr rfl

/-! ### Copying -/

/-- With room for the bytes, they are copied, and the commit succeeds if it stays in the block. -/
theorem writeBytes_of_prepare {bytes : Bytes} {pool : Pool} {buffer : ReceiveBuffer}
    {count room : Nat}
    (made : session.buffer.prepare session.pool bytes.length = .ok (pool, buffer, room))
    (small : buffer.writer + count < Word.modulus) :
    session.writeBytes bytes count = if buffer.writer + count ≤ buffer.capacity
      then ⟨{ session with
          pool := buffer.fillRegion pool bytes
          buffer := { buffer with writer := buffer.writer + count } }, .ok (.count room)⟩
      else ⟨{ session with pool := buffer.fillRegion pool bytes, buffer }, .error .precondition⟩ := by
  unfold writeBytes
  rw [made]
  dsimp only
  rw [ReceiveBuffer.commit_eq small]
  by_cases inside : buffer.writer + count ≤ buffer.capacity
  · rw [if_pos inside, if_pos inside]
  · rw [if_neg inside, if_neg inside]

theorem Sound.queues_write (sound : session.Sound) {bytes : Bytes} {count : UInt64}
    (small : session.buffer.writer + max bytes.length count.toNat < Word.modulus) :
    session.Queues (.buffer (.write bytes count)) (session.step (.buffer (.write bytes count))) := by
  have fits : session.buffer.readableBytes + bytes.length < Word.modulus :=
    sound.readableBytes_add_lt (by omega)
  show session.Queues _ (session.writeBytes bytes count.toNat)
  rcases made : session.buffer.prepare session.pool bytes.length with
    failure | ⟨pool, buffer, room⟩
  · have refused : session.writeBytes bytes count.toNat = ⟨session, .error failure⟩ := by
      unfold writeBytes
      rw [made]
    obtain ⟨rfl, large⟩ := ReceiveBuffer.prepare_error fits made
    rw [← sound.length_unread] at large
    rw [refused]
    exact sound.queues_error (.inr (.inr ⟨rfl, large⟩))
  · obtain ⟨receives, held, lower, enough⟩ := ReceiveBuffer.Sound.prepare sound fits made
    have written {count : Nat} (below : buffer.writer + count < Word.modulus) :=
      writeBytes_of_prepare made below
    obtain ⟨quiet, rest, copied⟩ := receives.sound.vacant_fillRegion held enough
    have unread : buffer.readable (buffer.fillRegion pool bytes) = session.unread :=
      (receives.trans quiet).readable.trans (List.append_nil _)
    have larger := Nat.le_max_right bytes.length count.toNat
    rw [written (by omega)]
    split
    · rename_i inside
      have raised := quiet.sound.setWriter (Nat.le_add_right _ _) inside
      refine ⟨raised, ?_, .inl ⟨room, rfl, ?_, ?_⟩⟩
      · show buffer.writer + count.toNat ≤ session.buffer.writer + max bytes.length count.toNat
        omega
      · rw [ReceiveBuffer.room_of_prepare made]
        exact Nat.le_sub_of_add_le' enough
      · have front : (session.writeBytes bytes 0).session.vacant = bytes ++ rest := by
          rw [written (by omega), if_pos (show buffer.writer + 0 ≤ buffer.capacity by omega)]
          exact copied.symm
        rw [Session.copied, front, List.drop_left, ← List.take_append, copied]
        exact (quiet.sound.readable_commit inside).trans (congrArg (· ++ _) unread)
    · rename_i outside
      refine ⟨quiet.sound, Nat.le_trans lower (Nat.le_add_right _ _), .inr (.inl ⟨rfl, ?_, unread⟩)⟩
      omega

/-! ### Reading -/

/-- What reading from the front comes to. -/
def reading (session : Session) (count : Nat) (reply : Bytes → Reply) : Outcome :=
  if count ≤ session.buffer.readableBytes then
    ⟨{ session with buffer := session.buffer.advance count },
      .ok (reply (session.unread.take count))⟩
  else ⟨session, .error .precondition⟩

theorem Sound.queues_reading (sound : session.Sound) {op : Op} {count : Nat}
    {reply : Bytes → Reply} (reads : session.Serves op = session.Reads count reply) :
    session.Queues op (session.reading count reply) := by
  have length := sound.length_unread
  unfold reading
  split
  · rename_i within
    have read := ReceiveBuffer.readable_advance (ReceiveBuffer.Sound.inOrder sound) within
    refine ⟨ReceiveBuffer.Sound.advance sound within, Nat.le_add_right _ _, ?_⟩
    rw [reads, Reads, length, if_pos within]
    exact ⟨rfl, read⟩
  · rename_i short
    refine sound.queues_error ?_
    rw [reads, Reads, length, if_neg short]

theorem step_skip (session : Session) (count : UInt64) :
    session.step (.buffer (.skip count)) = session.reading count.toNat fun _ => .nothing := by
  show session.attempt ((session.buffer.skip count.toNat).bind fun buffer =>
    .ok ({ session with buffer }, .nothing)) = _
  unfold ReceiveBuffer.skip reading
  split
  · rfl
  · rfl

/-- Reading something from the front of the buffer and replying with it. -/
theorem attempt_parse {Item : Type} (session : Session) (width : Nat) (parse : Bytes → Item)
    (reply : Item → Reply) :
    session.attempt ((match session.buffer.readBytes session.pool width with
      | .ok (past, bytes) => Except.ok (past, parse bytes)
      | .error failure => .error failure).bind fun made =>
        .ok ({ session with buffer := made.1 }, reply made.2)) =
      session.reading width fun front => reply (parse front) := by
  have read : session.buffer.readBytes session.pool width =
      if width ≤ session.buffer.readableBytes
        then .ok (session.buffer.advance width, session.unread.take width)
        else .error .precondition := by
    rw [ReceiveBuffer.readBytes, ReceiveBuffer.peek_eq]
    rfl
  unfold reading
  rw [read]
  by_cases within : width ≤ session.buffer.readableBytes
  · rw [if_pos within, if_pos within]
    rfl
  · rw [if_neg within, if_neg within]
    rfl

theorem step_readUnsigned (session : Session) (width : Nat) :
    session.step (.buffer (.readUnsigned width)) =
      session.reading width fun front => .integer (ofLittleEndian front) :=
  session.attempt_parse width ofLittleEndian fun number => .integer number

theorem step_readSigned (session : Session) (width : Nat) :
    session.step (.buffer (.readSigned width)) = session.reading width fun front =>
      .integer ((ofLittleEndian front : Int).bmod (byteRange width)) := by
  show session.attempt ((session.buffer.readSigned session.pool width).bind
    fun made => .ok ({ session with buffer := made.1 }, .integer made.2)) = _
  rw [ReceiveBuffer.readSigned_eq]
  exact session.attempt_parse width
    (fun front => (ofLittleEndian front : Int).bmod (byteRange width)) .integer

theorem Sound.queues_readSlice (sound : session.Sound) (count : UInt64) :
    session.Queues (.buffer (.readSlice count)) (session.step (.buffer (.readSlice count))) := by
  have length := sound.length_unread
  have stepped : session.step (.buffer (.readSlice count)) = session.attempt
      ((session.buffer.readSlice session.pool count.toNat).bind fun made => .ok
        ({ session with pool := made.1, buffer := made.2.1 }.addSlice (some made.2.2))) := rfl
  rw [stepped]
  by_cases both : count.toNat ≤ session.buffer.readableBytes ∧ session.buffer.block.isSome
  · obtain ⟨within, held⟩ := both
    obtain ⟨pool, slice, read, taken, front, same⟩ :=
      ReceiveBuffer.Sound.readSlice sound held within
    have left := ReceiveBuffer.readable_advance (ReceiveBuffer.Sound.inOrder sound) within
    have kept : session.Keeps
        ({ session with pool, buffer := session.buffer.advance count.toNat }.addSlice
          (some slice)).1 := by
      refine Sound.gains [slice] taken (fun slice => ?_) fun slice _ => same slice
      simp only [count_handedOut, addSlice, count_flatMap_append, Option.toList]
      omega
    rw [read]
    refine ⟨kept.sound, Nat.le_add_right _ _, ?_⟩
    refine (if_pos ⟨by rwa [length], held⟩).mpr ⟨slice, rfl, rfl, front, ?_⟩
    exact (ReceiveBuffer.readable_congr fun slice _ => same slice).trans left
  · have refused : session.buffer.readSlice session.pool count.toNat = .error .precondition := by
      unfold ReceiveBuffer.readSlice
      split
      · rename_i within
        have none : session.buffer.block = none :=
          Option.not_isSome_iff_eq_none.1 fun held => both ⟨within, held⟩
        rw [none]
        rfl
      · rfl
    rw [refused]
    exact sound.queues_error ((if_neg (length ▸ both)).mpr rfl)

/-! ### Slices of others -/

/-- The buffer stays as it is, and so do the bytes of its block. -/
structure Passes (session after : Session) : Prop where
  buffer : after.buffer = session.buffer
  bytes : ∀ slice ∈ session.buffer.slices,
    after.pool.bytesOf slice = session.pool.bytesOf slice

theorem passes_attempt {operation : Except Failure (Session × Reply)}
    (success : ∀ after reply, operation = .ok (after, reply) → session.Passes after) :
    session.Passes (session.attempt operation).session := by
  rcases operation with failure | ⟨after, reply⟩
  · exact ⟨rfl, fun _ _ => rfl⟩
  · exact success after reply rfl

theorem Sheds.passes {released : List Slice} (sheds : session.Sheds after released)
    (sound : session.Sound) : session.Passes after :=
  ⟨sheds.buffer, fun slice member =>
    ((sheds.giveBack sound).2 slice (List.mem_append_left _ member)).1⟩

/-- Sharing a slice changes no bytes. -/
theorem bytesOf_retain {handle : Handle} {pool pool' : Pool} {offset size : Nat} {part : Slice}
    (success : handle.retain pool offset size = .ok (pool', part)) (slice : Slice) :
    pool'.bytesOf slice = pool.bytesOf slice := by
  rcases handle with _ | shared
  · cases success
  · change pool.retain shared offset size = _ at success
    unfold Pool.retain at success
    dsimp only at success
    split at success
    · cases success
      exact Pool.bytesOf_addReference _ _ _
    · cases success

theorem Sound.passes_slice (sound : session.Sound) (op : SliceOp)
    (quiet : ∀ place byte, op ≠ .fill place byte) :
    session.Passes (session.performSlice op).session := by
  have accounts := ReceiveBuffer.Sound.accounts sound
  cases op with
  | allocate size =>
    refine passes_attempt fun after reply success => ?_
    obtain ⟨⟨pool, slice⟩, allocation, done⟩ := bind_inversion success
    cases done
    refine ⟨rfl, fun slice member => ?_⟩
    exact ((accounts.allocate allocation).2.2 slice (List.mem_append_left _ member)).1
  | copyOf bytes =>
    refine passes_attempt fun after reply success => ?_
    obtain ⟨⟨pool, slice⟩, copied, done⟩ := bind_inversion success
    cases done
    refine ⟨rfl, fun slice member => ?_⟩
    exact ((accounts.copyOf copied).2.2 slice (List.mem_append_left _ member)).1
  | retain place offset size =>
    refine passes_attempt fun after reply success => ?_
    obtain ⟨handle, found, success⟩ := bind_inversion success
    obtain ⟨⟨pool, part⟩, shared, done⟩ := bind_inversion success
    cases done
    exact ⟨rfl, fun slice _ => bytesOf_retain shared slice⟩
  | duplicate place =>
    refine passes_attempt fun after reply success => ?_
    obtain ⟨handle, found, success⟩ := bind_inversion success
    obtain ⟨⟨pool, part⟩, shared, done⟩ := bind_inversion success
    cases done
    exact ⟨rfl, fun slice _ => bytesOf_retain shared slice⟩
  | move place =>
    refine passes_attempt fun after reply success => ?_
    obtain ⟨handle, found, done⟩ := bind_inversion success
    cases done
    exact ⟨rfl, fun _ _ => rfl⟩
  | assign target source =>
    refine passes_attempt fun after reply success => ?_
    obtain ⟨old, found, success⟩ := bind_inversion success
    obtain ⟨handle, found', done⟩ := bind_inversion success
    split at done
    · cases done
      exact ⟨rfl, fun _ _ => rfl⟩
    · rename_i apart
      cases done
      exact (sheds_assign (placeAt_inversion found) (placeAt_inversion found') apart).passes sound
  | fill place byte => exact absurd rfl (quiet place byte)
  | release place =>
    refine passes_attempt fun after reply success => ?_
    obtain ⟨handle, found, done⟩ := bind_inversion success
    cases done
    exact (sheds_release (placeAt_inversion found)).passes sound
  | view place =>
    refine passes_attempt fun after reply success => ?_
    obtain ⟨handle, found, done⟩ := bind_inversion success
    cases done
    exact ⟨rfl, fun _ _ => rfl⟩
  | bytes place =>
    refine passes_attempt fun after reply success => ?_
    obtain ⟨handle, found, done⟩ := bind_inversion success
    cases done
    exact ⟨rfl, fun _ _ => rfl⟩
  | toValue place =>
    refine passes_attempt fun after reply success => ?_
    obtain ⟨handle, found, done⟩ := bind_inversion success
    cases done
    exact ⟨rfl, fun _ _ => rfl⟩

/-- An operation that leaves the buffer alone leaves the queue alone. -/
theorem queues_of_passes {op : Op} (passes : session.Passes (session.step op).session)
    (kept : (session.step op).session.Sound)
    (serves : (session.step op).session.unread = session.unread →
      session.Serves op (session.step op)) : session.Queues op (session.step op) := by
  refine ⟨kept, ?_, serves ?_⟩
  · rw [passes.buffer]
    exact Nat.le_add_right _ _
  · rw [unread, unread, passes.buffer]
    exact ReceiveBuffer.readable_congr passes.bytes

/-! ### All operations of a queue -/

/-- Every operation of a queue does what a queue does, unless its size could make the writing
cursor wrap around. -/
theorem Sound.queues (sound : session.Sound) {op : Op} (uses : op.usesQueue)
    (small : session.buffer.writer + op.amount < Word.modulus) :
    session.Queues op (session.step op) := by
  have here : session.Passes session := ⟨rfl, fun _ _ => rfl⟩
  cases op with
  | buffer op =>
    cases op with
    | append bytes => exact sound.queues_append small
    | prepare count => exact sound.queues_prepare small
    | commit count => exact sound.queues_commit small
    | write bytes count => exact sound.queues_write small
    | readable => exact queues_of_passes here sound fun _ => rfl
    | reset index => cases uses
    | skip count => exact session.step_skip count ▸ sound.queues_reading rfl
    | readUnsigned width => exact session.step_readUnsigned width ▸ sound.queues_reading rfl
    | readSigned width => exact session.step_readSigned width ▸ sound.queues_reading rfl
    | readSlice count => exact sound.queues_readSlice count
    | discard =>
      have receives := ReceiveBuffer.Sound.discard sound
      refine ⟨receives.sound, ReceiveBuffer.Sound.writer_discard_le sound, rfl, ?_⟩
      exact receives.readable.trans (List.append_nil _)
    | release =>
      refine ⟨(ReceiveBuffer.Sound.release sound).1, Nat.zero_le _, rfl, ?_⟩
      exact ReceiveBuffer.readable_of_none rfl
    | canReadScalarLength type => exact queues_of_passes here sound id
    | canReadTotal => exact queues_of_passes here sound id
    | canReadChunkLength => exact queues_of_passes here sound id
    | readScalarLength type => cases uses
    | readTotal => cases uses
    | readChunkLength => cases uses
  | row op => cases uses
  | value op => cases uses
  | slice op =>
    have quiet (place : Nat) (byte : UInt8) : op ≠ .fill place byte := by
      rintro rfl
      cases uses
    refine queues_of_passes (sound.passes_slice op quiet) ?_ id
    refine (sound.keeps_slice op ?_ fun place byte _ same => absurd same (quiet place byte)).sound
    rintro place offset size rfl
    exact Nat.lt_of_le_of_lt (Nat.le_add_left _ _) small
  | composite op =>
    obtain ⟨released, sheds⟩ := session.sheds_composite op
    exact queues_of_passes (sheds.passes sound) (sheds.giveBack sound).1 id

end Session

end TabularStream
