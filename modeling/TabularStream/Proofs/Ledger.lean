/-
This file proves that the receive buffer is a queue of bytes, however it is used. `Session.Ledger`
notes what has been committed since the buffer was last released, and how much of it has been read;
what is left is what is unread. The ledger looks at the operations, and at whether they succeed, but
at the block only for bytes that are committed without having been copied.

The invariant is that the session is sound, that the unread bytes are those of the ledger, and that
the writing cursor is no further than the sizes of the operations so far allow.
-/

import TabularStream.Proofs.ByteQueue

namespace TabularStream.Session

variable {session after : Session}

/-! ### The ledger -/

/-- What has been committed since the buffer was last released, and how much of it has been
read. -/
structure Ledger where
  committed : Bytes := []
  read : Nat := 0

/-- What has been committed and not been read. -/
def Ledger.unread (ledger : Ledger) : Bytes := ledger.committed.drop ledger.read

/-- The bytes that an operation commits if it succeeds. -/
def Op.commits (session : Session) : Op → Bytes
  | .buffer (.append bytes) => bytes
  | .buffer (.commit count) => session.vacant.take count.toNat
  | .buffer (.write bytes count) => session.copied bytes count.toNat
  | _ => []

/-- The number of bytes that an operation reads if it succeeds. -/
def Op.reads : Op → Nat
  | .buffer (.skip count) => count.toNat
  | .buffer (.readUnsigned width) => width
  | .buffer (.readSigned width) => width
  | .buffer (.readSlice count) => count.toNat
  | _ => 0

/-- Does an operation give back what has not been read? -/
def Op.forgets : Op → Bool
  | .buffer .release => true
  | _ => false

/-- The ledger after an operation, which stays as it is if the operation fails. -/
def Ledger.note (ledger : Ledger) (session : Session) (op : Op) (outcome : Outcome) : Ledger :=
  match outcome.result with
  | .error _ => ledger
  | .ok _ =>
    if op.forgets then {}
    else ⟨ledger.committed ++ op.commits session, ledger.read + op.reads⟩

/-- The ledger after some operations. -/
def noted (session : Session) (ledger : Ledger) : List Op → Ledger
  | [] => ledger
  | op :: rest =>
    let outcome := session.step op
    outcome.session.noted (ledger.note session op outcome) rest

/-- The unread bytes are those of the ledger. -/
structure Tallies (session : Session) (ledger : Ledger) : Prop where
  unread : session.unread = ledger.unread
  read_le : ledger.read ≤ ledger.committed.length

variable {ledger : Ledger}

/-- Some bytes are read from the front, and others are added to the end. -/
theorem Tallies.move {fresh : Bytes} {count : Nat} (tallies : session.Tallies ledger)
    (within : count ≤ session.unread.length)
    (moved : after.unread = session.unread.drop count ++ fresh) :
    after.Tallies ⟨ledger.committed ++ fresh, ledger.read + count⟩ := by
  have ordered := tallies.read_le
  rw [tallies.unread, Ledger.unread, List.length_drop] at within
  have stays : ledger.read + count ≤ ledger.committed.length := by omega
  refine ⟨?_, ?_⟩
  · rw [moved, tallies.unread, Ledger.unread, Ledger.unread, List.drop_drop,
      List.drop_append_of_le_length stays]
  · rw [List.length_append]
    exact Nat.le_add_right_of_le stays

theorem Tallies.stay (tallies : session.Tallies ledger) (same : after.unread = session.unread) :
    after.Tallies ledger :=
  ⟨same.trans tallies.unread, tallies.read_le⟩

/-- An operation that commits nothing and reads nothing is not noted. -/
theorem Tallies.note_same {op : Op} {outcome : Outcome} (tallies : session.Tallies ledger)
    (same : outcome.session.unread = session.unread) (quiet : op.forgets = false)
    (commits : op.commits session = []) (reads : op.reads = 0) :
    outcome.session.Tallies (ledger.note session op outcome) := by
  have noted : ledger.note session op outcome = ledger := by
    unfold Ledger.note
    split
    · rfl
    · rw [quiet, commits, reads, List.append_nil]
      rfl
  rw [noted]
  exact tallies.stay same

theorem Tallies.note_refuses {op : Op} {outcome : Outcome} {count : Nat}
    (tallies : session.Tallies ledger) (refuses : session.Refuses count outcome) :
    outcome.session.Tallies (ledger.note session op outcome) := by
  obtain ⟨rfl, -⟩ := refuses
  exact tallies

theorem Tallies.note_reads {op : Op} {outcome : Outcome} (reply : Bytes → Reply)
    (tallies : session.Tallies ledger) (reads : session.Reads op.reads reply outcome)
    (quiet : op.forgets = false) (commits : op.commits session = []) :
    outcome.session.Tallies (ledger.note session op outcome) := by
  unfold Reads at reads
  split at reads
  · rename_i within
    obtain ⟨replied, left⟩ := reads
    rw [Ledger.note, replied, quiet, commits]
    exact tallies.move within (left.trans (List.append_nil _).symm)
  · subst reads
    exact tallies

/-- What a queue does is what the ledger notes. -/
theorem Tallies.note {op : Op} {outcome : Outcome} (tallies : session.Tallies ledger)
    (uses : op.usesQueue) (serves : session.Serves op outcome) :
    outcome.session.Tallies (ledger.note session op outcome) := by
  cases op with
  | buffer op =>
    cases op with
    | append bytes =>
      rcases serves with ⟨replied, received⟩ | refuses
      · rw [Ledger.note, replied]
        exact tallies.move (Nat.zero_le _) received
      · exact tallies.note_refuses refuses
    | prepare count =>
      rcases serves with ⟨room, replied, same, -⟩ | refuses
      · exact tallies.note_same same rfl rfl rfl
      · exact tallies.note_refuses refuses
    | commit count =>
      unfold Serves at serves
      dsimp only at serves
      split at serves
      · obtain ⟨replied, received⟩ := serves
        rw [Ledger.note, replied]
        exact tallies.move (Nat.zero_le _) received
      · subst serves
        exact tallies
    | write bytes count =>
      rcases serves with ⟨room, replied, -, received⟩ | ⟨replied, -, same⟩ | refuses
      · rw [Ledger.note, replied]
        exact tallies.move (Nat.zero_le _) received
      · rw [Ledger.note, replied]
        exact tallies.stay same
      · exact tallies.note_refuses refuses
    | readable =>
      subst serves
      exact tallies.note_same rfl rfl rfl rfl
    | reset index => cases uses
    | skip count => exact tallies.note_reads (fun _ => .nothing) serves rfl rfl
    | readUnsigned width =>
      exact tallies.note_reads (fun front => .integer (ofLittleEndian front)) serves rfl rfl
    | readSigned width =>
      exact tallies.note_reads
        (fun front => .integer ((ofLittleEndian front : Int).bmod (byteRange width))) serves rfl rfl
    | readSlice count =>
      unfold Serves at serves
      dsimp only at serves
      split at serves
      · rename_i both
        obtain ⟨slice, replied, -, -, left⟩ := serves
        rw [Ledger.note, replied]
        exact tallies.move both.1 (left.trans (List.append_nil _).symm)
      · subst serves
        exact tallies
    | discard => exact tallies.note_same serves.2 rfl rfl rfl
    | release =>
      obtain ⟨replied, nothing⟩ := serves
      rw [Ledger.note, replied]
      exact ⟨nothing, Nat.le_refl 0⟩
    | canReadScalarLength type => exact tallies.note_same serves rfl rfl rfl
    | canReadTotal => exact tallies.note_same serves rfl rfl rfl
    | canReadChunkLength => exact tallies.note_same serves rfl rfl rfl
    | readScalarLength type => cases uses
    | readTotal => cases uses
    | readChunkLength => cases uses
  | row op => cases uses
  | value op => cases uses
  | slice op => exact tallies.note_same serves rfl rfl rfl
  | composite op => exact tallies.note_same serves rfl rfl rfl

/-- The invariant of a queue, kept by every operation of one. -/
theorem Sound.tallies_noted {ops : List Op} (sound : session.Sound)
    (tallies : session.Tallies ledger) (uses : ∀ op ∈ ops, op.usesQueue)
    (small : session.buffer.writer + amounts ops < Word.modulus) :
    (session.after ops).Sound ∧ (session.after ops).Tallies (session.noted ledger ops) ∧
      (session.after ops).buffer.writer ≤ session.buffer.writer + amounts ops := by
  induction ops generalizing session ledger with
  | nil => exact ⟨sound, tallies, Nat.le_refl _⟩
  | cons op rest inductionHypothesis =>
    rw [amounts] at small ⊢
    have first := uses op List.mem_cons_self
    have queues := sound.queues first (by omega)
    have lower := queues.writer_le
    obtain ⟨left, noted, writer⟩ := inductionHypothesis queues.sound
      (tallies.note first queues.serves)
      (fun other member => uses other (List.mem_cons_of_mem _ member)) (by omega)
    exact ⟨left, noted, Nat.le_trans writer (by omega)⟩

/-- The receive buffer is a queue of bytes. What is unread is what has been committed since the
last release without what has been read of it, and the cursors are in order and inside of the
block. Whatever operation of a queue comes next, it does what a queue does. -/
theorem buffer_is_queue {config : PoolConfig} {columns : List ColumnType} {ops : List Op}
    (made : Session.new config columns = .ok session) (uses : ∀ op ∈ ops, op.usesQueue)
    (small : amounts ops < Word.modulus) :
    (session.after ops).unread = (session.noted {} ops).unread ∧
      (session.noted {} ops).read ≤ (session.noted {} ops).committed.length ∧
      (session.after ops).buffer.reader ≤ (session.after ops).buffer.writer ∧
      (session.after ops).buffer.writer ≤ (session.after ops).buffer.capacity ∧
      ∀ op : Op, op.usesQueue → amounts ops + op.amount < Word.modulus →
        (session.after ops).Serves op ((session.after ops).step op) := by
  cases new_inversion made
  obtain ⟨sound, tallies, writer⟩ := (sound_fresh config columns).tallies_noted
    (⟨rfl, Nat.le_refl 0⟩ : (fresh config columns).Tallies {}) uses
    (show 0 + _ < _ by omega)
  change _ ≤ 0 + _ at writer
  refine ⟨tallies.unread, tallies.read_le, ReceiveBuffer.Sound.reader_le sound,
    ReceiveBuffer.Sound.writer_le sound, fun op used fits => ?_⟩
  exact (sound.queues used (by omega)).serves

/-- A slice that is kept while the buffer moves on to another block, a part of a write that is
committed, a read that asks for too much, and a slice that is released. -/
def queueUsed : List Op :=
  [.buffer (.append [1, 2, 3]), .buffer (.readSlice 2), .buffer (.write [4, 5, 6] 2),
    .buffer (.skip 9), .buffer (.readUnsigned 1), .slice (.release 0), .buffer .discard]

theorem buffer_is_queue_queueUsed :
    ((fresh ⟨4, 1⟩ []).after queueUsed).unread = [4, 5] ∧
      (((fresh ⟨4, 1⟩ []).after queueUsed).step (.buffer (.readUnsigned 2))).result =
        .ok (.integer 1284) := by
  have new : Session.new ⟨4, 1⟩ [] = .ok (fresh ⟨4, 1⟩ []) := rfl
  have uses : ∀ op ∈ queueUsed, op.usesQueue := by decide
  obtain ⟨unread, -, -, -, serves⟩ := buffer_is_queue new uses (by decide)
  have noted : ((fresh ⟨4, 1⟩ []).noted {} queueUsed).unread = [4, 5] := by decide +kernel
  rw [noted] at unread
  have read : Reads _ 2 (fun front => .integer (ofLittleEndian front)) _ :=
    serves (.buffer (.readUnsigned 2)) rfl (by decide)
  rw [Reads, unread] at read
  exact ⟨unread, read.1⟩

end TabularStream.Session
