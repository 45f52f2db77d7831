/-
This file proves that the operations of a session on rows, on values with the streams over them,
and on the receive buffer keep its invariant, and puts all operations together. So every session
that can be reached is sound, and an operation that writes to no slice leaves the bytes of all
slices that are handed out before and after it.
-/

import Mathlib.Data.List.Perm.Subperm
import TabularStream.Proofs.Steps

namespace TabularStream.Session

variable {session : Session}

/-! ### Rows -/

theorem count_setObject {Object : Type} (slices : Object → List Slice)
    {objects : List (Option Object)} {index : Nat} {old : Object}
    (there : objects[index]? = some (some old)) (new : Object) (slice : Slice) :
    (slicesOf slices (objects.set index (some new))).count slice + (slices old).count slice =
      (slicesOf slices objects).count slice + (slices new).count slice :=
  count_slicesOf_set slices there (some new) slice

/-- An object that is dropped leaves its place empty. -/
theorem count_drop {Object : Type} (slices : Object → List Slice)
    {objects : List (Option Object)} {index : Nat} {released : List Slice}
    (found : slicesAt slices objects index = .ok released) (slice : Slice) :
    (slicesOf slices objects).count slice =
      released.count slice + (slicesOf slices (objects.set index none)).count slice := by
  obtain ⟨place, there, rfl⟩ := slicesAt_inversion found
  have moved := count_slicesOf_set slices there none slice
  rw [Option.map_none, Option.getD_none, List.count_nil] at moved
  omega

theorem Sound.keeps_receiveRow {reading : Reading Row}
    (leaves : ReceiveBuffer.Leaves session.pool session.handedOut reading Row.slices) :
    session.Keeps (session.receiveRow reading).session := by
  obtain ⟨pool, buffer, result⟩ := reading
  cases result with
  | error failure => exact ⟨leaves.sound, fun slice member _ => leaves.same slice member⟩
  | ok row =>
    refine Sound.gains row.slices leaves.sound (fun slice => ?_) leaves.same
    simp only [receiveRow, count_handedOut, addRow, afterReading, count_slicesOf_append]
    omega

theorem Sound.keeps_resume (sound : session.Sound) :
    session.Keeps (session.performRow .resume).session := by
  unfold performRow
  dsimp only
  cases found : splitToken session.columns (session.buffer.readable session.pool) with
  | none =>
    rw [ReceiveBuffer.Sound.resume_of_none sound found]
    unfold ReceiveBuffer.verdict
    split
    · exact sound.keeps
    · split <;> exact sound.keeps
  | some cut =>
    obtain ⟨pieces, rest⟩ := cut
    obtain ⟨pool, buffer, row, resumed, takes, -, -⟩ :=
      ReceiveBuffer.Sound.resume_of_some sound found
    rw [resumed]
    refine Sound.gains row.slices takes.sound (fun slice => ?_)
      fun slice _ => takes.same slice
    simp only [receiveToken, count_handedOut, addRow, afterReading, count_slicesOf_append]
    omega

/-- Taking data out of a row to a place of its own. -/
theorem Sound.keeps_take (sound : session.Sound) (row column : Nat) :
    session.Keeps (session.performRow (.take row column)).session := by
  refine sound.attempt fun after reply success => ?_
  obtain ⟨target, found, success⟩ := bind_inversion success
  obtain ⟨⟨value, left⟩, taken, done⟩ := bind_inversion success
  cases value with
  | none =>
    cases done
    exact sound.keeps
  | some value =>
    cases done
    refine sound.sheds [] ⟨rfl, rfl, fun slice => ?_⟩
    have moved := count_setObject Row.slices (objectAt_inversion found) left slice
    have split := Row.count_take taken slice
    simp only [count_handedOut, count_slicesOf_append, addValue, List.count_nil, Option.map_some,
      Option.getD_some] at split ⊢
    omega

/-- Putting a value into a row. If the row does not take it, the value is given back. -/
theorem Sound.keeps_putValue (sound : session.Sound) (row column value : Nat) :
    session.Keeps (session.putValue row column value).session := by
  unfold putValue
  split
  · rename_i target data found found'
    have moved := count_setObject Value.slices (objectAt_inversion found') data.emptied
    dsimp only
    split
    · rename_i filled done
      refine sound.sheds [] ⟨rfl, rfl, fun slice => ?_⟩
      have left := moved slice
      have filled := count_setObject Row.slices (objectAt_inversion found) filled slice
      have split := Row.count_put done slice
      rw [Value.slices_emptied, List.count_nil] at left
      simp only [count_handedOut, List.count_nil]
      omega
    · refine sound.sheds data.slices ⟨rfl, rfl, fun slice => ?_⟩
      have left := moved slice
      rw [Value.slices_emptied, List.count_nil] at left
      simp only [count_handedOut]
      omega
  · exact sound.keeps
  · exact sound.keeps

theorem sheds_releaseRow {row : Nat} {target : Row} (found : session.rowAt row = .ok target) :
    session.Sheds
      { session with
        pool := session.pool.releaseAll target.slices
        rows := session.rows.set row (some ⟨target.slots.map Slot.afterRelease⟩) }
      target.slices := by
  refine ⟨rfl, rfl, fun slice => ?_⟩
  have moved := count_setObject Row.slices (objectAt_inversion found)
    ⟨target.slots.map Slot.afterRelease⟩ slice
  rw [Row.slices_afterRelease, List.count_nil] at moved
  simp only [count_handedOut]
  omega

theorem sheds_dropRow {row : Nat} {released : List Slice}
    (found : slicesAt Row.slices session.rows row = .ok released) :
    session.Sheds
      { session with
        pool := session.pool.releaseAll released
        rows := session.rows.set row none }
      released := by
  refine ⟨rfl, rfl, fun slice => ?_⟩
  have dropped := count_drop Row.slices found slice
  simp only [count_handedOut]
  omega

theorem Sound.keeps_row (sound : session.Sound) (op : RowOp) :
    session.Keeps (session.performRow op).session := by
  cases op with
  | setColumns columns => exact ⟨sound, fun _ _ _ => rfl⟩
  | canDecode =>
    have same := ReceiveBuffer.Sound.canDecode .row session.columns sound
    unfold performRow
    rw [show session.buffer.canDecode session.pool session.columns = _ from same]
    exact sound.keeps
  | canDecodeBitmap =>
    have same := ReceiveBuffer.Sound.canDecode .bitmapRow session.columns sound
    unfold performRow
    rw [show session.buffer.canDecodeBitmap session.pool session.columns = _ from same]
    exact sound.keeps
  | decode => exact Sound.keeps_receiveRow (ReceiveBuffer.Sound.leaves_decode .row _ sound)
  | decodeBitmap =>
    exact Sound.keeps_receiveRow (ReceiveBuffer.Sound.leaves_decode .bitmapRow _ sound)
  | resume => exact sound.keeps_resume
  | view row =>
    refine sound.attempt fun after reply success => ?_
    obtain ⟨target, -, success⟩ := bind_inversion success
    obtain ⟨view, -, done⟩ := bind_inversion success
    cases done
    exact sound.keeps
  | slot row column =>
    refine sound.attempt fun after reply success => ?_
    obtain ⟨target, -, success⟩ := bind_inversion success
    obtain ⟨slot, -, done⟩ := bind_inversion success
    cases done
    exact sound.keeps
  | data row column =>
    refine sound.attempt fun after reply success => ?_
    obtain ⟨target, -, success⟩ := bind_inversion success
    obtain ⟨slot, -, success⟩ := bind_inversion success
    obtain ⟨view, -, done⟩ := bind_inversion success
    cases done
    exact sound.keeps
  | take row column => exact sound.keeps_take row column
  | new columns =>
    refine sound.attempt fun after reply success => ?_
    obtain ⟨row, made, done⟩ := bind_inversion success
    cases done
    refine sound.sheds [] ⟨rfl, rfl, fun slice => ?_⟩
    simp only [count_handedOut, count_slicesOf_append, Row.slices_new made, List.count_nil]
    omega
  | put row column value => exact sound.keeps_putValue row column value
  | release row =>
    refine sound.attempt fun after reply success => ?_
    obtain ⟨target, found, done⟩ := bind_inversion success
    cases done
    exact sound.sheds _ (sheds_releaseRow found)
  | drop row =>
    refine sound.attempt fun after reply success => ?_
    obtain ⟨released, found, done⟩ := bind_inversion success
    cases done
    exact sound.sheds _ (sheds_dropRow found)

/-! ### Values, large objects and streams -/

/-- Copying parts hands out a slice for each. -/
theorem copyParts_sound {buffer : ReceiveBuffer} {pool pool' : Pool} {others slices : List Slice}
    {parts : List Bytes} (sound : buffer.Sound pool others)
    (success : Value.copyParts pool parts = .ok (pool', slices)) :
    buffer.Sound pool' (slices ++ others) ∧
      ∀ slice ∈ others, pool'.bytesOf slice = pool.bytesOf slice := by
  induction parts generalizing pool others slices with
  | nil =>
    cases success
    exact ⟨sound, fun _ _ => rfl⟩
  | cons part parts inductionHypothesis =>
    obtain ⟨⟨middle, slice⟩, copied, success⟩ := bind_inversion success
    obtain ⟨⟨last, rest⟩, more, done⟩ := bind_inversion success
    cases done
    have given := sound.accounts.copyOf copied
    obtain ⟨taken, same⟩ := inductionHypothesis (sound.handOut_apart given) more
    refine ⟨taken.perm List.perm_middle, fun slice member => ?_⟩
    refine (same slice (List.mem_cons_of_mem _ member)).trans ?_
    exact (given.2.2 slice (List.mem_append_right _ member)).1

theorem Sound.keeps_makeLob (sound : session.Sound) (kind : LargeObjectKind) (value : Nat)
    (type : ColumnType) (config : StreamConfig) :
    session.Keeps (session.makeLob kind value type config).session := by
  unfold makeLob
  split
  · exact sound.keeps
  · rename_i data found
    have moved := count_setObject Value.slices (objectAt_inversion found) data.emptied
    dsimp only
    split
    · rename_i lob made
      have owns : lob.slices = data.slices := by
        unfold Lob.ofValue at made
        split at made
        · cases made
          rfl
        · cases made
      refine sound.sheds [] ⟨rfl, rfl, fun slice => ?_⟩
      have left := moved slice
      rw [Value.slices_emptied, List.count_nil] at left
      simp only [count_handedOut, count_slicesOf_append, addLob, owns, List.count_nil]
      omega
    · refine sound.sheds data.slices ⟨rfl, rfl, fun slice => ?_⟩
      have left := moved slice
      rw [Value.slices_emptied, List.count_nil] at left
      simp only [count_handedOut]
      omega

/-- The large object of a column owns what the row no longer owns. -/
theorem count_ofRow {kind : LargeObjectKind} {row left : Row} {index : Nat} {type : ColumnType}
    {config : StreamConfig} {lob : Option Lob}
    (success : Lob.ofRow kind row index type config = .ok (lob, left)) (slice : Slice) :
    row.slices.count slice =
      left.slices.count slice + ((lob.map Lob.slices).getD []).count slice := by
  unfold Lob.ofRow at success
  split at success
  · split at success
    · rename_i taken
      cases success
      exact Row.count_take taken slice
    · rename_i taken
      cases success
      exact Row.count_take taken slice
    · cases success
  · cases success

/-- The stream over a large object owns its value. -/
theorem count_stream {lob left : Lob} {stream : Stream} (success : lob.stream = .ok (stream, left))
    (slice : Slice) :
    lob.slices.count slice = left.slices.count slice + stream.slices.count slice := by
  unfold Lob.stream at success
  split at success
  · rename_i value held
    cases success
    have owns : (Stream.ofValue lob.kind value lob.type lob.config).slices = value.slices := by
      cases value <;> rfl
    rw [owns]
    simp only [Lob.slices, held, List.count_nil, Nat.zero_add]
  · cases success

theorem Sound.keeps_openLob (sound : session.Sound) (lob : Nat) :
    session.Keeps (session.performValue (.openLob lob)).session := by
  refine sound.attempt fun after reply success => ?_
  obtain ⟨object, found, success⟩ := bind_inversion success
  obtain ⟨⟨stream, left⟩, opened, done⟩ := bind_inversion success
  cases done
  refine sound.sheds [] ⟨rfl, rfl, fun slice => ?_⟩
  have moved := count_setObject Lob.slices (objectAt_inversion found) left slice
  have split := count_stream opened slice
  simp only [count_handedOut, count_slicesOf_append, List.count_nil]
  omega

theorem Sound.keeps_stream (sound : session.Sound) (place : Nat) (op : Stream.Op) :
    session.Keeps (session.performValue (.stream place op)).session := by
  refine sound.attempt fun after reply success => ?_
  obtain ⟨stream, found, done⟩ := bind_inversion success
  cases done
  obtain ⟨released, split, given⟩ := stream.sheds_perform session.pool op
  refine sound.sheds released ⟨rfl, given, fun slice => ?_⟩
  have moved := count_setObject Stream.slices (objectAt_inversion found)
    (stream.perform session.pool op).stream slice
  rw [split, List.count_append] at moved
  simp only [count_handedOut]
  omega

theorem Sound.keeps_value (sound : session.Sound) (op : ValueOp) :
    session.Keeps (session.performValue op).session := by
  cases op with
  | ofParts parts =>
    refine sound.attempt fun after reply success => ?_
    obtain ⟨⟨pool, value⟩, made, done⟩ := bind_inversion success
    obtain ⟨⟨pool', slices⟩, copied, same⟩ := bind_inversion made
    cases same
    cases done
    obtain ⟨taken, same⟩ := copyParts_sound sound copied
    refine Sound.gains slices taken (fun slice => ?_) same
    simp only [count_handedOut, count_slicesOf_append, Value.slices, Composite.ofList]
    omega
  | ofBytes bytes =>
    cases bytes with
    | none =>
      refine sound.attempt fun after reply success => ?_
      cases success
      refine sound.sheds [] ⟨rfl, rfl, fun slice => ?_⟩
      simp only [count_handedOut, count_slicesOf_append, Value.slices, Option.toList_none,
        List.count_nil]
      omega
    | some bytes =>
      refine sound.attempt fun after reply success => ?_
      obtain ⟨⟨pool, value⟩, made, done⟩ := bind_inversion success
      obtain ⟨⟨pool', slice⟩, copied, same⟩ := bind_inversion made
      cases same
      cases done
      have given := (ReceiveBuffer.Sound.accounts sound).copyOf copied
      refine Sound.gains [slice] (ReceiveBuffer.Sound.handOut_apart sound given)
        (fun slice => ?_) fun slice member => (given.2.2 slice (List.mem_append_right _ member)).1
      simp only [count_handedOut, count_slicesOf_append, Value.slices, Option.toList]
      omega
  | view value =>
    refine sound.attempt fun after reply success => ?_
    obtain ⟨value, -, success⟩ := bind_inversion success
    obtain ⟨view, -, done⟩ := bind_inversion success
    cases done
    exact sound.keeps
  | drop value =>
    refine sound.attempt fun after reply success => ?_
    obtain ⟨released, found, done⟩ := bind_inversion success
    cases done
    refine sound.sheds released ⟨rfl, rfl, fun slice => ?_⟩
    have dropped := count_drop Value.slices found slice
    simp only [count_handedOut]
    omega
  | lob kind value type demand => exact sound.keeps_makeLob kind value type ⟨demand⟩
  | lobOfRow kind row column type demand =>
    refine sound.attempt fun after reply success => ?_
    obtain ⟨target, found, success⟩ := bind_inversion success
    obtain ⟨⟨lob, left⟩, made, done⟩ := bind_inversion success
    cases lob with
    | none =>
      cases done
      exact sound.keeps
    | some lob =>
      cases done
      refine sound.sheds [] ⟨rfl, rfl, fun slice => ?_⟩
      have moved := count_setObject Row.slices (objectAt_inversion found) left slice
      have split := count_ofRow made slice
      simp only [count_handedOut, count_slicesOf_append, addLob, List.count_nil, Option.map_some,
        Option.getD_some] at split ⊢
      omega
  | viewLob lob =>
    refine sound.attempt fun after reply success => ?_
    obtain ⟨lob, -, done⟩ := bind_inversion success
    cases done
    exact sound.keeps
  | openLob lob => exact sound.keeps_openLob lob
  | discardLob lob =>
    refine sound.attempt fun after reply success => ?_
    obtain ⟨object, found, done⟩ := bind_inversion success
    cases done
    have moved := count_setObject Lob.slices (objectAt_inversion found)
      { object with value := none }
    refine sound.sheds object.slices ⟨rfl, rfl, fun slice => ?_⟩
    have left := moved slice
    simp only [count_handedOut]
    rw [show Lob.slices { object with value := none } = [] from rfl, List.count_nil] at left
    omega
  | dropLob lob =>
    refine sound.attempt fun after reply success => ?_
    obtain ⟨released, found, done⟩ := bind_inversion success
    cases done
    refine sound.sheds released ⟨rfl, rfl, fun slice => ?_⟩
    have dropped := count_drop Lob.slices found slice
    simp only [count_handedOut]
    omega
  | stream place op => exact sound.keeps_stream place op
  | dropStream stream =>
    refine sound.attempt fun after reply success => ?_
    obtain ⟨released, found, done⟩ := bind_inversion success
    cases done
    refine sound.sheds released ⟨rfl, rfl, fun slice => ?_⟩
    have dropped := count_drop Stream.slices found slice
    simp only [count_handedOut]
    omega

/-! ### The receive buffer -/

/-- A buffer that has received something, without a change to what belongs to others. -/
theorem keeps_of_receives {buffer : ReceiveBuffer} {pool : Pool} {fresh : Bytes}
    (receives : session.buffer.Receives session.pool session.handedOut buffer pool fresh) :
    session.Keeps { session with pool, buffer } :=
  ⟨receives.sound, fun slice member _ => receives.same slice member⟩

/-- A buffer whose reading cursor has moved. -/
theorem keeps_of_sound {buffer : ReceiveBuffer}
    (sound : buffer.Sound session.pool session.handedOut) :
    session.Keeps { session with buffer } :=
  ⟨sound, fun _ _ _ => rfl⟩

/-- Sizes below `2^63` can be added to what a buffer holds. -/
theorem Sound.add_lt (sound : session.Sound) {size : Nat} (small : size ≤ Word.largestSize) :
    session.buffer.readableBytes + size < Word.modulus ∧
      session.buffer.writer + size < Word.modulus := by
  have limit := ReceiveBuffer.Sound.capacity_le sound
  have inside := ReceiveBuffer.Sound.writer_le sound
  have readable := ReceiveBuffer.Sound.readableBytes sound
  have room : Word.largestSize + Word.largestSize < Word.modulus := by decide
  constructor <;> omega

/-- Bytes that are prepared and copied but not committed change nothing that belongs to others. -/
theorem Sound.keeps_writeBytes (sound : session.Sound) {bytes : Bytes} {count : Nat}
    (fits : session.buffer.readableBytes + bytes.length < Word.modulus)
    (near : ∀ pool buffer room,
      session.buffer.prepare session.pool bytes.length = .ok (pool, buffer, room) →
        buffer.writer + count < Word.modulus) :
    session.Keeps (session.writeBytes bytes count).session := by
  unfold writeBytes
  split
  · exact sound.keeps
  · rename_i pool buffer room made
    obtain ⟨receives, held, -, enough⟩ := ReceiveBuffer.Sound.prepare sound fits made
    have filled := receives.trans
      (receives.sound.fillRegion held enough (Nat.zero_le bytes.length))
    have kept : session.Keeps { session with pool := buffer.fillRegion pool bytes, buffer } :=
      keeps_of_receives filled
    dsimp only
    split
    · exact kept
    · rename_i committed done
      obtain ⟨-, -, sound'⟩ :=
        ReceiveBuffer.Sound.commit kept.sound (near pool buffer room made) done
      exact ⟨sound', kept.same⟩

/-- The sizes that an operation of the buffer adds to others. -/
def BufferOp.sizes : BufferOp → List Nat
  | .append bytes => [bytes.length]
  | .prepare count => [count.toNat]
  | .commit count => [count.toNat]
  | .write bytes count => [bytes.length, count.toNat]
  | _ => []

/-- The sums that an operation of the buffer makes of such sizes. -/
def BufferOp.sums (session : Session) : BufferOp → List Nat
  | .append bytes => [session.buffer.readableBytes + bytes.length]
  | .prepare count => [session.buffer.readableBytes + count.toNat]
  | .commit count => [session.buffer.writer + count.toNat]
  | .write bytes count =>
    (session.buffer.readableBytes + bytes.length) ::
      match session.buffer.prepare session.pool bytes.length with
      | .ok (_, buffer, _) => [buffer.writer + count.toNat]
      | .error _ => []
  | _ => []

theorem Sound.keeps_buffer (sound : session.Sound) (op : BufferOp)
    (exact : ∀ sum ∈ op.sums session, sum < Word.modulus) :
    session.Keeps (session.performBuffer op).session := by
  cases op with
  | append bytes =>
    refine sound.attempt fun after reply success => ?_
    obtain ⟨⟨pool, buffer⟩, appended, done⟩ := bind_inversion success
    cases done
    have fits := exact _ (List.mem_singleton.2 rfl)
    exact keeps_of_receives (ReceiveBuffer.Sound.append sound fits appended)
  | prepare count =>
    refine sound.attempt fun after reply success => ?_
    obtain ⟨⟨pool, buffer, room⟩, made, done⟩ := bind_inversion success
    cases done
    have fits := exact _ (List.mem_singleton.2 rfl)
    exact keeps_of_receives (ReceiveBuffer.Sound.prepare sound fits made).1
  | commit count =>
    refine sound.attempt fun after reply success => ?_
    obtain ⟨buffer, committed, done⟩ := bind_inversion success
    cases done
    have fits := exact _ (List.mem_singleton.2 rfl)
    exact keeps_of_sound (ReceiveBuffer.Sound.commit sound fits committed).2.2
  | write bytes count =>
    refine sound.keeps_writeBytes (exact _ List.mem_cons_self) fun pool buffer room made => ?_
    refine exact _ (List.mem_cons_of_mem _ ?_)
    rw [made]
    exact List.mem_singleton.2 rfl
  | readable => exact sound.keeps
  | reset index =>
    refine sound.attempt fun after reply success => ?_
    obtain ⟨buffer, moved, done⟩ := bind_inversion success
    cases done
    unfold ReceiveBuffer.reset at moved
    split at moved
    · rename_i within
      cases moved
      exact keeps_of_sound (ReceiveBuffer.Sound.setReader sound within)
    · cases moved
  | skip count =>
    refine sound.attempt fun after reply success => ?_
    obtain ⟨buffer, moved, done⟩ := bind_inversion success
    cases done
    unfold ReceiveBuffer.skip at moved
    split at moved
    · rename_i within
      cases moved
      exact keeps_of_sound (ReceiveBuffer.Sound.advance sound within)
    · cases moved
  | readUnsigned width =>
    refine sound.attempt fun after reply success => ?_
    obtain ⟨⟨buffer, number⟩, read, done⟩ := bind_inversion success
    cases done
    exact keeps_of_sound (ReceiveBuffer.Sound.parse_inversion sound read)
  | readSigned width =>
    refine sound.attempt fun after reply success => ?_
    obtain ⟨⟨buffer, number⟩, read, done⟩ := bind_inversion success
    cases done
    rw [ReceiveBuffer.readSigned_eq] at read
    exact keeps_of_sound (ReceiveBuffer.Sound.parse_inversion sound read)
  | readSlice count =>
    refine sound.attempt fun after reply success => ?_
    obtain ⟨⟨pool, buffer, slice⟩, read, done⟩ := bind_inversion success
    cases done
    obtain ⟨taken, same⟩ := ReceiveBuffer.Sound.readSlice_inversion sound read
    refine Sound.gains [slice] taken (fun slice => ?_) fun slice _ => same slice
    simp only [count_handedOut, count_flatMap_append, Option.toList]
    omega
  | discard => exact keeps_of_receives (ReceiveBuffer.Sound.discard sound)
  | release =>
    obtain ⟨given, same⟩ := ReceiveBuffer.Sound.release sound
    exact ⟨given, fun slice member _ => same slice member⟩
  | canReadScalarLength type => exact sound.keeps
  | canReadTotal => exact sound.keeps
  | canReadChunkLength => exact sound.keeps
  | readScalarLength type =>
    refine sound.attempt fun after reply success => ?_
    obtain ⟨⟨buffer, length⟩, read, done⟩ := bind_inversion success
    cases done
    exact keeps_of_sound (ReceiveBuffer.Sound.parse_inversion sound read)
  | readTotal =>
    refine sound.attempt fun after reply success => ?_
    obtain ⟨⟨buffer, total⟩, read, done⟩ := bind_inversion success
    cases done
    exact keeps_of_sound (ReceiveBuffer.Sound.parse_inversion sound read)
  | readChunkLength =>
    refine sound.attempt fun after reply success => ?_
    obtain ⟨⟨buffer, length⟩, read, done⟩ := bind_inversion success
    cases done
    exact keeps_of_sound (ReceiveBuffer.Sound.parse_inversion sound read)

/-! ### All operations -/

/-- The sizes that an operation adds to others. -/
def Op.sizes : Op → List Nat
  | .buffer op => op.sizes
  | .slice (.retain _ offset size) => [offset.toNat, size.toNat]
  | _ => []

/-- The sizes that an operation adds to others are below `2^63`. -/
def Op.Small (op : Op) : Prop := ∀ size ∈ op.sizes, size ≤ Word.largestSize

instance (op : Op) : Decidable op.Small :=
  inferInstanceAs (Decidable (∀ size ∈ op.sizes, size ≤ Word.largestSize))

/-- The sums that an operation makes of such sizes. -/
def Op.sums (session : Session) : Op → List Nat
  | .buffer op => op.sums session
  | .slice (.retain _ offset size) => [offset.toNat + size.toNat]
  | _ => []

/-- The sums that an operation makes of sizes are words. -/
def Op.Exact (session : Session) (op : Op) : Prop :=
  ∀ sum ∈ op.sums session, sum < Word.modulus

instance (session : Session) (op : Op) : Decidable (op.Exact session) :=
  inferInstanceAs (Decidable (∀ sum ∈ op.sums session, sum < Word.modulus))

/-- Sizes below `2^63` make no sum that is too large for a word. -/
theorem Sound.exact_of_small (sound : session.Sound) {op : Op} (small : op.Small) :
    op.Exact session := by
  cases op with
  | buffer op =>
    cases op with
    | append bytes =>
      have first : bytes.length ≤ Word.largestSize := small _ (List.mem_singleton.2 rfl)
      exact List.forall_mem_singleton.2 (sound.add_lt first).1
    | prepare count =>
      have first : count.toNat ≤ Word.largestSize := small _ (List.mem_singleton.2 rfl)
      exact List.forall_mem_singleton.2 (sound.add_lt first).1
    | commit count =>
      have first : count.toNat ≤ Word.largestSize := small _ (List.mem_singleton.2 rfl)
      exact List.forall_mem_singleton.2 (sound.add_lt first).2
    | write bytes count =>
      have first : bytes.length ≤ Word.largestSize := small _ List.mem_cons_self
      have second : count.toNat ≤ Word.largestSize :=
        small _ (List.mem_cons_of_mem _ (List.mem_singleton.2 rfl))
      have fits := (sound.add_lt first).1
      have near := (sound.add_lt second).2
      unfold Op.Exact Op.sums BufferOp.sums
      refine List.forall_mem_cons.2 ⟨fits, ?_⟩
      split
      · rename_i made
        have lower := (ReceiveBuffer.Sound.prepare sound fits made).2.2.1
        exact List.forall_mem_singleton.2 (by omega)
      · exact List.forall_mem_nil _
    | _ => exact List.forall_mem_nil _
  | slice op =>
    cases op with
    | retain place offset size =>
      have first : offset.toNat ≤ Word.largestSize := small _ List.mem_cons_self
      have second : size.toNat ≤ Word.largestSize :=
        small _ (List.mem_cons_of_mem _ (List.mem_singleton.2 rfl))
      have room : Word.largestSize + Word.largestSize < Word.modulus := by decide
      exact List.forall_mem_singleton.2 (by omega)
    | _ => exact List.forall_mem_nil _
  | _ => exact List.forall_mem_nil _

/-- Does an operation write to a slice of somebody? -/
def Op.writes (session : Session) : Op → Bool
  | .slice (.fill place _) => (session.slices[place]?.join).isSome
  | _ => false

/-- Every operation that writes to no slice keeps the bytes of all, unless one of its sums is too
large for a word. -/
theorem Sound.keeps_exact (sound : session.Sound) {op : Op} (exact : op.Exact session)
    (quiet : op.writes session = false) : session.Keeps (session.step op).session := by
  cases op with
  | buffer op => exact sound.keeps_buffer op exact
  | row op => exact sound.keeps_row op
  | value op => exact sound.keeps_value op
  | slice op =>
    refine sound.keeps_slice op ?_ ?_
    · rintro place offset size rfl
      exact exact _ (List.mem_singleton.2 rfl)
    · rintro place byte slice rfl there
      simp [Op.writes, there] at quiet
  | composite op => exact sound.keeps_composite op

theorem Sound.keeps_step (sound : session.Sound) {op : Op} (small : op.Small)
    (quiet : op.writes session = false) : session.Keeps (session.step op).session :=
  sound.keeps_exact (sound.exact_of_small small) quiet

theorem Sound.fill (sound : session.Sound) (place : Nat) (byte : UInt8) :
    (session.performSlice (.fill place byte)).session.Sound := by
  unfold performSlice
  dsimp only
  cases found : session.handleAt place with
  | error failure => exact sound
  | ok handle =>
    cases handle with
    | none => exact sound
    | some slice =>
      refine ⟨(ReceiveBuffer.Sound.accounts sound).write _ _ _, ?_, sound.reader_le,
        sound.writer_le, sound.behind⟩
      intro block held
      refine (ReceiveBuffer.Sound.whole sound block held).trans ?_
      exact congrArg (Slice.mk block.block 0) (Pool.capacity_write _ _ _ _ _).symm

/-- Every operation keeps the invariant, unless one of its sums is too large for a word. -/
theorem Sound.step_exact (sound : session.Sound) {op : Op} (exact : op.Exact session) :
    (session.step op).session.Sound := by
  cases quiet : op.writes session with
  | false => exact (sound.keeps_exact exact quiet).sound
  | true =>
    unfold Op.writes at quiet
    split at quiet
    · exact sound.fill _ _
    · cases quiet

theorem Sound.step (sound : session.Sound) {op : Op} (small : op.Small) :
    (session.step op).session.Sound :=
  sound.step_exact (sound.exact_of_small small)

/-! ### Sessions that can be reached -/

/-- The session after some operations, also when some of them fail. -/
def after (session : Session) (ops : List Op) : Session :=
  ops.foldl (fun session op => (session.step op).session) session

/-- The sessions that can be reached from new ones by small operations. -/
inductive Reachable : Session → Prop where
  | new {config : PoolConfig} {columns : List ColumnType} {session : Session}
      (made : Session.new config columns = .ok session) : Reachable session
  | step {session : Session} {op : Op} (before : Reachable session) (small : op.Small) :
      Reachable (session.step op).session

/-- Every session that can be reached has the invariant. -/
theorem Reachable.sound (reachable : session.Reachable) : session.Sound := by
  induction reachable with
  | new made =>
    cases new_inversion made
    exact sound_fresh _ _
  | step before small inductionHypothesis => exact inductionHypothesis.step small

theorem Reachable.after (reachable : session.Reachable) {ops : List Op}
    (small : ∀ op ∈ ops, op.Small) : (session.after ops).Reachable := by
  induction ops generalizing session with
  | nil => exact reachable
  | cons op rest inductionHypothesis =>
    exact inductionHypothesis (reachable.step (small op List.mem_cons_self))
      fun other member => small other (List.mem_cons_of_mem _ member)

/-- Some slices of a session and the rest of what has been handed out are in the accounts. -/
theorem Reachable.accounts_of_subperm (reachable : session.Reachable)
    {slices : List Slice} (owned : slices.Subperm session.handedOut) :
    ∃ others, session.pool.Accounts (slices ++ others) := by
  obtain ⟨front, same, inside⟩ := owned
  obtain ⟨others, split⟩ := inside.exists_perm_append
  refine ⟨others ++ session.buffer.slices,
    (ReceiveBuffer.Sound.accounts reachable.sound).perm ?_⟩
  rw [← List.append_assoc]
  exact List.perm_append_comm.trans
    ((split.trans (same.append_right others)).append_right session.buffer.slices)

end TabularStream.Session
