/-
This file proves the invariant of a session: its receive buffer is sound, where the slices of
others are all those that the other objects of the session own. Every operation keeps it, those
that fail included, as long as no sum of sizes wraps around.

There are only a few things that an operation can do to the slices that have been handed out.
`Sheds` says that it takes some of them back, or moves them between objects; `Sound.gains` is
about those that hand out more. What is left are the operations on the buffer, and writing to a
slice. `Keeps` is what all but the last have in common.
-/

import TabularStream.Proofs.CutShort
import TabularStream.Proofs.Shedding
import TabularStream.Session

namespace TabularStream.Session

variable {session after : Session} {slice : Slice}

/-! ### The invariant -/

/-- The slices that belong to the objects of a session, without the one of the buffer. -/
def handedOut (session : Session) : List Slice :=
  session.slices.flatMap Option.toList ++ session.composites.flatMap Composite.live ++
    slicesOf Row.slices session.rows ++ slicesOf Value.slices session.values ++
    slicesOf Lob.slices session.lobs ++ slicesOf Stream.slices session.streams

/-- The invariant of a session. -/
def Sound (session : Session) : Prop :=
  session.buffer.Sound session.pool session.handedOut

/-- A session without objects, with a pool without blocks. -/
def fresh (config : PoolConfig) (columns : List ColumnType) : Session :=
  ⟨Pool.empty config, ReceiveBuffer.empty, columns, [], [], [], [], [], []⟩

theorem new_inversion {config : PoolConfig} {columns : List ColumnType}
    (made : Session.new config columns = .ok session) : session = fresh config columns := by
  unfold Session.new Pool.new at made
  split at made
  · cases made
  · cases made
    rfl

theorem sound_fresh (config : PoolConfig) (columns : List ColumnType) :
    (fresh config columns).Sound :=
  ReceiveBuffer.sound_empty (Pool.accounts_empty config)

/-- What an operation does that writes to no slice: the invariant is kept, and so are the bytes of
every slice that belongs to somebody before and after. -/
structure Keeps (session after : Session) : Prop where
  sound : after.Sound
  same : ∀ slice ∈ session.handedOut, slice ∈ after.handedOut →
    after.pool.bytesOf slice = session.pool.bytesOf slice

theorem Sound.keeps (sound : session.Sound) : session.Keeps session :=
  ⟨sound, fun _ _ _ => rfl⟩

/-! ### Counting slices -/

theorem count_handedOut (session : Session) (slice : Slice) :
    session.handedOut.count slice =
      (session.slices.flatMap Option.toList).count slice +
        (session.composites.flatMap Composite.live).count slice +
        (slicesOf Row.slices session.rows).count slice +
        (slicesOf Value.slices session.values).count slice +
        (slicesOf Lob.slices session.lobs).count slice +
        (slicesOf Stream.slices session.streams).count slice := by
  simp only [handedOut, List.count_append]

/-- Replacing an object replaces its slices. -/
theorem count_flatMap_set {Object : Type} (slices : Object → List Slice) {objects : List Object}
    {index : Nat} {old : Object} (there : objects[index]? = some old) (new : Object)
    (slice : Slice) :
    ((objects.set index new).flatMap slices).count slice + (slices old).count slice =
      (objects.flatMap slices).count slice + (slices new).count slice := by
  induction objects generalizing index with
  | nil => cases there
  | cons first rest inductionHypothesis =>
    cases index with
    | zero =>
      cases there
      simp only [List.set_cons_zero, List.flatMap_cons, List.count_append]
      omega
    | succ index =>
      have tail := inductionHypothesis there
      simp only [List.set_cons_succ, List.flatMap_cons, List.count_append]
      omega

theorem count_slicesOf_set {Object : Type} (slices : Object → List Slice)
    {objects : List (Option Object)} {index : Nat} {old : Option Object}
    (there : objects[index]? = some old) (new : Option Object) (slice : Slice) :
    (slicesOf slices (objects.set index new)).count slice +
        ((old.map slices).getD []).count slice =
      (slicesOf slices objects).count slice + ((new.map slices).getD []).count slice :=
  count_flatMap_set _ there new slice

theorem count_slicesOf_append {Object : Type} (slices : Object → List Slice)
    (objects : List (Option Object)) (object : Object) (slice : Slice) :
    (slicesOf slices (objects ++ [some object])).count slice =
      (slicesOf slices objects).count slice + (slices object).count slice := by
  simp only [slicesOf, List.flatMap_append, List.flatMap_singleton, List.count_append,
    Option.map_some, Option.getD_some]

theorem count_flatMap_append {Object : Type} (slices : Object → List Slice)
    (objects : List Object) (object : Object) (slice : Slice) :
    ((objects ++ [object]).flatMap slices).count slice =
      (objects.flatMap slices).count slice + (slices object).count slice := by
  simp only [List.flatMap_append, List.flatMap_singleton, List.count_append]

/-! ### Slices that come and go -/

/-- Some of the slices that had been handed out were taken back, and the others may have moved
from one object to another. -/
structure Sheds (session after : Session) (released : List Slice) : Prop where
  buffer : after.buffer = session.buffer
  pool : after.pool = session.pool.releaseAll released
  count : ∀ slice, session.handedOut.count slice =
    released.count slice + after.handedOut.count slice

theorem Sheds.giveBack {released : List Slice} (sheds : session.Sheds after released)
    (sound : session.Sound) :
    after.Sound ∧ session.pool.Spares after.pool (session.buffer.slices ++ after.handedOut) := by
  have split : session.handedOut.Perm (released ++ after.handedOut) :=
    List.perm_iff_count.2 fun slice => by rw [sheds.count, List.count_append]
  obtain ⟨left, spares⟩ := (ReceiveBuffer.Sound.perm sound split).giveBack
  rw [← sheds.pool] at left spares
  rw [← sheds.buffer] at left
  exact ⟨left, spares⟩

theorem Sound.sheds (sound : session.Sound) (released : List Slice)
    (sheds : session.Sheds after released) : session.Keeps after := by
  obtain ⟨left, spares⟩ := sheds.giveBack sound
  exact ⟨left, fun slice _ member => (spares slice (List.mem_append_right _ member)).1⟩

theorem Sheds.readable {released : List Slice} (sheds : session.Sheds after released)
    (sound : session.Sound) :
    after.buffer.readable after.pool = session.buffer.readable session.pool := by
  rw [sheds.buffer]
  refine ReceiveBuffer.readable_congr fun slice member => ?_
  exact ((sheds.giveBack sound).2 slice (List.mem_append_left _ member)).1

theorem sheds_nothing (session : Session) : session.Sheds session [] :=
  ⟨rfl, rfl, fun _ => by rw [List.count_nil, Nat.zero_add]⟩

/-- An operation that fails at its first step leaves every part of the session alone. It leaves a
part alone too if what follows that step does. -/
theorem same_attempt_bind {Part Item : Type} (part : Session → Part) {first : Except Failure Item}
    {next : Item → Except Failure (Session × Reply)}
    (same : ∀ item, part (session.attempt (next item)).session = part session) :
    part (session.attempt (first >>= next)).session = part session := by
  cases first with
  | error failure => rfl
  | ok item => exact same item

section Blind

/-! A part of a session that has nothing to do with what an operation works on stays as it is. -/

variable {Part : Type} (part : Session → Part)

theorem same_performBuffer
    (blind : ∀ (pool : Pool) (buffer : ReceiveBuffer) (slices : List Handle),
      part { session with pool, buffer, slices } = part session) (op : BufferOp) :
    part (session.performBuffer op).session = part session := by
  cases op with
  | write bytes count =>
    unfold performBuffer writeBytes
    dsimp only
    split
    · rfl
    · split <;> exact blind _ _ _
  | readable | canReadScalarLength | canReadTotal | canReadChunkLength => rfl
  | discard | release => exact blind _ _ _
  | _ => exact same_attempt_bind part fun _ => blind _ _ _

theorem same_performSlice
    (blind : ∀ (pool : Pool) (slices : List Handle) (values : List (Option Value)),
      part { session with pool, slices, values } = part session) (op : SliceOp) :
    part (session.performSlice op).session = part session := by
  cases op with
  | retain | duplicate =>
    exact same_attempt_bind part fun _ => same_attempt_bind part fun _ => blind _ _ _
  | assign target source =>
    refine same_attempt_bind part fun _ => same_attempt_bind part fun _ => ?_
    split
    · rfl
    · exact blind _ _ _
  | _ => exact same_attempt_bind part fun _ => blind _ _ _

theorem same_performComposite
    (blind : ∀ (pool : Pool) (slices : List Handle) (composites : List Composite)
      (values : List (Option Value)),
      part { session with pool, slices, composites, values } = part session) (op : CompositeOp) :
    part (session.performComposite op).session = part session := by
  cases op with
  | new => exact blind _ _ _ _
  | add composite place =>
    refine same_attempt_bind part fun _ => same_attempt_bind part fun handle => ?_
    cases handle with
    | none => rfl
    | some slice => exact blind _ _ _ _
  | view | component => exact same_attempt_bind part fun _ => same_attempt_bind part fun _ => rfl
  | assign target source =>
    refine same_attempt_bind part fun _ => same_attempt_bind part fun _ => ?_
    split
    · rfl
    · exact blind _ _ _ _
  | _ => exact same_attempt_bind part fun _ => blind _ _ _ _

theorem same_performRow
    (blind : ∀ (pool : Pool) (buffer : ReceiveBuffer) (columns : List ColumnType)
      (rows : List (Option Row)) (values : List (Option Value)),
      part { session with pool, buffer, columns, rows, values } = part session) (op : RowOp) :
    part (session.performRow op).session = part session := by
  have receiveRow (reading : Reading Row) :
      part (session.receiveRow reading).session = part session := by
    obtain ⟨pool, buffer, failure | row⟩ := reading <;> exact blind _ _ _ _ _
  have receiveToken (reading : Reading Resumed) :
      part (session.receiveToken reading).session = part session := by
    obtain ⟨pool, buffer, failure | _ | error | row⟩ := reading <;> exact blind _ _ _ _ _
  cases op with
  | setColumns | canDecode | canDecodeBitmap => exact blind _ _ _ _ _
  | decode | decodeBitmap => exact receiveRow _
  | resume => exact receiveToken _
  | view | slot => exact same_attempt_bind part fun _ => same_attempt_bind part fun _ => rfl
  | data =>
    exact same_attempt_bind part fun _ => same_attempt_bind part fun _ =>
      same_attempt_bind part fun _ => rfl
  | take row column =>
    refine same_attempt_bind part fun _ => same_attempt_bind part fun found => ?_
    obtain ⟨_ | value, left⟩ := found
    · rfl
    · exact blind _ _ _ _ _
  | put row column source =>
    unfold performRow putValue
    dsimp only
    split
    · split <;> exact blind _ _ _ _ _
    · rfl
    · rfl
  | _ => exact same_attempt_bind part fun _ => blind _ _ _ _ _

/-- Only making a large object from a row changes the rows. -/
theorem same_performValue
    (blind : ∀ (pool : Pool) (values : List (Option Value)) (lobs : List (Option Lob))
      (streams : List (Option Stream)),
      part { session with pool, values, lobs, streams } = part session) {op : ValueOp}
    (other : ∀ kind row column type demand, op ≠ .lobOfRow kind row column type demand) :
    part (session.performValue op).session = part session := by
  cases op with
  | ofBytes bytes =>
    cases bytes with
    | none => exact blind _ _ _ _
    | some bytes => exact same_attempt_bind part fun _ => blind _ _ _ _
  | view | openLob =>
    exact same_attempt_bind part fun _ => same_attempt_bind part fun _ => blind _ _ _ _
  | lob kind value type demand =>
    unfold performValue makeLob
    dsimp only
    split
    · rfl
    · split <;> exact blind _ _ _ _
  | lobOfRow kind row column type demand => exact (other kind row column type demand rfl).elim
  | _ => exact same_attempt_bind part fun _ => blind _ _ _ _

end Blind

/-- An operation that changes nothing when it fails takes back what it does when it succeeds. -/
theorem sheds_attempt {operation : Except Failure (Session × Reply)}
    (success : ∀ after reply, operation = .ok (after, reply) →
      ∃ released, session.Sheds after released) :
    ∃ released, session.Sheds (session.attempt operation).session released := by
  cases operation with
  | error failure => exact ⟨[], session.sheds_nothing⟩
  | ok result => exact success _ _ rfl

/-- Slices were handed out, and a buffer that would be sound with them is. -/
theorem Sound.gains (fresh : List Slice) (buffer : after.buffer.Sound after.pool
      (fresh ++ session.handedOut))
    (count : ∀ slice, after.handedOut.count slice =
      fresh.count slice + session.handedOut.count slice)
    (same : ∀ slice ∈ session.handedOut,
      after.pool.bytesOf slice = session.pool.bytesOf slice) : session.Keeps after := by
  have joined : (fresh ++ session.handedOut).Perm after.handedOut :=
    List.perm_iff_count.2 fun slice => by rw [count, List.count_append]
  exact ⟨buffer.perm joined, fun slice member _ => same slice member⟩

/-! ### Operations that may fail -/

/-- An operation that changes nothing when it fails keeps what it keeps when it succeeds. -/
theorem Sound.attempt {operation : Except Failure (Session × Reply)} (sound : session.Sound)
    (success : ∀ after reply, operation = .ok (after, reply) → session.Keeps after) :
    session.Keeps (session.attempt operation).session := by
  cases operation with
  | error failure => exact sound.keeps
  | ok result => exact success _ _ rfl

theorem placeAt_inversion {Object : Type} {objects : List (Option Object)} {index : Nat}
    {place : Option Object} (success : placeAt objects index = .ok place) :
    objects[index]? = some place := by
  unfold placeAt at success
  split at success
  · cases success
    assumption
  · cases success

theorem objectAt_inversion {Object : Type} {objects : List (Option Object)} {index : Nat}
    {object : Object} (success : objectAt objects index = .ok object) :
    objects[index]? = some (some object) := by
  unfold objectAt at success
  split at success
  · cases success
    assumption
  · cases success

theorem compositeAt_inversion {composite : Composite} {index : Nat}
    (success : session.compositeAt index = .ok composite) :
    session.composites[index]? = some composite := by
  unfold compositeAt at success
  split at success
  · cases success
    assumption
  · cases success

theorem slicesAt_inversion {Object : Type} {slices : Object → List Slice}
    {objects : List (Option Object)} {index : Nat} {found : List Slice}
    (success : slicesAt slices objects index = .ok found) :
    ∃ place, objects[index]? = some place ∧ found = (place.map slices).getD [] := by
  unfold slicesAt at success
  cases looked : placeAt objects index with
  | error failure =>
    rw [looked] at success
    cases success
  | ok place =>
    rw [looked] at success
    cases success
    exact ⟨place, placeAt_inversion looked, rfl⟩

end TabularStream.Session
