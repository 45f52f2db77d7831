/-
This file proves that bytes that have been handed out never change. A slice that belongs to some
object of a session, and goes on belonging to one, holds the same bytes however the session goes
on: what is received, compacted, discarded, copied and handed out in the meantime goes elsewhere.
Only writing to a slice that belongs to somebody is excluded.

An object shows the bytes of the slices that it owns, so what is true of slices is true of values,
which is stated for them, and of the columns and composites that hold them.
-/

import TabularStream.Proofs.Reachable

namespace TabularStream.Session

variable {session : Session}

/-- None of the operations, performed one after the other, writes to a slice of somebody. -/
def Undisturbed (session : Session) : List Op → Prop
  | [] => True
  | op :: rest => op.writes session = false ∧ (session.step op).session.Undisturbed rest

/-- A slice belongs to some object before, between and after the operations. -/
def Held (session : Session) (slice : Slice) : List Op → Prop
  | [] => slice ∈ session.handedOut
  | op :: rest => slice ∈ session.handedOut ∧ (session.step op).session.Held slice rest

instance decidableUndisturbed : (session : Session) → (ops : List Op) →
    Decidable (session.Undisturbed ops)
  | _, [] => inferInstanceAs (Decidable True)
  | session, op :: rest =>
    have := decidableUndisturbed (session.step op).session rest
    inferInstanceAs (Decidable (op.writes session = false ∧ _))

instance decidableHeld (slice : Slice) : (session : Session) → (ops : List Op) →
    Decidable (session.Held slice ops)
  | session, [] => inferInstanceAs (Decidable (slice ∈ session.handedOut))
  | session, op :: rest =>
    have := decidableHeld slice (session.step op).session rest
    inferInstanceAs (Decidable (slice ∈ session.handedOut ∧ _))

theorem Held.mem {slice : Slice} {ops : List Op} (held : session.Held slice ops) :
    slice ∈ session.handedOut := by
  cases ops with
  | nil => exact held
  | cons op rest => exact held.1

/-- One operation after the other leaves the bytes of a slice that somebody holds all the time. -/
theorem Sound.bytesOf_after {slice : Slice} {ops : List Op} (sound : session.Sound)
    (small : ∀ op ∈ ops, op.Small) (undisturbed : session.Undisturbed ops)
    (held : session.Held slice ops) :
    (session.after ops).pool.bytesOf slice = session.pool.bytesOf slice := by
  induction ops generalizing session with
  | nil => rfl
  | cons op rest inductionHypothesis =>
    obtain ⟨quiet, undisturbed⟩ := undisturbed
    obtain ⟨member, held⟩ := held
    have kept := sound.keeps_step (small op List.mem_cons_self) quiet
    have later := inductionHypothesis kept.sound
      (fun other member => small other (List.mem_cons_of_mem _ member)) undisturbed held
    exact later.trans (kept.same slice member held.mem)

/-- Bytes that have been handed out never change, for as long as somebody holds them. -/
theorem bytes_never_change {ops : List Op} (reachable : session.Reachable)
    (small : ∀ op ∈ ops, op.Small) (undisturbed : session.Undisturbed ops) :
    (∀ slice, session.Held slice ops →
      (session.after ops).pool.bytesOf slice = session.pool.bytesOf slice) ∧
    ∀ value : Value, (∀ slice ∈ value.slices, session.Held slice ops) →
      value.bytes (session.after ops).pool = value.bytes session.pool := by
  have same (slice : Slice) (held : session.Held slice ops) :=
    reachable.sound.bytesOf_after small undisturbed held
  refine ⟨same, fun value held => Value.bytes_congr fun slice member => ?_⟩
  exact same slice (held slice member)

/-- The operations that take two bytes out of a buffer with blocks of four. -/
def twoBytesRead : List Op := [.buffer (.append [1, 2, 3]), .buffer (.readSlice 2)]

/-- The operations that make the buffer move on to another block, and use the first one again. -/
def buffersMoved : List Op :=
  [.buffer (.append [4, 5, 6]), .buffer .discard, .buffer (.append [7]), .slice (.copyOf [8, 9])]

theorem bytes_never_change_twoBytes :
    (((fresh ⟨4, 1⟩ []).after twoBytesRead).after buffersMoved).pool.bytesOf ⟨0, 0, 2⟩ =
      ((fresh ⟨4, 1⟩ []).after twoBytesRead).pool.bytesOf ⟨0, 0, 2⟩ := by
  have new : Session.new ⟨4, 1⟩ [] = .ok (fresh ⟨4, 1⟩ []) := rfl
  have reachable : ((fresh ⟨4, 1⟩ []).after twoBytesRead).Reachable :=
    (Reachable.new new).after (by decide)
  exact (bytes_never_change reachable (by decide) (by decide)).1 ⟨0, 0, 2⟩ (by decide)

end TabularStream.Session
