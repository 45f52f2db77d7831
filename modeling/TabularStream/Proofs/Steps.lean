/-
This file proves that the operations of a session on slices and composites keep its invariant. All
of them move slices from one place to another, hand out one more or take some back, and a count of
the slices at each place says which. Writing to a slice is the exception and comes later.
-/

import TabularStream.Proofs.Sessions

namespace TabularStream

theorem Handle.release_eq (handle : Handle) (pool : Pool) :
    handle.release pool = pool.releaseAll handle.toList := by
  cases handle <;> rfl

theorem Value.slices_emptied (value : Value) : value.emptied.slices = [] := by
  cases value <;> rfl

theorem Row.slices_new {columns : Nat} {row : Row} (made : Row.new columns = .ok row) :
    row.slices = [] := by
  unfold Row.new at made
  split at made
  · cases made
  · cases made
    exact List.flatMap_eq_nil_iff.2 fun slot member => by rw [List.eq_of_mem_replicate member]; rfl

theorem Row.slices_afterRelease (slots : List Slot) :
    Row.slices ⟨slots.map Slot.afterRelease⟩ = [] := by
  refine List.flatMap_eq_nil_iff.2 fun slot member => ?_
  obtain ⟨before, -, rfl⟩ := List.mem_map.1 member
  cases before <;> rfl

theorem Row.count_setSlot {row : Row} {index : Nat} {old : Slot}
    (there : row.slots[index]? = some old) (new : Slot) (slice : Slice) :
    (row.setSlot index new).slices.count slice + old.slices.count slice =
      row.slices.count slice + new.slices.count slice :=
  Session.count_flatMap_set Slot.slices there new slice

/-- The data that is taken out of a row is what the row no longer owns. -/
theorem Row.count_take {row left : Row} {index : Nat} {value : Option Value}
    (success : row.take index = .ok (value, left)) (slice : Slice) :
    row.slices.count slice =
      left.slices.count slice + ((value.map Value.slices).getD []).count slice := by
  unfold Row.take at success
  split at success
  · cases success
  · cases success
    rfl
  · rename_i there
    cases success
    exact (Row.count_setSlot there .transferred slice).symm
  · cases success
  · cases success

/-- The data that is put into a row is what the row owns in addition. -/
theorem Row.count_put {row filled : Row} {index : Nat} {value : Value}
    (success : row.put index value = .ok filled) (slice : Slice) :
    filled.slices.count slice = row.slices.count slice + value.slices.count slice := by
  unfold Row.put at success
  split at success
  · cases success
  · rename_i there
    cases success
    exact Row.count_setSlot there (.owned value) slice
  · cases success

namespace Session

variable {session after : Session}

/-! ### Slices -/

/-- Handing out a slice of a block that nobody used, as `allocate` and `copyOf` do. -/
theorem Sound.keeps_addSlice {pool : Pool} {slice : Slice} (sound : session.Sound)
    (given : pool.Accounts (slice :: (session.buffer.slices ++ session.handedOut)) ∧
      (∀ other ∈ session.buffer.slices ++ session.handedOut, other.block ≠ slice.block) ∧
        session.pool.Spares pool (session.buffer.slices ++ session.handedOut)) :
    session.Keeps ({ session with pool }.addSlice (some slice)).1 := by
  refine Sound.gains [slice] (ReceiveBuffer.Sound.handOut_apart sound given) ?_ ?_
  · intro slice
    simp only [count_handedOut, addSlice, count_flatMap_append, Option.toList]
    omega
  · intro slice member
    exact (given.2.2 slice (List.mem_append_right _ member)).1

theorem mem_handedOut_of_slices {place : Nat} {slice : Slice}
    (there : session.slices[place]? = some (some slice)) : slice ∈ session.handedOut := by
  have member : slice ∈ session.slices.flatMap Option.toList :=
    List.mem_flatMap.2 ⟨_, List.mem_of_getElem? there, Option.mem_toList.2 rfl⟩
  simp only [handedOut, List.mem_append, member, true_or]

/-- Sharing a slice that has been handed out, as `retain` and `duplicate` do. -/
theorem Sound.keeps_share {place offset size : Nat} {handle : Handle} {pool : Pool} {part : Slice}
    (sound : session.Sound) (there : session.slices[place]? = some handle)
    (small : offset + size < Word.modulus)
    (success : handle.retain session.pool offset size = .ok (pool, part)) :
    session.Keeps ({ session with pool }.addSlice (some part)).1 := by
  cases handle with
  | none => cases success
  | some slice =>
    have member := mem_handedOut_of_slices there
    have accounts := ReceiveBuffer.Sound.accounts sound
    have member' := List.mem_append_right session.buffer.slices member
    obtain ⟨within, rfl, rfl⟩ := accounts.retain_inversion member' small success
    have inside := accounts.end_le member'
    refine Sound.gains [⟨slice.block, slice.offset + offset, size⟩] ?_ ?_ ?_
    · refine ReceiveBuffer.Sound.handOut sound (accounts.addReference member' rfl ?_) ?_ ?_
      · show slice.offset + offset + size ≤ _
        omega
      · intro other _
        exact ⟨Pool.bytesOf_addReference _ _ _, Pool.capacity_addReference _ _ _⟩
      · intro block held other only same
        cases List.mem_singleton.1 only
        have behind := ReceiveBuffer.Sound.behind sound block held slice member same
        show slice.offset + offset + size ≤ session.buffer.writer
        omega
    · intro slice
      simp only [count_handedOut, addSlice, count_flatMap_append, Option.toList]
      omega
    · exact fun slice _ => Pool.bytesOf_addReference _ _ _

/-- A slice is no larger than a block can be. -/
theorem Sound.size_le (sound : session.Sound) {place : Nat} {handle : Handle}
    (there : session.slices[place]? = some handle) : handle.size ≤ Word.largestSize := by
  cases handle with
  | none => exact Nat.zero_le _
  | some slice =>
    have accounts := ReceiveBuffer.Sound.accounts sound
    have member := List.mem_append_right session.buffer.slices (mem_handedOut_of_slices there)
    have limit := accounts.capacity_le slice.block
    have inside := accounts.end_le member
    show slice.size ≤ _
    omega

/-- Replacing a slice after its place has given back what it held. -/
theorem sheds_release {place : Nat} {handle : Handle}
    (there : session.slices[place]? = some handle) :
    session.Sheds ({ session with pool := handle.release session.pool }.setSlice place none)
      handle.toList := by
  refine ⟨rfl, Handle.release_eq _ _, fun slice => ?_⟩
  have moved := count_flatMap_set Option.toList there none slice
  rw [Option.toList_none, List.count_nil] at moved
  simp only [count_handedOut, setSlice]
  omega

/-- Moving a slice to another place gives back what that place held. -/
theorem sheds_assign {target source : Nat} {old handle : Handle}
    (there : session.slices[target]? = some old) (there' : session.slices[source]? = some handle)
    (apart : target ≠ source) : session.Sheds
      (({ session with pool := old.release session.pool }.setSlice source none).setSlice target
        handle) old.toList := by
  refine ⟨rfl, Handle.release_eq _ _, fun slice => ?_⟩
  have left := count_flatMap_set Option.toList there' none slice
  have kept : (session.slices.set source none)[target]? = some old := by
    rw [List.getElem?_set_ne apart.symm, there]
  have moved := count_flatMap_set Option.toList kept handle slice
  rw [Option.toList_none, List.count_nil] at left
  simp only [count_handedOut, setSlice]
  omega

/-- Moving a slice elsewhere in a session leaves its place empty. -/
theorem count_setSlice {place : Nat} {handle : Handle}
    (there : session.slices[place]? = some handle) (slice : Slice) :
    session.handedOut.count slice =
      (session.setSlice place none).handedOut.count slice + handle.toList.count slice := by
  have moved := count_flatMap_set Option.toList there none slice
  rw [Option.toList_none, List.count_nil] at moved
  simp only [count_handedOut, setSlice]
  omega

theorem Sound.keeps_slice (sound : session.Sound) (op : SliceOp)
    (small : ∀ place offset size, op = .retain place offset size →
      offset.toNat + size.toNat < Word.modulus)
    (quiet : ∀ place byte slice, op = .fill place byte →
      session.slices[place]? ≠ some (some slice)) :
    session.Keeps (session.performSlice op).session := by
  cases op with
  | allocate size =>
    refine sound.attempt fun after reply success => ?_
    obtain ⟨⟨pool, slice⟩, allocation, done⟩ := bind_inversion success
    cases done
    exact sound.keeps_addSlice ((ReceiveBuffer.Sound.accounts sound).allocate allocation)
  | copyOf bytes =>
    refine sound.attempt fun after reply success => ?_
    obtain ⟨⟨pool, slice⟩, copied, done⟩ := bind_inversion success
    cases done
    exact sound.keeps_addSlice ((ReceiveBuffer.Sound.accounts sound).copyOf copied)
  | retain place offset size =>
    refine sound.attempt fun after reply success => ?_
    obtain ⟨handle, found, success⟩ := bind_inversion success
    obtain ⟨⟨pool, part⟩, shared, done⟩ := bind_inversion success
    cases done
    exact sound.keeps_share (placeAt_inversion found) (small place offset size rfl) shared
  | duplicate place =>
    refine sound.attempt fun after reply success => ?_
    obtain ⟨handle, found, success⟩ := bind_inversion success
    obtain ⟨⟨pool, part⟩, shared, done⟩ := bind_inversion success
    cases done
    have limit := sound.size_le (placeAt_inversion found)
    refine sound.keeps_share (placeAt_inversion found) ?_ shared
    rw [Nat.zero_add]
    exact Nat.lt_of_le_of_lt limit (by decide)
  | move place =>
    refine sound.attempt fun after reply success => ?_
    obtain ⟨handle, found, done⟩ := bind_inversion success
    cases done
    refine sound.sheds [] ⟨rfl, rfl, fun slice => ?_⟩
    rw [count_setSlice (placeAt_inversion found)]
    simp only [count_handedOut, count_flatMap_append, List.count_nil]
    omega
  | assign target source =>
    refine sound.attempt fun after reply success => ?_
    obtain ⟨old, found, success⟩ := bind_inversion success
    obtain ⟨handle, found', done⟩ := bind_inversion success
    split at done
    · cases done
      exact sound.keeps
    · rename_i apart
      cases done
      exact sound.sheds _
        (sheds_assign (placeAt_inversion found) (placeAt_inversion found') apart)
  | fill place byte =>
    refine sound.attempt fun after reply success => ?_
    obtain ⟨handle, found, done⟩ := bind_inversion success
    cases done
    cases handle with
    | none => exact sound.keeps
    | some slice => exact absurd (placeAt_inversion found) (quiet place byte slice rfl)
  | release place =>
    refine sound.attempt fun after reply success => ?_
    obtain ⟨handle, found, done⟩ := bind_inversion success
    cases done
    exact sound.sheds _ (sheds_release (placeAt_inversion found))
  | view place =>
    refine sound.attempt fun after reply success => ?_
    obtain ⟨handle, found, done⟩ := bind_inversion success
    cases done
    exact sound.keeps
  | bytes place =>
    refine sound.attempt fun after reply success => ?_
    obtain ⟨handle, found, done⟩ := bind_inversion success
    cases done
    exact sound.keeps
  | toValue place =>
    refine sound.attempt fun after reply success => ?_
    obtain ⟨handle, found, done⟩ := bind_inversion success
    cases done
    refine sound.sheds [] ⟨rfl, rfl, fun slice => ?_⟩
    rw [count_setSlice (placeAt_inversion found)]
    simp only [count_handedOut, count_slicesOf_append, Value.slices, List.count_nil]
    omega

/-! ### Composites -/

theorem count_setComposite (session : Session) {place : Nat} {old : Composite}
    (there : session.composites[place]? = some old) (new : Composite) (slice : Slice) :
    (session.setComposite place new).handedOut.count slice + old.live.count slice =
      session.handedOut.count slice + new.live.count slice := by
  have moved := count_flatMap_set Composite.live there new slice
  simp only [count_handedOut, setComposite]
  omega

/-- Moving the components of a composite elsewhere leaves it empty. -/
theorem count_emptyComposite {place : Nat} {old : Composite}
    (there : session.composites[place]? = some old) (slice : Slice) :
    session.handedOut.count slice =
      (session.setComposite place Composite.empty).handedOut.count slice +
        old.live.count slice := by
  have moved := count_setComposite session there Composite.empty slice
  rw [show Composite.empty.live = [] from rfl, List.count_nil] at moved
  exact moved.symm

/-- Moving a composite to another place gives back what that place held. -/
theorem sheds_assignComposite {target source : Nat}
    {old moved : Composite} (there : session.composites[target]? = some old)
    (there' : session.composites[source]? = some moved) (apart : target ≠ source) :
    session.Sheds (({ session with pool := session.pool.releaseAll old.live }.setComposite source
      Composite.empty).setComposite target moved) old.live := by
  refine ⟨rfl, rfl, fun slice => ?_⟩
  have left := count_emptyComposite there' slice
  have kept : (session.composites.set source Composite.empty)[target]? = some old := by
    rw [List.getElem?_set_ne apart.symm, there]
  have done := count_setComposite ({ session with
    pool := session.pool.releaseAll old.live }.setComposite source Composite.empty) kept moved slice
  have same : handedOut ({ session with pool := session.pool.releaseAll old.live }.setComposite
    source Composite.empty) = (session.setComposite source Composite.empty).handedOut := rfl
  rw [same] at done
  omega

/-- The operations on composites move slices, and take some back. -/
theorem sheds_composite (session : Session) (op : CompositeOp) :
    ∃ released, session.Sheds (session.performComposite op).session released := by
  cases op with
  | new =>
    refine sheds_attempt fun after reply success => ?_
    cases success
    refine ⟨[], rfl, rfl, fun slice => ?_⟩
    simp only [count_handedOut, count_flatMap_append, Composite.empty, List.count_nil]
    omega
  | add composite place =>
    refine sheds_attempt fun after reply success => ?_
    obtain ⟨target, found, success⟩ := bind_inversion success
    obtain ⟨handle, found', done⟩ := bind_inversion success
    cases handle with
    | none => cases done
    | some owned =>
      cases done
      refine ⟨[], rfl, rfl, fun slice => ?_⟩
      have left := count_setSlice (placeAt_inversion found') slice
      have there : (session.setSlice place none).composites[composite]? = some target :=
        compositeAt_inversion found
      have moved := count_setComposite (session.setSlice place none) there (target.add owned) slice
      simp only [Composite.add, List.count_append, List.count_nil, Option.toList_some]
        at left moved ⊢
      omega
  | view composite =>
    refine sheds_attempt fun after reply success => ?_
    obtain ⟨found, -, success⟩ := bind_inversion success
    obtain ⟨view, -, done⟩ := bind_inversion success
    cases done
    exact ⟨_, session.sheds_nothing⟩
  | component composite index =>
    refine sheds_attempt fun after reply success => ?_
    obtain ⟨found, -, success⟩ := bind_inversion success
    obtain ⟨handle, -, done⟩ := bind_inversion success
    cases done
    exact ⟨_, session.sheds_nothing⟩
  | releaseFront composite =>
    refine sheds_attempt fun after reply success => ?_
    obtain ⟨target, found, done⟩ := bind_inversion success
    cases done
    have there := compositeAt_inversion found
    obtain ⟨released, live⟩ := target
    cases live with
    | nil =>
      refine ⟨[], rfl, rfl, fun slice => ?_⟩
      have moved := count_setComposite session there ⟨released, []⟩ slice
      rw [List.count_nil, Nat.zero_add]
      exact (Nat.add_right_cancel moved).symm
    | cons first rest =>
      refine ⟨[first], rfl, rfl, fun slice => ?_⟩
      have moved := count_setComposite session there ⟨released + 1, rest⟩ slice
      rw [List.count_cons] at moved
      rw [List.count_singleton]
      change _ = _ + (session.setComposite composite ⟨released + 1, rest⟩).handedOut.count slice
      dsimp only at moved
      omega
  | release composite =>
    refine sheds_attempt fun after reply success => ?_
    obtain ⟨target, found, done⟩ := bind_inversion success
    cases done
    refine ⟨target.live, rfl, rfl, fun slice => ?_⟩
    exact (count_emptyComposite (compositeAt_inversion found) slice).trans (Nat.add_comm _ _)
  | move composite =>
    refine sheds_attempt fun after reply success => ?_
    obtain ⟨target, found, done⟩ := bind_inversion success
    cases done
    refine ⟨[], rfl, rfl, fun slice => ?_⟩
    rw [count_emptyComposite (compositeAt_inversion found)]
    simp only [count_handedOut, count_flatMap_append, List.count_nil]
    omega
  | assign target source =>
    refine sheds_attempt fun after reply success => ?_
    obtain ⟨old, found, success⟩ := bind_inversion success
    obtain ⟨moved, found', done⟩ := bind_inversion success
    split at done
    · cases done
      exact ⟨_, session.sheds_nothing⟩
    · rename_i apart
      cases done
      exact ⟨_, sheds_assignComposite (compositeAt_inversion found)
        (compositeAt_inversion found') apart⟩
  | toValue composite =>
    refine sheds_attempt fun after reply success => ?_
    obtain ⟨target, found, done⟩ := bind_inversion success
    cases done
    refine ⟨[], rfl, rfl, fun slice => ?_⟩
    rw [count_emptyComposite (compositeAt_inversion found)]
    simp only [count_handedOut, count_slicesOf_append, Value.slices, List.count_nil]
    omega

theorem Sound.keeps_composite (sound : session.Sound) (op : CompositeOp) :
    session.Keeps (session.performComposite op).session := by
  obtain ⟨released, sheds⟩ := session.sheds_composite op
  exact sound.sheds released sheds

end Session

end TabularStream
