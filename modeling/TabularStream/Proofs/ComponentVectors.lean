/-
This file keeps a composite in another way: as a vector of handles together with the index of the
first one that has not been released. A released component stays in the vector as an empty handle,
so the index and the vector have to agree after every operation.

`ComponentVector.ofComposite` is the vector that a composite stands for, and each function of the
vector has a lemma that carries it over to the composite, `ComponentVector.agrees_ofComposite` for
those that only look. In terms of the list of its slices, `ComponentVector.resembles_ofComposite`
says what there is to see.
-/

import TabularStream.Proofs.Values

namespace TabularStream

/-- A vector of handles, and how many at its front have been released. -/
structure ComponentVector where
  components : List Handle := []
  first : Nat := 0
  deriving DecidableEq, Repr

namespace ComponentVector

/-! ### Looking at a vector -/

/-- The handles that have not been released. -/
def kept (vector : ComponentVector) : List Handle := vector.components.drop vector.first

/-- Is there a component that has not been released? -/
def owns (vector : ComponentVector) : Bool := vector.first < vector.components.length

/-- The number of components that have not been released, as a difference of words. -/
def count (vector : ComponentVector) : Nat := Word.sub vector.components.length vector.first

/-- A component, at its distance from the first one that has not been released. -/
def component (vector : ComponentVector) (index : Nat) : Except Failure Handle :=
  match vector.components[Word.add vector.first index]? with
  | some handle => .ok handle
  | none => .error .outOfRange

/-- The number of bytes, added up from the front. -/
def size (vector : ComponentVector) : Nat :=
  vector.kept.foldl (fun sum handle => Word.add sum handle.size) 0

/-- Copy handles to the end of a string that has `copied` bytes already. -/
def copyHandles (pool : Pool) : (copied : Nat) → List Handle → Except Failure Bytes
  | _, [] => .ok []
  | copied, handle :: rest =>
    if Word.largestSize < copied + handle.size then .error (.tooLarge .growth)
    else
      match copyHandles pool (copied + handle.size) rest with
      | .ok bytes => .ok (handle.bytes pool ++ bytes)
      | .error failure => .error failure

/-- Copy the bytes. Room for them is set aside first. -/
def copy (vector : ComponentVector) (pool : Pool) : Except Failure Bytes :=
  if Word.largestSize < vector.size then .error (.tooLarge .reserve)
  else copyHandles pool 0 vector.kept

/-- The slices that the vector holds. They are given back when it is destroyed. -/
def held (vector : ComponentVector) : List Slice := vector.components.flatMap Option.toList

/-! ### Changing a vector -/

/-- Move a handle, which has to own a slice, to the end. -/
def add (vector : ComponentVector) (handle : Handle) : Except Failure ComponentVector :=
  if handle.isSome then .ok { vector with components := vector.components ++ [handle] }
  else .error .precondition

/-- Release handles in order. -/
def releaseHandles (pool : Pool) (handles : List Handle) : Pool :=
  handles.foldl (fun pool handle => handle.release pool) pool

/-- Release the first component, if there is one. Its handle stays, empty. -/
def releaseFront (vector : ComponentVector) (pool : Pool) : Pool × ComponentVector :=
  match vector.components[vector.first]? with
  | some handle =>
    (handle.release pool, ⟨vector.components.set vector.first none, vector.first + 1⟩)
  | none => (pool, vector)

/-- Release every component from the first one on and start again. Clearing the vector destroys the
handles in front of it too, which would give back a slice that one of them still held. -/
def release (vector : ComponentVector) (pool : Pool) : Pool × ComponentVector :=
  let released := releaseHandles pool vector.kept
  (releaseHandles released (vector.components.take vector.first), {})

/-- Move the components elsewhere. Gives the new vector and what is left of the old one, whose index
goes back to the start. -/
def move (vector : ComponentVector) : ComponentVector × ComponentVector :=
  (⟨vector.components, vector.first⟩, {})

/-! ### The vector of a composite -/

/-- The vector of a composite: as many empty handles as have been released, and then the slices. -/
def ofComposite (composite : Composite) : ComponentVector :=
  ⟨List.replicate composite.released none ++ composite.live.map some, composite.released⟩

variable (composite : Composite) (pool : Pool)

theorem length_ofComposite :
    (ofComposite composite).components.length = composite.released + composite.live.length := by
  unfold ofComposite
  rw [List.length_append, List.length_replicate, List.length_map]

theorem kept_ofComposite : (ofComposite composite).kept = composite.live.map some :=
  List.drop_left' List.length_replicate

/-- Destroying the vector gives back each slice of the composite once, and no other. -/
theorem held_ofComposite : (ofComposite composite).held = composite.live := by
  have nothing : (List.replicate composite.released (none : Handle)).flatMap Option.toList = [] :=
    List.flatMap_eq_nil_iff.2 fun handle member => by rw [List.eq_of_mem_replicate member]; rfl
  have all : (composite.live.map some).flatMap Option.toList = composite.live := by
    rw [List.flatMap_map]
    exact List.flatMap_singleton' composite.live
  unfold held ofComposite
  rw [List.flatMap_append, nothing, all, List.nil_append]

theorem owns_ofComposite : (ofComposite composite).owns = composite.owns := by
  unfold owns Composite.owns
  rw [length_ofComposite]
  cases composite.live with
  | nil => simp [ofComposite]
  | cons slice rest => simp [ofComposite]

theorem count_ofComposite (fits : (ofComposite composite).components.length < Word.modulus) :
    (ofComposite composite).count = composite.count := by
  have length := length_ofComposite composite
  have front : (ofComposite composite).first = composite.released := rfl
  unfold count Composite.count
  rw [Word.sub_of_le (by omega) fits]
  omega

/-- Any index finds the same component, also one with which the sum wraps around. -/
theorem component_ofComposite (index : Nat) :
    (ofComposite composite).component index = composite.component index := by
  unfold component Composite.component ofComposite
  dsimp only
  by_cases wraps : Word.add composite.released index < composite.released
  · rw [if_pos wraps, List.getElem?_append_left (by rwa [List.length_replicate]),
      List.getElem?_replicate_of_lt wraps]
  · rw [if_neg wraps, List.getElem?_append_right (by rw [List.length_replicate]; omega),
      List.length_replicate, List.getElem?_map]
    cases composite.live[Word.add composite.released index - composite.released]? <;> rfl

theorem foldl_size (slices : List Slice) {start : Nat} (word : start < Word.modulus) :
    (slices.map some).foldl (fun sum handle => Word.add sum (Handle.size handle)) start =
      Word.add start (totalSize slices) := by
  induction slices generalizing start with
  | nil => exact (Nat.mod_eq_of_lt word).symm
  | cons slice rest inductionHypothesis =>
    rw [List.map_cons, List.foldl_cons, inductionHypothesis (Word.add_lt _ _), totalSize]
    unfold Word.add
    rw [Nat.mod_add_mod, Nat.add_mod_mod, Nat.add_assoc]
    rfl

/-- Adding up from the front and from the back gives the same word. -/
theorem size_ofComposite : (ofComposite composite).size = composite.size := by
  unfold size Composite.size
  rw [kept_ofComposite, foldl_size composite.live (by decide), totalSize_sum]
  show (0 + _) % _ = _
  rw [Nat.zero_add, Nat.mod_mod]

theorem copyHandles_eq (copied : Nat) (slices : List Slice) :
    copyHandles pool copied (slices.map some) = Composite.copySlices pool copied slices := by
  induction slices generalizing copied with
  | nil => rfl
  | cons slice rest inductionHypothesis =>
    rw [List.map_cons, copyHandles, Composite.copySlices, inductionHypothesis]
    rfl

theorem copy_ofComposite : (ofComposite composite).copy pool = composite.copy pool := by
  unfold copy Composite.copy
  rw [size_ofComposite, kept_ofComposite, copyHandles_eq]

theorem add_ofComposite (slice : Slice) :
    (ofComposite composite).add (some slice) = .ok (ofComposite (composite.add slice)) := by
  unfold add ofComposite Composite.add
  rw [List.map_append, ← List.append_assoc]
  rfl

theorem releaseHandles_eq (slices : List Slice) :
    releaseHandles pool (slices.map some) = pool.releaseAll slices := by
  unfold releaseHandles
  rw [List.foldl_map]
  rfl

theorem releaseFront_ofComposite :
    (ofComposite composite).releaseFront pool =
      ((composite.releaseFront pool).1, ofComposite (composite.releaseFront pool).2) := by
  obtain ⟨released, live⟩ := composite
  have full : (List.replicate released (none : Handle)).length ≤ released :=
    Nat.le_of_eq List.length_replicate
  have there : (List.replicate released none ++ live.map some)[released]? =
      (live.map some)[0]? := by
    rw [List.getElem?_append_right full, List.length_replicate, Nat.sub_self]
  unfold releaseFront ofComposite
  dsimp only
  rw [there]
  cases live with
  | nil => rfl
  | cons slice rest =>
    have emptied : (List.replicate released none ++ (slice :: rest).map some).set released none =
        List.replicate (released + 1) none ++ rest.map some := by
      rw [List.set_append_right _ _ full, List.length_replicate, Nat.sub_self,
        List.replicate_succ', List.append_assoc]
      rfl
    exact congrArg (fun components => (pool.release slice, ComponentVector.mk components _)) emptied

/-- The handles in front have nothing to give back. -/
theorem releaseHandles_front :
    releaseHandles pool
      ((ofComposite composite).components.take (ofComposite composite).first) = pool := by
  have front : (ofComposite composite).components.take (ofComposite composite).first =
      List.replicate composite.released none := List.take_left' List.length_replicate
  have kept (count : Nat) : releaseHandles pool (List.replicate count none) = pool := by
    induction count with
    | zero => rfl
    | succ count inductionHypothesis => exact inductionHypothesis
  rw [front, kept]

theorem release_ofComposite :
    (ofComposite composite).release pool =
      ((composite.release pool).1, ofComposite (composite.release pool).2) := by
  unfold release
  dsimp only
  rw [releaseHandles_front, kept_ofComposite, releaseHandles_eq]
  rfl

/-! ### What there is to see -/

/-- A vector and a composite look the same. -/
structure Agrees (vector : ComponentVector) (composite : Composite) (pool : Pool) : Prop where
  owns : vector.owns = composite.owns
  count : vector.count = composite.count
  size : vector.size = composite.size
  copy : vector.copy pool = composite.copy pool
  component : ∀ index, vector.component index = composite.component index

/-- A vector looks like a list of slices. Its bytes are those of the slices in order, unless they
claim to be more than there can be, and an index below `2^63` finds a slice or nothing. -/
structure Resembles (vector : ComponentVector) (list : List Slice) (pool : Pool) : Prop where
  owns : vector.owns = !list.isEmpty
  count : vector.count = list.length
  size : vector.size = (list.map Slice.size).sum % Word.modulus
  bytes : (list.map Slice.size).sum ≤ Word.largestSize →
    vector.copy pool = .ok (list.flatMap pool.bytesOf)
  tooLarge : Word.largestSize < (list.map Slice.size).sum →
    ∃ reason, vector.copy pool = .error (.tooLarge reason)
  component : ∀ index slice, index ≤ Word.largestSize → list[index]? = some slice →
    vector.component index = .ok (some slice)
  outOfRange : ∀ index, index ≤ Word.largestSize →
    (vector.component index = .error .outOfRange ↔ list.length ≤ index)

/-- The vector of a composite looks like it. A vector has no more components than there can be
bytes. -/
theorem agrees_ofComposite
    (fits : (ofComposite composite).components.length ≤ Word.largestSize) :
    (ofComposite composite).Agrees composite pool where
  owns := owns_ofComposite composite
  count := count_ofComposite composite (Nat.lt_of_le_of_lt fits (by decide))
  size := size_ofComposite composite
  copy := copy_ofComposite composite pool
  component := component_ofComposite composite

theorem resembles_ofComposite
    (fits : (ofComposite composite).components.length ≤ Word.largestSize) :
    (ofComposite composite).Resembles composite.live pool := by
  have agrees := agrees_ofComposite composite pool fits
  have length := length_ofComposite composite
  have size : composite.size = (composite.live.map Slice.size).sum % Word.modulus :=
    totalSize_sum composite.live
  have copied : Composite.copySlices pool 0 composite.live = _ :=
    Composite.copySlices_sum pool composite.live (Nat.zero_le _)
  rw [Nat.zero_add] at copied
  have found (index : Nat) (small : index ≤ Word.largestSize) :
      (ofComposite composite).component index =
        composite.live[index]?.elim (.error .outOfRange) fun slice => .ok (some slice) := by
    have room : Word.largestSize + Word.largestSize < Word.modulus := by decide
    rw [agrees.component, Composite.component, Word.add_of_lt (by omega),
      if_neg (Nat.not_lt.2 (Nat.le_add_right _ _)), Nat.add_sub_cancel_left]
    cases composite.live[index]? <;> rfl
  refine ⟨agrees.owns, agrees.count, agrees.size.trans size, fun small => ?_, fun large => ?_,
    fun index slice small there => ?_, fun index small => ?_⟩
  · have word : composite.size ≤ Word.largestSize := by
      rw [size]
      exact Nat.le_trans (Nat.mod_le _ _) small
    rw [agrees.copy, Composite.copy, if_neg (Nat.not_lt.2 word), copied, if_pos small]
  · rw [agrees.copy, Composite.copy]
    by_cases word : Word.largestSize < composite.size
    · exact ⟨_, if_pos word⟩
    · rw [if_neg word, copied, if_neg (Nat.not_le.2 large)]
      exact ⟨_, rfl⟩
  · rw [found index small, there, Option.elim_some]
  · rw [found index small, ← List.getElem?_eq_none_iff]
    cases composite.live[index]? with
    | none => exact iff_of_true rfl rfl
    | some slice => exact iff_of_false nofun nofun

end ComponentVector

end TabularStream
