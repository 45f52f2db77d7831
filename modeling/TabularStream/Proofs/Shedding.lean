/-
This file says which slices reading a value gives back. A chunk reader, and a stream over it, owns
its value as a list of slices and gives them back from the front: after any use it owns the end of
the list, and what it no longer owns has been released, in order and once.
-/

import TabularStream.LargeObject.Lob

namespace TabularStream

/-! ### Slices given back from the front -/

/-- The slices in front of those that are left have been given back. -/
def Pool.Sheds (pool : Pool) (slices : List Slice) (after : Pool) (left : List Slice) : Prop :=
  ∃ released, slices = released ++ left ∧ after = pool.releaseAll released

namespace Pool

variable {pool after : Pool} {slices left : List Slice}

theorem Sheds.refl (pool : Pool) (slices : List Slice) : pool.Sheds slices pool slices :=
  ⟨[], rfl, rfl⟩

theorem sheds_all (pool : Pool) (slices : List Slice) :
    pool.Sheds slices (pool.releaseAll slices) [] :=
  ⟨slices, (List.append_nil _).symm, rfl⟩

theorem Sheds.trans {last : Pool} {rest : List Slice} (front : pool.Sheds slices after left)
    (back : after.Sheds left last rest) : pool.Sheds slices last rest := by
  obtain ⟨released, rfl, rfl⟩ := front
  obtain ⟨more, rfl, rfl⟩ := back
  exact ⟨released ++ more, (List.append_assoc ..).symm, List.foldl_append.symm⟩

theorem sheds_releasePassed (pool : Pool) (slices : List Slice) (position : Nat) :
    pool.Sheds slices (pool.releasePassed slices position).1
      (pool.releasePassed slices position).2.2.1 := by
  induction slices generalizing pool position with
  | nil => exact Sheds.refl pool []
  | cons first rest inductionHypothesis =>
    unfold releasePassed
    split
    · obtain ⟨released, split, after⟩ :=
        inductionHypothesis (pool.release first) (position - first.size)
      exact ⟨first :: released, congrArg (first :: ·) split, after⟩
    · exact Sheds.refl pool _

end Pool

/-! ### Chunk readers -/

namespace ChunkReader

/-- What a call to `next` gives back. -/
def Sheds (reader : ChunkReader) (pool : Pool) (pulled : Pulled) : Prop :=
  pool.Sheds reader.data.live pulled.pool pulled.reader.data.live

theorem sheds_releaseConsumed (reader : ChunkReader) (pool : Pool) :
    pool.Sheds reader.data.live (reader.releaseConsumed pool).1
      (reader.releaseConsumed pool).2.data.live :=
  pool.sheds_releasePassed reader.data.live reader.offset

theorem Reads.sheds {reader : ChunkReader} {pool : Pool} {ahead : Bool} {pulled : Pulled}
    (reads : reader.Reads pool ahead pulled) : reader.Sheds pool pulled := by
  unfold ChunkReader.Sheds
  cases reads with
  | @ends moved moves =>
    rw [← moves.data]
    exact pool.sheds_all moved.data.live
  | @chunk moved _ _ moves | @scalar moved _ _ moves =>
    rw [← moves.data]
    exact Pool.Sheds.refl pool moved.data.live
  | past => exact Pool.Sheds.refl pool reader.data.live

theorem sheds_next (reader : ChunkReader) (pool : Pool) :
    reader.Sheds pool (reader.next pool) :=
  (reader.sheds_releaseConsumed pool).trans (reader.reads_next pool).sheds

end ChunkReader

/-! ### Streams -/

namespace Stream

/-- What using a stream gives back. -/
def Sheds {Answer : Type} (stream : Stream) (pool : Pool) (used : Streamed Answer) : Prop :=
  pool.Sheds stream.slices used.pool used.stream.slices

theorem sheds_pull (stream : Stream) (pool : Pool) : stream.Sheds pool (stream.pull pool) := by
  fun_induction pull stream pool with
  | case1 stream pool => exact Pool.Sheds.refl pool stream.slices
  | case2 stream pool => exact (stream.reader.sheds_next pool).trans (Pool.sheds_all _ _)
  | case3 stream pool => exact (stream.reader.sheds_next pool).trans (Pool.sheds_all _ _)
  | case4 stream pool => exact stream.reader.sheds_next pool
  | case5 stream pool =>
    refine (stream.reader.sheds_next pool).trans ?_
    exact (ChunkReader.sheds_releaseConsumed _ _).trans (Pool.sheds_all _ _)
  | case6 stream pool =>
    rename_i inductionHypothesis
    refine (stream.reader.sheds_next pool).trans ?_
    exact (ChunkReader.sheds_releaseConsumed _ _).trans inductionHypothesis
  | case7 stream pool =>
    exact (stream.reader.sheds_next pool).trans (ChunkReader.sheds_releaseConsumed _ _)

theorem sheds_next (stream : Stream) (pool : Pool) : stream.Sheds pool (stream.next pool) := by
  unfold next
  split
  · exact sheds_pull stream pool
  · exact Pool.Sheds.refl pool stream.slices
  · exact Pool.Sheds.refl pool stream.slices
  · exact Pool.Sheds.refl pool stream.slices

theorem sheds_readAll (stream : Stream) (pool : Pool) :
    stream.Sheds pool (stream.readAll pool) := by
  fun_induction readAll stream pool with
  | case1 stream pool =>
    rename_i inductionHypothesis
    exact (stream.sheds_next pool).trans inductionHypothesis
  | case2 stream pool =>
    rename_i inductionHypothesis
    exact (stream.sheds_next pool).trans inductionHypothesis
  | case3 stream pool => exact stream.sheds_next pool
  | case4 stream pool => exact stream.sheds_next pool

/-- However a stream is used, it gives slices back from the front. -/
theorem sheds_perform (stream : Stream) (pool : Pool) (op : Op) :
    stream.Sheds pool (stream.perform pool op) := by
  cases op with
  | next => exact stream.sheds_next pool
  | request count => exact Pool.Sheds.refl pool stream.slices
  | cancel => exact pool.sheds_all stream.slices
  | discard => exact pool.sheds_all stream.slices
  | readAll => exact stream.sheds_readAll pool
  | info => exact Pool.Sheds.refl pool stream.slices

end Stream

end TabularStream
