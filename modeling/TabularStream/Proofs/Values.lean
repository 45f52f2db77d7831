/-
This file says what can be seen of a value: its bytes, and its size as a sum of 64-bit words. The
sum does not wrap around when the slices of the value lie inside of their blocks and do not claim
more than a word can count together, and then the bytes can be copied as well.
-/

import Mathlib.Algebra.Ring.Nat
import TabularStream.LargeObject.ChunkReader
import TabularStream.Row

namespace TabularStream

/-! ### Bytes -/

/-- The wire bytes of the data that a slot owns. -/
def Slot.wire? (pool : Pool) (slot : Slot) : Option Bytes := slot.value?.map (·.bytes pool)

/-- The bytes of a value are those of its slices. -/
theorem Value.bytes_eq (value : Value) (pool : Pool) :
    value.bytes pool = value.slices.flatMap pool.bytesOf := by
  cases value with
  | scalar handle =>
    cases handle with
    | none => rfl
    | some slice => exact (List.append_nil _).symm
  | chunked composite => rfl

theorem Value.bytes_congr {value : Value} {pool pool' : Pool}
    (same : ∀ slice ∈ value.slices, pool'.bytesOf slice = pool.bytesOf slice) :
    value.bytes pool' = value.bytes pool := by
  rw [bytes_eq, bytes_eq, List.flatMap_def, List.flatMap_def, List.map_congr_left same]

theorem Slot.wire?_congr {slot : Slot} {pool pool' : Pool}
    (same : ∀ slice ∈ slot.slices, pool'.bytesOf slice = pool.bytesOf slice) :
    slot.wire? pool' = slot.wire? pool := by
  cases slot with
  | owned value => exact congrArg some (Value.bytes_congr same)
  | _ => rfl

/-! ### Sizes -/

/-- The number of bytes of some slices is the sum of their sizes, modulo `2^64`. -/
theorem totalSize_sum (slices : List Slice) :
    totalSize slices = (slices.map Slice.size).sum % Word.modulus := by
  induction slices with
  | nil => rfl
  | cons slice rest inductionHypothesis =>
    rw [totalSize, inductionHypothesis, List.map_cons, List.sum_cons]
    exact Nat.add_mod_mod _ _ _

/-- Slices are copied unless they claim to be more bytes than there can be. -/
theorem Composite.copySlices_sum (pool : Pool) (slices : List Slice) {copied : Nat}
    (room : copied ≤ Word.largestSize) :
    copySlices pool copied slices =
      if copied + (slices.map Slice.size).sum ≤ Word.largestSize
        then .ok (slices.flatMap pool.bytesOf) else .error (.tooLarge .growth) := by
  induction slices generalizing copied with
  | nil => exact (if_pos room).symm
  | cons slice rest inductionHypothesis =>
    rw [copySlices, List.map_cons, List.sum_cons, ← Nat.add_assoc]
    by_cases more : Word.largestSize < copied + slice.size
    · rw [if_pos more, if_neg (by omega)]
    · rw [if_neg more, inductionHypothesis (Nat.not_lt.1 more)]
      by_cases enough : copied + slice.size + (rest.map Slice.size).sum ≤ Word.largestSize
      · rw [if_pos enough, if_pos enough]
        rfl
      · rw [if_neg enough, if_neg enough]

section Sizes

variable {pool : Pool} {slices : List Slice}

/-- Slices inside of their blocks have as many bytes as they claim. -/
theorem sum_size (held : ∀ slice ∈ slices, pool.Holds slice) :
    (slices.map Slice.size).sum = (slices.flatMap pool.bytesOf).length := by
  induction slices with
  | nil => rfl
  | cons first rest inductionHypothesis =>
    have size : (pool.bytesOf first).length = first.size := held first List.mem_cons_self
    have others : ∀ slice ∈ rest, pool.Holds slice :=
      fun slice member => held slice (List.mem_cons_of_mem _ member)
    rw [List.map_cons, List.sum_cons, List.flatMap_cons, List.length_append, size,
      inductionHypothesis others]

/-- The sizes of slices add up to the number of their bytes, modulo `2^64`. -/
theorem totalSize_mod (held : ∀ slice ∈ slices, pool.Holds slice) :
    totalSize slices = (slices.flatMap pool.bytesOf).length % Word.modulus := by
  rw [totalSize_sum, sum_size held]

theorem totalSize_eq (held : ∀ slice ∈ slices, pool.Holds slice)
    (small : (slices.flatMap pool.bytesOf).length < Word.modulus) :
    totalSize slices = (slices.flatMap pool.bytesOf).length :=
  (totalSize_mod held).trans (Nat.mod_eq_of_lt small)

theorem Composite.copySlices_eq (held : ∀ slice ∈ slices, pool.Holds slice) {copied : Nat}
    (small : copied + (slices.flatMap pool.bytesOf).length ≤ Word.largestSize) :
    copySlices pool copied slices = .ok (slices.flatMap pool.bytesOf) := by
  rw [copySlices_sum pool slices (Nat.le_trans (Nat.le_add_right _ _) small), sum_size held,
    if_pos small]

/-- A value whose bytes fit into memory can be copied. -/
theorem Value.copy_eq {value : Value} (held : ∀ slice ∈ value.slices, pool.Holds slice)
    (small : (value.bytes pool).length ≤ Word.largestSize) :
    value.copy pool = .ok (value.bytes pool) := by
  cases value with
  | scalar handle =>
    have size : handle.size = (handle.bytes pool).length := by
      cases handle with
      | none => rfl
      | some slice => exact (held slice List.mem_cons_self).symm
    exact if_neg (by rw [size]; exact Nat.not_lt.2 small)
  | chunked composite =>
    have size : composite.size = _ := totalSize_eq held (Nat.lt_of_le_of_lt small (by decide))
    have copied : Composite.copySlices pool 0 composite.live = _ :=
      Composite.copySlices_eq held ((Nat.zero_add _).symm ▸ small)
    refine (if_neg ?_).trans copied
    rw [size]
    exact Nat.not_lt.2 small

end Sizes

end TabularStream
