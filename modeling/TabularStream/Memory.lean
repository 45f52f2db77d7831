/-
This file holds the memory of a block. Most of the bytes of a block have never been written, or
have been set to one value all at once, so memory is kept as a list of stretches, each of which is
either spelled out or one byte repeated. What it takes to make, fill or move memory then depends on
the number of stretches and not on the number of bytes.

The view of memory is `toList`, the bytes in order. The statements below say of each operation
what it does to that view, and nothing else looks at the stretches.
-/

import TabularStream.Bytes

namespace TabularStream

/-! ### Stretches -/

/-- Consecutive bytes. -/
inductive Stretch where
  /-- Bytes that are spelled out. -/
  | bytes (contents : Bytes)
  /-- One byte, repeated. -/
  | run (count : Nat) (byte : UInt8)
  deriving DecidableEq, Repr

namespace Stretch

/-- The number of bytes. -/
def size : Stretch → Nat
  | bytes contents => contents.length
  | run count _ => count

/-- The bytes in order. -/
def toList : Stretch → Bytes
  | bytes contents => contents
  | run count byte => List.replicate count byte

/-- One byte, repeated, in front of other bytes. -/
def consRun (byte : UInt8) : (count : Nat) → Bytes → Bytes
  | 0, rest => rest
  | count + 1, rest => consRun byte count (byte :: rest)

/-- The bytes of a stretch in front of others. -/
def prepend : Stretch → Bytes → Bytes
  | bytes contents, rest => contents ++ rest
  | run count byte, rest => consRun byte count rest

/-- The first bytes, at most `count` of them. -/
def take (count : Nat) : Stretch → Stretch
  | bytes contents => bytes (contents.take count)
  | run size byte => run (min count size) byte

/-- The bytes past the first `count`. -/
def drop (count : Nat) : Stretch → Stretch
  | bytes contents => bytes (contents.drop count)
  | run size byte => run (size - count) byte

theorem consRun_eq (byte : UInt8) (count : Nat) (rest : Bytes) :
    consRun byte count rest = List.replicate count byte ++ rest := by
  induction count generalizing rest with
  | zero => rfl
  | succ count inductionHypothesis =>
    rw [consRun, inductionHypothesis, List.replicate_succ', List.append_assoc,
      List.singleton_append]

theorem prepend_eq (stretch : Stretch) (rest : Bytes) :
    stretch.prepend rest = stretch.toList ++ rest := by
  cases stretch with
  | bytes contents => rfl
  | run count byte => exact consRun_eq byte count rest

@[simp] theorem length_toList (stretch : Stretch) : stretch.toList.length = stretch.size := by
  cases stretch <;> simp [toList, size]

@[simp] theorem toList_take (count : Nat) (stretch : Stretch) :
    (stretch.take count).toList = stretch.toList.take count := by
  cases stretch <;> simp [toList, take, List.take_replicate]

@[simp] theorem toList_drop (count : Nat) (stretch : Stretch) :
    (stretch.drop count).toList = stretch.toList.drop count := by
  cases stretch <;> simp [toList, drop]

end Stretch

/-! ### Memory -/

/-- The contents of a block or of a part of one. -/
structure Memory where
  stretches : List Stretch
  deriving DecidableEq, Repr

namespace Memory

/-- The number of bytes of some stretches. -/
def sizeOfAll : List Stretch → Nat
  | [] => 0
  | first :: rest => first.size + sizeOfAll rest

/-- The first bytes of some stretches. -/
def takeFrom : List Stretch → (count : Nat) → List Stretch
  | [], _ => []
  | first :: rest, count =>
    if first.size ≤ count then first :: takeFrom rest (count - first.size)
    else if count = 0 then [] else [first.take count]

/-- The bytes of some stretches past the first `count`. -/
def dropFrom : List Stretch → (count : Nat) → List Stretch
  | [], _ => []
  | first :: rest, count =>
    if first.size ≤ count then dropFrom rest (count - first.size)
    else first.drop count :: rest

/-- Memory that holds the given bytes. -/
def ofBytes (bytes : Bytes) : Memory := ⟨[.bytes bytes]⟩

/-- Memory that holds one byte, repeated. -/
def replicate (count : Nat) (byte : UInt8) : Memory := ⟨[.run count byte]⟩

/-- No memory. -/
def empty : Memory := ⟨[]⟩

/-- The number of bytes. -/
def size (memory : Memory) : Nat := sizeOfAll memory.stretches

/-- The bytes in order. -/
def toList (memory : Memory) : Bytes := memory.stretches.foldr Stretch.prepend []

/-- The first bytes, at most `count` of them. -/
def take (memory : Memory) (count : Nat) : Memory := ⟨takeFrom memory.stretches count⟩

/-- The bytes past the first `count`. -/
def drop (memory : Memory) (count : Nat) : Memory := ⟨dropFrom memory.stretches count⟩

instance : Append Memory := ⟨fun front back => ⟨front.stretches ++ back.stretches⟩⟩

/-- The memory with the bytes at `offset` replaced by others. Bytes that would fall past the end
are left out. -/
def overwrite (memory : Memory) (offset : Nat) (fresh : Memory) : Memory :=
  memory.take offset ++ fresh.take (memory.size - offset) ++ memory.drop (offset + fresh.size)

/-! ### What the operations do to the bytes -/

/-- The bytes of memory are those of its stretches. -/
theorem toList_eq (memory : Memory) :
    memory.toList = memory.stretches.flatMap Stretch.toList := by
  obtain ⟨stretches⟩ := memory
  simp only [toList]
  induction stretches with
  | nil => rfl
  | cons first rest inductionHypothesis =>
    rw [List.foldr_cons, inductionHypothesis, Stretch.prepend_eq, List.flatMap_cons]

@[simp] theorem toList_ofBytes (bytes : Bytes) : (ofBytes bytes).toList = bytes := by
  simp [ofBytes, toList_eq, Stretch.toList]

@[simp] theorem toList_replicate (count : Nat) (byte : UInt8) :
    (replicate count byte).toList = List.replicate count byte := by
  simp [replicate, toList_eq, Stretch.toList]

@[simp] theorem toList_empty : empty.toList = [] := rfl

@[simp] theorem toList_append (front back : Memory) :
    (front ++ back).toList = front.toList ++ back.toList := by
  simp only [toList_eq]
  exact List.flatMap_append

@[simp] theorem length_toList (memory : Memory) : memory.toList.length = memory.size := by
  obtain ⟨stretches⟩ := memory
  simp only [toList_eq, size]
  induction stretches with
  | nil => rfl
  | cons first rest inductionHypothesis => simp [sizeOfAll, inductionHypothesis]

@[simp] theorem toList_take (memory : Memory) (count : Nat) :
    (memory.take count).toList = memory.toList.take count := by
  obtain ⟨stretches⟩ := memory
  simp only [toList_eq, take]
  induction stretches generalizing count with
  | nil => simp [takeFrom]
  | cons first rest inductionHypothesis =>
    unfold takeFrom
    split
    · rename_i reached
      have whole : first.toList.take count = first.toList :=
        List.take_of_length_le (by simpa using reached)
      rw [List.flatMap_cons, inductionHypothesis, List.flatMap_cons, List.take_append, whole,
        Stretch.length_toList]
    · rw [List.flatMap_cons, List.take_append_of_le_length (by simp; omega)]
      split
      · simp_all
      · simp

@[simp] theorem toList_drop (memory : Memory) (count : Nat) :
    (memory.drop count).toList = memory.toList.drop count := by
  obtain ⟨stretches⟩ := memory
  simp only [toList_eq, drop]
  induction stretches generalizing count with
  | nil => simp [dropFrom]
  | cons first rest inductionHypothesis =>
    unfold dropFrom
    split
    · rename_i passed
      have none : first.toList.drop count = [] := List.drop_of_length_le (by simpa using passed)
      rw [inductionHypothesis, List.flatMap_cons, List.drop_append, none, List.nil_append,
        Stretch.length_toList]
    · rw [List.flatMap_cons, List.flatMap_cons, Stretch.toList_drop,
        List.drop_append_of_le_length (by simp; omega)]

@[simp] theorem toList_overwrite (memory : Memory) (offset : Nat) (fresh : Memory) :
    (memory.overwrite offset fresh).toList =
      TabularStream.overwrite memory.toList offset fresh.toList := by
  simp [overwrite, TabularStream.overwrite]

@[simp] theorem size_ofBytes (bytes : Bytes) : (ofBytes bytes).size = bytes.length := rfl

@[simp] theorem size_replicate (count : Nat) (byte : UInt8) :
    (replicate count byte).size = count := rfl

@[simp] theorem size_take (memory : Memory) (count : Nat) :
    (memory.take count).size = min count memory.size := by
  rw [← length_toList, toList_take, List.length_take, length_toList]

@[simp] theorem size_drop (memory : Memory) (count : Nat) :
    (memory.drop count).size = memory.size - count := by
  rw [← length_toList, toList_drop, List.length_drop, length_toList]

/-- Memory keeps its size when it is written to. -/
@[simp] theorem size_overwrite (memory : Memory) (offset : Nat) (fresh : Memory) :
    (memory.overwrite offset fresh).size = memory.size := by
  rw [← length_toList, toList_overwrite, overwrite_length, length_toList]

end Memory

end TabularStream
