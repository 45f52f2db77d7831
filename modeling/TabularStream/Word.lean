/-
This file holds the arithmetic of 64-bit sizes. Sizes, offsets and cursors are natural numbers
below `2^64`; where a sum or a difference of two of them may leave that range it is taken modulo
`2^64`. The two operations agree with those of the natural numbers whenever the result is in
range, which `Word.add_of_lt` and `Word.sub_of_le` state.
-/

namespace TabularStream.Word

/-- The number of 64-bit words. -/
abbrev modulus : Nat := 18446744073709551616

/-- The greatest number of bytes that can be held in one place. -/
def largestSize : Nat := modulus / 2 - 1

/-- The sum of two sizes, modulo `2^64`. -/
def add (left right : Nat) : Nat := (left + right) % modulus

/-- The difference of two sizes, modulo `2^64`. -/
def sub (left right : Nat) : Nat := (left + (modulus - right % modulus)) % modulus

theorem add_of_lt {left right : Nat} (fits : left + right < modulus) :
    add left right = left + right :=
  Nat.mod_eq_of_lt fits

theorem sub_of_le {left right : Nat} (ordered : right ≤ left) (fits : left < modulus) :
    sub left right = left - right := by
  simp only [sub, modulus] at *
  omega

theorem add_lt (left right : Nat) : add left right < modulus :=
  Nat.mod_lt _ (by decide)

theorem sub_lt (left right : Nat) : sub left right < modulus :=
  Nat.mod_lt _ (by decide)

/-- Moving the lower end of a range up by at most its length shortens the range by that much. -/
theorem sub_add_right {left right count : Nat} (within : count ≤ sub left right) :
    sub left (add right count) + count = sub left right := by
  simp only [sub, add, modulus] at *
  omega

/-- Moving both ends of a range down by the same amount keeps its length. -/
theorem sub_sub_left {left right count : Nat} (below : count ≤ right) :
    sub left (right - count) = sub (add count left) right := by
  simp only [sub, add, modulus] at *
  omega

end TabularStream.Word
