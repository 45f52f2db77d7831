/-
This file says which byte sequences are characters in UTF-16, little-endian, by their units:
`Written` is a unit that is no surrogate, or a high surrogate and then a low one, with the code
point that they stand for. `written_iff` is that these are the bytes that the encoding form lays
out for a character, and no others.
-/

import TabularStream.Text.Utf16

namespace TabularStream.Utf16

/-! ### Units and their bytes -/

@[simp] theorem toNat_unitOf (low high : UInt8) :
    (unitOf low high).toNat = low.toNat + 0x100 * high.toNat := by
  have small := low.toNat_lt
  have small' := high.toNat_lt
  rw [unitOf, UInt16.toNat_ofNat']
  omega

/-- The bytes of a unit, in the order in which they are received. -/
theorem littleEndian_unitOf (low high : UInt8) :
    littleEndian 2 (unitOf low high).toNat = [low, high] := by
  have small := low.toNat_lt
  have first : UInt8.ofNat (low.toNat + 0x100 * high.toNat) = low := by
    rw [← UInt8.toNat_inj, UInt8.toNat_ofNat']
    omega
  have second : (low.toNat + 0x100 * high.toNat) / 256 = high.toNat := by omega
  rw [toNat_unitOf, littleEndian, littleEndian, littleEndian, first, second, UInt8.ofNat_toNat]

/-- Every number below `2^16` is a unit of two bytes. -/
theorem exists_unitOf (number : Nat) (small : number < 0x10000) :
    ∃ low high, (unitOf low high).toNat = number := by
  refine ⟨UInt8.ofNat number, UInt8.ofNat (number / 256), ?_⟩
  rw [toNat_unitOf, UInt8.toNat_ofNat', UInt8.toNat_ofNat']
  omega

/-- Every unit is that of its two bytes. -/
theorem exists_eq_unitOf (unit : UInt16) : ∃ low high, unit = unitOf low high := by
  obtain ⟨low, high, same⟩ := exists_unitOf unit.toNat unit.toNat_lt
  exact ⟨low, high, (UInt16.toNat_inj.1 same).symm⟩

theorem isHighSurrogate_iff {unit : UInt16} :
    isHighSurrogate unit = true ↔ 0xD800 ≤ unit.toNat ∧ unit.toNat ≤ 0xDBFF := by
  rw [isHighSurrogate, Bool.and_eq_true, decide_eq_true_iff, decide_eq_true_iff,
    UInt16.le_iff_toNat_le, UInt16.le_iff_toNat_le]
  rfl

theorem isLowSurrogate_iff {unit : UInt16} :
    isLowSurrogate unit = true ↔ 0xDC00 ≤ unit.toNat ∧ unit.toNat ≤ 0xDFFF := by
  rw [isLowSurrogate, Bool.and_eq_true, decide_eq_true_iff, decide_eq_true_iff,
    UInt16.le_iff_toNat_le, UInt16.le_iff_toNat_le]
  rfl

/-! ### Characters -/

/-- The bytes of a character: a unit that is no surrogate, or two surrogates. -/
inductive Written (character : Char) : Bytes → Prop where
  | unit {low high : UInt8} (notHigh : isHighSurrogate (unitOf low high) = false)
      (notLow : isLowSurrogate (unitOf low high) = false)
      (value : (unitOf low high).toNat = character.toNat) : Written character [low, high]
  | pair {low high low' high' : UInt8} (first : isHighSurrogate (unitOf low high) = true)
      (second : isLowSurrogate (unitOf low' high') = true)
      (value : codePointOf (unitOf low high) (unitOf low' high') = character.toNat) :
      Written character [low, high, low', high']

theorem written_encode (character : Char) : Written character (encode character.toNat) := by
  have valid : character.toNat.isValidChar := character.valid
  unfold encode
  split
  · rename_i small
    obtain ⟨low, high, value⟩ := exists_unitOf _ small
    rw [← value, littleEndian_unitOf]
    refine .unit ?_ ?_ value
    · rw [← Bool.not_eq_true, isHighSurrogate_iff]
      omega
    · rw [← Bool.not_eq_true, isLowSurrogate_iff]
      omega
  · obtain ⟨low, high, first⟩ := exists_unitOf
      (0xD800 + (character.toNat - 0x10000) / 0x400) (by omega)
    obtain ⟨low', high', second⟩ := exists_unitOf
      (0xDC00 + (character.toNat - 0x10000) % 0x400) (by omega)
    rw [← first, ← second, littleEndian_unitOf, littleEndian_unitOf]
    refine .pair (isHighSurrogate_iff.2 (by omega)) (isLowSurrogate_iff.2 (by omega)) ?_
    unfold codePointOf
    omega

theorem Written.eq_encode {character : Char} {bytes : Bytes} (written : Written character bytes) :
    bytes = encode character.toNat := by
  cases written with
  | @unit low high notHigh notLow value =>
    have small := (unitOf low high).toNat_lt
    rw [← value, encode, if_pos small, littleEndian_unitOf]
  | @pair low high low' high' first second value =>
    have top := isHighSurrogate_iff.1 first
    have bottom := isLowSurrogate_iff.1 second
    unfold codePointOf at value
    have front : 0xD800 + (character.toNat - 0x10000) / 0x400 = (unitOf low high).toNat := by omega
    have back : 0xDC00 + (character.toNat - 0x10000) % 0x400 = (unitOf low' high').toNat := by
      omega
    rw [encode, if_neg (by omega), front, back, littleEndian_unitOf, littleEndian_unitOf]
    rfl

/-- The bytes of a character are those that the encoding form lays out. -/
theorem written_iff {character : Char} {bytes : Bytes} :
    Written character bytes ↔ bytes = encode character.toNat :=
  ⟨Written.eq_encode, fun same => same ▸ written_encode character⟩

/-- A character does not start with a low surrogate. -/
theorem Written.notLow {character : Char} {low high : UInt8} {rest : Bytes}
    (written : Written character (low :: high :: rest)) :
    isLowSurrogate (unitOf low high) = false := by
  cases written with
  | unit _ notLow => exact notLow
  | pair first =>
    have top := isHighSurrogate_iff.1 first
    rw [← Bool.not_eq_true, isLowSurrogate_iff]
    omega

/-- The second unit of a character is a low surrogate. -/
theorem Written.isLow {character : Char} {low high low' high' : UInt8} {rest : Bytes}
    (written : Written character (low :: high :: low' :: high' :: rest)) :
    isLowSurrogate (unitOf low' high') = true := by
  cases written with
  | pair _ second => exact second

/-- A unit that is no surrogate is a character. -/
theorem exists_written_unit {low high : UInt8}
    (notHigh : isHighSurrogate (unitOf low high) = false)
    (notLow : isLowSurrogate (unitOf low high) = false) :
    ∃ character : Char, character.toNat = (unitOf low high).toNat ∧
      Written character [low, high] := by
  have small := (unitOf low high).toNat_lt
  have above := mt isHighSurrogate_iff.2 (Bool.not_eq_true _ ▸ notHigh)
  have below := mt isLowSurrogate_iff.2 (Bool.not_eq_true _ ▸ notLow)
  have valid : (unitOf low high).toNat.isValidChar := by
    unfold Nat.isValidChar
    omega
  exact ⟨Char.ofNatAux _ valid, rfl, .unit notHigh notLow rfl⟩

/-- Two surrogates in order are a character. -/
theorem exists_written_pair {low high low' high' : UInt8}
    (first : isHighSurrogate (unitOf low high) = true)
    (second : isLowSurrogate (unitOf low' high') = true) :
    ∃ character : Char, character.toNat = codePointOf (unitOf low high) (unitOf low' high') ∧
      Written character [low, high, low', high'] := by
  have top := isHighSurrogate_iff.1 first
  have bottom := isLowSurrogate_iff.1 second
  have valid : (codePointOf (unitOf low high) (unitOf low' high')).isValidChar := by
    refine .inr ?_
    unfold codePointOf
    omega
  exact ⟨Char.ofNatAux _ valid, rfl, .pair first second rfl⟩

/-- Different characters have different encodings, and none is a front of another. -/
theorem eq_of_encode_append {character character' : Char} {rest rest' : Bytes}
    (same : encode character.toNat ++ rest = encode character'.toNat ++ rest') :
    character = character' := by
  have written := written_encode character
  have written' := written_encode character'
  generalize encode character.toNat = bytes at written same
  generalize encode character'.toNat = bytes' at written' same
  cases written with
  | unit notHigh notLow value =>
    cases written' with
    | unit _ _ value' =>
      cases same
      exact Char.toNat_inj.1 (value.symm.trans value')
    | pair first =>
      cases same
      cases notHigh.symm.trans first
  | pair first second value =>
    cases written' with
    | unit notHigh =>
      cases same
      cases notHigh.symm.trans first
    | pair _ _ value' =>
      cases same
      exact Char.toNat_inj.1 (value.symm.trans value')

end TabularStream.Utf16
