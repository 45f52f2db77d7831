/-
This file says which byte sequences are characters in UTF-8. The encoder computes the bytes of a
code point, the tables for reading say which byte can start a character and which can stand where
in one, and `encode_eq_cons_iff` is that they mean the same: a sequence is the encoding of some
character exactly if its first byte announces its length and each other byte can stand where it
does. Nothing else is ruled out and nothing else is let in, so an overlong form, a surrogate or a
number past U+10FFFF is no character.

Since a character can be completed from any point at which reading has got to, the same holds of
the fronts of characters, `prefix_encode_iff`.
-/

import TabularStream.Text.Utf8

namespace TabularStream.Utf8

/-! ### The encoder -/

/-- Every number that is no surrogate and not past the last code point is a character. -/
theorem exists_character (number : Nat) (valid : number.isValidChar) :
    ∃ character : Char, character.toNat = number :=
  ⟨Char.ofNatAux number valid, rfl⟩

/-- The bytes of a character are those that the standard library gives it. -/
theorem encode_toNat (character : Char) :
    encode character.toNat = String.utf8EncodeChar character := by
  have valid : character.toNat.isValidChar := character.valid
  have value : character.val.toNat = character.toNat := rfl
  rw [String.utf8EncodeChar.eq_1, value]
  unfold encode
  generalize character.toNat = number at valid
  by_cases one : number < 0x80
  · rw [if_pos one, if_pos (Nat.le_of_lt_succ one)]
  · by_cases two : number < 0x800
    · have lead : number / 64 % 32 + 192 = 0xC0 + number / 0x40 := by omega
      rw [if_neg one, if_pos two, if_neg (by omega), if_pos (Nat.le_of_lt_succ two), lead,
        Nat.add_comm _ 128]
    · by_cases three : number < 0x10000
      · have lead : number / 4096 % 16 + 224 = 0xE0 + number / 0x1000 := by omega
        rw [if_neg one, if_neg two, if_pos three, if_neg (by omega), if_neg (by omega),
          if_pos (Nat.le_of_lt_succ three), lead, Nat.add_comm _ 128, Nat.add_comm _ 128]
      · have lead : number / 262144 % 8 + 240 = 0xF0 + number / 0x40000 := by omega
        rw [if_neg one, if_neg two, if_neg three, if_neg (by omega), if_neg (by omega),
          if_neg (by omega), lead, Nat.add_comm _ 128, Nat.add_comm _ 128, Nat.add_comm _ 128]

/-- The bytes of a text are those that the standard library gives it. -/
theorem encodeAll_eq (characters : List Char) :
    encodeAll characters = characters.flatMap String.utf8EncodeChar :=
  congrArg (characters.flatMap ·) (funext encode_toNat)

/-- Bytes that are those of some text. -/
def WellFormed (bytes : Bytes) : Prop := ∃ characters, bytes = encodeAll characters

/-- The standard library has the same notion. -/
theorem wellFormed_iff_isValidUTF8 {bytes : Bytes} :
    WellFormed bytes ↔ bytes.toByteArray.IsValidUTF8 := by
  constructor
  · rintro ⟨characters, rfl⟩
    rw [encodeAll_eq]
    exact ⟨characters, rfl⟩
  · rintro ⟨characters, same⟩
    refine ⟨characters, ?_⟩
    rw [encodeAll_eq]
    exact List.toByteArray_inj.1 same

/-- Different characters have different encodings, and none is a front of another. -/
theorem eq_of_encode_append {character character' : Char} {rest rest' : Bytes}
    (same : encode character.toNat ++ rest = encode character'.toNat ++ rest') :
    character = character' := by
  rw [encode_toNat, encode_toNat] at same
  have read := congrArg (fun bytes : Bytes => bytes.toByteArray.utf8DecodeChar? 0) same
  rw [List.toByteArray_append, List.toByteArray_append,
    ByteArray.utf8DecodeChar?_utf8EncodeChar_append,
    ByteArray.utf8DecodeChar?_utf8EncodeChar_append] at read
  exact Option.some.inj read

/-! ### The tables -/

/-- Can the bytes stand one after the other in a character that starts with `lead`, the first of
them at the given position? -/
def continues (lead : UInt8) : (position : Nat) → Bytes → Bool
  | _, [] => true
  | position, byte :: rest =>
    isContinuation lead position byte && continues lead (position + 1) rest

theorem continues_append (lead : UInt8) (position : Nat) (front back : Bytes) :
    continues lead position (front ++ back) =
      (continues lead position front && continues lead (position + front.length) back) := by
  induction front generalizing position with
  | nil => rfl
  | cons byte rest inductionHypothesis =>
    rw [List.cons_append, continues, continues, inductionHypothesis, Bool.and_assoc,
      List.length_cons, Nat.add_assoc, Nat.add_comm 1]

/-- Which numbers start a character, and how long it is. -/
theorem sequenceLength_eq (lead : UInt8) :
    sequenceLength lead =
      if lead.toNat < 0x80 then 1
      else if 0xC2 ≤ lead.toNat ∧ lead.toNat ≤ 0xDF then 2
      else if 0xE0 ≤ lead.toNat ∧ lead.toNat ≤ 0xEF then 3
      else if 0xF0 ≤ lead.toNat ∧ lead.toNat ≤ 0xF4 then 4
      else 0 :=
  rfl

theorem sequenceLength_le (lead : UInt8) : sequenceLength lead ≤ 4 := by
  rw [sequenceLength_eq]
  repeat' split
  all_goals decide

/-- Which numbers can stand where in a character. -/
theorem isContinuation_iff {lead byte : UInt8} {position : Nat} :
    isContinuation lead position byte = true ↔
      0x80 ≤ byte.toNat ∧ byte.toNat ≤ 0xBF ∧
        (position = 1 →
          (lead.toNat = 0xE0 → 0xA0 ≤ byte.toNat) ∧ (lead.toNat = 0xED → byte.toNat ≤ 0x9F) ∧
            (lead.toNat = 0xF0 → 0x90 ≤ byte.toNat) ∧
            (lead.toNat = 0xF4 → byte.toNat ≤ 0x8F)) := by
  unfold isContinuation
  simp only [UInt8.lt_iff_toNat_lt, UInt8.le_iff_toNat_le, ← UInt8.toNat_inj, UInt8.toNat_ofNat,
    Nat.reducePow, Nat.reduceMod]
  generalize lead.toNat = lead, byte.toNat = byte
  grind

theorem continues_cons_iff {lead byte : UInt8} {position : Nat} {rest : Bytes} :
    continues lead position (byte :: rest) = true ↔
      isContinuation lead position byte = true ∧ continues lead (position + 1) rest = true :=
  Bool.and_eq_true_iff

/-! ### Characters -/

/-- Each byte of a character is what the tables allow. -/
theorem continues_of_encode {character : Char} {lead : UInt8} {rest : Bytes}
    (same : encode character.toNat = lead :: rest) :
    rest.length + 1 = sequenceLength lead ∧ continues lead 1 rest = true := by
  have valid : character.toNat.isValidChar := character.valid
  rw [sequenceLength_eq]
  unfold encode at same
  generalize character.toNat = number at same valid
  split at same
  · cases same
    rw [UInt8.toNat_ofNat', if_pos (by omega)]
    exact ⟨rfl, rfl⟩
  · split at same
    · cases same
      simp only [continues_cons_iff, isContinuation_iff, UInt8.toNat_ofNat']
      rw [if_neg (by omega), if_pos (by omega)]
      exact ⟨rfl, by omega, rfl⟩
    · split at same
      · cases same
        simp only [continues_cons_iff, isContinuation_iff, UInt8.toNat_ofNat']
        rw [if_neg (by omega), if_neg (by omega), if_pos (by omega)]
        exact ⟨rfl, by omega, by omega, rfl⟩
      · cases same
        simp only [continues_cons_iff, isContinuation_iff, UInt8.toNat_ofNat']
        rw [if_neg (by omega), if_neg (by omega), if_neg (by omega), if_pos (by omega)]
        exact ⟨rfl, by omega, by omega, by omega, rfl⟩

/-- A character of two bytes. -/
theorem exists_encode_two {lead second : UInt8} (starts : 0xC2 ≤ lead.toNat ∧ lead.toNat ≤ 0xDF)
    (follows : isContinuation lead 1 second) :
    ∃ character : Char, encode character.toNat = [lead, second] := by
  obtain ⟨low, high, -⟩ := isContinuation_iff.1 follows
  obtain ⟨character, value⟩ := exists_character
    ((lead.toNat - 0xC0) * 0x40 + (second.toNat - 0x80)) (by omega)
  have first : 0xC0 + character.toNat / 0x40 = lead.toNat := by omega
  have last : 0x80 + character.toNat % 0x40 = second.toNat := by omega
  refine ⟨character, ?_⟩
  rw [encode, if_neg (by omega), if_pos (by omega), first, last, UInt8.ofNat_toNat,
    UInt8.ofNat_toNat]

/-- A character of three bytes. -/
theorem exists_encode_three {lead second third : UInt8}
    (starts : 0xE0 ≤ lead.toNat ∧ lead.toNat ≤ 0xEF) (follows : isContinuation lead 1 second)
    (follows' : isContinuation lead 2 third) :
    ∃ character : Char, encode character.toNat = [lead, second, third] := by
  obtain ⟨low, high, special⟩ := isContinuation_iff.1 follows
  obtain ⟨low', high', -⟩ := isContinuation_iff.1 follows'
  have special := special rfl
  obtain ⟨character, value⟩ := exists_character
    ((lead.toNat - 0xE0) * 0x1000 + (second.toNat - 0x80) * 0x40 +
      (third.toNat - 0x80)) (by omega)
  have first : 0xE0 + character.toNat / 0x1000 = lead.toNat := by omega
  have middle : 0x80 + character.toNat / 0x40 % 0x40 = second.toNat := by omega
  have last : 0x80 + character.toNat % 0x40 = third.toNat := by omega
  refine ⟨character, ?_⟩
  rw [encode, if_neg (by omega), if_neg (by omega), if_pos (by omega), first, middle, last,
    UInt8.ofNat_toNat, UInt8.ofNat_toNat, UInt8.ofNat_toNat]

/-- A character of four bytes. -/
theorem exists_encode_four {lead second third fourth : UInt8}
    (starts : 0xF0 ≤ lead.toNat ∧ lead.toNat ≤ 0xF4) (follows : isContinuation lead 1 second)
    (follows' : isContinuation lead 2 third) (follows'' : isContinuation lead 3 fourth) :
    ∃ character : Char, encode character.toNat = [lead, second, third, fourth] := by
  obtain ⟨low, high, special⟩ := isContinuation_iff.1 follows
  obtain ⟨low', high', -⟩ := isContinuation_iff.1 follows'
  obtain ⟨low'', high'', -⟩ := isContinuation_iff.1 follows''
  have special := special rfl
  obtain ⟨character, value⟩ := exists_character
    ((lead.toNat - 0xF0) * 0x40000 + (second.toNat - 0x80) * 0x1000 +
      (third.toNat - 0x80) * 0x40 + (fourth.toNat - 0x80)) (by omega)
  have first : 0xF0 + character.toNat / 0x40000 = lead.toNat := by omega
  have middle : 0x80 + character.toNat / 0x1000 % 0x40 = second.toNat := by omega
  have middle' : 0x80 + character.toNat / 0x40 % 0x40 = third.toNat := by omega
  have last : 0x80 + character.toNat % 0x40 = fourth.toNat := by omega
  refine ⟨character, ?_⟩
  rw [encode, if_neg (by omega), if_neg (by omega), if_neg (by omega), first, middle, middle',
    last, UInt8.ofNat_toNat, UInt8.ofNat_toNat, UInt8.ofNat_toNat, UInt8.ofNat_toNat]

/-- A byte sequence is a character exactly if the tables for reading say so. -/
theorem encode_eq_cons_iff {lead : UInt8} {rest : Bytes} :
    (∃ character : Char, encode character.toNat = lead :: rest) ↔
      rest.length + 1 = sequenceLength lead ∧ continues lead 1 rest = true := by
  refine ⟨fun ⟨_, same⟩ => continues_of_encode same, ?_⟩
  rintro ⟨length, follows⟩
  rw [sequenceLength_eq] at length
  split at length
  · rename_i ascii
    obtain rfl : rest = [] := List.length_eq_zero_iff.1 (by omega)
    obtain ⟨character, value⟩ := exists_character lead.toNat (by omega)
    refine ⟨character, ?_⟩
    rw [value, encode, if_pos ascii, UInt8.ofNat_toNat]
  · split at length
    · rename_i starts
      obtain ⟨second, rfl⟩ := List.length_eq_one_iff.1 (Nat.succ_inj.1 length)
      exact exists_encode_two starts (continues_cons_iff.1 follows).1
    · split at length
      · rename_i starts
        obtain ⟨second, tail, rfl⟩ :=
          List.exists_cons_of_length_eq_add_one (Nat.succ_inj.1 length)
        have length := Nat.succ_inj.1 length
        obtain ⟨third, rfl⟩ := List.length_eq_one_iff.1 (Nat.succ_inj.1 length)
        obtain ⟨follows, more⟩ := continues_cons_iff.1 follows
        exact exists_encode_three starts follows (continues_cons_iff.1 more).1
      · split at length
        · rename_i starts
          obtain ⟨second, tail, rfl⟩ :=
            List.exists_cons_of_length_eq_add_one (Nat.succ_inj.1 length)
          have length := Nat.succ_inj.1 length
          obtain ⟨third, tail, rfl⟩ :=
            List.exists_cons_of_length_eq_add_one (Nat.succ_inj.1 length)
          have length := Nat.succ_inj.1 length
          obtain ⟨fourth, rfl⟩ := List.length_eq_one_iff.1 (Nat.succ_inj.1 length)
          obtain ⟨follows, more⟩ := continues_cons_iff.1 follows
          obtain ⟨follows', more⟩ := continues_cons_iff.1 more
          exact exists_encode_four starts follows follows' (continues_cons_iff.1 more).1
        · cases length

/-! ### Fronts of characters -/

/-- Some byte can stand at each position of a character. -/
theorem exists_isContinuation (lead : UInt8) (position : Nat) :
    ∃ byte, isContinuation lead position byte = true := by
  by_cases low : lead.toNat = 0xED ∨ lead.toNat = 0xF4
  · refine ⟨0x80, isContinuation_iff.2 ?_⟩
    simp only [UInt8.toNat_ofNat]
    omega
  · refine ⟨0xA0, isContinuation_iff.2 ?_⟩
    simp only [UInt8.toNat_ofNat]
    omega

/-- Bytes that can stand in a character can be followed by as many as are missing. -/
theorem exists_continues (lead : UInt8) (position count : Nat) :
    ∃ bytes : Bytes, bytes.length = count ∧ continues lead position bytes = true := by
  induction count generalizing position with
  | zero => exact ⟨[], rfl, rfl⟩
  | succ count inductionHypothesis =>
    obtain ⟨byte, follows⟩ := exists_isContinuation lead position
    obtain ⟨bytes, length, more⟩ := inductionHypothesis (position + 1)
    exact ⟨byte :: bytes, congrArg (· + 1) length, continues_cons_iff.2 ⟨follows, more⟩⟩

/-- A byte sequence is the front of a character exactly if the tables for reading say so, and if it
is no longer than its first byte announces. -/
theorem prefix_encode_iff {lead : UInt8} {rest : Bytes} :
    (∃ character : Char, lead :: rest <+: encode character.toNat) ↔
      rest.length + 1 ≤ sequenceLength lead ∧ continues lead 1 rest = true := by
  constructor
  · rintro ⟨character, more, same⟩
    obtain ⟨length, follows⟩ := continues_of_encode (same.symm.trans (List.cons_append ..))
    rw [continues_append, Bool.and_eq_true] at follows
    rw [List.length_append] at length
    exact ⟨by omega, follows.1⟩
  · rintro ⟨length, follows⟩
    obtain ⟨more, missing, follows'⟩ :=
      exists_continues lead (1 + rest.length) (sequenceLength lead - (rest.length + 1))
    obtain ⟨character, same⟩ := encode_eq_cons_iff.2
      ⟨show (rest ++ more).length + 1 = sequenceLength lead by rw [List.length_append]; omega,
        show continues lead 1 (rest ++ more) = true by
          rw [continues_append, follows, follows']; rfl⟩
    exact ⟨character, more, same.symm⟩

end TabularStream.Utf8
