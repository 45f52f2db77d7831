/-
This file says what a text looks like in a character set, apart from any way of decoding it.
`Charset.Writes` gives the bytes of a character, and `Charset.Reads` takes bytes apart into the
characters that are complete and the start of one that is not. There is at most one way to do so,
`Reads.unique`, because no character is a front of another; and bytes that go wrong, after some
characters and the start of one, cannot be taken apart at all, `not_reads_of_not_allows`.
-/

import TabularStream.ColumnType
import TabularStream.Text.SingleByte
import TabularStream.Text.Utf16.Pairs
import TabularStream.Text.Utf8.Sequences

namespace TabularStream.Charset

/-! ### Characters -/

/-- The bytes of a character in a character set. -/
inductive Writes : Charset → Char → Bytes → Prop where
  | usAscii {character : Char} {byte : UInt8}
      (value : SingleByte.ascii? byte = some character.toNat) : Writes usAscii character [byte]
  | iso88591 {character : Char} {byte : UInt8}
      (value : SingleByte.iso88591 byte = character.toNat) : Writes iso88591 character [byte]
  | windows1252 {character : Char} {byte : UInt8}
      (value : SingleByte.windows1252 byte = character.toNat) :
      Writes windows1252 character [byte]
  | utf8 (character : Char) : Writes utf8 character (Utf8.encode character.toNat)
  | utf16le (character : Char) : Writes utf16le character (Utf16.encode character.toNat)

/-- The start of a character that is not complete. There may be nothing of it yet. -/
def Cuts (charset : Charset) (cut : Bytes) : Prop :=
  ∃ character bytes, charset.Writes character bytes ∧ cut <+: bytes ∧ cut ≠ bytes

/-- Can the byte come next in some character that starts with the given bytes? -/
def Allows (charset : Charset) (cut : Bytes) (byte : UInt8) : Prop :=
  ∃ character bytes, charset.Writes character bytes ∧ cut ++ [byte] <+: bytes

variable {charset : Charset} {character character' : Char} {bytes bytes' rest rest' cut cut' : Bytes}

/-- Bytes start with one character at most. -/
theorem Writes.unique (writes : charset.Writes character bytes)
    (writes' : charset.Writes character' bytes') (same : bytes ++ rest = bytes' ++ rest') :
    character = character' ∧ bytes = bytes' := by
  have equal (value : character.toNat = character'.toNat) : character = character' :=
    Char.toNat_inj.1 value
  cases writes with
  | usAscii value =>
    cases writes' with
    | usAscii value' =>
      cases same
      exact ⟨equal (Option.some.inj (value.symm.trans value')), rfl⟩
  | iso88591 value =>
    cases writes' with
    | iso88591 value' =>
      cases same
      exact ⟨equal (value.symm.trans value'), rfl⟩
  | windows1252 value =>
    cases writes' with
    | windows1252 value' =>
      cases same
      exact ⟨equal (value.symm.trans value'), rfl⟩
  | utf8 =>
    cases writes' with
    | utf8 =>
      cases Utf8.eq_of_encode_append same
      exact ⟨rfl, rfl⟩
  | utf16le =>
    cases writes' with
    | utf16le =>
      cases Utf16.eq_of_encode_append same
      exact ⟨rfl, rfl⟩

/-- There may be nothing of the next character. -/
theorem cuts_nil (charset : Charset) : charset.Cuts [] := by
  cases charset with
  | usAscii => exact ⟨'A', [0x41], .usAscii rfl, List.nil_prefix, nofun⟩
  | iso88591 => exact ⟨'A', [0x41], .iso88591 rfl, List.nil_prefix, nofun⟩
  | windows1252 => exact ⟨'A', [0x41], .windows1252 rfl, List.nil_prefix, nofun⟩
  | utf8 => exact ⟨'A', _, .utf8 'A', List.nil_prefix, by decide⟩
  | utf16le => exact ⟨'A', _, .utf16le 'A', List.nil_prefix, by decide⟩

/-- The start of a character does not hold a whole one. -/
theorem Cuts.not_prefix (cuts : charset.Cuts cut) (writes : charset.Writes character bytes) :
    ¬ bytes <+: cut := by
  rintro ⟨more, rfl⟩
  obtain ⟨character', whole, writes', ⟨missing, front⟩, proper⟩ := cuts
  have same : bytes ++ (more ++ missing) = whole ++ [] := by
    rw [List.append_nil, ← List.append_assoc, front]
  obtain ⟨-, rfl⟩ := writes.unique writes' same
  rw [List.append_nil] at same
  obtain ⟨rfl, -⟩ := List.append_eq_nil_iff.1 (List.self_eq_append_right.1 same.symm)
  exact proper (List.append_nil bytes)

/-! ### Texts -/

/-- Bytes as the characters that they hold, in order, and the start of another. -/
inductive Reads (charset : Charset) : Bytes → List Char → Bytes → Prop where
  | cut {cut : Bytes} (cuts : charset.Cuts cut) : Reads charset cut [] cut
  | character {character : Char} {bytes rest cut : Bytes} {characters : List Char}
      (first : charset.Writes character bytes) (others : Reads charset rest characters cut) :
      Reads charset (bytes ++ rest) (character :: characters) cut

variable {characters characters' : List Char}

/-- The characters of bytes that start with one. -/
theorem Reads.after_character (reads : charset.Reads (bytes ++ rest) characters cut)
    (first : charset.Writes character bytes) :
    ∃ others, characters = character :: others ∧ charset.Reads rest others cut := by
  generalize whole : bytes ++ rest = all at reads
  cases reads with
  | cut cuts =>
    subst whole
    exact absurd (List.prefix_append _ _) (cuts.not_prefix first)
  | character first' others =>
    obtain ⟨rfl, rfl⟩ := first.unique first' whole
    cases List.append_cancel_left whole
    exact ⟨_, rfl, others⟩

/-- Bytes can be taken apart in one way only. -/
theorem Reads.unique (reads : charset.Reads bytes characters cut)
    (reads' : charset.Reads bytes characters' cut') : characters = characters' ∧ cut = cut' := by
  induction reads generalizing characters' with
  | cut cuts =>
    cases reads' with
    | cut => exact ⟨rfl, rfl⟩
    | character first => exact absurd (List.prefix_append _ _) (cuts.not_prefix first)
  | character first _ inductionHypothesis =>
    obtain ⟨others', rfl, tail⟩ := reads'.after_character first
    obtain ⟨rfl, rfl⟩ := inductionHypothesis tail
    exact ⟨rfl, rfl⟩

/-- More bytes go on with the start of a character. -/
theorem Reads.append {more : Bytes} (reads : charset.Reads bytes characters cut)
    (reads' : charset.Reads (cut ++ more) characters' cut') :
    charset.Reads (bytes ++ more) (characters ++ characters') cut' := by
  induction reads with
  | cut => exact reads'
  | character first _ inductionHypothesis =>
    rw [List.append_assoc]
    exact .character first (inductionHypothesis reads')

/-- A byte that follows the start of a character can come next, if the bytes can be taken apart. -/
theorem Reads.allows {byte : UInt8} {back : Bytes}
    (reads : charset.Reads (cut ++ byte :: back) characters cut') (cuts : charset.Cuts cut) :
    charset.Allows cut byte := by
  generalize whole : cut ++ byte :: back = all at reads
  have next (more : Bytes) : cut ++ [byte] <+: cut ++ byte :: more :=
    (List.prefix_append_right_inj cut).2 (List.prefix_append [byte] more)
  cases reads with
  | cut cuts' =>
    subst whole
    obtain ⟨character, bytes, writes, front, -⟩ := cuts'
    exact ⟨character, bytes, writes, (next back).trans front⟩
  | character first others =>
    -- The first character is longer than what there was of it.
    rcases List.append_eq_append_iff.1 whole with ⟨_ | ⟨_, more⟩, rfl, split⟩ | ⟨_, rfl, -⟩
    · rw [List.append_nil] at first
      exact absurd List.prefix_rfl (cuts.not_prefix first)
    · cases split
      exact ⟨_, _, first, next more⟩
    · exact absurd (List.prefix_append _ _) (cuts.not_prefix first)

/-- Bytes that are followed by one that cannot come next cannot be taken apart. -/
theorem not_reads_of_not_allows {byte : UInt8} {back : Bytes}
    (reads : charset.Reads bytes characters cut) (wrong : ¬ charset.Allows cut byte) :
    ¬ charset.Reads (bytes ++ byte :: back) characters' cut' := by
  intro reads'
  induction reads generalizing characters' with
  | cut cuts => exact wrong (reads'.allows cuts)
  | character first _ inductionHypothesis =>
    rw [List.append_assoc] at reads'
    obtain ⟨_, -, tail⟩ := reads'.after_character first
    exact inductionHypothesis wrong tail

/-! ### The encoding forms of Unicode -/

/-- In a character set that has every character, a text is the bytes of its characters. -/
theorem reads_iff {encode : Char → Bytes}
    (writes : ∀ character bytes, charset.Writes character bytes ↔ bytes = encode character) :
    charset.Reads bytes characters cut ↔
      bytes = characters.flatMap encode ++ cut ∧ charset.Cuts cut := by
  constructor
  · intro reads
    induction reads with
    | cut cuts => exact ⟨rfl, cuts⟩
    | character first _ inductionHypothesis =>
      obtain ⟨rfl, cuts⟩ := inductionHypothesis
      rw [(writes _ _).1 first, List.flatMap_cons, List.append_assoc]
      exact ⟨rfl, cuts⟩
  · rintro ⟨rfl, cuts⟩
    induction characters with
    | nil => exact .cut cuts
    | cons character characters inductionHypothesis =>
      rw [List.flatMap_cons, List.append_assoc]
      exact .character ((writes _ _).2 rfl) inductionHypothesis

theorem reads_utf8_iff : utf8.Reads bytes characters cut ↔
    bytes = Utf8.encodeAll characters ++ cut ∧ utf8.Cuts cut :=
  reads_iff fun character _ => ⟨fun | .utf8 _ => rfl, fun same => same ▸ .utf8 character⟩

theorem wellFormed_iff_reads :
    Utf8.WellFormed bytes ↔ ∃ characters, utf8.Reads bytes characters [] := by
  constructor
  · rintro ⟨characters, rfl⟩
    exact ⟨characters, reads_utf8_iff.2 ⟨(List.append_nil _).symm, cuts_nil utf8⟩⟩
  · rintro ⟨characters, reads⟩
    exact ⟨characters, (reads_utf8_iff.1 reads).1.trans (List.append_nil _)⟩

/-- A text that is cut short can be completed. -/
theorem Reads.exists_wellFormed (reads : utf8.Reads bytes characters cut) :
    ∃ more, Utf8.WellFormed (bytes ++ more) := by
  obtain ⟨rfl, character, _, ⟨⟩, ⟨more, front⟩, -⟩ := reads_utf8_iff.1 reads
  refine ⟨more, characters ++ [character], ?_⟩
  rw [Utf8.encodeAll_append, List.append_assoc, front]
  exact congrArg (_ ++ ·) (List.append_nil _).symm

theorem reads_utf16le_iff : utf16le.Reads bytes characters cut ↔
    bytes = Utf16.encodeAll characters ++ cut ∧ utf16le.Cuts cut :=
  reads_iff fun character _ => ⟨fun | .utf16le _ => rfl, fun same => same ▸ .utf16le character⟩

end TabularStream.Charset
