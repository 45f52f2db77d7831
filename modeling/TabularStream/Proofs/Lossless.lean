/-
This file proves that decoding text loses nothing: two texts that are decoded completely to the same
output are the same bytes, in every character set and however they were cut into chunks. The output
is the UTF-8 of characters, which it determines, `encodeAll_injective`. A character determines the
bytes that it is written in, `Writes.injective`. In windows-1252 that rests upon its table, which
holds no code point twice and none of those that a byte outside of it stands for.
-/

import TabularStream.Proofs.Transcoding

namespace TabularStream

/-! ### Bytes that are one character each -/

namespace SingleByte

/-- The table of windows-1252 holds control characters and code points past the last byte. -/
theorem windows1252High_range {number : Nat} (found : number ∈ windows1252High) :
    0x80 ≤ number ∧ (number < 0xA0 ∨ 0xFF < number) := by
  have all : ∀ number ∈ windows1252High, 0x80 ≤ number ∧ (number < 0xA0 ∨ 0xFF < number) := by
    decide
  exact all number found

/-- No two bytes are the same windows-1252 character. -/
theorem windows1252_injective {byte byte' : UInt8} (same : windows1252 byte = windows1252 byte') :
    byte = byte' := by
  have distinct : windows1252High.Nodup := by decide
  rw [← UInt8.toNat_inj]
  -- The table does not hold what a byte outside of it stands for.
  have apart {inner outer : UInt8} (outside : outer.toNat < 0x80 ∨ 0xA0 ≤ outer.toNat)
      (found : windows1252High[inner.toNat - 0x80]? = some outer.toNat) : False := by
    have small := outer.toNat_lt
    have range := windows1252High_range (List.mem_of_getElem? found)
    omega
  rcases TextDecoder.windows1252_cases byte with ⟨outside, value⟩ | ⟨large, small, found⟩ <;>
    rcases TextDecoder.windows1252_cases byte' with ⟨outside', value'⟩ | ⟨large', small', found'⟩
  · rw [← value, same, value']
  · rw [← same, value] at found'
    exact (apart outside found').elim
  · rw [same, value'] at found
    exact (apart outside' found).elim
  · rw [← same, ← found] at found'
    have within := (List.getElem?_eq_some_iff.1 found).1
    have place := (List.getElem?_inj within distinct).1 found'.symm
    omega

end SingleByte

/-! ### Characters and texts -/

namespace Charset

variable {charset : Charset} {character : Char} {characters : List Char}
  {bytes bytes' cut : Bytes}

/-- A character is written in one way only. -/
theorem Writes.injective (writes : charset.Writes character bytes)
    (writes' : charset.Writes character bytes') : bytes = bytes' := by
  cases writes with
  | @usAscii _ byte value =>
    cases writes' with
    | @usAscii _ byte' value' =>
      have same := value.trans value'.symm
      unfold SingleByte.ascii? at same value value'
      split at value
      · split at value'
        · rename_i ascii ascii'
          rw [if_pos ascii, if_pos ascii', Option.some_inj] at same
          rw [UInt8.toNat_inj.1 same]
        · cases value'
      · cases value
  | iso88591 value =>
    cases writes' with
    | iso88591 value' => rw [UInt8.toNat_inj.1 (value.trans value'.symm)]
  | windows1252 value =>
    cases writes' with
    | windows1252 value' => rw [SingleByte.windows1252_injective (value.trans value'.symm)]
  | utf8 =>
    cases writes' with
    | utf8 => rfl
  | utf16le =>
    cases writes' with
    | utf16le => rfl

/-- Bytes that hold the same characters, and the same start of one, are the same. -/
theorem Reads.injective (reads : charset.Reads bytes characters cut)
    (reads' : charset.Reads bytes' characters cut) : bytes = bytes' := by
  induction reads generalizing bytes' with
  | cut =>
    cases reads' with
    | cut => rfl
  | character first _ inductionHypothesis =>
    cases reads' with
    | character first' others' => rw [first.injective first', inductionHypothesis others']

/-- If each byte is a character, bytes are a text. -/
theorem exists_reads (each : ∀ byte, ∃ character, charset.Writes character [byte])
    (bytes : Bytes) : ∃ characters, charset.Reads bytes characters [] := by
  induction bytes with
  | nil => exact ⟨[], .cut (cuts_nil charset)⟩
  | cons byte rest inductionHypothesis =>
    obtain ⟨character, writes⟩ := each byte
    obtain ⟨characters, others⟩ := inductionHypothesis
    exact ⟨character :: characters, .character writes others⟩

theorem exists_writes_iso88591 (byte : UInt8) :
    ∃ character, iso88591.Writes character [byte] := by
  have small := byte.toNat_lt
  obtain ⟨character, value⟩ := Utf8.exists_character (SingleByte.iso88591 byte)
    (.inl (by unfold SingleByte.iso88591; omega))
  exact ⟨character, .iso88591 value.symm⟩

theorem exists_writes_windows1252 (byte : UInt8) :
    ∃ character, windows1252.Writes character [byte] := by
  obtain ⟨character, value⟩ := Utf8.exists_character (SingleByte.windows1252 byte)
    (.inl (TextDecoder.windows1252_lt byte))
  exact ⟨character, .windows1252 value.symm⟩

end Charset

/-- UTF-8 determines the characters of a text. -/
theorem Utf8.encodeAll_injective {characters characters' : List Char}
    (same : encodeAll characters = encodeAll characters') : characters = characters' := by
  have reads : Charset.utf8.Reads (encodeAll characters) characters [] :=
    Charset.reads_utf8_iff.2 ⟨(List.append_nil _).symm, Charset.cuts_nil _⟩
  have reads' : Charset.utf8.Reads (encodeAll characters) characters' [] :=
    Charset.reads_utf8_iff.2 ⟨same.trans (List.append_nil _).symm, Charset.cuts_nil _⟩
  exact (reads.unique reads').1

/-! ### Decoding -/

namespace TextDecoder

/-- A text that is decoded completely is that of the characters that are the output. -/
theorem reads_of_complete {charset : Charset} {chunks : List Bytes}
    (clean : Clean ((ofCharset charset).calls chunks))
    (ends : ((ofCharset charset).after chunks).finish = none) :
    ∃ characters, charset.Reads chunks.flatten characters [] ∧
      output ((ofCharset charset).calls chunks) = Utf8.encodeAll characters := by
  obtain ⟨characters, cut, reads⟩ := clean_ofCharset_iff.1 clean
  obtain ⟨text, finish⟩ := calls_ofCharset reads
  cases finish.1 ends
  exact ⟨characters, reads, text⟩

theorem complete_of_reads {charset : Charset} {chunks : List Bytes} {characters : List Char}
    (reads : charset.Reads chunks.flatten characters []) :
    Clean ((ofCharset charset).calls chunks) ∧
      ((ofCharset charset).after chunks).finish = none :=
  ⟨clean_ofCharset_iff.2 ⟨characters, [], reads⟩, (calls_ofCharset reads).2.2 rfl⟩

/-- Decoding text is lossless. In every character set, texts that are decoded completely to the same
output are the same bytes, whatever the chunks. In the character sets of one byte for a character
that have all bytes, every text is decoded completely. -/
theorem text_decoding_lossless (charset : Charset) :
    let fresh := ofCharset charset
    (∀ chunks chunks' : List Bytes,
        Clean (fresh.calls chunks) → (fresh.after chunks).finish = none →
        Clean (fresh.calls chunks') → (fresh.after chunks').finish = none →
        output (fresh.calls chunks) = output (fresh.calls chunks') →
          chunks.flatten = chunks'.flatten) ∧
      (charset = .iso88591 ∨ charset = .windows1252 →
        ∀ chunks, Clean (fresh.calls chunks) ∧ (fresh.after chunks).finish = none) := by
  intro fresh
  refine ⟨fun chunks chunks' clean ends clean' ends' same => ?_, ?_⟩
  · obtain ⟨characters, reads, text⟩ := reads_of_complete clean ends
    obtain ⟨characters', reads', text'⟩ := reads_of_complete clean' ends'
    have equal : characters = characters' :=
      Utf8.encodeAll_injective (text.symm.trans (same.trans text'))
    exact reads.injective (equal ▸ reads')
  · rintro (rfl | rfl) chunks
    · obtain ⟨characters, reads⟩ :=
        Charset.exists_reads Charset.exists_writes_iso88591 chunks.flatten
      exact complete_of_reads reads
    · obtain ⟨characters, reads⟩ :=
        Charset.exists_reads Charset.exists_writes_windows1252 chunks.flatten
      exact complete_of_reads reads

/-- The letter q in quotation marks. -/
def quotedChunks : List Bytes := [[0x93], [], [0x71, 0x94]]

theorem text_decoding_lossless_quotedChunks :
    let fresh := ofCharset .windows1252
    (Clean (fresh.calls quotedChunks) ∧ (fresh.after quotedChunks).finish = none) ∧
      output (fresh.calls quotedChunks) = [0xE2, 0x80, 0x9C, 0x71, 0xE2, 0x80, 0x9D] ∧
      quotedChunks.flatten = [[0x93, 0x71], [0x94]].flatten := by
  intro fresh
  obtain ⟨injective, complete⟩ := text_decoding_lossless .windows1252
  obtain ⟨clean, ends⟩ := complete (.inr rfl) quotedChunks
  obtain ⟨clean', ends'⟩ := complete (.inr rfl) [[0x93, 0x71], [0x94]]
  exact ⟨⟨clean, ends⟩, by decide, injective _ _ clean ends clean' ends' (by decide)⟩

end TextDecoder

end TabularStream
