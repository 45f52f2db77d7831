/-
This file proves that a decoder keeps the start of a character between two bytes, in every character
set, and nothing else: `carried` are the bytes that it has received of a character that is not
complete, and `Sound` says that its fields hold the start of one. `Sound.takes` is what a byte does
then. It completes the character, it makes the start longer, or no character goes on with it.

What a run of bytes does follows from the steps. Bytes that are decoded without an error have been
taken apart into characters, which are the output, and a start of one, which is carried. After an
error the decoder is sound again, so it can go on with any bytes.
-/

import TabularStream.Text.Decoder
import TabularStream.Text.Encoding

namespace TabularStream.TextDecoder

/-- The bytes that a decoder has received of a character that is not complete. -/
def carried : TextDecoder → Bytes
  | utf8 pending => pending
  | utf16le pending high => (high.elim [] fun unit => littleEndian 2 unit.toNat) ++ pending.toList
  | _ => []

/-- The invariant of a decoder. In UTF-8 it keeps fewer bytes than the first one announces, and in
UTF-16 the unit that waits for its pair is a high surrogate. -/
inductive Sound : TextDecoder → Prop where
  | usAscii : Sound usAscii
  | iso88591 : Sound iso88591
  | windows1252 : Sound windows1252
  | utf8Start : Sound (utf8 [])
  | utf8 {lead : UInt8} {rest : Bytes} (incomplete : rest.length + 1 < Utf8.sequenceLength lead)
      (follows : Utf8.continues lead 1 rest = true) : Sound (utf8 (lead :: rest))
  | utf16le {pending : Option UInt8} {high : Option UInt16}
      (surrogate : ∀ unit, high = some unit → Utf16.isHighSurrogate unit = true) :
      Sound (utf16le pending high)

variable {decoder : TextDecoder} {charset : Charset} {byte : UInt8}

theorem sound_ofCharset (charset : Charset) : (ofCharset charset).Sound := by
  cases charset with
  | usAscii => exact .usAscii
  | iso88591 => exact .iso88591
  | windows1252 => exact .windows1252
  | utf8 => exact .utf8Start
  | utf16le => exact .utf16le nofun

@[simp] theorem carried_ofCharset (charset : Charset) : (ofCharset charset).carried = [] := by
  cases charset <;> rfl

@[simp] theorem charset_ofCharset (charset : Charset) :
    (ofCharset charset).charset = charset := by
  cases charset <;> rfl

/-- A text may end here exactly if nothing of a character is carried. -/
theorem finish_eq_none_iff : decoder.finish = none ↔ decoder.carried = [] := by
  have verdict : decoder.finish = none ↔
      decoder.pendingBytes = [] ∧ decoder.highSurrogate = none := by
    unfold finish
    split
    · exact ⟨fun _ => ‹_›, fun _ => rfl⟩
    · exact ⟨nofun, fun nothing => absurd nothing ‹_›⟩
  rw [verdict]
  cases decoder with
  | usAscii | iso88591 | windows1252 => exact ⟨fun _ => rfl, fun _ => ⟨rfl, rfl⟩⟩
  | utf8 pending => exact ⟨And.left, fun nothing => ⟨nothing, rfl⟩⟩
  | utf16le pending high =>
    cases pending <;> cases high <;> simp [pendingBytes, highSurrogate, carried, littleEndian]

/-! ### One byte -/

/-- What a byte does to a decoder: the state after it and the output. -/
inductive Takes (decoder : TextDecoder) (byte : UInt8) : TextDecoder × Option Bytes → Prop where
  | completes {character : Char}
      (writes : decoder.charset.Writes character (decoder.carried ++ [byte])) :
      Takes decoder byte (ofCharset decoder.charset, some (Utf8.encode character.toNat))
  | continues {next : TextDecoder} (sound : next.Sound) (same : next.charset = decoder.charset)
      (carried : next.carried = decoder.carried ++ [byte]) : Takes decoder byte (next, some [])
  /-- No character goes on with the byte. -/
  | refuses {next : TextDecoder} (sound : next.Sound) (same : next.charset = decoder.charset)
      (wrong : ¬ decoder.charset.Allows decoder.carried byte) : Takes decoder byte (next, none)

/-- In ASCII a byte is a character, or there is none that it starts. -/
theorem takes_usAscii (byte : UInt8) : usAscii.Takes byte (usAscii.step byte) := by
  show usAscii.Takes byte (usAscii, (SingleByte.ascii? byte).map Utf8.encode)
  cases value : SingleByte.ascii? byte with
  | none =>
    refine .refuses .usAscii rfl ?_
    rintro ⟨character, _, ⟨value'⟩, rest, front⟩
    have front : byte :: rest = [_] := front
    cases front
    cases value.symm.trans value'
  | some number =>
    have small : number < 0x100 := by
      unfold SingleByte.ascii? at value
      split at value
      · cases value
        exact byte.toNat_lt
      · cases value
    obtain ⟨character, rfl⟩ := Utf8.exists_character number (by omega)
    exact .completes (Charset.Writes.usAscii value)

/-- In ISO-8859-1 every byte is a character. -/
theorem takes_iso88591 (byte : UInt8) : iso88591.Takes byte (iso88591.step byte) := by
  have small : byte.toNat < 0x100 := byte.toNat_lt
  obtain ⟨character, value⟩ := Utf8.exists_character (SingleByte.iso88591 byte)
    (by unfold SingleByte.iso88591; omega)
  show iso88591.Takes byte (iso88591, some (Utf8.encode (SingleByte.iso88591 byte)))
  rw [← value]
  exact .completes (Charset.Writes.iso88591 value.symm)

/-- A windows-1252 byte stands for itself, or is looked up in the table. -/
theorem windows1252_cases (byte : UInt8) :
    ((byte.toNat < 0x80 ∨ 0xA0 ≤ byte.toNat) ∧ SingleByte.windows1252 byte = byte.toNat) ∨
      (0x80 ≤ byte.toNat ∧ byte.toNat < 0xA0 ∧
        SingleByte.windows1252High[byte.toNat - 0x80]? = some (SingleByte.windows1252 byte)) := by
  have inside_iff : 0x80 ≤ byte ∧ byte < 0xA0 ↔ 0x80 ≤ byte.toNat ∧ byte.toNat < 0xA0 := by
    rw [UInt8.le_iff_toNat_le, UInt8.lt_iff_toNat_lt]
    rfl
  unfold SingleByte.windows1252
  by_cases inside : 0x80 ≤ byte ∧ byte < 0xA0
  · obtain ⟨large, small⟩ := inside_iff.1 inside
    have within : byte.toNat - 0x80 < SingleByte.windows1252High.length := by
      show _ < 32
      omega
    rw [if_pos inside, List.getD_eq_getElem?_getD, List.getElem?_eq_getElem within]
    exact .inr ⟨large, small, rfl⟩
  · rw [if_neg inside]
    rw [inside_iff] at inside
    exact .inl ⟨by omega, rfl⟩

/-- The code points of windows-1252 are below the surrogates. -/
theorem windows1252_lt (byte : UInt8) : SingleByte.windows1252 byte < 0xD800 := by
  have small : byte.toNat < 0x100 := byte.toNat_lt
  have high : ∀ number ∈ SingleByte.windows1252High, number < 0xD800 := by decide
  rcases windows1252_cases byte with ⟨-, value⟩ | ⟨-, -, found⟩
  · rw [value]
    omega
  · exact high _ (List.mem_of_getElem? found)

/-- In windows-1252 every byte is a character. -/
theorem takes_windows1252 (byte : UInt8) : windows1252.Takes byte (windows1252.step byte) := by
  obtain ⟨character, value⟩ := Utf8.exists_character (SingleByte.windows1252 byte)
    (.inl (windows1252_lt byte))
  show windows1252.Takes byte (windows1252, some (Utf8.encode (SingleByte.windows1252 byte)))
  rw [← value]
  exact .completes (Charset.Writes.windows1252 value.symm)

/-- In UTF-8 the first byte of a character announces its length. -/
theorem takes_utf8_start (byte : UInt8) : (utf8 []).Takes byte (stepUtf8 [] byte) := by
  unfold stepUtf8
  rcases length : Utf8.sequenceLength byte with _ | _ | more
  · refine .refuses .utf8Start rfl ?_
    rintro ⟨character, _, ⟨⟩, front⟩
    have front : [byte] <+: Utf8.encode character.toNat := front
    have starts : 0 + 1 ≤ Utf8.sequenceLength byte := (Utf8.prefix_encode_iff.1 ⟨_, front⟩).1
    rw [length] at starts
    cases starts
  · obtain ⟨character, same⟩ := Utf8.encode_eq_cons_iff.2
      ⟨show ([] : Bytes).length + 1 = Utf8.sequenceLength byte from length.symm, rfl⟩
    dsimp only
    rw [← same]
    refine .completes ?_
    show Charset.utf8.Writes character [byte]
    exact same ▸ .utf8 character
  · have missing : 0 + 1 < Utf8.sequenceLength byte := by omega
    exact .continues (.utf8 missing rfl) rfl rfl

/-- In UTF-8 the table of continuations decides at a later byte. -/
theorem takes_utf8_later {lead : UInt8} {rest : Bytes}
    (incomplete : rest.length + 1 < Utf8.sequenceLength lead)
    (follows : Utf8.continues lead 1 rest = true) (byte : UInt8) :
    (utf8 (lead :: rest)).Takes byte (stepUtf8 (lead :: rest) byte) := by
  have continues_iff : Utf8.continues lead 1 (rest ++ [byte]) = true ↔
      Utf8.isContinuation lead (rest.length + 1) byte = true := by
    rw [Utf8.continues_append, follows, Nat.add_comm, Bool.true_and, Utf8.continues_cons_iff]
    exact and_iff_left rfl
  have length : (rest ++ [byte]).length = rest.length + 1 := List.length_append
  unfold stepUtf8
  dsimp only [List.length_cons, List.cons_append]
  split
  · rename_i allowed
    have follows' := continues_iff.2 allowed
    split
    · rename_i complete
      obtain ⟨character, same⟩ := Utf8.encode_eq_cons_iff.2 ⟨complete, follows'⟩
      rw [← same]
      refine .completes ?_
      show Charset.utf8.Writes character (lead :: (rest ++ [byte]))
      exact same ▸ .utf8 character
    · rename_i missing
      exact .continues (.utf8 (by omega) follows') rfl rfl
  · rename_i refused
    refine .refuses (.utf8 incomplete follows) rfl ?_
    rintro ⟨character, _, ⟨⟩, front⟩
    have front : lead :: (rest ++ [byte]) <+: Utf8.encode character.toNat := front
    exact refused (continues_iff.1 (Utf8.prefix_encode_iff.1 ⟨_, front⟩).2)

/-- In UTF-16 a unit that follows a character starts one, or is one. -/
theorem takes_unit (low byte : UInt8) :
    (utf16le (some low) none).Takes byte (stepUnit none (Utf16.unitOf low byte)) := by
  unfold stepUnit
  dsimp only
  split
  · rename_i top
    refine .continues (.utf16le fun unit same => Option.some.inj same ▸ top) rfl ?_
    show littleEndian 2 (Utf16.unitOf low byte).toNat ++ [] = [low, byte]
    rw [Utf16.littleEndian_unitOf, List.append_nil]
  · rename_i notTop
    have notTop := Bool.not_eq_true _ ▸ notTop
    split
    · rename_i bottom
      refine .refuses (.utf16le nofun) rfl ?_
      rintro ⟨character, _, ⟨⟩, rest, same⟩
      have written : Utf16.Written character (low :: byte :: rest) := Utf16.written_iff.2 same
      cases bottom.symm.trans written.notLow
    · rename_i notBottom
      obtain ⟨character, value, written⟩ :=
        Utf16.exists_written_unit notTop (Bool.not_eq_true _ ▸ notBottom)
      rw [← value]
      refine .completes ?_
      show Charset.utf16le.Writes character [low, byte]
      exact written.eq_encode ▸ .utf16le character

/-- In UTF-16 a unit that follows a high surrogate is the second half of a pair. -/
theorem takes_second {first : UInt16} (top : Utf16.isHighSurrogate first = true)
    (low byte : UInt8) :
    (utf16le (some low) (some first)).Takes byte
      (stepUnit (some first) (Utf16.unitOf low byte)) := by
  obtain ⟨front, back, rfl⟩ := Utf16.exists_eq_unitOf first
  have carried : (utf16le (some low) (some (Utf16.unitOf front back))).carried ++ [byte] =
      [front, back, low, byte] := by
    show littleEndian 2 _ ++ [low] ++ [byte] = _
    rw [Utf16.littleEndian_unitOf]
    rfl
  unfold stepUnit
  dsimp only
  split
  · rename_i bottom
    obtain ⟨character, value, written⟩ := Utf16.exists_written_pair top bottom
    rw [← value]
    refine .completes ?_
    rw [carried]
    show Charset.utf16le.Writes character _
    exact written.eq_encode ▸ .utf16le character
  · rename_i notBottom
    refine .refuses (.utf16le fun unit same => Option.some.inj same ▸ top) rfl ?_
    rintro ⟨character, _, ⟨⟩, rest, same⟩
    rw [carried] at same
    exact notBottom (Utf16.written_iff.2 same).isLow

/-- A byte completes a character, makes the start of one longer, or cannot come next. -/
theorem Sound.takes (sound : decoder.Sound) (byte : UInt8) :
    decoder.Takes byte (decoder.step byte) := by
  cases sound with
  | usAscii => exact takes_usAscii byte
  | iso88591 => exact takes_iso88591 byte
  | windows1252 => exact takes_windows1252 byte
  | utf8Start => exact takes_utf8_start byte
  | utf8 incomplete follows => exact takes_utf8_later incomplete follows byte
  | @utf16le pending high surrogate =>
    cases pending with
    | none =>
      refine .continues (.utf16le surrogate) rfl ?_
      show _ ++ [byte] = _ ++ [] ++ [byte]
      rw [List.append_nil]
    | some low =>
      cases high with
      | none => exact takes_unit low byte
      | some first => exact takes_second (surrogate first rfl) low byte

/-- Whatever the byte is, the decoder is sound after it. -/
theorem Takes.keeps {result : TextDecoder × Option Bytes} (takes : decoder.Takes byte result) :
    result.1.Sound ∧ result.1.charset = decoder.charset := by
  cases takes with
  | completes => exact ⟨sound_ofCharset _, charset_ofCharset _⟩
  | continues sound same => exact ⟨sound, same⟩
  | refuses sound same => exact ⟨sound, same⟩

/-! ### What is carried -/

/-- In UTF-16 a byte of a unit is the start of a character. -/
theorem cuts_unit (low : UInt8) : Charset.utf16le.Cuts [low] := by
  -- With a high byte of zero the unit is no surrogate.
  have small : (Utf16.unitOf low 0).toNat < 0x100 := by
    rw [Utf16.toNat_unitOf]
    exact low.toNat_lt
  have notHigh : Utf16.isHighSurrogate (Utf16.unitOf low 0) = false := by
    rw [← Bool.not_eq_true, Utf16.isHighSurrogate_iff]
    omega
  have notLow : Utf16.isLowSurrogate (Utf16.unitOf low 0) = false := by
    rw [← Bool.not_eq_true, Utf16.isLowSurrogate_iff]
    omega
  obtain ⟨character, -, written⟩ := Utf16.exists_written_unit notHigh notLow
  exact ⟨character, [low, 0], written.eq_encode ▸ .utf16le character, ⟨[0], rfl⟩, nofun⟩

/-- In UTF-16 a high surrogate is the start of a character, and so is one with a byte of the next
unit. -/
theorem cuts_pair {low high : UInt8} (top : Utf16.isHighSurrogate (Utf16.unitOf low high) = true)
    (pending : Option UInt8) : Charset.utf16le.Cuts (low :: high :: pending.toList) := by
  -- `DC` is the high byte of low surrogates only.
  have bottom (low' : UInt8) : Utf16.isLowSurrogate (Utf16.unitOf low' 0xDC) = true := by
    have small := low'.toNat_lt
    have second : (0xDC : UInt8).toNat = 0xDC := rfl
    rw [Utf16.isLowSurrogate_iff, Utf16.toNat_unitOf]
    omega
  obtain ⟨character, -, written⟩ := Utf16.exists_written_pair top (bottom (pending.getD 0))
  refine ⟨character, [low, high, pending.getD 0, 0xDC], ?_, ?_, ?_⟩
  · exact written.eq_encode ▸ .utf16le character
  · cases pending with
    | none => exact ⟨[0, 0xDC], rfl⟩
    | some low' => exact ⟨[0xDC], rfl⟩
  · cases pending <;> nofun

/-- What is carried is the start of a character. -/
theorem Sound.cuts (sound : decoder.Sound) : decoder.charset.Cuts decoder.carried := by
  cases sound with
  | usAscii | iso88591 | windows1252 | utf8Start => exact Charset.cuts_nil _
  | @utf8 lead rest incomplete follows =>
    obtain ⟨character, front⟩ :=
      Utf8.prefix_encode_iff.2 ⟨Nat.le_of_lt incomplete, follows⟩
    refine ⟨character, _, .utf8 character, front, fun whole => ?_⟩
    have length := (Utf8.encode_eq_cons_iff.1 ⟨character, whole.symm⟩).1
    exact absurd length (Nat.ne_of_lt incomplete)
  | @utf16le pending high surrogate =>
    cases high with
    | none =>
      cases pending with
      | none => exact Charset.cuts_nil _
      | some low => exact cuts_unit low
    | some first =>
      obtain ⟨low, high, rfl⟩ := Utf16.exists_eq_unitOf first
      show Charset.utf16le.Cuts (littleEndian 2 _ ++ pending.toList)
      rw [Utf16.littleEndian_unitOf]
      exact cuts_pair (surrogate _ rfl) pending

/-! ### Chunks -/

/-- A byte that can come next is read with what was carried. -/
theorem Takes.reads {next : TextDecoder} {text : Bytes}
    (takes : decoder.Takes byte (next, some text)) :
    ∃ characters, text = Utf8.encodeAll characters ∧
      decoder.charset.Reads (decoder.carried ++ [byte]) characters next.carried := by
  cases takes with
  | @completes character writes =>
    refine ⟨[character], (List.append_nil _).symm, ?_⟩
    rw [carried_ofCharset, ← List.append_nil (_ ++ _)]
    exact .character writes (.cut (Charset.cuts_nil _))
  | continues sound same carried =>
    refine ⟨[], rfl, ?_⟩
    rw [← carried, ← same]
    exact .cut sound.cuts

/-- What bytes do to a decoder. Those that have been decoded are taken apart into characters, which
are the output, and the start of one. -/
inductive Decodes (decoder : TextDecoder) : Bytes → Decoded TextDecoder → Prop where
  | clean {bytes : Bytes} {next : TextDecoder} {characters : List Char} (sound : next.Sound)
      (same : next.charset = decoder.charset)
      (reads : decoder.charset.Reads (decoder.carried ++ bytes) characters next.carried) :
      Decodes decoder bytes ⟨next, Utf8.encodeAll characters, none⟩
  /-- No character goes on with the byte that stops the decoder. -/
  | stopped {front rest cut : Bytes} {byte : UInt8} {next : TextDecoder}
      {characters : List Char} (sound : next.Sound) (same : next.charset = decoder.charset)
      (reads : decoder.charset.Reads (decoder.carried ++ front) characters cut)
      (wrong : ¬ decoder.charset.Allows cut byte) :
      Decodes decoder (front ++ byte :: rest)
        ⟨next, Utf8.encodeAll characters, some .invalidCharacter⟩

theorem Decodes.cons {next : TextDecoder} {before : List Char} {rest : Bytes}
    {decoded : Decoded TextDecoder} (same : next.charset = decoder.charset)
    (first : decoder.charset.Reads (decoder.carried ++ [byte]) before next.carried)
    (decodes : next.Decodes rest decoded) :
    decoder.Decodes (byte :: rest)
      { decoded with output := Utf8.encodeAll before ++ decoded.output } := by
  cases decodes with
  | clean sound' same' reads =>
    rw [same] at reads
    have reads := first.append reads
    rw [← List.append_cons] at reads
    dsimp only
    rw [← Utf8.encodeAll_append]
    exact .clean sound' (same'.trans same) reads
  | stopped sound' same' reads wrong =>
    rw [same] at reads wrong
    have reads := first.append reads
    rw [← List.append_cons] at reads
    dsimp only
    rw [← Utf8.encodeAll_append, ← List.cons_append]
    exact .stopped sound' (same'.trans same) reads wrong

/-- What is carried is read as itself. -/
theorem Sound.reads_nil (sound : decoder.Sound) :
    decoder.charset.Reads (decoder.carried ++ []) [] decoder.carried := by
  rw [List.append_nil]
  exact .cut sound.cuts

theorem Sound.decodes (sound : decoder.Sound) (bytes : Bytes) :
    decoder.Decodes bytes (decoder.decode bytes) := by
  induction bytes generalizing decoder with
  | nil => exact .clean sound rfl sound.reads_nil
  | cons byte rest inductionHypothesis =>
    rw [decode_cons]
    have takes := sound.takes byte
    have keeps := takes.keeps
    generalize decoder.step byte = result at takes keeps
    obtain ⟨next, _ | text⟩ := result
    · cases takes with
      | refuses sound' same wrong =>
        -- Nothing has been decoded in front of the byte.
        rw [← List.nil_append (byte :: rest)]
        exact .stopped sound' same sound.reads_nil wrong
    · obtain ⟨before, rfl, first⟩ := takes.reads
      exact (inductionHypothesis keeps.1).cons keeps.2 first

theorem Decodes.keeps {bytes : Bytes} {decoded : Decoded TextDecoder}
    (decodes : decoder.Decodes bytes decoded) :
    decoded.decoder.Sound ∧ decoded.decoder.charset = decoder.charset := by
  cases decodes with
  | clean sound same => exact ⟨sound, same⟩
  | stopped sound same => exact ⟨sound, same⟩

/-- Bytes are decoded without an error exactly if they can be taken apart. -/
theorem Sound.error_eq_none_iff (sound : decoder.Sound) (bytes : Bytes) :
    (decoder.decode bytes).error = none ↔
      ∃ characters cut, decoder.charset.Reads (decoder.carried ++ bytes) characters cut := by
  have decodes := sound.decodes bytes
  generalize decoder.decode bytes = decoded at decodes
  cases decodes with
  | @clean bytes next characters _ _ reads => exact ⟨fun _ => ⟨_, _, reads⟩, fun _ => rfl⟩
  | stopped _ _ reads wrong =>
    refine ⟨nofun, ?_⟩
    rintro ⟨characters, cut, reads'⟩
    rw [← List.append_assoc] at reads'
    exact absurd reads' (Charset.not_reads_of_not_allows reads wrong)

/-- A decoder stops at a byte with which no character goes on, whatever follows. -/
theorem Sound.stops (sound : decoder.Sound) {front cut : Bytes} {characters : List Char}
    (reads : decoder.charset.Reads (decoder.carried ++ front) characters cut)
    (wrong : ¬ decoder.charset.Allows cut byte) (back : Bytes) :
    (decoder.decode (front ++ byte :: back)).error = some .invalidCharacter := by
  have decodes := sound.decodes (front ++ byte :: back)
  generalize decoder.decode (front ++ byte :: back) = decoded at decodes ⊢
  generalize whole : front ++ byte :: back = bytes at decodes
  cases decodes with
  | clean _ _ reads' =>
    rw [← whole, ← List.append_assoc] at reads'
    exact absurd reads' (Charset.not_reads_of_not_allows reads wrong)
  | stopped => rfl

/-- Bytes that can be taken apart are decoded without an error, into their characters. -/
theorem Sound.decode_of_reads (sound : decoder.Sound) {bytes cut : Bytes}
    {characters : List Char}
    (reads : decoder.charset.Reads (decoder.carried ++ bytes) characters cut) :
    (decoder.decode bytes).output = Utf8.encodeAll characters ∧
      (decoder.decode bytes).decoder.carried = cut ∧ (decoder.decode bytes).error = none := by
  have clean := (sound.error_eq_none_iff bytes).2 ⟨characters, cut, reads⟩
  have decodes := sound.decodes bytes
  generalize decoder.decode bytes = decoded at decodes clean
  cases decodes with
  | clean _ _ reads' =>
    obtain ⟨rfl, rfl⟩ := reads.unique reads'
    exact ⟨rfl, rfl, rfl⟩
  | stopped => cases clean

end TabularStream.TextDecoder
