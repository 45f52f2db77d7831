/-
This file proves that decoding text is exact. Whatever the chunks, the calls that decode them are
without an error exactly if their bytes can be taken apart into characters and the start of one, and
then the output is these characters in UTF-8. The text may end there if nothing is left of another
character. Otherwise there is a first byte with which no character goes on: the call for its chunk
fails, and what has been given out then are the characters before it.

That is so in every character set. The theorems at the end say it for UTF-16, whose characters are
changed from one encoding form into the other, and for UTF-8, where decoding is a check.
-/

import TabularStream.Proofs.Characters

namespace TabularStream

namespace TextDecoder

/-! ### Calls -/

/-- The calls that decode chunks one after the other. An error does not stop them. -/
def calls : TextDecoder → List Bytes → List (Decoded TextDecoder)
  | _, [] => []
  | decoder, chunk :: chunks =>
    let call := decoder.decode chunk
    call :: call.decoder.calls chunks

/-- The decoder after these calls. -/
def after : TextDecoder → List Bytes → TextDecoder
  | decoder, [] => decoder
  | decoder, chunk :: chunks => (decoder.decode chunk).decoder.after chunks

/-- The output of calls. -/
def output (calls : List (Decoded TextDecoder)) : Bytes := calls.flatMap Decoded.output

/-- No call has stopped. -/
def Clean (calls : List (Decoded TextDecoder)) : Prop := ∀ call ∈ calls, call.error = none

instance (calls : List (Decoded TextDecoder)) : Decidable (Clean calls) :=
  inferInstanceAs (Decidable (∀ call ∈ calls, call.error = none))

variable {decoder : TextDecoder} {chunks : List Bytes}

theorem Sound.keeps_after (sound : decoder.Sound) (chunks : List Bytes) :
    (decoder.after chunks).Sound ∧ (decoder.after chunks).charset = decoder.charset := by
  induction chunks generalizing decoder with
  | nil => exact ⟨sound, rfl⟩
  | cons chunk chunks inductionHypothesis =>
    obtain ⟨sound', same⟩ := (sound.decodes chunk).keeps
    obtain ⟨sound'', same'⟩ := inductionHypothesis sound'
    exact ⟨sound'', same'.trans same⟩

/-- Calls that do not stop decode their chunks as one. -/
theorem decode_flatten (clean : Clean (decoder.calls chunks)) :
    decoder.decode chunks.flatten =
      ⟨decoder.after chunks, output (decoder.calls chunks), none⟩ := by
  induction chunks generalizing decoder with
  | nil => rfl
  | cons chunk chunks inductionHypothesis =>
    obtain ⟨first, others⟩ := List.forall_mem_cons.1 clean
    rw [List.flatten_cons, decode_append]
    unfold calls after output
    generalize decoder.decode chunk = call at first others ⊢
    obtain ⟨next, text, error⟩ := call
    cases first
    dsimp only
    rw [inductionHypothesis others]
    rfl

theorem clean_iff_flatten :
    Clean (decoder.calls chunks) ↔ (decoder.decode chunks.flatten).error = none := by
  refine ⟨fun clean => congrArg Decoded.error (decode_flatten clean), fun clean => ?_⟩
  induction chunks generalizing decoder with
  | nil => exact nofun
  | cons chunk chunks inductionHypothesis =>
    rw [List.flatten_cons, decode_append] at clean
    unfold calls
    generalize decoder.decode chunk = call at clean
    obtain ⟨next, text, _ | error⟩ := call
    · exact List.forall_mem_cons.2 ⟨rfl, inductionHypothesis clean⟩
    · cases clean

/-- Calls do not stop exactly if the bytes of their chunks can be taken apart. -/
theorem Sound.clean_iff (sound : decoder.Sound) (chunks : List Bytes) :
    Clean (decoder.calls chunks) ↔
      ∃ characters cut, decoder.charset.Reads (decoder.carried ++ chunks.flatten) characters cut :=
  clean_iff_flatten.trans (sound.error_eq_none_iff chunks.flatten)

/-- Calls for bytes that can be taken apart give their characters. -/
theorem Sound.calls_of_reads (sound : decoder.Sound) {characters : List Char} {cut : Bytes}
    (reads : decoder.charset.Reads (decoder.carried ++ chunks.flatten) characters cut) :
    output (decoder.calls chunks) = Utf8.encodeAll characters ∧
      (decoder.after chunks).carried = cut := by
  have clean := (sound.clean_iff chunks).2 ⟨characters, cut, reads⟩
  have decoded := sound.decode_of_reads reads
  rw [decode_flatten clean] at decoded
  exact ⟨decoded.1, decoded.2.1⟩

/-- A call stops at the first byte with which no character goes on. -/
theorem Sound.exists_stopped (sound : decoder.Sound) (stops : ¬ Clean (decoder.calls chunks)) :
    ∃ before front byte back rest characters cut,
      chunks = before ++ (front ++ byte :: back) :: rest ∧
      decoder.charset.Reads (decoder.carried ++ (before ++ [front]).flatten) characters cut ∧
      ¬ decoder.charset.Allows cut byte ∧
      (∀ more, ((decoder.after before).decode (front ++ byte :: more)).error =
        some .invalidCharacter) ∧
      output (decoder.calls (before ++ [front ++ byte :: back])) = Utf8.encodeAll characters := by
  induction chunks generalizing decoder with
  | nil => exact absurd nofun stops
  | cons chunk chunks inductionHypothesis =>
    have decodes := sound.decodes chunk
    generalize made : decoder.decode chunk = call at decodes
    cases decodes with
    | @stopped front back cut byte next characters _ _ reads wrong =>
      refine ⟨[], front, byte, back, chunks, characters, cut, rfl, ?_, wrong,
        sound.stops reads wrong, ?_⟩
      · rw [List.nil_append, List.flatten_singleton]
        exact reads
      · show (decoder.decode _).output ++ [] = _
        rw [made, List.append_nil]
    | @clean _ next characters sound' same reads =>
      have stops' : ¬ Clean (next.calls chunks) := by
        intro clean
        refine stops (List.forall_mem_cons.2 ⟨congrArg Decoded.error made, ?_⟩)
        rw [made]
        exact clean
      obtain ⟨before, front, byte, back, rest, characters', cut, rfl, reads', wrong, error, text⟩ :=
        inductionHypothesis sound' stops'
      rw [same] at reads' wrong
      refine ⟨chunk :: before, front, byte, back, rest, characters ++ characters', cut, rfl, ?_,
        wrong, ?_, ?_⟩
      · have whole := reads.append reads'
        rw [List.append_assoc] at whole
        exact whole
      · show ∀ more, ((after (decoder.decode chunk).decoder before).decode _).error = _
        rw [made]
        exact error
      · show (decoder.decode chunk).output ++ output
          ((decoder.decode chunk).decoder.calls (before ++ [front ++ byte :: back])) = _
        rw [made, Utf8.encodeAll_append, ← text]

/-! ### Texts from their start -/

section Fresh

variable {charset : Charset}

theorem clean_ofCharset_iff : Clean ((ofCharset charset).calls chunks) ↔
    ∃ characters cut, charset.Reads chunks.flatten characters cut := by
  have clean := (sound_ofCharset charset).clean_iff chunks
  rw [carried_ofCharset, charset_ofCharset] at clean
  exact clean

/-- The start of a character is left if the text may not end. -/
theorem calls_ofCharset {characters : List Char} {cut : Bytes}
    (reads : charset.Reads chunks.flatten characters cut) :
    output ((ofCharset charset).calls chunks) = Utf8.encodeAll characters ∧
      (((ofCharset charset).after chunks).finish = none ↔ cut = []) := by
  rw [finish_eq_none_iff]
  have reads' : (ofCharset charset).charset.Reads ((ofCharset charset).carried ++ chunks.flatten)
      characters cut := by
    rw [carried_ofCharset, charset_ofCharset]
    exact reads
  obtain ⟨text, rfl⟩ := (sound_ofCharset charset).calls_of_reads reads'
  exact ⟨text, Iff.rfl⟩

theorem exists_stopped_ofCharset (stops : ¬ Clean ((ofCharset charset).calls chunks)) :
    ∃ before front byte back rest characters cut,
      chunks = before ++ (front ++ byte :: back) :: rest ∧
      charset.Reads (before ++ [front]).flatten characters cut ∧
      ¬ charset.Allows cut byte ∧
      (∀ more, (((ofCharset charset).after before).decode (front ++ byte :: more)).error =
        some .invalidCharacter) ∧
      output ((ofCharset charset).calls (before ++ [front ++ byte :: back])) =
        Utf8.encodeAll characters := by
  have stopped := (sound_ofCharset charset).exists_stopped stops
  rw [carried_ofCharset, charset_ofCharset] at stopped
  exact stopped

theorem finish_eq_some_iff :
    decoder.finish = some .incompleteCharacter ↔ decoder.finish ≠ none := by
  unfold finish
  split
  · exact ⟨nofun, fun fails => absurd rfl fails⟩
  · exact ⟨nofun, fun _ => rfl⟩

end Fresh

/-! ### UTF-16 -/

/-- Decoding UTF-16 is exact. A text is decoded into its UTF-8, whatever the chunks. Calls that do
not stop have decoded a text, and if the text may not end there, also the start of a character. -/
theorem utf16_decoding_exact (chunks : List Bytes) :
    let fresh := ofCharset .utf16le
    let calls := fresh.calls chunks
    let last := fresh.after chunks
    (∀ characters, chunks.flatten = Utf16.encodeAll characters →
        Clean calls ∧ last.finish = none ∧
          output calls = characters.flatMap String.utf8EncodeChar) ∧
      (Clean calls → last.finish = none →
        ∃ characters, chunks.flatten = Utf16.encodeAll characters ∧
          output calls = characters.flatMap String.utf8EncodeChar) ∧
      (Clean calls → last.finish ≠ none →
        ∃ characters cut, chunks.flatten = Utf16.encodeAll characters ++ cut ∧
          cut ≠ [] ∧ Charset.utf16le.Cuts cut ∧
          output calls = characters.flatMap String.utf8EncodeChar) := by
  intro fresh calls last
  refine ⟨fun characters whole => ?_, fun clean ends => ?_, fun clean fails => ?_⟩
  · have reads : Charset.utf16le.Reads chunks.flatten characters [] :=
      Charset.reads_utf16le_iff.2 ⟨whole.trans (List.append_nil _).symm, Charset.cuts_nil _⟩
    obtain ⟨text, finish⟩ := calls_ofCharset reads
    exact ⟨clean_ofCharset_iff.2 ⟨_, _, reads⟩, finish.2 rfl, text.trans (Utf8.encodeAll_eq _)⟩
  · obtain ⟨characters, cut, reads⟩ := clean_ofCharset_iff.1 clean
    obtain ⟨text, finish⟩ := calls_ofCharset reads
    obtain ⟨whole, -⟩ := Charset.reads_utf16le_iff.1 reads
    rw [finish.1 ends, List.append_nil] at whole
    exact ⟨characters, whole, text.trans (Utf8.encodeAll_eq _)⟩
  · obtain ⟨characters, cut, reads⟩ := clean_ofCharset_iff.1 clean
    obtain ⟨text, finish⟩ := calls_ofCharset reads
    obtain ⟨whole, cuts⟩ := Charset.reads_utf16le_iff.1 reads
    exact ⟨characters, cut, whole, mt finish.2 fails, cuts, text.trans (Utf8.encodeAll_eq _)⟩

/-- The letter A and a character of two units, cut within both units and between them. -/
def cutUnits : List Bytes := [[0x41, 0, 0x3D], [], [0xD8], [0], [0xDE]]

theorem utf16_decoding_exact_cutUnits :
    let fresh := ofCharset .utf16le
    Clean (fresh.calls cutUnits) ∧ (fresh.after cutUnits).finish = none ∧
      output (fresh.calls cutUnits) = ['A', Char.ofNat 0x1F600].flatMap String.utf8EncodeChar ∧
      ∃ characters cut, (cutUnits.take 4).flatten = Utf16.encodeAll characters ++ cut ∧
        cut ≠ [] ∧ Charset.utf16le.Cuts cut := by
  intro fresh
  have whole : cutUnits.flatten = Utf16.encodeAll ['A', Char.ofNat 0x1F600] := by decide +kernel
  obtain ⟨clean, ends, text⟩ := (utf16_decoding_exact cutUnits).1 _ whole
  obtain ⟨characters, cut, split, some, cuts, -⟩ :=
    (utf16_decoding_exact (cutUnits.take 4)).2.2 (by decide) (by decide)
  exact ⟨clean, ends, text, characters, cut, split, some, cuts⟩

/-! ### UTF-8 -/

/-- Decoding UTF-8 is a check. Calls decode text and leave it as it is, and if only the start of a
character is left they tell so at the end. Otherwise there is a first byte that no text has there:
the call for its chunk stops at it, and what has been given out are the characters before. -/
theorem utf8_validation_exact (chunks : List Bytes) :
    let fresh := ofCharset .utf8
    let calls := fresh.calls chunks
    let last := fresh.after chunks
    (Clean calls ∧ last.finish = none ↔ Utf8.WellFormed chunks.flatten) ∧
      (Clean calls ∧ last.finish = none → output calls = chunks.flatten) ∧
      (Clean calls ∧ last.finish = some .incompleteCharacter ↔
        ∃ text cut, chunks.flatten = text ++ cut ∧ Utf8.WellFormed text ∧ cut ≠ [] ∧
          Charset.utf8.Cuts cut) ∧
      (¬ (Clean calls ∧ last.finish = none) →
        ¬ (Clean calls ∧ last.finish = some .incompleteCharacter) →
          ∃ before front byte back rest text cut,
            chunks = before ++ (front ++ byte :: back) :: rest ∧
            Clean (fresh.calls (before ++ [front])) ∧
            (∀ more, ((fresh.after before).decode (front ++ byte :: more)).error =
              some .invalidCharacter) ∧
            (before ++ [front]).flatten = text ++ cut ∧
            Utf8.WellFormed text ∧ Charset.utf8.Cuts cut ∧
            output (fresh.calls (before ++ [front ++ byte :: back])) = text ∧
            (∃ more, Utf8.WellFormed ((before ++ [front]).flatten ++ more)) ∧
            ∀ more, ¬ Utf8.WellFormed ((before ++ [front]).flatten ++ byte :: more)) := by
  intro fresh calls last
  have accepts : Clean calls ∧ last.finish = none ↔ Utf8.WellFormed chunks.flatten := by
    rw [Charset.wellFormed_iff_reads]
    constructor
    · rintro ⟨clean, ends⟩
      obtain ⟨characters, cut, reads⟩ := clean_ofCharset_iff.1 clean
      exact ⟨characters, (calls_ofCharset reads).2.1 ends ▸ reads⟩
    · rintro ⟨characters, reads⟩
      exact ⟨clean_ofCharset_iff.2 ⟨_, _, reads⟩, (calls_ofCharset reads).2.2 rfl⟩
  refine ⟨accepts, fun ⟨clean, ends⟩ => ?_, ?_, fun notComplete notCut => ?_⟩
  · obtain ⟨characters, cut, reads⟩ := clean_ofCharset_iff.1 clean
    obtain ⟨text, finish⟩ := calls_ofCharset reads
    obtain ⟨whole, -⟩ := Charset.reads_utf8_iff.1 reads
    rw [text, whole, finish.1 ends, List.append_nil]
  · rw [finish_eq_some_iff]
    constructor
    · rintro ⟨clean, fails⟩
      obtain ⟨characters, cut, reads⟩ := clean_ofCharset_iff.1 clean
      obtain ⟨whole, cuts⟩ := Charset.reads_utf8_iff.1 reads
      exact ⟨_, cut, whole, ⟨characters, rfl⟩, mt (calls_ofCharset reads).2.2 fails, cuts⟩
    · rintro ⟨_, cut, whole, ⟨characters, rfl⟩, some, cuts⟩
      have reads := Charset.reads_utf8_iff.2 ⟨whole, cuts⟩
      exact ⟨clean_ofCharset_iff.2 ⟨_, _, reads⟩, mt (calls_ofCharset reads).2.1 some⟩
  · have stops : ¬ Clean calls := by
      intro clean
      by_cases ends : last.finish = none
      · exact notComplete ⟨clean, ends⟩
      · exact notCut ⟨clean, finish_eq_some_iff.2 ends⟩
    obtain ⟨before, front, byte, back, rest, characters, cut, split, reads, wrong, error, text⟩ :=
      exists_stopped_ofCharset stops
    obtain ⟨whole, cuts⟩ := Charset.reads_utf8_iff.1 reads
    refine ⟨before, front, byte, back, rest, _, cut, split, clean_ofCharset_iff.2 ⟨_, _, reads⟩,
      error, whole, ⟨characters, rfl⟩, cuts, text, reads.exists_wellFormed, fun more => ?_⟩
    rw [Charset.wellFormed_iff_reads]
    rintro ⟨characters', reads'⟩
    exact Charset.not_reads_of_not_allows reads wrong reads'

/-- The letter A and an overlong form, cut after its first byte. -/
def overlongChunks : List Bytes := [[0x41, 0xE0], [], [0x80, 0x80]]

theorem utf8_validation_exact_overlongChunks :
    ¬ Utf8.WellFormed overlongChunks.flatten ∧
      (∃ text cut, (overlongChunks.take 2).flatten = text ++ cut ∧ Utf8.WellFormed text ∧
        cut ≠ [] ∧ Charset.utf8.Cuts cut) ∧
      ∃ before front byte back rest,
        overlongChunks = before ++ (front ++ byte :: back) :: rest ∧
        ∀ more, ¬ Utf8.WellFormed ((before ++ [front]).flatten ++ byte :: more) := by
  obtain ⟨accepts, -, -, stops⟩ := utf8_validation_exact overlongChunks
  obtain ⟨before, front, byte, back, rest, _, _, split, -, -, -, -, -, -, -, wrong⟩ :=
    stops (by decide) (by decide)
  obtain ⟨-, -, cutShort, -⟩ := utf8_validation_exact (overlongChunks.take 2)
  exact ⟨mt accepts.2 (by decide), cutShort.1 (by decide), before, front, byte, back, rest, split,
    wrong⟩

end TextDecoder

end TabularStream
