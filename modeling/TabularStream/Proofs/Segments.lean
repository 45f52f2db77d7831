/-
This file proves that a character stream gives well-formed UTF-8, whatever it reads. A decoder gives
out whole characters only, in any character set and for any bytes, also when it goes on after an
error; what it keeps is the start of one, so it keeps little. A stream decodes with one decoder from
its first chunk to its last. `Transcodes` is that this decoder is sound, which every way to use the
stream keeps, and a segment is output of the decoder that is not empty.
-/

import TabularStream.Proofs.Allowance
import TabularStream.Proofs.Transcoding

namespace TabularStream

/-! ### Decoders -/

/-- Texts put together are a text. -/
theorem Utf8.WellFormed.append {front back : Bytes} (text : WellFormed front)
    (text' : WellFormed back) : WellFormed (front ++ back) := by
  obtain ⟨characters, rfl⟩ := text
  obtain ⟨characters', rfl⟩ := text'
  exact ⟨characters ++ characters', (encodeAll_append characters characters').symm⟩

namespace TextDecoder

variable {decoder : TextDecoder}

/-- A decoder keeps fewer bytes than a character has, and only a high surrogate waits. -/
structure Keeps (decoder : TextDecoder) : Prop where
  pending : decoder.pendingBytes.length < 4
  announced : ∀ lead rest, decoder.charset = .utf8 → decoder.pendingBytes = lead :: rest →
    decoder.pendingBytes.length < Utf8.sequenceLength lead
  surrogate : ∀ unit, decoder.highSurrogate = some unit → 0xD800 ≤ unit ∧ unit ≤ 0xDBFF

theorem Sound.keepsLittle (sound : decoder.Sound) : decoder.Keeps := by
  cases sound with
  | usAscii | iso88591 | windows1252 | utf8Start => exact ⟨by decide, nofun, nofun⟩
  | @utf8 lead rest incomplete follows =>
    refine ⟨Nat.lt_of_lt_of_le incomplete (Utf8.sequenceLength_le lead), ?_, nofun⟩
    rintro lead' rest' - same
    cases same
    exact incomplete
  | @utf16le pending high surrogate =>
    refine ⟨?_, nofun, fun unit waits => ?_⟩
    · cases pending with
      | none => exact (by decide : 0 < 4)
      | some low => exact (by decide : 1 < 4)
    · have top := surrogate unit waits
      unfold Utf16.isHighSurrogate at top
      rw [Bool.and_eq_true, decide_eq_true_iff, decide_eq_true_iff] at top
      exact top

/-- What a chunk gives out is well-formed, also where it stops. -/
theorem Sound.wellFormed_decode (sound : decoder.Sound) (bytes : Bytes) :
    Utf8.WellFormed (decoder.decode bytes).output := by
  have decodes := sound.decodes bytes
  generalize decoder.decode bytes = decoded at decodes
  cases decodes with
  | clean | stopped => exact ⟨_, rfl⟩

theorem Sound.wellFormed_calls (sound : decoder.Sound) (chunks : List Bytes) :
    ∀ call ∈ decoder.calls chunks, Utf8.WellFormed call.output := by
  induction chunks generalizing decoder with
  | nil => exact nofun
  | cons chunk chunks inductionHypothesis =>
    refine List.forall_mem_cons.2 ⟨sound.wellFormed_decode chunk, ?_⟩
    exact inductionHypothesis (sound.decodes chunk).keeps.1

end TextDecoder

/-! ### Streams -/

namespace Stream

/-- The decoder of a stream is one of text, and sound. -/
inductive Transcodes (stream : Stream) : Prop where
  | text (decoder : TextDecoder) (decodes : stream.decoder = .text decoder)
      (sound : decoder.Sound) : Transcodes stream

variable {stream : Stream} {pool : Pool}

theorem Transcodes.congr {stream' : Stream} (transcodes : stream.Transcodes)
    (same : stream'.decoder = stream.decoder) : stream'.Transcodes := by
  obtain ⟨decoder, decodes, sound⟩ := transcodes
  exact ⟨decoder, same.trans decodes, sound⟩

theorem transcodes_ofValue (value : Value) (type : ColumnType) (config : StreamConfig) :
    (ofValue .character value type config).Transcodes :=
  ⟨_, rfl, TextDecoder.sound_ofCharset type.charset⟩

/-- A chunk leaves the decoder sound, and gives text. -/
theorem Transcodes.decode (transcodes : stream.Transcodes) {stream' : Stream} {payload : Bytes}
    (next : stream'.decoder = (stream.decoder.decode payload).decoder) :
    stream'.Transcodes ∧ Utf8.WellFormed (stream.decoder.decode payload).output := by
  obtain ⟨decoder, decodes, sound⟩ := transcodes
  rw [decodes] at next ⊢
  exact ⟨⟨_, next, (sound.decodes payload).keeps.1⟩, sound.wellFormed_decode payload⟩

/-- What a call gives, if it is a segment, is text, and not empty. -/
structure GivesText (streamed : Streamed Event) : Prop where
  transcodes : streamed.stream.Transcodes
  segment : ∀ bytes, streamed.answer = .segment bytes → bytes ≠ [] ∧ Utf8.WellFormed bytes

theorem Transcodes.fail (transcodes : stream.Transcodes) (pool : Pool) (error : ClientError) :
    GivesText (stream.fail pool error) :=
  ⟨transcodes.congr rfl, fun _ segment => by cases segment⟩

theorem Transcodes.pull (transcodes : stream.Transcodes) (pool : Pool) :
    GivesText (stream.pull pool) := by
  fun_induction Stream.pull stream pool with
  | case1 => exact ⟨transcodes, fun _ segment => by cases segment⟩
  | case2 | case3 =>
    refine Transcodes.fail (transcodes.congr ?_) _ _
    rfl
  | case4 => exact ⟨transcodes.congr rfl, fun _ segment => by cases segment⟩
  | case5 => exact (transcodes.decode rfl).1.fail _ _
  | case6 stream pool _ pulled payload chunk decoded released _ _ _ inductionHypothesis =>
    exact inductionHypothesis (transcodes.decode rfl).1
  | case7 stream pool _ pulled payload chunk decoded released next _ some =>
    obtain ⟨left, text⟩ : next.Transcodes ∧ Utf8.WellFormed decoded.output :=
      transcodes.decode rfl
    refine ⟨left.congr rfl, ?_⟩
    rintro bytes ⟨⟩
    exact ⟨some, text⟩

theorem Transcodes.next (transcodes : stream.Transcodes) (pool : Pool) :
    GivesText (stream.next pool) := by
  unfold Stream.next
  split
  · exact transcodes.pull pool
  all_goals exact ⟨transcodes, fun _ segment => by cases segment⟩

theorem Transcodes.readAll (transcodes : stream.Transcodes) (pool : Pool) :
    (stream.readAll pool).stream.Transcodes ∧
      Utf8.WellFormed (stream.readAll pool).answer.bytes := by
  have nothing : Utf8.WellFormed [] := ⟨[], rfl⟩
  fun_induction Stream.readAll stream pool with
  | case1 stream pool step bytes event rest inductionHypothesis =>
    obtain ⟨left, text⟩ := transcodes.next pool
    obtain ⟨left', text'⟩ := inductionHypothesis left
    exact ⟨left', (text bytes event).2.append text'⟩
  | case2 stream pool step event inductionHypothesis =>
    exact inductionHypothesis ((transcodes.next pool).transcodes.congr rfl)
  | case3 stream pool | case4 stream pool => exact ⟨(transcodes.next pool).transcodes, nothing⟩

/-! ### Runs -/

/-- What an answer holds of the value is text, and a segment is not empty. -/
def Reply.IsText : Reply → Prop
  | .event (.segment bytes) => bytes ≠ [] ∧ Utf8.WellFormed bytes
  | .whole run => Utf8.WellFormed run.bytes
  | _ => True

theorem Transcodes.perform (transcodes : stream.Transcodes) (pool : Pool) (op : Op) :
    (stream.perform pool op).stream.Transcodes ∧ (stream.perform pool op).answer.IsText := by
  cases op with
  | next =>
    obtain ⟨left, text⟩ := transcodes.next pool
    refine ⟨left, ?_⟩
    show (Reply.event (stream.next pool).answer).IsText
    cases event : (stream.next pool).answer with
    | segment bytes => exact text bytes event
    | needsDemand | ended | failed error => exact True.intro
  | request count => exact ⟨transcodes.congr rfl, True.intro⟩
  | cancel | discard => exact ⟨transcodes.congr rfl, True.intro⟩
  | readAll => exact transcodes.readAll pool
  | info => exact ⟨transcodes, True.intro⟩

theorem Transcodes.useAll (transcodes : stream.Transcodes) (pool : Pool) (ops : List Op) :
    ∀ reply ∈ (stream.useAll pool ops).answer, reply.IsText := by
  induction ops generalizing stream pool with
  | nil => exact nofun
  | cons op ops inductionHypothesis =>
    obtain ⟨left, text⟩ := transcodes.perform pool op
    exact List.forall_mem_cons.2 ⟨text, inductionHypothesis left _⟩

end Stream

/-- Text is well-formed. In every character set, calls of a decoder with any chunks, also those after
an error, give out whole characters, and the decoder keeps fewer bytes than a character has. So each
segment of a character stream is well-formed, and not empty, whatever the value and its column are
and however the stream is used. -/
theorem text_is_well_formed :
    (∀ charset chunks,
      let fresh := TextDecoder.ofCharset charset
      (∀ call ∈ fresh.calls chunks, Utf8.WellFormed call.output) ∧
        (fresh.after chunks).charset = charset ∧ (fresh.after chunks).Keeps) ∧
      ∀ value type config pool ops,
        let used := (Stream.ofValue .character value type config).useAll pool ops
        (∀ bytes ∈ Stream.given used.answer, bytes ≠ [] ∧ Utf8.WellFormed bytes) ∧
          ∀ whole, .whole whole ∈ used.answer → Utf8.WellFormed whole.bytes := by
  refine ⟨fun charset chunks => ?_, fun value type config pool ops => ?_⟩
  · have sound := TextDecoder.sound_ofCharset charset
    obtain ⟨sound', same⟩ := sound.keeps_after chunks
    exact ⟨sound.wellFormed_calls chunks, same.trans (TextDecoder.charset_ofCharset charset),
      sound'.keepsLittle⟩
  · have text := (Stream.transcodes_ofValue value type config).useAll pool ops
    refine ⟨fun bytes member => ?_, fun whole member => text _ member⟩
    obtain ⟨reply, member, segment⟩ := List.mem_filterMap.1 member
    have text := text reply member
    cases reply with
    | event event =>
      cases event with
      | segment =>
        cases segment
        exact text
      | needsDemand | ended | failed => cases segment
    | nothing | whole | info => cases segment

/-- A letter and then half a pair, which is refused with the rest of its chunk, and another letter. -/
def brokenChunks : List Bytes := [[0x41, 0, 0, 0xDC, 0x42], [0x43, 0]]

theorem text_is_well_formed_brokenChunks :
    let calls := (TextDecoder.ofCharset .utf16le).calls brokenChunks
    let used := (Stream.ofValue .character Stream.pacedLetters Stream.pacedColumn {}).useAll
      Stream.pacedSession.pool [.next, .request 1, .next]
    (calls.map Decoded.output = [[0x41], [0x43]] ∧ ¬ TextDecoder.Clean calls ∧
        ∀ call ∈ calls, Utf8.WellFormed call.output) ∧
      Stream.given used.answer = [[0x41, 0x42]] ∧
      ∀ bytes ∈ Stream.given used.answer, bytes ≠ [] ∧ Utf8.WellFormed bytes := by
  obtain ⟨decoders, streams⟩ := text_is_well_formed
  obtain ⟨segments, -⟩ := streams Stream.pacedLetters Stream.pacedColumn {} Stream.pacedSession.pool
    [.next, .request 1, .next]
  exact ⟨⟨by decide, by decide, (decoders .utf16le brokenChunks).1⟩, by decide +kernel, segments⟩

end TabularStream
