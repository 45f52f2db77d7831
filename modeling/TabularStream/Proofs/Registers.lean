/-
This file holds a second version of the decoder of text, which keeps its state in registers: room
for four bytes, of which a number are in use, and a unit that is zero unless a high surrogate waits.
One loop takes the bytes of a chunk, each with the step of the character set, and puts the text that
they complete behind a text that is already there. A byte is stored only if there is room for it, a
code point is looked up only inside of the table, and only a code point is written.

`Shows` says which decoder the registers are those of. `Shows.follows` is the step: no check fails,
and the byte does to the registers what it does to the decoder. The loop is the same step for each
byte, so a chunk may be cut anywhere: what the registers hold at the cut is all that the bytes
behind it need.
-/

import TabularStream.Proofs.Transcoding

namespace TabularStream

/-- The state of a decoder of text. Bytes past the first `count` are left over from before. -/
structure TextRegisters where
  charset : Charset
  pending : Vector UInt8 4
  count : Nat
  high : UInt16
  deriving DecidableEq, Repr

namespace TextRegisters

/-- The registers before any input. -/
def ofCharset (charset : Charset) : TextRegisters := ⟨charset, Vector.replicate 4 0, 0, 0⟩

/-- The byte in the first place. -/
def first (registers : TextRegisters) : UInt8 := registers.pending.get ⟨0, Nat.zero_lt_succ 3⟩

/-- The received bytes of an incomplete character or unit. -/
def received (registers : TextRegisters) : Bytes := registers.pending.toList.take registers.count

/-! ### One byte -/

/-- Store a byte behind those that have been received. -/
def push (registers : TextRegisters) (byte : UInt8) : Except Failure TextRegisters :=
  if room : registers.count < 4 then
    .ok { registers with
      pending := registers.pending.set registers.count byte
      count := registers.count + 1 }
  else .error .outOfRange

/-- Put a code point behind a text. -/
def write (text : Bytes) (number : UInt32) : Except Failure Bytes :=
  (Utf8.encode? number).map (text ++ ·)

/-- The code point of a windows-1252 byte from `80` on. -/
def windows1252 (byte : UInt8) : Except Failure UInt32 :=
  if byte < 0xA0 then
    match SingleByte.windows1252High[byte.toNat - 0x80]? with
    | none => .error .outOfRange
    | some number => .ok (UInt32.ofNat number)
  else .ok byte.toUInt32

/-- The code point of two units, the first of which is a high surrogate. -/
def pair (first second : UInt16) : UInt32 :=
  (0x10000 : UInt32) + ((first.toUInt32 - 0xD800) <<< 10) + (second.toUInt32 - 0xDC00)

variable (registers : TextRegisters) (text : Bytes) (byte : UInt8)

/-- A byte of a character set in which every byte is a character. -/
def stepSingleByte : Except Failure (Decoded TextRegisters) :=
  if byte < 0x80 then return ⟨registers, text ++ [byte], none⟩
  else
    match registers.charset with
    | .usAscii => return ⟨registers, text, some .invalidCharacter⟩
    | .iso88591 => return ⟨registers, ← write text byte.toUInt32, none⟩
    | .windows1252 => return ⟨registers, ← write text (← windows1252 byte), none⟩
    | .utf8 | .utf16le => .error .precondition

/-- A byte of UTF-8. -/
def stepUtf8 : Except Failure (Decoded TextRegisters) :=
  if registers.count = 0 then
    match Utf8.sequenceLength byte with
    | 0 => return ⟨registers, text, some .invalidCharacter⟩
    | 1 => return ⟨registers, text ++ [byte], none⟩
    | _ => return ⟨← registers.push byte, text, none⟩
  else if Utf8.isContinuation registers.first registers.count byte then do
    let registers ← registers.push byte
    if registers.count = Utf8.sequenceLength registers.first then
      return ⟨{ registers with count := 0 }, text ++ registers.received, none⟩
    else return ⟨registers, text, none⟩
  else return ⟨registers, text, some .invalidCharacter⟩

/-- A unit of UTF-16. -/
def stepUnit (unit : UInt16) : Except Failure (Decoded TextRegisters) :=
  if registers.high ≠ 0 then
    if Utf16.isLowSurrogate unit then
      return ⟨{ registers with high := 0 }, ← write text (pair registers.high unit), none⟩
    else return ⟨registers, text, some .invalidCharacter⟩
  else if Utf16.isHighSurrogate unit then return ⟨{ registers with high := unit }, text, none⟩
  else if Utf16.isLowSurrogate unit then return ⟨registers, text, some .invalidCharacter⟩
  else return ⟨registers, ← write text unit.toUInt32, none⟩

/-- A byte of UTF-16. -/
def stepUtf16 : Except Failure (Decoded TextRegisters) :=
  if registers.count = 0 then return ⟨← registers.push byte, text, none⟩
  else stepUnit { registers with count := 0 } text (Utf16.unitOf registers.first byte)

/-! ### Chunks -/

/-- What a byte does to registers and to the text in front of it. -/
abbrev Step := TextRegisters → Bytes → UInt8 → Except Failure (Decoded TextRegisters)

/-- Take bytes one after the other, up to the first one that is refused. -/
def loop (step : Step) (registers : TextRegisters) (text : Bytes) :
    Bytes → Except Failure (Decoded TextRegisters)
  | [] => .ok ⟨registers, text, none⟩
  | byte :: rest => do
    let taken ← step registers text byte
    match taken.error with
    | some _ => return taken
    | none => loop step taken.decoder taken.output rest

/-- The step of a character set. -/
def stepOf : Charset → Step
  | .utf8 => stepUtf8
  | .utf16le => stepUtf16
  | _ => stepSingleByte

/-- Decode a chunk and put its text behind a text. -/
def decode (chunk : Bytes) : Except Failure (Decoded TextRegisters) :=
  loop (stepOf registers.charset) registers text chunk

/-- Decode two chunks, the second only if the first one is without an error. -/
def decodeBoth (front back : Bytes) : Except Failure (Decoded TextRegisters) := do
  let first ← registers.decode text front
  match first.error with
  | some _ => return first
  | none => first.decoder.decode first.output back

/-- The verdict at the end of the text. -/
def finish : Option ClientError :=
  if registers.count ≠ 0 ∨ registers.high ≠ 0 then some .incompleteCharacter else none

/-- The registers after calls, each with the text that its own goes behind. An error does not stop
them. -/
def after (registers : TextRegisters) : List (Bytes × Bytes) → Except Failure TextRegisters
  | [] => .ok registers
  | (text, chunk) :: calls => do
    let call ← registers.decode text chunk
    after call.decoder calls

/-! ### Registers of a decoder -/

/-- The registers are those of a decoder. -/
structure Shows (registers : TextRegisters) (decoder : TextDecoder) : Prop where
  charset : registers.charset = decoder.charset
  received : registers.received = decoder.pendingBytes
  count : registers.count = decoder.pendingBytes.length
  high : registers.high = decoder.highSurrogate.getD 0

/-- A byte did to the registers what it does to the decoder. -/
inductive Follows (text : Bytes) :
    TextDecoder × Option Bytes → Except Failure (Decoded TextRegisters) → Prop where
  | goesOn {next : TextRegisters} {decoder : TextDecoder} {more : Bytes}
      (shown : next.Shows decoder) :
      Follows text (decoder, some more) (.ok ⟨next, text ++ more, none⟩)
  | refuses {next : TextRegisters} {decoder : TextDecoder} (shown : next.Shows decoder) :
      Follows text (decoder, none) (.ok ⟨next, text, some .invalidCharacter⟩)

variable {registers text byte} {decoder : TextDecoder}

/-- A byte that completes no character adds nothing to the text. -/
theorem Follows.silent {next : TextRegisters} (shown : next.Shows decoder) :
    Follows text (decoder, some []) (.ok ⟨next, text, none⟩) := by
  have follows : Follows text (decoder, some []) (.ok ⟨next, text ++ [], none⟩) := .goesOn shown
  rwa [List.append_nil] at follows

theorem shows_ofCharset (charset : Charset) :
    (ofCharset charset).Shows (.ofCharset charset) where
  charset := (TextDecoder.charset_ofCharset charset).symm
  received := by cases charset <;> rfl
  count := by cases charset <;> rfl
  high := by cases charset <;> rfl

theorem write_eq {number : UInt32} {codePoint : Nat} (value : number.toNat = codePoint)
    (within : codePoint ≤ Utf8.lastCodePoint) :
    write text number = .ok (text ++ Utf8.encode codePoint) := by
  subst value
  unfold write Utf8.encode?
  rw [if_neg (Nat.not_lt.2 within)]
  rfl

/-- There is room for a byte behind three. -/
theorem push_eq (room : registers.count < 4) (byte : UInt8) :
    ∃ next, registers.push byte = .ok next ∧ next.charset = registers.charset ∧
      next.received = registers.received ++ [byte] ∧ next.count = registers.count + 1 ∧
      next.high = registers.high := by
  refine ⟨_, dif_pos room, rfl, ?_, rfl, rfl⟩
  have inside : registers.count < registers.pending.toList.length := by
    rw [Vector.length_toList]
    exact room
  unfold received
  dsimp only
  rw [Vector.toList_set, List.take_add_one, List.take_set_of_le (Nat.le_refl _),
    List.getElem?_set_self inside]
  rfl

/-- The first byte that has been received is in the first place. -/
theorem first_of_received {lead : UInt8} {rest : Bytes}
    (received : registers.received = lead :: rest) : registers.first = lead := by
  have front : registers.received[0]? = some lead := by rw [received]; rfl
  unfold TextRegisters.received at front
  rw [List.getElem?_take] at front
  split at front
  · rwa [Vector.getElem?_toList, Vector.getElem?_eq_getElem (Nat.zero_lt_succ 3),
      Option.some_inj] at front
  · cases front

/-! ### The step of a byte -/

theorem encode_of_lt (ascii : byte < 0x80) : Utf8.encode byte.toNat = [byte] := by
  have small : byte.toNat < 0x80 := UInt8.lt_iff_toNat_lt.1 ascii
  unfold Utf8.encode
  rw [if_pos small, UInt8.ofNat_toNat]

/-- Every byte from `80` on has a place in the table or is a code point. -/
theorem windows1252_eq (high : ¬ byte < 0x80) :
    ∃ number, windows1252 byte = .ok number ∧ number.toNat = SingleByte.windows1252 byte := by
  have above : 0x80 ≤ byte.toNat := UInt8.le_iff_toNat_le.1 (UInt8.not_lt.1 high)
  have below_iff : byte < 0xA0 ↔ byte.toNat < 0xA0 := UInt8.lt_iff_toNat_lt
  unfold windows1252
  rcases TextDecoder.windows1252_cases byte with ⟨outside, value⟩ | ⟨-, small, found⟩
  · rw [if_neg (by rw [below_iff]; omega), value]
    exact ⟨_, rfl, UInt8.toNat_toUInt32 byte⟩
  · have fits : ∀ number ∈ SingleByte.windows1252High, number < 2 ^ 32 := by decide
    rw [if_pos (below_iff.2 small), found]
    exact ⟨_, rfl, UInt32.toNat_ofNat_of_lt (fits _ (List.mem_of_getElem? found))⟩

theorem follows_usAscii (shown : registers.Shows .usAscii) (text : Bytes) (byte : UInt8) :
    Follows text (TextDecoder.usAscii.step byte) (stepSingleByte registers text byte) := by
  show Follows text (.usAscii, (SingleByte.ascii? byte).map Utf8.encode) _
  unfold stepSingleByte SingleByte.ascii?
  split
  · rename_i ascii
    rw [Option.map_some, encode_of_lt ascii]
    exact .goesOn shown
  · rw [shown.charset]
    exact .refuses shown

theorem follows_iso88591 (shown : registers.Shows .iso88591) (text : Bytes) (byte : UInt8) :
    Follows text (TextDecoder.iso88591.step byte) (stepSingleByte registers text byte) := by
  have small := byte.toNat_lt
  show Follows text (.iso88591, some (Utf8.encode byte.toNat)) _
  unfold stepSingleByte
  split
  · rename_i ascii
    rw [encode_of_lt ascii]
    exact .goesOn shown
  · rw [shown.charset]
    dsimp only [TextDecoder.charset]
    rw [write_eq (UInt8.toNat_toUInt32 byte) (by unfold Utf8.lastCodePoint; omega)]
    exact .goesOn shown

theorem follows_windows1252 (shown : registers.Shows .windows1252) (text : Bytes) (byte : UInt8) :
    Follows text (TextDecoder.windows1252.step byte) (stepSingleByte registers text byte) := by
  show Follows text (.windows1252, some (Utf8.encode (SingleByte.windows1252 byte))) _
  unfold stepSingleByte
  split
  · rename_i ascii
    have below : ¬ (0x80 ≤ byte ∧ byte < 0xA0) := fun both => UInt8.not_lt.2 both.1 ascii
    have value : SingleByte.windows1252 byte = byte.toNat := if_neg below
    rw [value, encode_of_lt ascii]
    exact .goesOn shown
  · rename_i high
    obtain ⟨number, found, value⟩ := windows1252_eq high
    have below := TextDecoder.windows1252_lt byte
    rw [shown.charset]
    dsimp only [TextDecoder.charset]
    rw [found]
    show Follows text _ (write text number >>= _)
    rw [write_eq value (by unfold Utf8.lastCodePoint; omega)]
    exact .goesOn shown

theorem follows_utf8_start (shown : registers.Shows (.utf8 [])) (text : Bytes) (byte : UInt8) :
    Follows text (TextDecoder.stepUtf8 [] byte) (stepUtf8 registers text byte) := by
  obtain ⟨charset, received, count, high⟩ := shown
  obtain ⟨next, pushed, charset', received', count', high'⟩ :=
    push_eq (show registers.count < 4 by rw [count]; decide) byte
  unfold TextDecoder.stepUtf8 stepUtf8
  rw [if_pos (show registers.count = 0 from count), pushed]
  rcases Utf8.sequenceLength byte with _ | _ | more
  · exact .refuses ⟨charset, received, count, high⟩
  · exact .goesOn ⟨charset, received, count, high⟩
  · refine .silent ⟨charset'.trans charset, ?_, ?_, high'.trans high⟩
    · rw [received', received]
      rfl
    · rw [count', count]
      rfl

theorem follows_utf8_later {lead : UInt8} {rest : Bytes}
    (incomplete : rest.length + 1 < Utf8.sequenceLength lead)
    (shown : registers.Shows (.utf8 (lead :: rest))) (text : Bytes) (byte : UInt8) :
    Follows text (TextDecoder.stepUtf8 (lead :: rest) byte) (stepUtf8 registers text byte) := by
  have announced := Utf8.sequenceLength_le lead
  obtain ⟨charset, received, count, high⟩ := shown
  have count : registers.count = rest.length + 1 := count
  obtain ⟨next, pushed, charset', received', count', high'⟩ :=
    push_eq (show registers.count < 4 by omega) byte
  have received' : next.received = lead :: (rest ++ [byte]) := by
    rw [received', received]
    rfl
  have length : (lead :: (rest ++ [byte])).length = next.count := by
    rw [count', count, List.length_cons, List.length_append]
    rfl
  unfold TextDecoder.stepUtf8 stepUtf8
  rw [if_neg (by omega), first_of_received received, count, pushed]
  dsimp only [List.length_cons, List.cons_append] at length ⊢
  split
  · show Follows text _ (if next.count = Utf8.sequenceLength next.first then _ else _)
    rw [first_of_received received']
    by_cases complete : next.count = Utf8.sequenceLength lead
    · rw [if_pos (length.trans complete), if_pos complete, received']
      exact .goesOn ⟨charset'.trans charset, rfl, rfl, high'.trans high⟩
    · rw [if_neg (length.symm ▸ complete), if_neg complete]
      exact .silent ⟨charset'.trans charset, received', length.symm, high'.trans high⟩
  · exact .refuses ⟨charset, received, count, high⟩

/-- Two surrogates are a code point. -/
theorem toNat_pair {first second : UInt16} (top : Utf16.isHighSurrogate first = true)
    (bottom : Utf16.isLowSurrogate second = true) :
    (pair first second).toNat = Utf16.codePointOf first second ∧
      Utf16.codePointOf first second ≤ Utf8.lastCodePoint := by
  have top := Utf16.isHighSurrogate_iff.1 top
  have bottom := Utf16.isLowSurrogate_iff.1 bottom
  have upper : (first.toUInt32 - 0xD800).toNat = first.toNat - 0xD800 :=
    UInt32.toNat_sub_of_le _ _ (UInt32.le_iff_toNat_le.2 top.1)
  have lower : (second.toUInt32 - 0xDC00).toNat = second.toNat - 0xDC00 :=
    UInt32.toNat_sub_of_le _ _ (UInt32.le_iff_toNat_le.2 bottom.1)
  have shifted : ((first.toUInt32 - 0xD800) <<< 10).toNat = 0x400 * (first.toNat - 0xD800) := by
    have ten : (10 : UInt32).toNat % 32 = 10 := rfl
    rw [UInt32.toNat_shiftLeft, upper, ten, Nat.shiftLeft_eq]
    omega
  have base : (0x10000 : UInt32).toNat = 0x10000 := rfl
  unfold pair Utf16.codePointOf Utf8.lastCodePoint
  rw [UInt32.toNat_add, UInt32.toNat_add, shifted, lower, base]
  omega

theorem follows_unit {high : Option UInt16}
    (surrogate : ∀ unit, high = some unit → Utf16.isHighSurrogate unit = true)
    (shown : registers.Shows (.utf16le none high)) (text : Bytes) (unit : UInt16) :
    Follows text (TextDecoder.stepUnit high unit) (stepUnit registers text unit) := by
  obtain ⟨charset, received, count, waits⟩ := shown
  have small := unit.toNat_lt
  unfold TextDecoder.stepUnit stepUnit
  cases high with
  | some first =>
    have top := surrogate first rfl
    have waits : registers.high = first := waits
    have some : registers.high ≠ 0 := by
      rw [waits]
      rintro rfl
      cases top
    rw [if_pos some, waits]
    dsimp only
    by_cases bottom : Utf16.isLowSurrogate unit = true
    · obtain ⟨value, within⟩ := toNat_pair top bottom
      rw [if_pos bottom, if_pos bottom, write_eq value within]
      exact .goesOn ⟨charset, received, count, rfl⟩
    · rw [if_neg bottom, if_neg bottom]
      exact .refuses ⟨charset, received, count, waits⟩
  | none =>
    have waits : registers.high = 0 := waits
    rw [if_neg (not_not_intro waits)]
    dsimp only
    by_cases top : Utf16.isHighSurrogate unit = true
    · rw [if_pos top, if_pos top]
      exact .silent ⟨charset, received, count, rfl⟩
    · rw [if_neg top, if_neg top]
      by_cases bottom : Utf16.isLowSurrogate unit = true
      · rw [if_pos bottom, if_pos bottom]
        exact .refuses ⟨charset, received, count, waits⟩
      · rw [if_neg bottom, if_neg bottom,
          write_eq (UInt16.toNat_toUInt32 unit) (by unfold Utf8.lastCodePoint; omega)]
        exact .goesOn ⟨charset, received, count, waits⟩

theorem follows_utf16 {pending : Option UInt8} {high : Option UInt16}
    (surrogate : ∀ unit, high = some unit → Utf16.isHighSurrogate unit = true)
    (shown : registers.Shows (.utf16le pending high)) (text : Bytes) (byte : UInt8) :
    Follows text ((TextDecoder.utf16le pending high).step byte)
      (stepUtf16 registers text byte) := by
  obtain ⟨charset, received, count, waits⟩ := shown
  unfold stepUtf16
  cases pending with
  | none =>
    have count : registers.count = 0 := count
    obtain ⟨next, pushed, charset', received', count', high'⟩ :=
      push_eq (show registers.count < 4 by rw [count]; decide) byte
    rw [if_pos count, pushed]
    refine .silent ⟨charset'.trans charset, ?_, ?_, high'.trans waits⟩
    · rw [received', received]
      rfl
    · rw [count', count]
      rfl
  | some low =>
    rw [if_neg (by rw [count]; exact Nat.one_ne_zero), first_of_received received]
    have cleared : ({ registers with count := 0 } : TextRegisters).Shows (.utf16le none high) :=
      ⟨charset, rfl, rfl, waits⟩
    exact follows_unit surrogate cleared text _

/-- A byte does to the registers of a decoder what it does to the decoder. -/
theorem Shows.follows (shown : registers.Shows decoder) (sound : decoder.Sound) (text : Bytes)
    (byte : UInt8) :
    Follows text (decoder.step byte) (stepOf registers.charset registers text byte) := by
  rw [shown.charset]
  cases sound with
  | usAscii => exact follows_usAscii shown text byte
  | iso88591 => exact follows_iso88591 shown text byte
  | windows1252 => exact follows_windows1252 shown text byte
  | utf8Start => exact follows_utf8_start shown text byte
  | utf8 incomplete _ => exact follows_utf8_later incomplete shown text byte
  | utf16le surrogate => exact follows_utf16 surrogate shown text byte

/-! ### Chunks -/

/-- Decoding a chunk fails no check and does what the decoder does. -/
theorem Shows.decode (shown : registers.Shows decoder) (sound : decoder.Sound)
    (text chunk : Bytes) :
    ∃ next, next.Shows (decoder.decode chunk).decoder ∧
      registers.decode text chunk =
        .ok ⟨next, text ++ (decoder.decode chunk).output, (decoder.decode chunk).error⟩ := by
  unfold TextRegisters.decode
  induction chunk generalizing registers decoder text with
  | nil =>
    refine ⟨registers, shown, ?_⟩
    rw [TextDecoder.decode_nil, List.append_nil]
    rfl
  | cons byte rest inductionHypothesis =>
    have follows := shown.follows sound text byte
    have keeps := (sound.takes byte).keeps
    rw [TextDecoder.decode_cons]
    unfold loop
    generalize decoder.step byte = read at follows keeps
    generalize stepOf registers.charset registers text byte = taken at follows
    cases follows with
    | refuses shown' =>
      refine ⟨_, shown', ?_⟩
      dsimp only
      rw [List.append_nil]
      rfl
    | @goesOn next after more shown' =>
      have same : registers.charset = next.charset :=
        shown.charset.trans (keeps.2.symm.trans shown'.charset.symm)
      obtain ⟨last, shown'', decoded⟩ := inductionHypothesis shown' keeps.1 (text ++ more)
      refine ⟨last, shown'', ?_⟩
      rw [same]
      refine decoded.trans ?_
      dsimp only
      rw [List.append_assoc]

/-- The verdict at the end is that of the decoder. -/
theorem Shows.finish (shown : registers.Shows decoder) (sound : decoder.Sound) :
    registers.finish = decoder.finish := by
  have nothing : registers.count = 0 ↔ decoder.pendingBytes = [] := by
    rw [shown.count, List.length_eq_zero_iff]
  have alone : registers.high = 0 ↔ decoder.highSurrogate = none := by
    rw [shown.high]
    cases sound with
    | usAscii | iso88591 | windows1252 | utf8Start | utf8 => exact ⟨fun _ => rfl, fun _ => rfl⟩
    | @utf16le pending high surrogate =>
      cases high with
      | none => exact ⟨fun _ => rfl, fun _ => rfl⟩
      | some unit =>
        refine ⟨fun zero => ?_, nofun⟩
        have top := surrogate unit rfl
        rw [show unit = 0 from zero] at top
        cases top
  unfold TextRegisters.finish TextDecoder.finish
  split
  · rename_i left
    exact (if_neg fun ends => left.elim (· (nothing.2 ends.1)) (· (alone.2 ends.2))).symm
  · rename_i left
    obtain ⟨none, zero⟩ := not_or.1 left
    exact (if_pos ⟨nothing.1 (Decidable.not_not.1 none), alone.1 (Decidable.not_not.1 zero)⟩).symm

/-- Calls fail no check, whatever they were given. -/
theorem Shows.after (shown : registers.Shows decoder) (sound : decoder.Sound)
    (calls : List (Bytes × Bytes)) :
    ∃ next, registers.after calls = .ok next ∧
      next.Shows (decoder.after (calls.map Prod.snd)) := by
  induction calls generalizing registers decoder with
  | nil => exact ⟨registers, rfl, shown⟩
  | cons call calls inductionHypothesis =>
    obtain ⟨text, chunk⟩ := call
    obtain ⟨next, shown', decoded⟩ := shown.decode sound text chunk
    unfold TextRegisters.after
    rw [decoded]
    exact inductionHypothesis shown' (sound.decodes chunk).keeps.1

/-! ### Two chunks -/

/-- The loop over two pieces goes on behind the first one where it left off. -/
theorem loop_append (step : Step) (registers : TextRegisters) (text front back : Bytes) :
    loop step registers text (front ++ back) =
      (loop step registers text front >>= fun first =>
        match first.error with
        | some _ => .ok first
        | none => loop step first.decoder first.output back) := by
  induction front generalizing registers text with
  | nil => rfl
  | cons byte rest inductionHypothesis =>
    rw [List.cons_append, loop, loop]
    rcases step registers text byte with failure | ⟨next, text', _ | error⟩
    · rfl
    · exact inductionHypothesis next text'
    · rfl

/-- The registers behind a chunk are all that the next one needs. -/
theorem Shows.decodeBoth (shown : registers.Shows decoder) (sound : decoder.Sound)
    (text front back : Bytes) :
    registers.decodeBoth text front back = registers.decode text (front ++ back) := by
  obtain ⟨next, shown', decoded⟩ := shown.decode sound text front
  have same : next.charset = registers.charset :=
    shown'.charset.trans ((sound.decodes front).keeps.2.trans shown.charset.symm)
  have whole := loop_append (stepOf registers.charset) registers text front back
  unfold TextRegisters.decodeBoth
  unfold TextRegisters.decode at decoded whole ⊢
  rw [decoded] at whole ⊢
  rw [whole, ← same]
  rfl

end TextRegisters

/-- Decode two chunks, the second only if the first one is without an error. -/
def TextDecoder.decodeBoth (decoder : TextDecoder) (front back : Bytes) : Decoded TextDecoder :=
  let first := decoder.decode front
  match first.error with
  | some _ => first
  | none =>
    let second := first.decoder.decode back
    { second with output := first.output ++ second.output }

/-- Decoding goes through chunks like a homomorphism. From every state that calls lead to, those
that failed included, one call for two pieces does what a call for each of them does, the second one
only if the first one is without an error: the decoder, the text and the error are the same, and
so is the verdict at the end. The registers agree in every bit, and no check fails on the way. -/
theorem chunked_decoding_homomorphism (charset : Charset) (earlier : List (Bytes × Bytes))
    (text front back : Bytes) :
    let decoder := (TextDecoder.ofCharset charset).after (earlier.map Prod.snd)
    let decoded := decoder.decode (front ++ back)
    decoded = decoder.decodeBoth front back ∧
      ∃ registers whole,
        (TextRegisters.ofCharset charset).after earlier = .ok registers ∧
        registers.decode text (front ++ back) = .ok whole ∧
        registers.decodeBoth text front back = .ok whole ∧
        whole.output = text ++ decoded.output ∧ whole.error = decoded.error ∧
        whole.decoder.received = decoded.decoder.pendingBytes ∧
        whole.decoder.high = decoded.decoder.highSurrogate.getD 0 ∧
        whole.decoder.finish = (decoder.decodeBoth front back).decoder.finish := by
  intro decoder decoded
  have sound : decoder.Sound :=
    ((TextDecoder.sound_ofCharset charset).keeps_after (earlier.map Prod.snd)).1
  have same : decoded = decoder.decodeBoth front back := by
    refine (decoder.decode_append front back).trans ?_
    unfold TextDecoder.decodeBoth
    rcases decoder.decode front with ⟨next, output, _ | error⟩
    · rfl
    · rfl
  obtain ⟨registers, reached, shown⟩ :=
    (TextRegisters.shows_ofCharset charset).after (TextDecoder.sound_ofCharset charset) earlier
  obtain ⟨next, shown', whole⟩ := shown.decode sound text (front ++ back)
  have verdict := shown'.finish (sound.decodes (front ++ back)).keeps.1
  refine ⟨same, registers, _, reached, whole, ?_, rfl, rfl, shown'.received, shown'.high, ?_⟩
  · rw [shown.decodeBoth sound, whole]
  · rw [← same]
    exact verdict

end TabularStream
