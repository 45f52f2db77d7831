/-
This file holds the UTF-8 encoding form: how a code point is laid out in one to four bytes, which
bytes can start a character, and which bytes can follow. The restrictions on the second byte are
those that rule out overlong forms, surrogates and code points past U+10FFFF, so a byte sequence
that satisfies them is the encoding of exactly one character.
-/

import TabularStream.Bytes
import TabularStream.Failure

namespace TabularStream.Utf8

/-! ### Writing -/

/-- The last code point. -/
def lastCodePoint : Nat := 0x10FFFF

/-- The bytes of a code point up to U+10FFFF. Surrogates are laid out like their neighbours, in
three bytes. -/
def encode (codePoint : Nat) : Bytes :=
  if codePoint < 0x80 then [UInt8.ofNat codePoint]
  else if codePoint < 0x800 then
    [UInt8.ofNat (0xC0 + codePoint / 0x40), UInt8.ofNat (0x80 + codePoint % 0x40)]
  else if codePoint < 0x10000 then
    [UInt8.ofNat (0xE0 + codePoint / 0x1000), UInt8.ofNat (0x80 + codePoint / 0x40 % 0x40),
      UInt8.ofNat (0x80 + codePoint % 0x40)]
  else
    [UInt8.ofNat (0xF0 + codePoint / 0x40000), UInt8.ofNat (0x80 + codePoint / 0x1000 % 0x40),
      UInt8.ofNat (0x80 + codePoint / 0x40 % 0x40), UInt8.ofNat (0x80 + codePoint % 0x40)]

/-- The bytes of any 32-bit number that is a code point. -/
def encode? (number : UInt32) : Except Failure Bytes :=
  if lastCodePoint < number.toNat then .error .precondition else .ok (encode number.toNat)

/-- The bytes of a text. -/
def encodeAll (characters : List Char) : Bytes :=
  characters.flatMap fun character => encode character.toNat

theorem encodeAll_append (front back : List Char) :
    encodeAll (front ++ back) = encodeAll front ++ encodeAll back :=
  List.flatMap_append

/-! ### Reading -/

/-- The number of bytes of the character that starts with the given byte, 0 if none does. -/
def sequenceLength (lead : UInt8) : Nat :=
  if lead < 0x80 then 1
  else if 0xC2 ≤ lead ∧ lead ≤ 0xDF then 2
  else if 0xE0 ≤ lead ∧ lead ≤ 0xEF then 3
  else if 0xF0 ≤ lead ∧ lead ≤ 0xF4 then 4
  else 0

/-- Can the byte stand at the given position, 1 or more, of a character that starts with
`lead`? -/
def isContinuation (lead : UInt8) (position : Nat) (byte : UInt8) : Bool :=
  if byte < 0x80 ∨ 0xBF < byte then false
  else if position ≠ 1 then true
  else if lead = 0xE0 then 0xA0 ≤ byte
  else if lead = 0xED then byte ≤ 0x9F
  else if lead = 0xF0 then 0x90 ≤ byte
  else if lead = 0xF4 then byte ≤ 0x8F
  else true

end TabularStream.Utf8
