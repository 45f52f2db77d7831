/-
This file holds the UTF-16 encoding form, little-endian: a code point below U+10000 is one 16-bit
unit, any other is a high surrogate followed by a low one. The surrogates themselves are no
characters, so a unit is either a character or one half of a pair.
-/

import TabularStream.Bytes

namespace TabularStream.Utf16

/-! ### Units -/

/-- Is the unit the first half of a pair? -/
def isHighSurrogate (unit : UInt16) : Bool := 0xD800 ≤ unit && unit ≤ 0xDBFF

/-- Is the unit the second half of a pair? -/
def isLowSurrogate (unit : UInt16) : Bool := 0xDC00 ≤ unit && unit ≤ 0xDFFF

/-- The unit whose bytes, low one first, are the given ones. -/
def unitOf (low high : UInt8) : UInt16 := UInt16.ofNat (low.toNat + 0x100 * high.toNat)

/-- The code point of a surrogate pair. -/
def codePointOf (high low : UInt16) : Nat :=
  0x10000 + 0x400 * (high.toNat - 0xD800) + (low.toNat - 0xDC00)

/-! ### Writing -/

/-- The bytes of a code point up to U+10FFFF. -/
def encode (codePoint : Nat) : Bytes :=
  if codePoint < 0x10000 then littleEndian 2 codePoint
  else
    littleEndian 2 (0xD800 + (codePoint - 0x10000) / 0x400) ++
      littleEndian 2 (0xDC00 + (codePoint - 0x10000) % 0x400)

/-- The bytes of a text. -/
def encodeAll (characters : List Char) : Bytes :=
  characters.flatMap fun character => encode character.toNat

end TabularStream.Utf16
