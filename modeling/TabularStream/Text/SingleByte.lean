/-
This file holds the character sets in which every byte is a character of its own. Below `80` all
of them agree with ASCII. Above, ASCII has no characters, ISO-8859-1 maps each byte to the code
point of the same number, and windows-1252 differs from that in `80` to `9F` only.
-/

import TabularStream.Bytes

namespace TabularStream.SingleByte

/-- The code points of the windows-1252 bytes `80` to `9F`. Positions without a character keep
the control character of the same number. -/
def windows1252High : List Nat :=
  [0x20AC, 0x0081, 0x201A, 0x0192, 0x201E, 0x2026, 0x2020, 0x2021,
    0x02C6, 0x2030, 0x0160, 0x2039, 0x0152, 0x008D, 0x017D, 0x008F,
    0x0090, 0x2018, 0x2019, 0x201C, 0x201D, 0x2022, 0x2013, 0x2014,
    0x02DC, 0x2122, 0x0161, 0x203A, 0x0153, 0x009D, 0x017E, 0x0178]

/-- The code point of a byte in ASCII. -/
def ascii? (byte : UInt8) : Option Nat :=
  if byte < 0x80 then some byte.toNat else none

/-- The code point of a byte in ISO-8859-1. -/
def iso88591 (byte : UInt8) : Nat := byte.toNat

/-- The code point of a byte in windows-1252. -/
def windows1252 (byte : UInt8) : Nat :=
  if 0x80 ≤ byte ∧ byte < 0xA0 then windows1252High.getD (byte.toNat - 0x80) byte.toNat
  else byte.toNat

end TabularStream.SingleByte
