/-
This file describes the columns of a result set: the type that the server declares for a column,
the way in which the lengths of its values are written on the wire, and the character set of its
text. The three enumerations are numbered in the order in which their members are listed; a number
past the end has no member and is described by a text of its own.
-/

namespace TabularStream

/-! ### Server types -/

/-- The data types of the server. Types with unlimited length are told apart from their limited
counterparts. -/
inductive ServerType where
  | tinyint | smallint | int | bigint | intN | bit | bitN | float | floatN | guid | decimal
  | date | datetime2 | char | varchar | varcharMax | nchar | nvarchar | nvarcharMax
  | text | ntext | xml | binary | varbinary | varbinaryMax | image
  deriving DecidableEq, Repr

namespace ServerType

/-- Every server type, in the order of their numbers. -/
def all : List ServerType :=
  [tinyint, smallint, int, bigint, intN, bit, bitN, float, floatN, guid, decimal, date,
    datetime2, char, varchar, varcharMax, nchar, nvarchar, nvarcharMax, text, ntext, xml,
    binary, varbinary, varbinaryMax, image]

/-- The server type with the given number, if there is one. -/
def ofCode? (number : Nat) : Option ServerType := all[number]?

/-- The name of a server type. -/
def name : ServerType → String
  | tinyint => "tinyint"
  | smallint => "smallint"
  | int => "int"
  | bigint => "bigint"
  | intN => "intn"
  | bit => "bit"
  | bitN => "bitn"
  | float => "float"
  | floatN => "floatn"
  | guid => "uniqueidentifier"
  | decimal => "decimal"
  | date => "date"
  | datetime2 => "datetime2"
  | char => "char"
  | varchar => "varchar"
  | varcharMax => "varchar(max)"
  | nchar => "nchar"
  | nvarchar => "nvarchar"
  | nvarcharMax => "nvarchar(max)"
  | text => "text"
  | ntext => "ntext"
  | xml => "xml"
  | binary => "binary"
  | varbinary => "varbinary"
  | varbinaryMax => "varbinary(max)"
  | image => "image"

/-- The name of the server type with the given number, also when there is none. -/
def describe (number : Nat) : String :=
  ((ofCode? number).map name).getD "<unknown sql_server_type>"

/-- Do values of the type hold text? -/
def isCharacter : ServerType → Bool
  | char | varchar | varcharMax | nchar | nvarchar | nvarcharMax | text | ntext | xml => true
  | _ => false

/-- Do values of the type hold uninterpreted bytes? -/
def isBinary : ServerType → Bool
  | binary | varbinary | varbinaryMax | image => true
  | _ => false

end ServerType

/-! ### Length strategies -/

/-- How the length of a value is written in a row. -/
inductive LengthStrategy where
  /-- No length is written: a value has the length of its column and is never NULL. -/
  | fixed
  /-- One byte, 0 for NULL. -/
  | byte
  /-- Two bytes, `FFFF` for NULL. -/
  | ushort
  /-- Four bytes, `FFFFFFFF` for NULL. -/
  | long
  /-- Partially length-prefixed (PLP): an eight-byte total and then chunks, each with a
  four-byte length of its own. -/
  | part
  deriving DecidableEq, Repr

namespace LengthStrategy

/-- Every length strategy, in the order of their numbers. -/
def all : List LengthStrategy := [fixed, byte, ushort, long, part]

/-- The length strategy with the given number, if there is one. -/
def ofCode? (number : Nat) : Option LengthStrategy := all[number]?

/-- The name of a length strategy. -/
def name : LengthStrategy → String
  | fixed => "FIXEDLENTYPE"
  | byte => "BYTELENTYPE"
  | ushort => "USHORTLENTYPE"
  | long => "LONGLENTYPE"
  | part => "PARTLENTYPE"

/-- The name of the length strategy with the given number, also when there is none. -/
def describe (number : Nat) : String :=
  ((ofCode? number).map name).getD "<unknown length_strategy>"

/-- The number of bytes of a length descriptor. For PLP values, that of a chunk header. -/
def descriptorSize : LengthStrategy → Nat
  | fixed => 0
  | byte => 1
  | ushort => 2
  | long => 4
  | part => 4

/-- The descriptor, read as a number, that stands for NULL. -/
def nullMarker? : LengthStrategy → Option Nat
  | fixed => none
  | byte => some 0
  | ushort => some 0xFFFF
  | long => some 0xFFFFFFFF
  | part => none

end LengthStrategy

/-! ### Character sets -/

/-- The character sets that text columns may use. -/
inductive Charset where
  | usAscii | iso88591 | windows1252 | utf8 | utf16le
  deriving DecidableEq, Repr

namespace Charset

/-- Every character set, in the order of their numbers. -/
def all : List Charset := [usAscii, iso88591, windows1252, utf8, utf16le]

/-- The character set with the given number, if there is one. -/
def ofCode? (number : Nat) : Option Charset := all[number]?

/-- The name of a character set. -/
def name : Charset → String
  | usAscii => "US-ASCII"
  | iso88591 => "ISO-8859-1"
  | windows1252 => "windows-1252"
  | utf8 => "UTF-8"
  | utf16le => "UTF-16LE"

/-- The name of the character set with the given number, also when there is none. -/
def describe (number : Nat) : String :=
  ((ofCode? number).map name).getD "<unknown charset>"

end Charset

/-! ### Columns -/

/-- What the server declares about a column. -/
structure ColumnType where
  serverType : ServerType
  strategy : LengthStrategy
  /-- The greatest length of a value, and the length of every value of a fixed-length column. -/
  maxLength : UInt32
  charset : Charset
  precision : UInt8 := 0
  scale : UInt8 := 0
  deriving DecidableEq, Repr

namespace ColumnType

/-- Are the values of the column written as a total and a sequence of chunks? -/
def isPlp (type : ColumnType) : Bool := type.strategy == .part

/-- Can the values of the column be read as text? -/
def isCharacter (type : ColumnType) : Bool := type.serverType.isCharacter

/-- Can the values of the column be read as bytes? -/
def isBinary (type : ColumnType) : Bool := type.serverType.isBinary

/-- The number of bytes of the length descriptor of a value of the column. -/
def descriptorSize (type : ColumnType) : Nat := type.strategy.descriptorSize

theorem descriptorSize_le (type : ColumnType) : type.descriptorSize ≤ 4 := by
  unfold descriptorSize
  cases type.strategy <;> decide

end ColumnType

end TabularStream
