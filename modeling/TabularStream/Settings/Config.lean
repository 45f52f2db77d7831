/-
This file reads the configuration of pools and streams from settings. Every value is a number in
decimal digits below `2^64`, and for the size of a block at least 1. Settings with other names are
ignored, and a field without a setting keeps its value. When a value cannot be used the whole
configuration stays as it was.
-/

import TabularStream.Failure
import TabularStream.LargeObject.Stream
import TabularStream.Pool
import TabularStream.Settings.Pairs

namespace TabularStream

/-! ### Numbers -/

/-- The number that decimal digits stand for. -/
def ofDigits (digits : List Char) : Nat :=
  digits.foldl (fun number digit => 10 * number + (digit.toNat - '0'.toNat)) 0

/-- The size that a text stands for, if it is one and not below the minimum. -/
def parseSize (minimum : Nat) (text : List Char) : Except ClientError UInt64 :=
  if text ≠ [] ∧ text.all Char.isDigit ∧ minimum ≤ ofDigits text ∧ ofDigits text < Word.modulus then
    .ok (UInt64.ofNat (ofDigits text))
  else .error .invalidConfigValue

/-- The size that is set under a name, or the given one if there is no such setting. -/
def Setting.sizeOr (settings : List Setting) (name : String) (minimum : Nat) (current : UInt64) :
    Except ClientError UInt64 :=
  match find? settings name.toList with
  | some value => parseSize minimum value
  | none => .ok current

/-! ### Configurations -/

/-- The delimiter between the settings of a configuration. -/
def configDelimiter : Char := ';'

/-- The configuration of a pool with the settings of a text applied. -/
def PoolConfig.parse (environment : Environment) (text : List Char) (config : PoolConfig) :
    Except ClientError PoolConfig := do
  let settings := Setting.parse environment configDelimiter text
  let blockSize ← Setting.sizeOr settings "BlockSize" 1 config.blockSize
  let maxPooledBlocks ← Setting.sizeOr settings "MaxPooledBlocks" 0 config.maxPooledBlocks
  return { blockSize, maxPooledBlocks }

/-- The configuration of a stream with the settings of a text applied. -/
def StreamConfig.parse (environment : Environment) (text : List Char) (config : StreamConfig) :
    Except ClientError StreamConfig := do
  let settings := Setting.parse environment configDelimiter text
  let initialDemand ← Setting.sizeOr settings "InitialDemand" 0 config.initialDemand
  return { initialDemand }

end TabularStream
