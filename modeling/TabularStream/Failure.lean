/-
This file names everything that can go wrong. A `ClientError` is a cause that is reported with a
number and a text: a malformed message, a value that ends too early, a bad setting. A `Failure` is
the outcome of an operation that gives no result: a client error, a precondition that its caller
broke, an index outside its range, or a second use of something that can be used only once.
-/

namespace TabularStream

/-! ### Client errors -/

/-- The causes that are reported with a number and a text. -/
inductive ClientError where
  | incompleteMessage
  | protocolValue
  | extraBytes
  | plpChunkTruncated
  | plpMissingTerminator
  | incompleteCharacter
  | invalidCharacter
  | unexpectedToken
  | decodePreconditionViolated
  | streamCancelled
  | invalidConfigValue
  deriving DecidableEq, Repr

namespace ClientError

/-- The name of the category that the error numbers belong to. -/
def category : String := "nativetds.client"

/-- Every client error, in the order of their numbers. -/
def all : List ClientError :=
  [incompleteMessage, protocolValue, extraBytes, plpChunkTruncated, plpMissingTerminator,
    incompleteCharacter, invalidCharacter, unexpectedToken, decodePreconditionViolated,
    streamCancelled, invalidConfigValue]

/-- The number of a client error. Numbers start at 1, so that 0 can stand for success. -/
def code : ClientError → Nat
  | incompleteMessage => 1
  | protocolValue => 2
  | extraBytes => 3
  | plpChunkTruncated => 4
  | plpMissingTerminator => 5
  | incompleteCharacter => 6
  | invalidCharacter => 7
  | unexpectedToken => 8
  | decodePreconditionViolated => 9
  | streamCancelled => 10
  | invalidConfigValue => 11

/-- The text of a client error. -/
def message : ClientError → String
  | incompleteMessage => "An incomplete message was received from the server"
  | protocolValue => "An unexpected value was found in a server-received message"
  | extraBytes => "Unexpected extra bytes at the end of a message were received"
  | plpChunkTruncated => "A PLP chunk is shorter than the length declared in its header"
  | plpMissingTerminator => "A PLP value ended before its terminator chunk was found"
  | incompleteCharacter => "A text value ended in the middle of a character"
  | invalidCharacter =>
    "A text value contains a byte sequence that is invalid in its character set"
  | unexpectedToken => "A token that can't appear at this point was received"
  | decodePreconditionViolated =>
    "decode() ran out of bytes. Call can_decode() first and only decode if it returned true"
  | streamCancelled => "The large object stream was cancelled"
  | invalidConfigValue => "A configuration string contains an invalid value"

/-- The client error with the given number, if there is one. -/
def ofCode? (number : Int) : Option ClientError :=
  all.find? fun error => (error.code : Int) = number

/-- The text that goes with a number, also when no client error has it. -/
def describe (number : Int) : String :=
  match ofCode? number with
  | some error => error.message
  | none => "<unknown nativetds client error>"

/-- Numbers and client errors correspond one to one. -/
theorem ofCode?_code (error : ClientError) : ofCode? error.code = some error := by
  cases error <;> rfl

end ClientError

/-! ### Failed operations -/

/-- What was asked to be larger than memory allows. -/
inductive Excess where
  /-- A block of memory. -/
  | block
  /-- The room that is set aside before it is filled. -/
  | reserve
  /-- A string of bytes that outgrows the room set aside for it. -/
  | growth
  /-- A sequence that is made in one piece. -/
  | sequence
  deriving DecidableEq, Repr

/-- Why an operation gave no result. -/
inductive Failure where
  /-- The caller broke a precondition of the operation. -/
  | precondition
  /-- The operation ended with a client error. -/
  | client (error : ClientError)
  /-- An index is not below the number of elements. -/
  | outOfRange
  /-- The data of a column was asked for after it had been taken out of its row. -/
  | alreadyTransferred
  /-- The data of a column was asked for after its row had been released. -/
  | rowReleased
  /-- A large object was read for a second time. -/
  | alreadyConsumed
  /-- More memory was asked for than there can be. -/
  | tooLarge (excess : Excess)
  /-- The operation names an object that does not exist. -/
  | unknownHandle
  deriving DecidableEq, Repr

/-- The text of a failure that reports a second use, if it is one. -/
def Failure.usageMessage? : Failure → Option String
  | .alreadyTransferred => some "row_token::take: column data was already transferred"
  | .rowReleased => some "row_token::take: the row has been released"
  | .alreadyConsumed => some "basic_lob::stream: the value was already consumed"
  | _ => none

/-- Steps that succeed one after the other each succeed. -/
theorem bind_inversion {Error Item Item' : Type} {first : Except Error Item}
    {next : Item → Except Error Item'} {result : Item'} (success : first >>= next = .ok result) :
    ∃ item, first = .ok item ∧ next item = .ok result := by
  cases first with
  | error error => cases success
  | ok item => exact ⟨item, rfl, success⟩

end TabularStream
