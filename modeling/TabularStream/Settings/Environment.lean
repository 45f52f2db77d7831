/-
This file expands references to environment variables in a text. A reference is written
`${NAME}`, `$NAME` or `%NAME%`, where a name is a run of ASCII letters, digits and
underscores; after a plain `$` it is as long as possible. A text is cut into literal pieces and
references from left to right, which does not depend on the environment. Expanding replaces each
reference to a variable that is set and leaves the other pieces as they are written, so what a
variable holds is never looked at again.
-/

namespace TabularStream

/-- The variables that are set. -/
abbrev Environment := List Char → Option (List Char)

/-! ### References -/

/-- The ways to write a reference. -/
inductive ReferenceForm where
  | braced
  | plain
  | percent
  deriving DecidableEq, Repr

/-- A reference to a variable. -/
structure Reference where
  form : ReferenceForm
  name : List Char
  deriving DecidableEq, Repr

namespace Reference

/-- Can the character stand in a name? -/
def isNameCharacter (character : Char) : Bool := character.isAlphanum || character == '_'

/-- Names are made of the ASCII letters, the digits and the underscore. -/
theorem isNameCharacter_iff {character : Char} :
    isNameCharacter character = true ↔
      ('A' ≤ character ∧ character ≤ 'Z') ∨ ('a' ≤ character ∧ character ≤ 'z') ∨
        ('0' ≤ character ∧ character ≤ '9') ∨ character = '_' := by
  have capital : character.isUpper = true ↔ 'A' ≤ character ∧ character ≤ 'Z' :=
    decide_eq_true_iff
  have small : character.isLower = true ↔ 'a' ≤ character ∧ character ≤ 'z' :=
    Bool.and_eq_true_iff.trans (and_congr decide_eq_true_iff decide_eq_true_iff)
  have digit : character.isDigit = true ↔ '0' ≤ character ∧ character ≤ '9' :=
    Bool.and_eq_true_iff.trans (and_congr decide_eq_true_iff decide_eq_true_iff)
  show (character.isUpper || character.isLower || character.isDigit || character == '_') = true ↔ _
  rw [Bool.or_eq_true, Bool.or_eq_true, Bool.or_eq_true, capital, small, digit, beq_iff_eq,
    or_assoc, or_assoc]

/-- The text of a reference. -/
def written (reference : Reference) : List Char :=
  match reference.form with
  | .braced => '$' :: '{' :: reference.name ++ ['}']
  | .plain => '$' :: reference.name
  | .percent => '%' :: reference.name ++ ['%']

/-- The name at the front of a text, if there is one, and what follows it. -/
def name? (text : List Char) : Option (List Char × List Char) :=
  match text.takeWhile isNameCharacter with
  | [] => none
  | name => some (name, text.dropWhile isNameCharacter)

/-- The reference of a closed form whose name is at the front of a text, and what follows it. -/
def closed? (form : ReferenceForm) (closing : Char) (text : List Char) :
    Option (Reference × List Char) :=
  match name? text with
  | some (name, last :: rest) => if last = closing then some (⟨form, name⟩, rest) else none
  | _ => none

/-- The reference at the front of a text, and what follows it. -/
def parse? : List Char → Option (Reference × List Char)
  | '$' :: '{' :: text => closed? .braced '}' text
  | '$' :: text => (name? text).map fun (name, rest) => (⟨.plain, name⟩, rest)
  | '%' :: text => closed? .percent '%' text
  | _ => none

theorem eq_append_of_name? {text name rest : List Char} (found : name? text = some (name, rest)) :
    text = name ++ rest := by
  unfold name? at found
  split at found
  · cases found
  · cases found
    exact List.takeWhile_append_dropWhile.symm

theorem eq_append_of_closed? {form : ReferenceForm} {closing : Char} {text rest : List Char}
    {reference : Reference} (found : closed? form closing text = some (reference, rest)) :
    reference.form = form ∧ text = reference.name ++ closing :: rest := by
  unfold closed? at found
  split at found
  · rename_i name last tail split
    split at found
    · rename_i same
      cases found
      exact ⟨rfl, same ▸ eq_append_of_name? split⟩
    · cases found
  · cases found

/-- A reference is read from the text that it is written as. -/
theorem eq_written_append_of_parse? {text rest : List Char} {reference : Reference}
    (found : parse? text = some (reference, rest)) : text = reference.written ++ rest := by
  unfold parse? at found
  split at found
  · obtain ⟨form, rfl⟩ := eq_append_of_closed? found
    simp [written, form]
  · obtain ⟨⟨name, tail⟩, split, same⟩ := Option.map_eq_some_iff.1 found
    cases same
    rw [eq_append_of_name? split]
    simp [written]
  · obtain ⟨form, rfl⟩ := eq_append_of_closed? found
    simp [written, form]
  · cases found

theorem written_ne_nil (reference : Reference) : reference.written ≠ [] := by
  unfold written
  split <;> exact List.cons_ne_nil _ _

theorem length_lt_of_parse? {text rest : List Char} {reference : Reference}
    (found : parse? text = some (reference, rest)) : rest.length < text.length := by
  rw [eq_written_append_of_parse? found, List.length_append]
  have some := List.length_pos_iff.2 reference.written_ne_nil
  omega

end Reference

/-! ### Pieces -/

/-- A piece of a text. -/
inductive Piece where
  | literal (text : List Char)
  | reference (target : Reference)
  deriving DecidableEq, Repr

namespace Piece

/-- The text of a piece. -/
def written : Piece → List Char
  | literal text => text
  | reference target => target.written

/-- The text of a piece in an environment. -/
def expand (environment : Environment) : Piece → List Char
  | literal text => text
  | reference target => (environment target.name).getD target.written

/-- Put a character in front of some pieces, as a part of a literal piece. -/
def consLiteral (character : Char) : List Piece → List Piece
  | literal text :: rest => literal (character :: text) :: rest
  | pieces => literal [character] :: pieces

/-- The pieces of a text. -/
def ofText (text : List Char) : List Piece :=
  match _found : Reference.parse? text with
  | some (target, rest) => reference target :: ofText rest
  | none =>
    match text with
    | [] => []
    | character :: rest => consLiteral character (ofText rest)
termination_by text.length
decreasing_by
  · exact Reference.length_lt_of_parse? _found
  · exact Nat.lt_succ_self _

theorem written_consLiteral (character : Char) (pieces : List Piece) :
    (consLiteral character pieces).flatMap written = character :: pieces.flatMap written := by
  unfold consLiteral
  split <;> simp [written]

theorem ofText_nil : ofText [] = [] := by
  rw [ofText]
  rfl

theorem ofText_reference {text rest : List Char} {target : Reference}
    (found : Reference.parse? text = some (target, rest)) :
    ofText text = reference target :: ofText rest := by
  rw [ofText]
  split
  · rename_i found'
    cases found.symm.trans found'
    rfl
  · rename_i none
    cases found.symm.trans none

theorem ofText_character {character : Char} {text : List Char}
    (none : Reference.parse? (character :: text) = none) :
    ofText (character :: text) = consLiteral character (ofText text) := by
  rw [ofText]
  split
  · rename_i found
    cases none.symm.trans found
  · rfl

theorem expand_consLiteral (environment : Environment) (character : Char) (pieces : List Piece) :
    (consLiteral character pieces).flatMap (expand environment) =
      character :: pieces.flatMap (expand environment) := by
  unfold consLiteral
  split <;> rfl

/-- The pieces of a text make up the text. -/
theorem written_ofText (text : List Char) : (ofText text).flatMap written = text := by
  fun_induction ofText text with
  | case1 text target rest found inductionHypothesis =>
    rw [List.flatMap_cons, inductionHypothesis, Reference.eq_written_append_of_parse? found]
    rfl
  | case2 => rfl
  | case3 character rest _ inductionHypothesis =>
    rw [written_consLiteral, inductionHypothesis]

end Piece

/-! ### Expanding -/

/-- The text with every reference to a variable that is set replaced by what it holds. -/
def Environment.expand (environment : Environment) (text : List Char) : List Char :=
  (Piece.ofText text).flatMap (Piece.expand environment)

namespace Environment

variable (environment : Environment)

theorem expand_nil : environment.expand [] = [] := by
  rw [expand, Piece.ofText_nil]
  rfl

theorem expand_reference {text rest : List Char} {target : Reference}
    (found : Reference.parse? text = some (target, rest)) :
    environment.expand text =
      (environment target.name).getD target.written ++ environment.expand rest := by
  rw [expand, Piece.ofText_reference found]
  rfl

theorem expand_character {character : Char} {text : List Char}
    (none : Reference.parse? (character :: text) = none) :
    environment.expand (character :: text) = character :: environment.expand text := by
  rw [expand, Piece.ofText_character none]
  exact Piece.expand_consLiteral environment character _

end Environment

end TabularStream
