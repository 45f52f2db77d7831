/-
This file proves that the environment has no say in how a text is read. Where the references of a
text are depends on the text alone: `Piece.Cut` says how it is cut, from left to right, and there is
one way to do it, `Piece.cut_iff`. Expanding the text puts a value into the place of a reference
and leaves everything else as it is. A value is never looked at, so it cannot become a part of a
reference, and because settings are told apart before their values are expanded it cannot become a
setting either.

Only ASCII characters are told apart, so nothing here depends on whether a character stands for
itself or for a byte of a text in some encoding.
-/

import TabularStream.Proofs.StepwiseSettings

namespace TabularStream

/-! ### References in a text -/

namespace Reference

variable {target other : Reference} {text rest name : List Char}

/-- A name of a variable: one or more name characters. -/
def IsName (name : List Char) : Prop :=
  name ≠ [] ∧ ∀ character ∈ name, isNameCharacter character = true

/-- A text goes on with something else than a name character, or is at its end. -/
def EndsName (text : List Char) : Prop :=
  ∀ character, text.head? = some character → isNameCharacter character = false

/-- A text starts with a reference. A plain one has all name characters that follow. -/
structure Opens (target : Reference) (text rest : List Char) : Prop where
  isName : IsName target.name
  written : text = target.written ++ rest
  maximal : target.form = .plain → EndsName rest

theorem endsName_cons {character : Char} (outside : isNameCharacter character = false)
    (text : List Char) : EndsName (character :: text) := by
  intro first head
  cases head
  exact outside

/-- The name characters at the front of a text, and the rest. -/
theorem span_name (inside : ∀ character ∈ name, isNameCharacter character = true)
    (ends : EndsName rest) :
    (name ++ rest).takeWhile isNameCharacter = name ∧
      (name ++ rest).dropWhile isNameCharacter = rest := by
  rw [List.takeWhile_append_of_pos inside, List.dropWhile_append_of_pos inside]
  cases rest with
  | nil => exact ⟨List.append_nil name, rfl⟩
  | cons character rest =>
    have outside : ¬ isNameCharacter character = true := by
      rw [ends character rfl]
      exact Bool.false_ne_true
    rw [List.takeWhile_cons_of_neg outside, List.dropWhile_cons_of_neg outside]
    exact ⟨List.append_nil name, rfl⟩

theorem endsName_dropWhile (text : List Char) : EndsName (text.dropWhile isNameCharacter) := by
  intro character head
  have stops := List.head?_dropWhile_not isNameCharacter text
  rwa [head] at stops

theorem name?_eq_some_iff :
    name? text = some (name, rest) ↔ IsName name ∧ text = name ++ rest ∧ EndsName rest := by
  constructor
  · intro found
    refine ⟨?_, eq_append_of_name? found, ?_⟩ <;> unfold name? at found <;> split at found
    · cases found
    · rename_i some
      cases found
      exact ⟨fun empty => some empty, fun character member => List.mem_takeWhile_imp member⟩
    · cases found
    · cases found
      exact endsName_dropWhile text
  · rintro ⟨⟨some, inside⟩, rfl, ends⟩
    obtain ⟨front, back⟩ := span_name inside ends
    unfold name?
    rw [front, back]
    cases name with
    | nil => exact absurd rfl some
    | cons character name => rfl

theorem closed?_eq_some_iff {form : ReferenceForm} {closing : Char}
    (outside : isNameCharacter closing = false) :
    closed? form closing text = some (target, rest) ↔
      target.form = form ∧ IsName target.name ∧ text = target.name ++ closing :: rest := by
  constructor
  · intro found
    obtain ⟨form, split⟩ := eq_append_of_closed? found
    refine ⟨form, ?_, split⟩
    unfold closed? at found
    split at found
    · rename_i parsed
      split at found
      · cases found
        exact (name?_eq_some_iff.1 parsed).1
      · cases found
    · cases found
  · rintro ⟨rfl, isName, rfl⟩
    have parsed : name? (target.name ++ closing :: rest) = some (target.name, closing :: rest) :=
      name?_eq_some_iff.2 ⟨isName, rfl, endsName_cons outside rest⟩
    unfold closed?
    rw [parsed]
    exact if_pos rfl

/-- What is read from a text is the reference that it starts with. -/
theorem parse?_eq_some_iff : parse? text = some (target, rest) ↔ target.Opens text rest := by
  constructor
  · intro found
    have written := eq_written_append_of_parse? found
    unfold parse? at found
    split at found
    · obtain ⟨form, isName, -⟩ := (closed?_eq_some_iff rfl).1 found
      exact ⟨isName, written, fun plain => by rw [form] at plain; cases plain⟩
    · obtain ⟨⟨name, rest⟩, parsed, same⟩ := Option.map_eq_some_iff.1 found
      cases same
      obtain ⟨isName, -, ends⟩ := name?_eq_some_iff.1 parsed
      exact ⟨isName, written, fun _ => ends⟩
    · obtain ⟨form, isName, -⟩ := (closed?_eq_some_iff rfl).1 found
      exact ⟨isName, written, fun plain => by rw [form] at plain; cases plain⟩
    · cases found
  · rintro ⟨isName, rfl, maximal⟩
    obtain ⟨form, name⟩ := target
    cases form with
    | braced =>
      have split : written ⟨.braced, name⟩ ++ rest = '$' :: '{' :: (name ++ '}' :: rest) := by
        simp [written]
      rw [split]
      exact (closed?_eq_some_iff rfl).2 ⟨rfl, isName, rfl⟩
    | percent =>
      have split : written ⟨.percent, name⟩ ++ rest = '%' :: (name ++ '%' :: rest) := by
        simp [written]
      rw [split]
      exact (closed?_eq_some_iff rfl).2 ⟨rfl, isName, rfl⟩
    | plain =>
      have parsed : name? (name ++ rest) = some (name, rest) :=
        name?_eq_some_iff.2 ⟨isName, rfl, maximal rfl⟩
      show parse? ('$' :: (name ++ rest)) = _
      obtain ⟨some, inside⟩ := isName
      cases name with
      | nil => exact absurd rfl some
      | cons character name =>
        have letter : isNameCharacter character = true := inside character List.mem_cons_self
        unfold parse?
        split
        · rename_i brace
          cases brace
          cases letter
        · rename_i text _ dollar
          cases dollar
          rw [parsed]
          rfl
        · rename_i percent
          cases percent
        · rename_i other _
          exact absurd rfl (other _)

/-- Wherever a reference is written, a text starts with one, the name of which may be longer. -/
theorem exists_opens (isName : IsName target.name) (rest : List Char) :
    ∃ other behind, Opens other (target.written ++ rest) behind := by
  obtain ⟨form, name⟩ := target
  cases form with
  | braced => exact ⟨_, rest, isName, rfl, nofun⟩
  | percent => exact ⟨_, rest, isName, rfl, nofun⟩
  | plain =>
    refine ⟨⟨.plain, name ++ rest.takeWhile isNameCharacter⟩, rest.dropWhile isNameCharacter,
      ⟨fun empty => isName.1 (List.append_eq_nil_iff.1 empty).1, fun character member => ?_⟩, ?_,
      fun _ => endsName_dropWhile rest⟩
    · rcases List.mem_append.1 member with member | member
      · exact isName.2 character member
      · exact List.mem_takeWhile_imp member
    · show '$' :: name ++ rest = '$' :: (name ++ rest.takeWhile isNameCharacter) ++ _
      rw [List.cons_append, List.cons_append, List.append_assoc, List.takeWhile_append_dropWhile]

end Reference

/-! ### Pieces -/

namespace Piece

variable {text : List Char} {pieces : List Piece}

open Reference (IsName Opens)

/-- A text is cut into pieces from left to right. A reference is taken where the text starts with
one. A literal piece goes on up to the next reference or to the end: nowhere in it does the text
start with a reference, and no other literal piece follows. -/
inductive Cut : List Char → List Piece → Prop where
  | nil : Cut [] []
  | reference {text rest : List Char} {target : Reference} {pieces : List Piece}
      (opens : target.Opens text rest) (later : Cut rest pieces) :
      Cut text (.reference target :: pieces)
  | literal {front rest : List Char} {pieces : List Piece} (some : front ≠ [])
      (free : ∀ skipped back, front = skipped ++ back → back ≠ [] →
        ∀ target behind, ¬ Opens target (back ++ rest) behind)
      (apart : ∀ other more, pieces ≠ .literal other :: more) (later : Cut rest pieces) :
      Cut (front ++ rest) (.literal front :: pieces)

theorem consLiteral_of_apart (character : Char)
    (apart : ∀ other more, pieces ≠ .literal other :: more) :
    consLiteral character pieces = .literal [character] :: pieces := by
  unfold consLiteral
  split
  · rename_i other more
    exact absurd rfl (apart other more)
  · rfl

theorem parse?_eq_none (free : ∀ target behind, ¬ Opens target text behind) :
    Reference.parse? text = none := by
  cases parsed : Reference.parse? text with
  | none => rfl
  | some found => exact absurd (Reference.parse?_eq_some_iff.1 parsed) (free found.1 found.2)

/-- The pieces that a text is cut into are those that are read from it. -/
theorem Cut.eq_ofText (cut : Cut text pieces) : pieces = ofText text := by
  induction cut with
  | nil => exact ofText_nil.symm
  | reference opens _ inductionHypothesis =>
    rw [ofText_reference (Reference.parse?_eq_some_iff.2 opens), ← inductionHypothesis]
  | @literal front rest pieces some free apart _ inductionHypothesis =>
    -- The literal piece is read character by character, from its end on.
    induction front with
    | nil => exact absurd rfl some
    | cons character front shorter =>
      have here := parse?_eq_none (free [] (character :: front) rfl some)
      rw [List.cons_append] at here ⊢
      rw [ofText_character here]
      cases front with
      | nil => rw [List.nil_append, ← inductionHypothesis, consLiteral_of_apart character apart]
      | cons next front =>
        rw [← shorter (List.cons_ne_nil next front) fun skipped back split =>
          free (character :: skipped) back (congrArg (character :: ·) split)]
        rfl

/-- A character where no reference starts belongs to a literal piece. -/
theorem Cut.cons {character : Char}
    (free : ∀ target behind, ¬ Opens target (character :: text) behind) (cut : Cut text pieces) :
    Cut (character :: text) (consLiteral character pieces) := by
  have alone (apart : ∀ other more, pieces ≠ .literal other :: more) :
      Cut (character :: text) (consLiteral character pieces) := by
    rw [consLiteral_of_apart character apart]
    refine .literal (List.cons_ne_nil character []) (fun skipped back split some => ?_) apart cut
    obtain ⟨rfl, rfl⟩ | ⟨rfl, rfl⟩ := List.append_eq_singleton_iff.1 split.symm
    · exact free
    · exact absurd rfl some
  cases cut with
  | nil => exact alone nofun
  | reference => exact alone nofun
  | @literal front rest pieces _ literalFree apart later =>
    refine .literal (List.cons_ne_nil character front) (fun skipped back split some => ?_) apart
      later
    cases skipped with
    | nil =>
      cases split
      exact free
    | cons first skipped =>
      cases split
      exact literalFree skipped back rfl some

theorem cut_ofText (text : List Char) : Cut text (ofText text) := by
  fun_induction ofText text with
  | case1 text target rest found inductionHypothesis =>
    exact .reference (Reference.parse?_eq_some_iff.1 found) inductionHypothesis
  | case2 => exact .nil
  | case3 character rest missing inductionHypothesis =>
    refine inductionHypothesis.cons fun target behind opens => ?_
    cases missing.symm.trans (Reference.parse?_eq_some_iff.2 opens)

/-- There is one way to cut a text. -/
theorem cut_iff : Cut text pieces ↔ pieces = ofText text := by
  refine ⟨Cut.eq_ofText, ?_⟩
  rintro rfl
  exact cut_ofText text

/-! ### What the pieces are -/

/-- A text is made up of literal pieces and references. The name of a plain reference is as long as
possible, and no reference is written in a literal piece. -/
structure Decomposition (text : List Char) (pieces : List Piece) : Prop where
  written : pieces.flatMap Piece.written = text
  references (target : Reference) (after : List Piece) :
    .reference target :: after <:+ pieces →
      target.Opens (target.written ++ after.flatMap Piece.written) (after.flatMap Piece.written)
  literals (literal : List Char) : .literal literal ∈ pieces →
    ∀ target : Reference, IsName target.name → ¬ target.written <:+: literal

theorem Cut.written (cut : Cut text pieces) : pieces.flatMap Piece.written = text := by
  rw [cut.eq_ofText, written_ofText]

theorem Cut.references (cut : Cut text pieces) (target : Reference) (after : List Piece)
    (within : .reference target :: after <:+ pieces) :
    target.Opens (target.written ++ after.flatMap Piece.written) (after.flatMap Piece.written) := by
  induction cut with
  | nil => cases List.suffix_nil.1 within
  | reference opens later inductionHypothesis =>
    rcases List.suffix_cons_iff.1 within with same | within
    · cases same
      rw [later.written]
      have written := opens.written
      subst written
      exact opens
    · exact inductionHypothesis within
  | literal _ _ _ _ inductionHypothesis =>
    rcases List.suffix_cons_iff.1 within with same | within
    · cases same
    · exact inductionHypothesis within

theorem Cut.literals (cut : Cut text pieces) (literal : List Char)
    (within : .literal literal ∈ pieces) (target : Reference) (isName : IsName target.name) :
    ¬ target.written <:+: literal := by
  induction cut with
  | nil => exact absurd within List.not_mem_nil
  | reference _ _ inductionHypothesis =>
    exact inductionHypothesis ((List.mem_cons.1 within).resolve_left nofun)
  | @literal front rest pieces _ free _ _ inductionHypothesis =>
    rcases List.mem_cons.1 within with same | within
    · cases same
      rintro ⟨skipped, behind, split⟩
      rw [List.append_assoc] at split
      -- What is written in the piece is the start of a reference of the text as well.
      obtain ⟨other, left, opens⟩ := Reference.exists_opens isName (behind ++ rest)
      rw [← List.append_assoc] at opens
      refine free skipped (target.written ++ behind) split.symm (fun empty => ?_) other left opens
      exact target.written_ne_nil (List.append_eq_nil_iff.1 empty).1
    · exact inductionHypothesis within

theorem decomposition_ofText (text : List Char) : Decomposition text (ofText text) :=
  ⟨written_ofText text, (cut_ofText text).references, (cut_ofText text).literals⟩

theorem expand_unset : expand (fun _ => none) = Piece.written := by
  funext piece
  cases piece <;> rfl

end Piece

/-! ### Settings -/

theorem Setting.names_parse (environment : Environment) (delimiter : Char) (text : List Char) :
    (parse environment delimiter text).map name = (parseRaw delimiter text).map name := by
  rw [parse, List.map_map]
  rfl

/-- A text is cut into pieces in one way, which depends on the text alone. In every environment it
is expanded to its pieces in their order, with the values of the variables that are set in place
of the references to them; when no variable is set it stays as it is. In any two environments the
settings of the text have the same names. -/
theorem environment_text_is_inert (text : List Char) :
    (∃ pieces, Piece.Decomposition text pieces ∧
      (∀ other, Piece.Cut text other ↔ other = pieces) ∧
      ∀ environment : Environment,
        environment.replaceAll [] text = pieces.flatMap (Piece.expand environment) ∧
        environment.expand text = pieces.flatMap (Piece.expand environment)) ∧
    Environment.replaceAll (fun _ => none) [] text = text ∧
    Environment.expand (fun _ => none) text = text ∧
    ∀ (first second : Environment) (delimiter : Char),
      (Stepwise.pairs true first delimiter text).map Setting.name =
        (Stepwise.pairs true second delimiter text).map Setting.name ∧
      (Setting.parse first delimiter text).map Setting.name =
        (Setting.parse second delimiter text).map Setting.name := by
  have replaced (environment : Environment) :
      environment.replaceAll [] text = environment.expand text := by
    rw [Environment.replaceAll_eq, List.nil_append]
  have unset : Environment.expand (fun _ => none) text = text := by
    rw [Environment.expand, Piece.expand_unset, Piece.written_ofText]
  have names (first second : Environment) (delimiter : Char) :
      (Setting.parse first delimiter text).map Setting.name =
        (Setting.parse second delimiter text).map Setting.name := by
    rw [Setting.names_parse, Setting.names_parse]
  refine ⟨⟨Piece.ofText text, Piece.decomposition_ofText text, fun other => Piece.cut_iff,
    fun environment => ⟨replaced environment, rfl⟩⟩, (replaced _).trans unset, unset,
    fun first second delimiter => ⟨?_, names first second delimiter⟩⟩
  rw [Stepwise.pairs_eq, Stepwise.pairs_eq]
  exact names first second delimiter

end TabularStream
