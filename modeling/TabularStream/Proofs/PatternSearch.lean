/-
This file holds a second version of expanding references, which searches a text for a pattern. The
pattern has three alternatives, one for each form of a reference, and each has a group for the
name. A group takes as many characters as it can, and gives them back one by one as long as what
stands behind it does not match. At each place of the text, from left to right, the alternatives are
tried in their order. The first match is replaced and the search goes on behind it.

`first?_eq` says that a match is a reference that is read from the text. The one thing to see is
that a group never has to give anything back: behind a shorter name there is another name character,
and no alternative goes on with one.
-/

import TabularStream.Settings.Environment

namespace TabularStream

namespace Pattern

/-! ### Matching -/

/-- A part of an alternative. -/
inductive Element where
  | character (character : Char)
  /-- The group of one or more name characters. -/
  | name
  deriving DecidableEq, Repr

/-- What a group can take from the front of a text, the most first, and what is left. -/
def names : List Char → List (List Char × List Char)
  | [] => []
  | character :: text =>
    if Reference.isNameCharacter character then
      (names text).map (fun (name, rest) => (character :: name, rest)) ++ [([character], text)]
    else []

/-- The ways in which elements match the front of a text, the preferred first: the name in the
group and what is left. -/
def matchings : List Element → List Char → List (List Char × List Char)
  | [], text => [([], text)]
  | .character _ :: _, [] => []
  | .character wanted :: elements, character :: text =>
    if character = wanted then matchings elements text else []
  | .name :: elements, text =>
    (names text).flatMap fun (name, rest) =>
      (matchings elements rest).map fun (_, rest) => (name, rest)

/-- The alternatives of the pattern. -/
def alternatives : List (ReferenceForm × List Element) :=
  [(.braced, [.character '$', .character '{', .name, .character '}']),
    (.plain, [.character '$', .name]),
    (.percent, [.character '%', .name, .character '%'])]

/-- The preferred match at the front of a text, and what is left. -/
def first? (text : List Char) : Option (Reference × List Char) :=
  (alternatives.flatMap fun (form, elements) =>
    (matchings elements text).map fun taken => (⟨form, taken.1⟩, taken.2)).head?

/-! ### Searching and replacing -/

/-- What a search finds in a text. -/
structure Match where
  /-- What stands in front of the match. -/
  skipped : List Char
  target : Reference
  matched : List Char
  /-- What stands behind the match. -/
  rest : List Char
  deriving DecidableEq, Repr

/-- The match at the first place that has one. -/
def search? (text : List Char) : Option Match :=
  match first? text with
  | some (target, rest) => some ⟨[], target, text.take (text.length - rest.length), rest⟩
  | none =>
    match text with
    | [] => none
    | character :: text =>
      (search? text).map fun found => { found with skipped := character :: found.skipped }

/-! ### What a group takes -/

open Reference (isNameCharacter name? closed?)

variable {text rest : List Char} {character : Char}

theorem name?_cons (character : Char) (text : List Char) :
    name? (character :: text) =
      if isNameCharacter character then
        some (character :: text.takeWhile isNameCharacter, text.dropWhile isNameCharacter)
      else none := by
  unfold name?
  cases name : isNameCharacter character <;> simp [name]

theorem names_eq_nil (missing : name? text = none) : names text = [] := by
  cases text with
  | nil => rfl
  | cons character text =>
    rw [name?_cons] at missing
    rw [names, if_neg fun name => by rw [if_pos name] at missing; cases missing]

/-- A name that goes on behind its first character does so with a name. -/
theorem name?_tail (text : List Char) :
    (text.takeWhile isNameCharacter, text.dropWhile isNameCharacter) =
      (name? text).getD ([], text) := by
  cases text with
  | nil => rfl
  | cons character text =>
    rw [name?_cons]
    cases name : isNameCharacter character <;> simp [name]

/-- A group takes the whole name first. When it takes less, another name character is left. -/
theorem names_eq_cons {taken : List Char × List Char} (found : name? text = some taken) :
    ∃ shorter, names text = taken :: shorter ∧
      ∀ other ∈ shorter, ∃ character rest, other.2 = character :: rest ∧
        isNameCharacter character = true := by
  induction text generalizing taken with
  | nil => cases found
  | cons character text inductionHypothesis =>
    rw [name?_cons] at found
    split at found
    · rename_i name
      rw [Option.some_inj] at found
      obtain ⟨front, back⟩ := Prod.mk.inj (name?_tail text)
      rw [names, if_pos name, ← found, front, back]
      cases more : name? text with
      | none =>
        rw [names_eq_nil more]
        exact ⟨[], rfl, List.forall_mem_nil _⟩
      | some longer =>
        obtain ⟨shorter, names, left⟩ := inductionHypothesis more
        rw [names]
        refine ⟨shorter.map (fun (name, rest) => (character :: name, rest)) ++
          [([character], text)], rfl, fun other member => ?_⟩
        rcases List.mem_append.1 member with member | member
        · obtain ⟨inner, within, rfl⟩ := List.mem_map.1 member
          exact left inner within
        · cases List.mem_singleton.1 member
          cases text with
          | nil => cases more
          | cons next text =>
            rw [name?_cons] at more
            split at more
            · exact ⟨next, text, rfl, ‹_›⟩
            · cases more
    · cases found

/-- A group that has to be followed by another character takes the whole name or fails. -/
theorem matchings_closed (form : ReferenceForm) {closing : Char}
    (outside : isNameCharacter closing = false) (text : List Char) :
    ((matchings [.name, .character closing] text).map fun taken =>
      ((⟨form, taken.1⟩ : Reference), taken.2)) = (closed? form closing text).toList := by
  rw [matchings, closed?]
  cases found : name? text with
  | none =>
    rw [names_eq_nil found]
    rfl
  | some taken =>
    obtain ⟨shorter, names, left⟩ := names_eq_cons found
    have fails : (shorter.flatMap fun (name, rest) =>
        (matchings [.character closing] rest).map fun (_, rest) => (name, rest)) = [] := by
      refine List.flatMap_eq_nil_iff.2 fun other member => ?_
      obtain ⟨character, rest, split, inside⟩ := left other member
      dsimp only
      rw [split, matchings, if_neg fun same => by rw [same, outside] at inside; cases inside]
      rfl
    rw [names, List.flatMap_cons, fails, List.append_nil]
    obtain ⟨name, _ | ⟨last, rest⟩⟩ := taken
    · rfl
    · dsimp only [matchings]
      split <;> rfl

/-- A group at the end of an alternative takes the whole name at first. -/
theorem head?_matchings_name (text : List Char) :
    (matchings [.name] text).head? = name? text := by
  have all : matchings [.name] text = names text := by simp [matchings]
  rw [all]
  cases found : name? text with
  | none => rw [names_eq_nil found, List.head?_nil]
  | some taken =>
    obtain ⟨shorter, names, -⟩ := names_eq_cons found
    rw [names, List.head?_cons]

/-- A character matches only itself. -/
theorem matchings_of_ne {wanted : Char} {elements : List Element}
    (other : ∀ rest, text ≠ wanted :: rest) :
    matchings (.character wanted :: elements) text = [] := by
  cases text with
  | nil => rfl
  | cons character text => rw [matchings, if_neg fun same => other text (by rw [same])]

/-- The preferred match is the reference that is read from the text. -/
theorem first?_eq (text : List Char) : first? text = Reference.parse? text := by
  have head?_toList {Item : Type} (item : Option Item) : item.toList.head? = item := by
    cases item <;> rfl
  unfold first? alternatives Reference.parse?
  simp only [List.flatMap_cons, List.flatMap_nil, List.append_nil]
  split
  · rename_i text
    show ((matchings [.name, .character '}'] text).map _ ++ []).head? = _
    rw [List.append_nil, matchings_closed .braced rfl, head?_toList]
  · rename_i text unbraced
    have braced : matchings (.character '{' :: [.name, .character '}']) text = [] :=
      matchings_of_ne fun rest same => unbraced rest same
    show ((matchings (.character '{' :: [.name, .character '}']) text).map _ ++
      ((matchings [.name] text).map _ ++ [])).head? = _
    rw [braced, List.map_nil, List.nil_append, List.append_nil, List.head?_map,
      head?_matchings_name]
  · rename_i text
    show ((matchings [.name, .character '%'] text).map _).head? = _
    rw [matchings_closed .percent rfl, head?_toList]
  · rename_i noBrace noDollar noPercent
    rw [matchings_of_ne noDollar, matchings_of_ne noDollar, matchings_of_ne noPercent]
    rfl

/-- A reference that is not closed is none, however much of its name is taken. -/
example : first? "%AB$C%".toList = none := by decide

/-! ### What a search finds -/

theorem length_lt_of_search? {found : Match} (success : search? text = some found) :
    found.rest.length < text.length := by
  induction text generalizing found with
  | nil => cases success
  | cons character text inductionHypothesis =>
    rw [search?, first?_eq] at success
    split at success
    · rename_i parsed
      cases success
      exact Reference.length_lt_of_parse? parsed
    · obtain ⟨later, present, rfl⟩ := Option.map_eq_some_iff.1 success
      have shorter := inductionHypothesis present
      exact Nat.lt_succ_of_lt shorter

end Pattern

open Pattern

/-- Replace what is found in a text, one match after the other. The result is put behind what is
there already. -/
def Environment.replaceAll (environment : Environment) (result text : List Char) : List Char :=
  match _found : search? text with
  | none => result ++ text
  | some found =>
    environment.replaceAll
      (result ++ found.skipped ++ (environment found.target.name).getD found.matched) found.rest
termination_by text.length
decreasing_by exact length_lt_of_search? _found

namespace Environment

variable (environment : Environment)

/-- Expanding a text is to copy what stands in front of the first match, replace the match, and
expand what stands behind it. -/
theorem expand_eq_search? (text : List Char) :
    environment.expand text =
      match search? text with
      | none => text
      | some found =>
        found.skipped ++ (environment found.target.name).getD found.matched ++
          environment.expand found.rest := by
  induction text with
  | nil => exact environment.expand_nil
  | cons character text inductionHypothesis =>
    rw [search?, first?_eq]
    cases parsed : Reference.parse? (character :: text) with
    | some pair =>
      obtain ⟨target, rest⟩ := pair
      have split := Reference.eq_written_append_of_parse? parsed
      have matched : (character :: text).take ((character :: text).length - rest.length) =
          target.written := by
        rw [split, List.length_append, Nat.add_sub_cancel, List.take_left]
      dsimp only
      rw [environment.expand_reference parsed, matched, List.nil_append]
    | none =>
      dsimp only
      rw [environment.expand_character parsed, inductionHypothesis]
      cases search? text <;> rfl

/-- Replacing one match after the other expands the text. -/
theorem replaceAll_eq (result text : List Char) :
    environment.replaceAll result text = result ++ environment.expand text := by
  fun_induction replaceAll environment result text with
  | case1 result text missing => rw [expand_eq_search?, missing]
  | case2 result text found present inductionHypothesis =>
    rw [inductionHypothesis, environment.expand_eq_search? text, present]
    simp only [List.append_assoc]

end Environment

end TabularStream
