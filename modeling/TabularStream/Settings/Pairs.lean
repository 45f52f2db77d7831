/-
This file reads settings from a text such as `Name1=Value1;Name2=Value2`. The text is cut at every
delimiter and entries without a character are skipped. An entry is cut at its first `=`; without
one it is a name with an empty value. References to environment variables are expanded in the
values, after the text has been cut, so no variable can add a setting or change a name.

A setting is looked up without regard to the case of ASCII letters, and of several settings with
one name the last counts.
-/

import TabularStream.Settings.Environment

namespace TabularStream

/-- A named value. -/
structure Setting where
  name : List Char
  value : List Char
  deriving DecidableEq, Repr

namespace Setting

/-! ### Reading -/

/-- A text cut at every delimiter. There is one more entry than there are delimiters. -/
def splitAt (delimiter : Char) : List Char → List (List Char)
  | [] => [[]]
  | character :: text =>
    if character = delimiter then [] :: splitAt delimiter text
    else
      match splitAt delimiter text with
      | entry :: rest => (character :: entry) :: rest
      | [] => [[character]]

theorem splitAt_eq_splitOn (delimiter : Char) (text : List Char) :
    splitAt delimiter text = text.splitOn delimiter := by
  induction text with
  | nil => rfl
  | cons character text inductionHypothesis =>
    rw [splitAt, List.splitOn, List.splitOnP_cons_eq_if_modifyHead, ← List.splitOn,
      inductionHypothesis]
    by_cases same : character = delimiter
    · rw [if_pos same, if_pos (beq_iff_eq.2 same)]
    · rw [if_neg same, if_neg fun equal => same (eq_of_beq equal)]
      cases found : text.splitOn delimiter with
      | nil => exact absurd found (List.splitOn_ne_nil delimiter text)
      | cons entry rest => rfl

/-- The entries of two texts with a delimiter between them are those of the one and of the other. -/
theorem splitAt_append (delimiter : Char) (front back : List Char) :
    splitAt delimiter (front ++ delimiter :: back) =
      splitAt delimiter front ++ splitAt delimiter back := by
  simp only [splitAt_eq_splitOn]
  exact List.splitOnP_append_cons (p := (· == delimiter)) front back (beq_self_eq_true delimiter)

theorem splitAt_of_notMem {delimiter : Char} {text : List Char} (whole : delimiter ∉ text) :
    splitAt delimiter text = [text] := by
  rw [splitAt_eq_splitOn, List.splitOn_eq_singleton whole]

theorem notMem_of_mem_splitAt {delimiter : Char} {text entry : List Char}
    (within : entry ∈ splitAt delimiter text) : delimiter ∉ entry := by
  induction text generalizing entry with
  | nil =>
    rw [List.mem_singleton.1 within]
    exact List.not_mem_nil
  | cons character text inductionHypothesis =>
    rw [splitAt] at within
    split at within
    · rcases List.mem_cons.1 within with rfl | within
      · exact List.not_mem_nil
      · exact inductionHypothesis within
    · rename_i other
      have outside (entry : List Char) (whole : delimiter ∉ entry) :
          delimiter ∉ character :: entry :=
        List.not_mem_cons_of_ne_of_not_mem (Ne.symm other) whole
      split at within
      · rename_i split
        rw [split] at inductionHypothesis
        rcases List.mem_cons.1 within with rfl | within
        · exact outside _ (inductionHypothesis List.mem_cons_self)
        · exact inductionHypothesis (List.mem_cons_of_mem _ within)
      · rw [List.mem_singleton.1 within]
        exact outside _ List.not_mem_nil

/-- A text is cut into the entries that it is made of. -/
theorem splitAt_intercalate {delimiter : Char} {entries : List (List Char)} (some : entries ≠ [])
    (whole : ∀ entry ∈ entries, delimiter ∉ entry) :
    splitAt delimiter ([delimiter].intercalate entries) = entries := by
  rw [splitAt_eq_splitOn, List.splitOn_intercalate delimiter whole some]

theorem intercalate_splitAt (delimiter : Char) (text : List Char) :
    [delimiter].intercalate (splitAt delimiter text) = text := by
  rw [splitAt_eq_splitOn, List.intercalate_splitOn]

theorem splitAt_ne_nil (delimiter : Char) (text : List Char) : splitAt delimiter text ≠ [] := by
  rw [splitAt_eq_splitOn]
  exact List.splitOn_ne_nil delimiter text

/-- The setting of an entry. -/
def ofEntry (entry : List Char) : Setting :=
  ⟨entry.takeWhile (· ≠ '='), (entry.dropWhile (· ≠ '=')).drop 1⟩

theorem ofEntry_cons (character : Char) (entry : List Char) :
    ofEntry (character :: entry) =
      if character = '=' then ⟨[], entry⟩
      else { ofEntry entry with name := character :: (ofEntry entry).name } := by
  unfold ofEntry
  by_cases same : character = '=' <;> simp [same]

theorem ofEntry_of_notMem {entry : List Char} (plain : '=' ∉ entry) :
    ofEntry entry = ⟨entry, []⟩ := by
  induction entry with
  | nil => rfl
  | cons character entry inductionHypothesis =>
    rw [List.mem_cons, not_or] at plain
    rw [ofEntry_cons, if_neg (Ne.symm plain.1), inductionHypothesis plain.2]

theorem ofEntry_append {name : List Char} (plain : '=' ∉ name) (value : List Char) :
    ofEntry (name ++ '=' :: value) = ⟨name, value⟩ := by
  induction name with
  | nil => rw [List.nil_append, ofEntry_cons, if_pos rfl]
  | cons character name inductionHypothesis =>
    rw [List.mem_cons, not_or] at plain
    rw [List.cons_append, ofEntry_cons, if_neg (Ne.symm plain.1), inductionHypothesis plain.2]

/-- The settings of a text, as they are written. -/
def parseRaw (delimiter : Char) (text : List Char) : List Setting :=
  ((splitAt delimiter text).filter (· ≠ [])).map ofEntry

/-- The settings of two texts with a delimiter between them are those of the one and of the
other. -/
theorem parseRaw_append (delimiter : Char) (front back : List Char) :
    parseRaw delimiter (front ++ delimiter :: back) =
      parseRaw delimiter front ++ parseRaw delimiter back := by
  unfold parseRaw
  rw [splitAt_append, List.filter_append, List.map_append]

/-- A setting with the references in its value expanded. -/
def expand (environment : Environment) (setting : Setting) : Setting :=
  { setting with value := environment.expand setting.value }

/-- The settings of a text, with the references in their values expanded. -/
def parse (environment : Environment) (delimiter : Char) (text : List Char) : List Setting :=
  (parseRaw delimiter text).map (expand environment)

/-! ### Looking up -/

/-- Are two names the same but for the case of ASCII letters? -/
def sameName (left right : List Char) : Bool := left.map Char.toLower == right.map Char.toLower

/-- A capital letter of ASCII and its small letter. -/
def IsCapitalOf (capital small : Char) : Prop :=
  'A' ≤ capital ∧ capital ≤ 'Z' ∧ small.toNat = capital.toNat + 32

/-- The characters are equal, or one letter of ASCII in its two cases. -/
def SameLetter (first second : Char) : Prop :=
  first = second ∨ IsCapitalOf first second ∨ IsCapitalOf second first

theorem toNat_toLower (character : Char) :
    character.toLower.toNat =
      if 'A' ≤ character ∧ character ≤ 'Z' then character.toNat + 32 else character.toNat := by
  unfold Char.toLower
  split
  · rename_i capital
    have bounded : character.val.toNat ≤ 90 := capital.2
    have moved : (character.val + 32).toNat = character.val.toNat + 32 :=
      Nat.mod_eq_of_lt (show character.val.toNat + 32 < 2 ^ 32 by omega)
    exact moved.trans (if_pos capital).symm
  · rename_i other
    exact (if_neg other).symm

theorem toLower_eq_toLower_iff {first second : Char} :
    first.toLower = second.toLower ↔ SameLetter first second := by
  have capital {character : Char} : ('A' ≤ character ∧ character ≤ 'Z') ↔
      (65 ≤ character.toNat ∧ character.toNat ≤ 90) := Iff.rfl
  simp only [SameLetter, IsCapitalOf, ← Char.toNat_inj, toNat_toLower, ← and_assoc, capital]
  split <;> split <;> omega

/-- Names are the same when they are equally long and the same letter by letter. -/
theorem sameName_iff {left right : List Char} :
    sameName left right = true ↔
      left.length = right.length ∧ ∀ pair ∈ left.zip right, SameLetter pair.1 pair.2 := by
  rw [sameName, beq_iff_eq]
  induction left generalizing right with
  | nil => cases right <;> simp
  | cons first left inductionHypothesis =>
    cases right with
    | nil => simp
    | cons second right =>
      rw [List.map_cons, List.map_cons, List.cons.injEq, toLower_eq_toLower_iff,
        inductionHypothesis, List.zip_cons_cons, List.forall_mem_cons, List.length_cons,
        List.length_cons, Nat.add_right_cancel_iff]
      exact and_left_comm

/-- The value of the last setting of the given name. -/
def find? (settings : List Setting) (name : List Char) : Option (List Char) :=
  (settings.reverse.find? fun setting => sameName setting.name name).map value

end Setting

end TabularStream
