/-
This file proves that settings are read back from a text that they are written into. A setting is
written as its name, an `=` and its value. The entries of a text have the delimiter between them,
and among the entries of the settings there may be empty ones, so a text can start and end with
delimiters and have several in a row.

Reading goes entry by entry, `parseRaw_intercalate`. An empty entry has no setting. The entry of a
setting has this one and no other, as long as its first `=` is the one behind the name and the
delimiter is nowhere in it. Settings for which this holds are `Writable`, and a text never has any
others, so the conditions cannot be weakened: it is exactly the writable settings that come back.

A character is only compared with the delimiter and with `=`. So it may stand for itself or for a
byte of a text in some encoding.
-/

import Mathlib.Data.List.ReduceOption
import TabularStream.Proofs.StepwiseSettings

namespace TabularStream

namespace Setting

variable {delimiter : Char} {text : List Char} {setting : Setting} {settings : List Setting}
  {entries : List (Option Setting)}

/-! ### Writing -/

/-- The entry of a setting. -/
def written (setting : Setting) : List Char := setting.name ++ '=' :: setting.value

/-- The text with the given entries. Those without a setting are empty. -/
def write (delimiter : Char) (entries : List (Option Setting)) : List Char :=
  [delimiter].intercalate (entries.map fun entry => entry.elim [] written)

/-- A setting can be told from its entry, and the entry from what is around it. -/
structure Writable (delimiter : Char) (setting : Setting) : Prop where
  nameEnds : '=' ∉ setting.name
  nameWhole : delimiter ∉ setting.name
  valueWhole : delimiter ∉ setting.value

instance (delimiter : Char) (setting : Setting) : Decidable (setting.Writable delimiter) :=
  decidable_of_iff ('=' ∉ setting.name ∧ delimiter ∉ setting.name ∧ delimiter ∉ setting.value)
    ⟨fun ⟨nameEnds, nameWhole, valueWhole⟩ => ⟨nameEnds, nameWhole, valueWhole⟩,
      fun writable => ⟨writable.nameEnds, writable.nameWhole, writable.valueWhole⟩⟩

/-! ### Reading what is written -/

/-- The settings of texts with delimiters between them are those of the texts, in their order. -/
theorem parseRaw_intercalate (delimiter : Char) (texts : List (List Char)) :
    parseRaw delimiter ([delimiter].intercalate texts) = texts.flatMap (parseRaw delimiter) := by
  induction texts with
  | nil => rfl
  | cons text texts inductionHypothesis =>
    cases texts with
    | nil => rw [List.intercalate_singleton, List.flatMap_singleton]
    | cons next texts =>
      rw [List.intercalate_cons_cons, List.append_assoc, List.singleton_append, parseRaw_append,
        inductionHypothesis]
      exact List.flatMap_cons.symm

theorem parseRaw_written (apart : delimiter ≠ '=') (writable : setting.Writable delimiter) :
    parseRaw delimiter setting.written = [setting] := by
  have whole : delimiter ∉ setting.written := by
    rw [written, List.mem_append, List.mem_cons, not_or, not_or]
    exact ⟨writable.nameWhole, apart, writable.valueWhole⟩
  have filled : setting.written ≠ [] := List.append_ne_nil_of_right_ne_nil _ (List.cons_ne_nil _ _)
  rw [parseRaw, splitAt_of_notMem whole, List.filter_cons_of_pos (by simpa using filled),
    List.filter_nil, List.map_singleton, written, ofEntry_append writable.nameEnds]

/-- What is read is what is written, without the empty entries. -/
theorem parseRaw_write (apart : delimiter ≠ '=')
    (writable : ∀ setting ∈ entries.reduceOption, setting.Writable delimiter) :
    parseRaw delimiter (write delimiter entries) = entries.reduceOption := by
  rw [write, parseRaw_intercalate, List.flatMap_map]
  -- Each entry is now read by itself, so the induction need not know where the text was cut.
  induction entries with
  | nil => rfl
  | cons entry entries inductionHypothesis =>
    rw [List.flatMap_cons]
    cases entry with
    | none =>
      rw [List.reduceOption_cons_of_none] at writable ⊢
      exact inductionHypothesis writable
    | some setting =>
      rw [List.reduceOption_cons_of_some] at writable ⊢
      rw [List.forall_mem_cons] at writable
      rw [inductionHypothesis writable.2, Option.elim_some, parseRaw_written apart writable.1,
        List.singleton_append]

/-! ### What can be read -/

/-- There are no settings in a text that could not be written into one. -/
theorem writable_of_mem_parseRaw (read : setting ∈ parseRaw delimiter text) :
    setting.Writable delimiter := by
  obtain ⟨entry, within, rfl⟩ := List.mem_map.1 read
  have whole : delimiter ∉ entry := notMem_of_mem_splitAt (List.mem_filter.1 within).1
  refine ⟨fun member => ?_, fun member => ?_, fun member => ?_⟩
  · simpa using List.mem_takeWhile_imp member
  · exact whole (List.takeWhile_subset _ member)
  · exact whole (List.dropWhile_subset _ (List.mem_of_mem_drop member))

/-- Settings that are written into a text, with any empty entries among them, are read back in
their order if their names have no `=` and neither their names nor their values have the delimiter,
and only then. -/
theorem written_settings_read_back (apart : delimiter ≠ '=')
    (spread : entries.reduceOption = settings) :
    (∀ setting ∈ settings, setting.Writable delimiter) ↔
      parseRaw delimiter (write delimiter entries) = settings ∧
      ∀ environment : Environment,
        Stepwise.pairs false environment delimiter (write delimiter entries) = settings := by
  subst spread
  constructor
  · intro writable
    have read := parseRaw_write apart writable
    exact ⟨read, fun environment => (Stepwise.pairs_eq false environment delimiter _).trans read⟩
  · rintro ⟨read, -⟩ setting within
    rw [← read] at within
    exact writable_of_mem_parseRaw within

/-- Settings with names and values that are empty, and with values that hold `=`. -/
def plainSettings : List Setting :=
  [⟨[], []⟩, ⟨"Mode".toList, "a=b=".toList⟩, ⟨[], "=x".toList⟩, ⟨"Empty".toList, []⟩]

/-- The same settings with empty entries in front of them, between them and behind them. -/
def paddedEntries : List (Option Setting) :=
  [none, some ⟨[], []⟩, none, none, some ⟨"Mode".toList, "a=b=".toList⟩, some ⟨[], "=x".toList⟩,
    some ⟨"Empty".toList, []⟩, none]

theorem written_settings_read_back_paddedEntries :
    ';' ≠ '=' ∧ paddedEntries.reduceOption = plainSettings ∧
    (∀ setting ∈ plainSettings, setting.Writable ';') ∧
    write ';' paddedEntries = ";=;;;Mode=a=b=;==x;Empty=;".toList ∧
    parseRaw ';' ";=;;;Mode=a=b=;==x;Empty=;".toList = plainSettings ∧
    ∀ environment : Environment,
      Stepwise.pairs false environment ';' ";=;;;Mode=a=b=;==x;Empty=;".toList =
        plainSettings := by
  have apart : ';' ≠ '=' := by decide
  have spread : paddedEntries.reduceOption = plainSettings := rfl
  have writable : ∀ setting ∈ plainSettings, setting.Writable ';' := by decide
  have text : write ';' paddedEntries = ";=;;;Mode=a=b=;==x;Empty=;".toList := by decide
  have read := (written_settings_read_back apart spread).1 writable
  rw [text] at read
  exact ⟨apart, spread, writable, text, read⟩

end Setting

end TabularStream
