/-
This file holds a second version of reading settings and configurations, in small steps. A text is
cut at its first delimiter and what is behind it is cut again; an entry is cut at the place of its
first `=`. A name is looked for in all settings one after the other. A number grows digit by digit
in 64 bits, and before each digit it is checked that it does not wrap. A configuration is changed
in a copy, field after field, and only a whole copy takes its place.

The two versions give the same settings, `pairs_eq`, and leave the same error and the same
configuration behind, `poolConfig_eq` and `streamConfig_eq`.
-/

import Mathlib.Data.List.TakeWhile
import TabularStream.Proofs.PatternSearch
import TabularStream.Settings.Config

namespace TabularStream

namespace Stepwise

/-! ### The steps -/

/-- The entries of a text. -/
def entries (delimiter : Char) (text : List Char) : List (List Char) :=
  match _behind : text.dropWhile (· ≠ delimiter) with
  | [] => [text]
  | _ :: rest => text.takeWhile (· ≠ delimiter) :: entries delimiter rest
termination_by text.length
decreasing_by
  have whole := congrArg List.length (text.takeWhile_append_dropWhile (p := (· ≠ delimiter)))
  rw [_behind, List.length_append, List.length_cons] at whole
  omega

/-- The setting of an entry. -/
def setting (entry : List Char) : Setting :=
  match entry.idxOf? '=' with
  | none => ⟨entry, []⟩
  | some place => ⟨entry.take place, entry.drop (place + 1)⟩

/-- The settings of a text. They are expanded when all of them have been read. -/
def pairs (expands : Bool) (environment : Environment) (delimiter : Char) (text : List Char) :
    List Setting :=
  let found := (entries delimiter text).foldl
    (fun found entry => if entry = [] then found else found ++ [setting entry]) []
  if expands then
    found.map fun setting => { setting with value := environment.replaceAll [] setting.value }
  else found

/-- The value that is left when every setting of the name has replaced the one before. -/
def lookup (settings : List Setting) (name : List Char) : Option (List Char) :=
  settings.foldl
    (fun found setting => if Setting.sameName setting.name name then some setting.value else found)
    none

/-- The greatest number of 64 bits. -/
def greatest : UInt64 := 0xFFFFFFFFFFFFFFFF

/-- A number with another digit behind it, unless it becomes too large for 64 bits. -/
def appendDigit (number : UInt64) (digit : Char) : Option UInt64 :=
  let value := UInt64.ofNat (digit.toNat - '0'.toNat)
  if greatest / 10 < number then none
  else if greatest - 10 * number < value then none
  else some (10 * number + value)

/-- Put digits behind a number, as long as there are some. Those of a number that is too large are
passed over. Gives the number and what is left of the text. -/
def readDigits : Option UInt64 → List Char → Option UInt64 × List Char
  | number, [] => (number, [])
  | number, character :: text =>
    if character.isDigit then readDigits (number.bind (appendDigit · character)) text
    else (number, character :: text)

/-- The number at the front of a text, if there is one of 64 bits, and what is left. -/
def convert (text : List Char) : Option UInt64 × List Char :=
  if (text.head?.map Char.isDigit).getD false then readDigits (some 0) text else (none, text)

/-- Set a size, if there is a setting for it. Gives the error and the size. -/
def assignSize (settings : List Setting) (name : String) (minimum size : UInt64) :
    Option ClientError × UInt64 :=
  match lookup settings name.toList with
  | none => (none, size)
  | some value =>
    match convert value with
    | (some number, []) =>
      if number < minimum then (some .invalidConfigValue, size) else (none, number)
    | _ => (some .invalidConfigValue, size)

/-- Apply a text to the configuration of a pool. Gives the error and the configuration. -/
def poolConfig (environment : Environment) (text : List Char) (config : PoolConfig) :
    Option ClientError × PoolConfig :=
  let settings := pairs true environment configDelimiter text
  let copy := config
  let (error, blockSize) := assignSize settings "BlockSize" 1 copy.blockSize
  let copy := { copy with blockSize }
  if error.isSome then (error, config)
  else
    let (error, maxPooledBlocks) := assignSize settings "MaxPooledBlocks" 0 copy.maxPooledBlocks
    let copy := { copy with maxPooledBlocks }
    if error.isSome then (error, config) else (none, copy)

/-- Apply a text to the configuration of a stream. Gives the error and the configuration. -/
def streamConfig (environment : Environment) (text : List Char) (config : StreamConfig) :
    Option ClientError × StreamConfig :=
  let settings := pairs true environment configDelimiter text
  let copy := config
  let (error, initialDemand) := assignSize settings "InitialDemand" 0 copy.initialDemand
  let copy := { copy with initialDemand }
  if error.isSome then (error, config) else (none, copy)

/-! ### Settings -/

theorem entries_eq (delimiter : Char) (text : List Char) :
    entries delimiter text = Setting.splitAt delimiter text := by
  fun_induction entries delimiter text with
  | case1 text last =>
    rw [List.dropWhile_eq_nil_iff] at last
    refine (Setting.splitAt_of_notMem fun member => ?_).symm
    simpa using last delimiter member
  | case2 text character rest behind inductionHypothesis =>
    have stops := List.head?_dropWhile_not (· ≠ delimiter) text
    rw [behind] at stops
    have same : character = delimiter := by simpa using stops
    have front : delimiter ∉ text.takeWhile (· ≠ delimiter) := fun member => by
      simpa using List.mem_takeWhile_imp member
    have whole : text = text.takeWhile (· ≠ delimiter) ++ delimiter :: rest := by
      rw [← same, ← behind, same]
      exact List.takeWhile_append_dropWhile.symm
    calc text.takeWhile (· ≠ delimiter) :: entries delimiter rest
        = Setting.splitAt delimiter (text.takeWhile (· ≠ delimiter)) ++
            Setting.splitAt delimiter rest := by
          rw [inductionHypothesis, Setting.splitAt_of_notMem front]
          rfl
      _ = Setting.splitAt delimiter text := by rw [← Setting.splitAt_append, ← whole]

theorem setting_cons (character : Char) (entry : List Char) :
    setting (character :: entry) =
      if character = '=' then ⟨[], entry⟩
      else { setting entry with name := character :: (setting entry).name } := by
  unfold setting
  rw [List.idxOf?_cons]
  by_cases same : character = '='
  · simp [same]
  · cases entry.idxOf? '=' <;> simp [same]

theorem setting_eq (entry : List Char) : setting entry = Setting.ofEntry entry := by
  induction entry with
  | nil => rfl
  | cons character entry inductionHypothesis =>
    rw [setting_cons, Setting.ofEntry_cons, inductionHypothesis]

theorem foldl_found (found : List Setting) (entries : List (List Char)) :
    entries.foldl (fun found entry => if entry = [] then found else found ++ [setting entry])
        found =
      found ++ (entries.filter (· ≠ [])).map Setting.ofEntry := by
  induction entries generalizing found with
  | nil => simp
  | cons entry entries inductionHypothesis =>
    rw [List.foldl_cons, inductionHypothesis]
    by_cases empty : entry = []
    · simp [empty]
    · simp [empty, setting_eq]

/-- The settings are the same. -/
theorem pairs_eq (expands : Bool) (environment : Environment) (delimiter : Char)
    (text : List Char) :
    pairs expands environment delimiter text =
      if expands then Setting.parse environment delimiter text
      else Setting.parseRaw delimiter text := by
  unfold pairs Setting.parse Setting.parseRaw
  rw [entries_eq]
  dsimp only
  rw [foldl_found, List.nil_append]
  refine congrArg (fun expanded => if expands then expanded else _) (List.map_congr_left ?_)
  intro setting _
  rw [Environment.replaceAll_eq, List.nil_append]
  rfl

theorem lookup_eq (settings : List Setting) (name : List Char) :
    lookup settings name = Setting.find? settings name := by
  have keeps (found : Option (List Char)) :
      settings.foldl (fun found setting =>
        if Setting.sameName setting.name name then some setting.value else found) found =
        (Setting.find? settings name).or found := by
    unfold Setting.find?
    induction settings generalizing found with
    | nil => rfl
    | cons setting settings inductionHypothesis =>
      rw [List.foldl_cons, inductionHypothesis, List.reverse_cons, List.find?_append]
      cases settings.reverse.find? fun setting => Setting.sameName setting.name name with
      | some last => rfl
      | none => cases same : Setting.sameName setting.name name <;> simp [same]
  rw [lookup, keeps, Option.or_none]

/-! ### Numbers -/

/-- A number, if it has 64 bits. -/
def word? (number : Nat) : Option UInt64 :=
  if number < Word.modulus then some (UInt64.ofNat number) else none

/-- What a digit stands for. -/
def digitValue (digit : Char) : Nat := digit.toNat - '0'.toNat

theorem digitValue_lt {digit : Char} (isDigit : digit.isDigit = true) : digitValue digit < 10 := by
  unfold Char.isDigit at isDigit
  simp [UInt32.le_iff_toNat_le] at isDigit
  unfold digitValue Char.toNat
  simp
  omega

/-- A digit is put behind a number as long as both together have 64 bits. -/
theorem appendDigit_eq {digit : Char} (isDigit : digit.isDigit = true) (number : Nat) :
    (word? number).bind (appendDigit · digit) = word? (10 * number + digitValue digit) := by
  have below := digitValue_lt isDigit
  by_cases fits : number < Word.modulus
  · have value : (UInt64.ofNat number).toNat = number := UInt64.toNat_ofNat_of_lt' fits
    have last : (UInt64.ofNat (digitValue digit)).toNat = digitValue digit :=
      UInt64.toNat_ofNat_of_lt' (lt_trans below (by decide))
    have ten : (10 : UInt64).toNat = 10 := rfl
    have tenth : (greatest / 10).toNat = 1844674407370955161 := by decide
    unfold word?
    rw [if_pos fits, Option.bind_some]
    unfold appendDigit
    dsimp only
    rw [← digitValue]
    by_cases large : 1844674407370955161 < number
    · rw [if_pos (UInt64.lt_iff_toNat_lt.2 (by rw [tenth, value]; exact large)),
        if_neg (by unfold Word.modulus; omega)]
    · have tenfold : (10 * UInt64.ofNat number).toNat = 10 * number := by
        rw [UInt64.toNat_mul, value, ten]
        exact Nat.mod_eq_of_lt (by omega)
      have room : (greatest - 10 * UInt64.ofNat number).toNat =
          18446744073709551615 - 10 * number := by
        rw [UInt64.toNat_sub_of_le, tenfold]
        · rfl
        · rw [UInt64.le_iff_toNat_le, tenfold]
          show 10 * number ≤ 18446744073709551615
          omega
      rw [if_neg fun less => large (by rwa [UInt64.lt_iff_toNat_lt, tenth, value] at less)]
      by_cases wraps : 18446744073709551615 - 10 * number < digitValue digit
      · rw [if_pos (UInt64.lt_iff_toNat_lt.2 (by rw [room, last]; exact wraps)),
          if_neg (by unfold Word.modulus; omega)]
      · rw [if_neg fun less => wraps (by rwa [UInt64.lt_iff_toNat_lt, room, last] at less),
          if_pos (by unfold Word.modulus; omega)]
        refine congrArg some (UInt64.toNat_inj.1 ?_)
        rw [UInt64.toNat_add, tenfold, last, UInt64.toNat_ofNat_of_lt' (by
          show _ < 18446744073709551616
          omega)]
        exact Nat.mod_eq_of_lt (by omega)
  · unfold word?
    rw [if_neg fits, if_neg (by omega)]
    rfl

theorem readDigits_eq (number : Nat) (text : List Char) :
    readDigits (word? number) text =
      (word? ((text.takeWhile Char.isDigit).foldl
        (fun number digit => 10 * number + digitValue digit) number),
        text.dropWhile Char.isDigit) := by
  induction text generalizing number with
  | nil => rfl
  | cons character text inductionHypothesis =>
    rw [readDigits]
    cases isDigit : character.isDigit with
    | true =>
      rw [if_pos rfl, appendDigit_eq isDigit, inductionHypothesis,
        List.takeWhile_cons_of_pos isDigit, List.dropWhile_cons_of_pos isDigit]
      rfl
    | false =>
      rw [if_neg Bool.false_ne_true, List.takeWhile_cons_of_neg (by simp [isDigit]),
        List.dropWhile_cons_of_neg (by simp [isDigit])]
      rfl

/-- The digits at the front of a text are a number, if there are some and they have 64 bits. -/
theorem convert_eq (text : List Char) :
    convert text =
      (if text.takeWhile Char.isDigit = [] then none
        else word? (ofDigits (text.takeWhile Char.isDigit)), text.dropWhile Char.isDigit) := by
  unfold convert
  cases text with
  | nil => rfl
  | cons character text =>
    cases isDigit : character.isDigit with
    | true =>
      have zero : some 0 = word? 0 := rfl
      rw [List.takeWhile_cons_of_pos isDigit]
      simp [isDigit]
      rw [zero, readDigits_eq, List.takeWhile_cons_of_pos isDigit,
        List.dropWhile_cons_of_pos isDigit]
      rfl
    | false => simp [isDigit]

/-- The least number that is too large, with another digit behind it that is passed over. -/
example : convert "184467440737095516160;".toList = (none, [';']) := by decide

/-- A text stands for a size if the number at its front is all of it, and large enough. -/
theorem parseSize_eq (minimum : UInt64) (text : List Char) :
    parseSize minimum.toNat text =
      match convert text with
      | (some number, []) =>
        if number < minimum then .error .invalidConfigValue else .ok number
      | _ => .error .invalidConfigValue := by
  unfold parseSize
  rw [convert_eq]
  by_cases all : text.all Char.isDigit = true
  · have behind : text.dropWhile Char.isDigit = [] :=
      List.dropWhile_eq_nil_iff.2 (List.all_eq_true.1 all)
    have front : text.takeWhile Char.isDigit = text := by
      have whole := text.takeWhile_append_dropWhile (p := Char.isDigit)
      rwa [behind, List.append_nil] at whole
    rw [behind, front]
    by_cases empty : text = []
    · rw [if_pos empty, if_neg fun number => number.1 empty]
    · rw [if_neg empty]
      unfold word?
      by_cases fits : ofDigits text < Word.modulus
      · have number : (UInt64.ofNat (ofDigits text)).toNat = ofDigits text :=
          UInt64.toNat_ofNat_of_lt' fits
        rw [if_pos fits]
        dsimp only
        by_cases small : ofDigits text < minimum.toNat
        · rw [if_pos (UInt64.lt_iff_toNat_lt.2 (by rwa [number])),
            if_neg fun number => Nat.not_le.2 small number.2.2.1]
        · rw [if_pos ⟨empty, all, Nat.not_lt.1 small, fits⟩,
            if_neg fun less => small (by rwa [UInt64.lt_iff_toNat_lt, number] at less)]
      · rw [if_neg fits, if_neg fun number => fits number.2.2.2]
  · rw [if_neg fun number => all number.2.1]
    cases behind : text.dropWhile Char.isDigit with
    | nil => exact absurd (List.all_eq_true.2 (List.dropWhile_eq_nil_iff.1 behind)) all
    | cons character rest =>
      split
      · rename_i same
        cases (Prod.mk.inj same).2
      · rfl

/-! ### Configurations -/

/-- The error and the configuration that are there after a text has been applied to one. -/
def settle {Config : Type} (config : Config) :
    Except ClientError Config → Option ClientError × Config
  | .ok applied => (none, applied)
  | .error error => (some error, config)

theorem assignSize_eq (settings : List Setting) (name : String) (minimum size : UInt64) :
    assignSize settings name minimum size =
      settle size (Setting.sizeOr settings name minimum.toNat size) := by
  unfold assignSize Setting.sizeOr
  rw [lookup_eq]
  cases Setting.find? settings name.toList with
  | none => rfl
  | some value =>
    dsimp only
    rw [parseSize_eq]
    split
    · split <;> rfl
    · rfl

/-- The configuration of a pool and the error are the same. -/
theorem poolConfig_eq (environment : Environment) (text : List Char) (config : PoolConfig) :
    poolConfig environment text config =
      settle config (config.parse environment text) := by
  have one : (1 : UInt64).toNat = 1 := rfl
  have zero : (0 : UInt64).toNat = 0 := rfl
  unfold poolConfig PoolConfig.parse
  simp only [pairs_eq, if_true, assignSize_eq, one, zero]
  generalize Setting.parse environment configDelimiter text = settings
  cases Setting.sizeOr settings "BlockSize" 1 config.blockSize with
  | error error => rfl
  | ok blockSize =>
    simp only [settle]
    cases Setting.sizeOr settings "MaxPooledBlocks" 0 config.maxPooledBlocks <;> rfl

/-- So are those of a stream. -/
theorem streamConfig_eq (environment : Environment) (text : List Char) (config : StreamConfig) :
    streamConfig environment text config =
      settle config (config.parse environment text) := by
  have zero : (0 : UInt64).toNat = 0 := rfl
  unfold streamConfig StreamConfig.parse
  simp only [pairs_eq, if_true, assignSize_eq, zero]
  generalize Setting.parse environment configDelimiter text = settings
  cases Setting.sizeOr settings "InitialDemand" 0 config.initialDemand <;> rfl

end Stepwise

end TabularStream
