/-
This file says what applying a text to a configuration does, without saying how. A text is made of
entries with delimiters between them, and each entry that is not empty is a setting. A field of a
configuration has a key; the last setting of its name has the say, and its value has to be a
decimal number with 64 bits once it is expanded. Either every field has the number of its setting
or, without one, what it had before, or nothing has changed.

Both configurations are read in this way, `PoolConfig.parses` and `StreamConfig.parses`, and what
is proved about keys holds for both. Two texts that are applied one after the other have the effect
of one text that is made of the two.
-/

import Mathlib.Data.List.Forall2
import Mathlib.Data.Nat.Digits.Defs
import TabularStream.Proofs.StepwiseSettings

namespace TabularStream

/-! ### The settings of a text -/

namespace Setting

variable {delimiter : Char} {text entry name value : List Char} {setting : Setting}
  {settings : List Setting}

/-- An entry and its setting. The name ends at the first `=`. -/
inductive Entry : List Char → Setting → Prop where
  | bare {entry : List Char} (plain : '=' ∉ entry) : Entry entry ⟨entry, []⟩
  | pair {name : List Char} (plain : '=' ∉ name) (value : List Char) :
      Entry (name ++ '=' :: value) ⟨name, value⟩

theorem entry_ofEntry (entry : List Char) : Entry entry (ofEntry entry) := by
  induction entry with
  | nil => exact .bare List.not_mem_nil
  | cons character entry inductionHypothesis =>
    rw [ofEntry_cons]
    split
    · rename_i same
      subst same
      exact .pair List.not_mem_nil entry
    · rename_i other
      have longer (name : List Char) (plain : '=' ∉ name) : '=' ∉ character :: name :=
        List.not_mem_cons_of_ne_of_not_mem (Ne.symm other) plain
      generalize ofEntry entry = setting at inductionHypothesis
      cases inductionHypothesis with
      | bare plain => exact .bare (longer _ plain)
      | pair plain value => exact .pair (longer _ plain) value

theorem entry_iff : Entry entry setting ↔ setting = ofEntry entry := by
  constructor
  · intro cut
    cases cut with
    | bare plain => exact (ofEntry_of_notMem plain).symm
    | pair plain value => exact (ofEntry_append plain value).symm
  · rintro rfl
    exact entry_ofEntry entry

/-- A text is made of entries with the delimiter between them, and the entries with a character are
those of the settings. -/
def Listed (delimiter : Char) (text : List Char) (settings : List Setting) : Prop :=
  ∃ entries : List (List Char), entries ≠ [] ∧ (∀ entry ∈ entries, delimiter ∉ entry) ∧
    text = [delimiter].intercalate entries ∧ List.Forall₂ Entry (entries.filter (· ≠ [])) settings

theorem listed_iff : Listed delimiter text settings ↔ settings = parseRaw delimiter text := by
  have cut (entries : List (List Char)) :
      List.Forall₂ Entry entries settings ↔ settings = entries.map ofEntry := by
    have same : Entry = fun entry setting => ofEntry entry = setting := by
      funext entry setting
      exact propext (entry_iff.trans eq_comm)
    rw [same, ← List.forall₂_map_left_iff (R := Eq), List.forall₂_eq_eq_eq, eq_comm]
  constructor
  · rintro ⟨entries, some, whole, rfl, read⟩
    rw [parseRaw, splitAt_intercalate some whole]
    exact (cut _).1 read
  · rintro rfl
    exact ⟨splitAt delimiter text, splitAt_ne_nil delimiter text,
      fun entry within => notMem_of_mem_splitAt within, (intercalate_splitAt delimiter text).symm,
      (cut _).2 rfl⟩

/-- Expanding the values keeps the settings of the two texts apart. -/
theorem parse_append (environment : Environment) (delimiter : Char) (front back : List Char) :
    parse environment delimiter (front ++ delimiter :: back) =
      parse environment delimiter front ++ parse environment delimiter back := by
  unfold parse
  rw [parseRaw_append, List.map_append]

/-! ### The last setting of a name -/

/-- The last setting of the name has the value. -/
def Last (settings : List Setting) (name value : List Char) : Prop :=
  ∃ before setting after, settings = before ++ setting :: after ∧
    sameName setting.name name = true ∧ setting.value = value ∧
    ∀ later ∈ after, sameName later.name name = false

theorem find?_eq_some_iff : find? settings name = some value ↔ Last settings name value := by
  unfold find?
  rw [Option.map_eq_some_iff]
  constructor
  · rintro ⟨setting, found, same⟩
    obtain ⟨named, after, before, split, others⟩ := List.find?_eq_some_iff_append.1 found
    refine ⟨before.reverse, setting, after.reverse, ?_, named, same, fun later within => ?_⟩
    · rw [← settings.reverse_reverse, split]
      simp
    · simpa using others later (List.mem_reverse.1 within)
  · rintro ⟨before, setting, after, rfl, named, same, others⟩
    refine ⟨setting, List.find?_eq_some_iff_append.2 ⟨named, after.reverse, before.reverse, ?_,
      fun later within => ?_⟩, same⟩
    · simp
    · rw [others later (List.mem_reverse.1 within)]
      rfl

theorem find?_append (front back : List Setting) (name : List Char) :
    find? (front ++ back) name = (find? back name).or (find? front name) := by
  unfold find?
  rw [List.reverse_append, List.find?_append, Option.map_or]

/-- Expanding the values does not change which setting is found. -/
theorem find?_parse (environment : Environment) (delimiter : Char) (text name : List Char) :
    find? (parse environment delimiter text) name =
      (find? (parseRaw delimiter text) name).map environment.expand := by
  unfold find? parse
  rw [← List.map_reverse, List.find?_map, Option.map_map, Option.map_map]
  rfl

end Setting

/-! ### Numbers -/

/-- A text is a decimal number. -/
def Denotes (text : List Char) (number : Nat) : Prop :=
  text ≠ [] ∧ (∀ character ∈ text, character.isDigit = true) ∧
    Nat.ofDigits 10 (text.reverse.map Stepwise.digitValue) = number

theorem ofDigits_eq (text : List Char) :
    ofDigits text = Nat.ofDigits 10 (text.reverse.map Stepwise.digitValue) := by
  rw [Nat.ofDigits_eq_foldr, List.foldr_map, List.foldr_reverse]
  unfold ofDigits
  exact congrArg (List.foldl · 0 text) (by funext number digit; exact Nat.add_comm _ _)

theorem parseSize_eq_ok_iff {minimum : Nat} {text : List Char} {size : UInt64} :
    parseSize minimum text = .ok size ↔ Denotes text size.toNat ∧ minimum ≤ size.toNat := by
  unfold parseSize Denotes
  rw [← ofDigits_eq]
  constructor
  · intro read
    split at read
    · rename_i number
      cases read
      rw [UInt64.toNat_ofNat_of_lt' number.2.2.2]
      exact ⟨⟨number.1, List.all_eq_true.1 number.2.1, rfl⟩, number.2.2.1⟩
    · cases read
  · rintro ⟨⟨some, digits, value⟩, enough⟩
    rw [value, if_pos ⟨some, List.all_eq_true.2 digits, enough, size.toNat_lt⟩, UInt64.ofNat_toNat]

theorem eq_of_parseSize_error {minimum : Nat} {text : List Char} {error : ClientError}
    (failed : parseSize minimum text = .error error) : error = .invalidConfigValue := by
  unfold parseSize at failed
  split at failed <;> cases failed
  rfl

/-! ### Keys -/

/-- A field of a configuration, the name of the settings for it, and the least number that it can
have. -/
structure Key (Config : Type) where
  name : String
  minimum : UInt64
  field : Config → UInt64

namespace Key

variable {Config : Type} (key : Key Config) {environment : Environment}
  {text value : List Char} {number : UInt64}

/-- The last setting for the field has the value, as it is written. -/
def LastValue (text value : List Char) : Prop :=
  ∃ settings, Setting.Listed configDelimiter text settings ∧
    Setting.Last settings key.name.toList value

/-- A value stands for a number that the field can have. -/
def Takes (value : List Char) (number : Nat) : Prop :=
  Denotes value number ∧ key.minimum.toNat ≤ number ∧ number < 2 ^ 64

/-- The number that the field has after a text has been applied. -/
def size (environment : Environment) (text : List Char) (current : UInt64) :
    Except ClientError UInt64 :=
  Setting.sizeOr (Setting.parse environment configDelimiter text) key.name key.minimum.toNat current

variable {key}

theorem lastValue_iff :
    key.LastValue text value ↔
      Setting.find? (Setting.parseRaw configDelimiter text) key.name.toList = some value := by
  rw [Setting.find?_eq_some_iff]
  constructor
  · rintro ⟨settings, listed, last⟩
    rwa [← Setting.listed_iff.1 listed]
  · exact fun last => ⟨_, Setting.listed_iff.2 rfl, last⟩

theorem size_of_lastValue (last : key.LastValue text value) (environment : Environment)
    (current : UInt64) :
    key.size environment text current =
      parseSize key.minimum.toNat (environment.expand value) := by
  unfold size Setting.sizeOr
  rw [Setting.find?_parse, lastValue_iff.1 last]
  rfl

theorem size_of_absent (absent : ¬ ∃ value, key.LastValue text value) (environment : Environment)
    (current : UInt64) : key.size environment text current = .ok current := by
  have none : Setting.find? (Setting.parseRaw configDelimiter text) key.name.toList = none :=
    Option.eq_none_iff_forall_ne_some.2 fun value found => absent ⟨value, lastValue_iff.2 found⟩
  unfold size Setting.sizeOr
  rw [Setting.find?_parse, none]
  rfl

theorem takes_of_size (last : key.LastValue text value) {current : UInt64}
    (read : key.size environment text current = .ok number) :
    key.Takes (environment.expand value) number.toNat := by
  rw [size_of_lastValue last] at read
  obtain ⟨denotes, enough⟩ := parseSize_eq_ok_iff.1 read
  exact ⟨denotes, enough, number.toNat_lt⟩

/-- The field gets a number if the value of the last setting for it, if there is one, is one that
it can have. -/
theorem exists_size (current : UInt64)
    (usable : ∀ value, key.LastValue text value →
      ∃ number, key.Takes (environment.expand value) number) :
    ∃ size, key.size environment text current = .ok size := by
  by_cases present : ∃ value, key.LastValue text value
  · obtain ⟨value, last⟩ := present
    obtain ⟨number, denotes, enough, fits⟩ := usable value last
    have word : (UInt64.ofNat number).toNat = number := UInt64.toNat_ofNat_of_lt' fits
    refine ⟨.ofNat number, ?_⟩
    rw [size_of_lastValue last, parseSize_eq_ok_iff, word]
    exact ⟨denotes, enough⟩
  · exact ⟨current, size_of_absent present environment current⟩

theorem eq_of_size_error {current : UInt64} {error : ClientError}
    (failed : key.size environment text current = .error error) : error = .invalidConfigValue := by
  unfold size Setting.sizeOr at failed
  split at failed
  · exact eq_of_parseSize_error failed
  · cases failed

/-- A field that a second text sets has the number from there, and otherwise the one that the first
text leaves it with. -/
theorem size_append {front back : List Char} {current middle : UInt64}
    (first : key.size environment front current = .ok middle)
    (second : key.size environment back middle = .ok number) :
    key.size environment (front ++ configDelimiter :: back) current = .ok number := by
  unfold Key.size Setting.sizeOr at *
  rw [Setting.parse_append, Setting.find?_append]
  cases found : Setting.find? (Setting.parse environment configDelimiter back) key.name.toList with
  | some value =>
    rw [found] at second
    exact second
  | none =>
    rw [found] at second
    cases second
    exact first

end Key

/-! ### Configurations -/

/-- What is left behind after a text has been applied to a configuration with the given keys. -/
structure Applied {Config : Type} (keys : List (Key Config)) (environment : Environment)
    (text : List Char) (config : Config) (left : Option ClientError × Config) : Prop where
  success_iff : left.1 = none ↔ ∀ key ∈ keys, ∀ value, key.LastValue text value →
    ∃ number, key.Takes (environment.expand value) number
  present : left.1 = none → ∀ key ∈ keys, ∀ value, key.LastValue text value →
    Denotes (environment.expand value) (key.field left.2).toNat
  absent : left.1 = none → ∀ key ∈ keys, (¬ ∃ value, key.LastValue text value) →
    key.field left.2 = key.field config
  failure : left.1 ≠ none → left = (some .invalidConfigValue, config)

/-- A configuration is read key by key. -/
structure Parses {Config : Type} (keys : List (Key Config))
    (parse : Environment → List Char → Config → Except ClientError Config) : Prop where
  ok_iff {environment : Environment} {text : List Char} {config applied : Config} :
    parse environment text config = .ok applied ↔
      ∀ key ∈ keys, key.size environment text (key.field config) = .ok (key.field applied)
  total {environment : Environment} {text : List Char} {config : Config} :
    (∀ key ∈ keys, ∃ size, key.size environment text (key.field config) = .ok size) →
      ∃ applied, parse environment text config = .ok applied
  error {environment : Environment} {text : List Char} {config : Config} {error : ClientError} :
    parse environment text config = .error error → error = .invalidConfigValue

namespace Parses

variable {Config : Type} {keys : List (Key Config)} {environment : Environment}
  {parse : Environment → List Char → Config → Except ClientError Config} {config : Config}

theorem applied (parses : Parses keys parse) (environment : Environment) (text : List Char)
    (config : Config) :
    Applied keys environment text config
      (Stepwise.settle config (parse environment text config)) := by
  cases read : parse environment text config with
  | ok applied =>
    have sizes := parses.ok_iff.1 read
    have takes (key : Key Config) (within : key ∈ keys) (value : List Char)
        (last : key.LastValue text value) :
        key.Takes (environment.expand value) (key.field applied).toNat :=
      Key.takes_of_size last (sizes key within)
    refine ⟨iff_of_true rfl fun key within value last => ⟨_, takes key within value last⟩,
      fun _ key within value last => (takes key within value last).1,
      fun _ key within absent => ?_, fun failed => absurd rfl failed⟩
    have kept := sizes key within
    rw [Key.size_of_absent absent] at kept
    exact (Except.ok.inj kept).symm
  | error error =>
    have same := parses.error read
    subst same
    refine ⟨iff_of_false nofun fun usable => ?_, nofun, nofun, fun _ => rfl⟩
    obtain ⟨applied, success⟩ :=
      parses.total fun key within => Key.exists_size (key.field config) (usable key within)
    cases read.symm.trans success

theorem append (parses : Parses keys parse) {front back : List Char} {middle applied : Config}
    (first : parse environment front config = .ok middle)
    (second : parse environment back middle = .ok applied) :
    parse environment (front ++ configDelimiter :: back) config = .ok applied :=
  parses.ok_iff.2 fun key within =>
    Key.size_append (parses.ok_iff.1 first key within) (parses.ok_iff.1 second key within)

end Parses

/-- The fields of the configuration of a pool. -/
def PoolConfig.keys : List (Key PoolConfig) :=
  [⟨"BlockSize", 1, PoolConfig.blockSize⟩, ⟨"MaxPooledBlocks", 0, PoolConfig.maxPooledBlocks⟩]

/-- The fields of the configuration of a stream. -/
def StreamConfig.keys : List (Key StreamConfig) :=
  [⟨"InitialDemand", 0, StreamConfig.initialDemand⟩]

/-- The block size is read before the number of free blocks. -/
theorem PoolConfig.parse_eq (environment : Environment) (text : List Char) (config : PoolConfig) :
    config.parse environment text = do
      let blockSize ← Key.size ⟨"BlockSize", 1, PoolConfig.blockSize⟩ environment text
        config.blockSize
      let maxPooledBlocks ← Key.size ⟨"MaxPooledBlocks", 0, PoolConfig.maxPooledBlocks⟩ environment
        text config.maxPooledBlocks
      return { blockSize, maxPooledBlocks } := rfl

theorem PoolConfig.parses : Parses PoolConfig.keys PoolConfig.parse where
  ok_iff {environment text config applied} := by
    rw [PoolConfig.keys, List.forall_mem_cons, List.forall_mem_singleton, PoolConfig.parse_eq]
    constructor
    · intro success
      obtain ⟨blockSize, first, success⟩ := bind_inversion success
      obtain ⟨maxPooledBlocks, second, success⟩ := bind_inversion success
      cases success
      exact ⟨first, second⟩
    · rintro ⟨first, second⟩
      rw [first, second]
      rfl
  total {environment text config} sizes := by
    rw [PoolConfig.keys, List.forall_mem_cons, List.forall_mem_singleton] at sizes
    obtain ⟨⟨blockSize, first⟩, ⟨maxPooledBlocks, second⟩⟩ := sizes
    refine ⟨⟨blockSize, maxPooledBlocks⟩, ?_⟩
    rw [PoolConfig.parse_eq, first, second]
    rfl
  error {environment text config error} failed := by
    rw [PoolConfig.parse_eq] at failed
    cases first : Key.size ⟨"BlockSize", 1, PoolConfig.blockSize⟩ environment text
        config.blockSize with
    | error unusable =>
      rw [first] at failed
      cases failed
      exact Key.eq_of_size_error first
    | ok blockSize =>
      cases second : Key.size ⟨"MaxPooledBlocks", 0, PoolConfig.maxPooledBlocks⟩ environment text
          config.maxPooledBlocks with
      | error unusable =>
        rw [first, second] at failed
        cases failed
        exact Key.eq_of_size_error second
      | ok maxPooledBlocks =>
        rw [first, second] at failed
        cases failed

theorem StreamConfig.parse_eq (environment : Environment) (text : List Char)
    (config : StreamConfig) :
    config.parse environment text = do
      let initialDemand ← Key.size ⟨"InitialDemand", 0, StreamConfig.initialDemand⟩ environment text
        config.initialDemand
      return { initialDemand } := rfl

theorem StreamConfig.parses : Parses StreamConfig.keys StreamConfig.parse where
  ok_iff {environment text config applied} := by
    rw [StreamConfig.keys, List.forall_mem_singleton, StreamConfig.parse_eq]
    constructor
    · intro success
      obtain ⟨initialDemand, read, success⟩ := bind_inversion success
      cases success
      exact read
    · intro read
      rw [read]
      rfl
  total {environment text config} sizes := by
    rw [StreamConfig.keys, List.forall_mem_singleton] at sizes
    obtain ⟨initialDemand, read⟩ := sizes
    refine ⟨⟨initialDemand⟩, ?_⟩
    rw [StreamConfig.parse_eq, read]
    rfl
  error {environment text config error} failed := by
    rw [StreamConfig.parse_eq] at failed
    cases read : Key.size ⟨"InitialDemand", 0, StreamConfig.initialDemand⟩ environment text
        config.initialDemand with
    | error unusable =>
      rw [read] at failed
      cases failed
      exact Key.eq_of_size_error read
    | ok initialDemand =>
      rw [read] at failed
      cases failed

/-- A text is applied to a configuration if, for every key, the last setting with its name stands
for a number that the key can have, once its value is expanded. Then the fields that have a setting
hold its number and the others what they held before. Otherwise there is an error and nothing has
changed. -/
theorem configurations_are_exact (environment : Environment) (text : List Char) :
    (∀ config : PoolConfig,
      Stepwise.poolConfig environment text config =
        Stepwise.settle config (config.parse environment text) ∧
      Applied PoolConfig.keys environment text config
        (Stepwise.poolConfig environment text config)) ∧
    ∀ config : StreamConfig,
      Stepwise.streamConfig environment text config =
        Stepwise.settle config (config.parse environment text) ∧
      Applied StreamConfig.keys environment text config
        (Stepwise.streamConfig environment text config) := by
  constructor
  · intro config
    have same := Stepwise.poolConfig_eq environment text config
    refine ⟨same, ?_⟩
    rw [same]
    exact PoolConfig.parses.applied environment text config
  · intro config
    have same := Stepwise.streamConfig_eq environment text config
    refine ⟨same, ?_⟩
    rw [same]
    exact StreamConfig.parses.applied environment text config

/-- When a text can be applied to a configuration and another text to the result, the two texts with
a delimiter between them can be applied at once and have the same result. -/
theorem configuration_texts_compose (environment : Environment) (front back : List Char) :
    (∀ config middle applied : PoolConfig,
      config.parse environment front = .ok middle →
      middle.parse environment back = .ok applied →
      config.parse environment (front ++ configDelimiter :: back) = .ok applied) ∧
    ∀ config middle applied : StreamConfig,
      config.parse environment front = .ok middle →
      middle.parse environment back = .ok applied →
      config.parse environment (front ++ configDelimiter :: back) = .ok applied :=
  ⟨fun _ _ _ first second => PoolConfig.parses.append first second,
    fun _ _ _ first second => StreamConfig.parses.append first second⟩

/-- An environment in which a size is set. -/
def sizeEnvironment : Environment := fun name =>
  if name = "SIZE".toList then some "4096".toList else none

theorem configuration_texts_compose_variableSize :
    PoolConfig.parse sizeEnvironment "BlockSize=$SIZE;InitialDemand=7".toList ⟨8192, 16⟩ =
      .ok ⟨4096, 16⟩ ∧
    PoolConfig.parse sizeEnvironment ";maxpooledblocks=2".toList ⟨4096, 16⟩ = .ok ⟨4096, 2⟩ ∧
    PoolConfig.parse sizeEnvironment
      ("BlockSize=$SIZE;InitialDemand=7".toList ++ configDelimiter :: ";maxpooledblocks=2".toList)
      ⟨8192, 16⟩ = .ok ⟨4096, 2⟩ ∧
    StreamConfig.parse sizeEnvironment "BlockSize=$SIZE;InitialDemand=7".toList ⟨0⟩ = .ok ⟨7⟩ ∧
    StreamConfig.parse sizeEnvironment ";maxpooledblocks=2".toList ⟨7⟩ = .ok ⟨7⟩ ∧
    StreamConfig.parse sizeEnvironment
      ("BlockSize=$SIZE;InitialDemand=7".toList ++ configDelimiter :: ";maxpooledblocks=2".toList)
      ⟨0⟩ = .ok ⟨7⟩ := by
  have size : sizeEnvironment.expand "$SIZE".toList = "4096".toList := by
    have found : Reference.parse? "$SIZE".toList = some (⟨.plain, "SIZE".toList⟩, []) := by decide
    rw [Environment.expand_reference _ found, Environment.expand_nil]
    rfl
  have digit (character : Char) (missing : Reference.parse? [character] = none) :
      sizeEnvironment.expand [character] = [character] := by
    rw [Environment.expand_character _ missing, Environment.expand_nil]
  have seven : sizeEnvironment.expand "7".toList = "7".toList := digit '7' (by decide)
  have two : sizeEnvironment.expand "2".toList = "2".toList := digit '2' (by decide)
  have front : Setting.parse sizeEnvironment configDelimiter
      "BlockSize=$SIZE;InitialDemand=7".toList =
      [⟨"BlockSize".toList, "4096".toList⟩, ⟨"InitialDemand".toList, "7".toList⟩] := by
    have raw : Setting.parseRaw configDelimiter "BlockSize=$SIZE;InitialDemand=7".toList =
        [⟨"BlockSize".toList, "$SIZE".toList⟩, ⟨"InitialDemand".toList, "7".toList⟩] := by decide
    rw [Setting.parse, raw, List.map_cons, List.map_singleton, Setting.expand, Setting.expand, size,
      seven]
  have back : Setting.parse sizeEnvironment configDelimiter ";maxpooledblocks=2".toList =
      [⟨"maxpooledblocks".toList, "2".toList⟩] := by
    have raw : Setting.parseRaw configDelimiter ";maxpooledblocks=2".toList =
        [⟨"maxpooledblocks".toList, "2".toList⟩] := by decide
    rw [Setting.parse, raw, List.map_singleton, Setting.expand, two]
  have poolFront : PoolConfig.parse sizeEnvironment "BlockSize=$SIZE;InitialDemand=7".toList
      ⟨8192, 16⟩ = .ok ⟨4096, 16⟩ := by
    rw [PoolConfig.parse, front]
    decide
  have poolBack : PoolConfig.parse sizeEnvironment ";maxpooledblocks=2".toList ⟨4096, 16⟩ =
      .ok ⟨4096, 2⟩ := by
    rw [PoolConfig.parse, back]
    decide
  have streamFront : StreamConfig.parse sizeEnvironment "BlockSize=$SIZE;InitialDemand=7".toList
      ⟨0⟩ = .ok ⟨7⟩ := by
    rw [StreamConfig.parse, front]
    decide
  have streamBack : StreamConfig.parse sizeEnvironment ";maxpooledblocks=2".toList ⟨7⟩ =
      .ok ⟨7⟩ := by
    rw [StreamConfig.parse, back]
    decide
  obtain ⟨pools, streams⟩ := configuration_texts_compose sizeEnvironment
    "BlockSize=$SIZE;InitialDemand=7".toList ";maxpooledblocks=2".toList
  exact ⟨poolFront, poolBack, pools _ _ _ poolFront poolBack, streamFront, streamBack,
    streams _ _ _ streamFront streamBack⟩

end TabularStream
