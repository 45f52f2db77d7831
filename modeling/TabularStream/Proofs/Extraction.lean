/-
This file is about large objects that are taken out of rows. `Lob.extract` takes one step by step:
it looks at the type, takes the data out of the row, and looks at the type again when it makes the
object. If it failed there, the data would be lost. It does not, because both looks see the same
type, so it fails only as long as nothing has changed, `Lob.extract_eq`.

An object is read once at most. What an operation of a session does to it is said by `Op.onLob`,
and `lob_step` proves it. A run does this step by step, so once an object has been read or discarded
nothing gives it another value.
-/

import TabularStream.Proofs.Handover

namespace TabularStream

/-! ### Taking step by step -/

namespace Lob

/-- What taking a large object out of a row leaves, also when it fails. -/
structure Extraction where
  pool : Pool
  row : Row
  result : Except Failure (Option Lob)

/-- Take the large object of a column out of a row. When the type is refused after the data has been
taken, the data goes back to the pool. -/
def extract (kind : LargeObjectKind) (row : Row) (index : Nat) (type : ColumnType)
    (config : StreamConfig) (pool : Pool) : Extraction :=
  if kind.accepts type then
    match row.take index with
    | .error failure => ⟨pool, row, .error failure⟩
    | .ok (none, row) => ⟨pool, row, .ok none⟩
    | .ok (some value, row) =>
      match ofValue kind value type config with
      | .ok lob => ⟨pool, row, .ok (some lob)⟩
      | .error failure => ⟨value.release pool, row, .error failure⟩
  else ⟨pool, row, .error (.client .decodePreconditionViolated)⟩

/-- Nothing has changed when it fails. -/
theorem extract_eq (kind : LargeObjectKind) (row : Row) (index : Nat) (type : ColumnType)
    (config : StreamConfig) (pool : Pool) :
    extract kind row index type config pool =
      match ofRow kind row index type config with
      | .ok (found, left) => ⟨pool, left, .ok found⟩
      | .error failure => ⟨pool, row, .error failure⟩ := by
  unfold extract ofRow ofValue
  split
  · obtain failure | ⟨_ | value, left⟩ := row.take index <;> rfl
  · rfl

/-- The object when it has been read or discarded. -/
def emptied (lob : Lob) : Lob := { lob with value := none }

/-- The stream that the object can be turned into, unless it has been read or discarded. -/
def stream? (lob : Lob) : Option Stream :=
  lob.value.map fun value => Stream.ofValue lob.kind value lob.type lob.config

theorem stream_eq (lob : Lob) :
    lob.stream =
      match lob.stream? with
      | some stream => .ok (stream, lob.emptied)
      | none => .error .alreadyConsumed := by
  unfold stream stream?
  cases lob.value <;> rfl

end Lob

namespace Session

variable {session : Session} {place index : Nat} {row : Row}

/-- The outcome of a session in which a large object has been taken out of the row at a place. -/
def afterExtraction (session : Session) (place : Nat) (extraction : Lob.Extraction) : Outcome :=
  let after := { session with
    pool := extraction.pool, rows := session.rows.set place (some extraction.row) }
  match extraction.result with
  | .error failure => ⟨after, .error failure⟩
  | .ok none => ⟨after, .ok (.moved none)⟩
  | .ok (some lob) => ⟨(after.addLob lob).1, .ok (.moved (some session.lobs.length))⟩

theorem lobOfRow_of_row (there : session.rows[place]? = some (some row)) (kind : LargeObjectKind)
    (type : ColumnType) (config : StreamConfig) :
    (session.rowAt place).bind (Lob.ofRow kind · index type config) =
      Lob.ofRow kind row index type config := by
  rw [rowAt_eq_ok_iff.2 there]
  rfl

theorem step_extract (there : session.rows[place]? = some (some row)) (kind : LargeObjectKind)
    (index : Nat) (type : ColumnType) (demand : UInt64) :
    session.step (.value (.lobOfRow kind place index type demand)) =
      session.afterExtraction place (Lob.extract kind row index type ⟨demand⟩ session.pool) := by
  have same : session.rows.set place (some row) = session.rows := by
    obtain ⟨inside, held⟩ := List.getElem?_eq_some_iff.1 there
    rw [← held, List.set_getElem_self]
  rw [step_lobOfRow, lobOfRow_of_row there, Lob.extract_eq, afterExtraction]
  cases found : Lob.ofRow kind row index type ⟨demand⟩ with
  | error failure =>
    dsimp only
    rw [same]
    rfl
  | ok pair =>
    obtain ⟨_ | lob, left⟩ := pair
    · obtain ⟨value, taken, none⟩ := Lob.ofRow_inversion found
      obtain ⟨-, -, rfl⟩ | ⟨_, -, rfl, -⟩ := Row.take_inversion taken
      · dsimp only
        rw [same]
        rfl
      · cases none
    · rfl

/-- What taking a large object out of a slot gives, if the next object is made at some place. -/
def extractResult (kind : LargeObjectKind) (type : ColumnType) (slot : Option Slot) (made : Nat) :
    Except Failure Reply :=
  if kind.accepts type then takeResult slot made
  else .error (.client .decodePreconditionViolated)

theorem result_lobOfRow (there : session.rows[place]? = some (some row)) (kind : LargeObjectKind)
    (index : Nat) (type : ColumnType) (demand : UInt64) :
    (session.step (.value (.lobOfRow kind place index type demand))).result =
      extractResult kind type row.slots[index]? session.lobs.length := by
  rw [step_lobOfRow, lobOfRow_of_row there]
  unfold extractResult Lob.ofRow Row.take
  by_cases accepts : kind.accepts type = true
  · rw [if_pos accepts, if_pos accepts]
    obtain _ | _ | _ | _ | _ := row.slots[index]? <;> rfl
  · rw [if_neg accepts, if_neg accepts]
    rfl

theorem step_lobOfRow_of_owned (there : session.rows[place]? = some (some row))
    {kind : LargeObjectKind} {type : ColumnType} {value : Value}
    (accepts : kind.accepts type = true) (owned : row.slots[index]? = some (.owned value))
    (demand : UInt64) :
    session.step (.value (.lobOfRow kind place index type demand)) =
      ⟨{ session with
        rows := session.rows.set place (some (row.setSlot index .transferred)),
        lobs := session.lobs ++ [some ⟨kind, some value, type, ⟨demand⟩⟩] },
        .ok (.moved (some session.lobs.length))⟩ := by
  rw [step_lobOfRow, lobOfRow_of_row there]
  unfold Lob.ofRow Row.take
  rw [if_pos accepts, owned]
  rfl

/-! ### What happens to a large object -/

/-- What an operation makes of the large object at a place. -/
def Op.onLob (place : Nat) (op : Op) (entry : Option Lob) : Option Lob :=
  match op with
  | .value (.openLob target) | .value (.discardLob target) =>
    if target = place then entry.map Lob.emptied else entry
  | .value (.dropLob target) => if target = place then none else entry
  | _ => entry

theorem lobAt_of_some {lob : Lob} (there : session.lobs[place]? = some (some lob)) :
    session.lobAt place = .ok lob := by
  rw [lobAt, objectAt, there]

theorem lobAt_of_none (there : session.lobs[place]? = some none) :
    session.lobAt place = .error .unknownHandle := by
  rw [lobAt, objectAt, there]

theorem step_openLob (session : Session) (place : Nat) :
    session.step (.value (.openLob place)) =
      match (session.lobAt place).bind Lob.stream with
      | .error failure => ⟨session, .error failure⟩
      | .ok (stream, left) =>
        ⟨{ session with
          lobs := session.lobs.set place (some left), streams := session.streams ++ [some stream] },
          .ok (.made session.streams.length)⟩ := by
  show session.performValue (.openLob place) = _
  unfold performValue
  dsimp only
  cases session.lobAt place with
  | error failure => rfl
  | ok lob =>
    change session.attempt (lob.stream >>= _) =
      match lob.stream with | .error _ => _ | .ok (_, _) => _
    cases lob.stream <;> rfl

theorem step_discardLob (session : Session) (place : Nat) :
    session.step (.value (.discardLob place)) =
      match session.lobAt place with
      | .error failure => ⟨session, .error failure⟩
      | .ok lob =>
        ⟨{ session with
          pool := session.pool.releaseAll lob.slices,
          lobs := session.lobs.set place (some lob.emptied) }, .ok .nothing⟩ := by
  show session.performValue (.discardLob place) = _
  unfold performValue
  dsimp only
  cases session.lobAt place <;> rfl

theorem step_dropLob (session : Session) (place : Nat) :
    session.step (.value (.dropLob place)) =
      match session.lobs[place]? with
      | none => ⟨session, .error .unknownHandle⟩
      | some entry =>
        ⟨{ session with
          pool := session.pool.releaseAll ((entry.map Lob.slices).getD []),
          lobs := session.lobs.set place none }, .ok .nothing⟩ := by
  show session.performValue (.dropLob place) = _
  unfold performValue slicesAt placeAt
  dsimp only
  cases session.lobs[place]? <;> rfl

/-- Reading an object that has been read already leaves it as it is, which is empty. -/
theorem lob_openLob {entry : Option Lob} (there : session.lobs[place]? = some entry) :
    (session.step (.value (.openLob place))).session.lobs[place]? =
      some (entry.map Lob.emptied) := by
  obtain ⟨inside, -⟩ := List.getElem?_eq_some_iff.1 there
  rw [step_openLob]
  cases entry with
  | none =>
    rw [lobAt_of_none there]
    exact there
  | some lob =>
    rw [lobAt_of_some there]
    obtain ⟨kind, value, type, config⟩ := lob
    cases value with
    | none => exact there
    | some value => exact List.getElem?_set_self inside

theorem lob_discardLob {entry : Option Lob} (there : session.lobs[place]? = some entry) :
    (session.step (.value (.discardLob place))).session.lobs[place]? =
      some (entry.map Lob.emptied) := by
  obtain ⟨inside, -⟩ := List.getElem?_eq_some_iff.1 there
  rw [step_discardLob]
  cases entry with
  | none =>
    rw [lobAt_of_none there]
    exact there
  | some lob =>
    rw [lobAt_of_some there]
    exact List.getElem?_set_self inside

theorem lob_dropLob {entry : Option Lob} (there : session.lobs[place]? = some entry) :
    (session.step (.value (.dropLob place))).session.lobs[place]? = some none := by
  obtain ⟨inside, -⟩ := List.getElem?_eq_some_iff.1 there
  rw [step_dropLob, there]
  exact List.getElem?_set_self inside

/-- The large object that an operation reads, discards or drops. -/
def Op.lob? : Op → Option Nat
  | .value (.openLob target) | .value (.discardLob target) | .value (.dropLob target) => some target
  | _ => none

theorem Op.onLob_of_other {op : Op} (other : op.lob? ≠ some place) (entry : Option Lob) :
    op.onLob place entry = entry := by
  unfold Op.onLob
  split
  · exact if_neg fun same => other (congrArg some same)
  · exact if_neg fun same => other (congrArg some same)
  · exact if_neg fun same => other (congrArg some same)
  · rfl

/-- A new large object is put behind the others. -/
theorem lob_performValue (inside : place < session.lobs.length) {op : ValueOp}
    (other : (Op.value op).lob? ≠ some place) :
    (session.performValue op).session.lobs[place]? = session.lobs[place]? := by
  have apart {target : Nat} (other : some target ≠ some place) : target ≠ place :=
    fun same => other (congrArg some same)
  cases op with
  | ofBytes bytes =>
    cases bytes with
    | none => rfl
    | some bytes => exact same_attempt_bind (·.lobs[place]?) fun _ => rfl
  | view =>
    exact same_attempt_bind (·.lobs[place]?) fun _ =>
      same_attempt_bind (·.lobs[place]?) fun _ => rfl
  | lob kind value type demand =>
    unfold performValue makeLob
    dsimp only
    split
    · rfl
    · split
      · exact List.getElem?_append_left inside
      · rfl
  | lobOfRow kind row column type demand =>
    refine same_attempt_bind (·.lobs[place]?) fun _ =>
      same_attempt_bind (·.lobs[place]?) fun found => ?_
    obtain ⟨_ | lob, left⟩ := found
    · rfl
    · exact List.getElem?_append_left inside
  | openLob target =>
    exact same_attempt_bind (·.lobs[place]?) fun _ =>
      same_attempt_bind (·.lobs[place]?) fun _ => List.getElem?_set_ne (apart other)
  | discardLob target | dropLob target =>
    exact same_attempt_bind (·.lobs[place]?) fun _ => List.getElem?_set_ne (apart other)
  | _ => exact same_attempt_bind (·.lobs[place]?) fun _ => rfl

theorem lob_of_other (inside : place < session.lobs.length) {op : Op}
    (other : op.lob? ≠ some place) :
    (session.step op).session.lobs[place]? = session.lobs[place]? := by
  cases op with
  | value op => exact lob_performValue inside other
  | buffer op => exact same_performBuffer (·.lobs[place]?) (fun _ _ _ => rfl) op
  | row op => exact same_performRow (·.lobs[place]?) (fun _ _ _ _ _ => rfl) op
  | slice op => exact same_performSlice (·.lobs[place]?) (fun _ _ _ => rfl) op
  | composite op => exact same_performComposite (·.lobs[place]?) (fun _ _ _ _ => rfl) op

theorem lob_step {entry : Option Lob} (there : session.lobs[place]? = some entry) (op : Op) :
    (session.step op).session.lobs[place]? = some (op.onLob place entry) := by
  by_cases named : op.lob? = some place
  · unfold Op.lob? at named
    split at named
    · cases named
      exact (lob_openLob there).trans (congrArg some (if_pos rfl).symm)
    · cases named
      exact (lob_discardLob there).trans (congrArg some (if_pos rfl).symm)
    · cases named
      exact (lob_dropLob there).trans (congrArg some (if_pos rfl).symm)
    · cases named
  · obtain ⟨inside, -⟩ := List.getElem?_eq_some_iff.1 there
    rw [lob_of_other inside named, there, Op.onLob_of_other named]

/-! ### Reading once -/

/-- The stream that an operation makes of the large object at a place. -/
def opened (place : Nat) (session : Session) (op : Op) : Option Stream :=
  match op, (session.step op).result with
  | .value (.openLob target), .ok (.made made) =>
    if target = place then (session.step op).session.streams[made]?.join else none
  | _, _ => none

theorem opened_openLob {entry : Option Lob} (there : session.lobs[place]? = some entry) :
    session.opened place (.value (.openLob place)) = entry.bind Lob.stream? := by
  unfold opened
  rw [step_openLob]
  cases entry with
  | none =>
    rw [lobAt_of_none there]
    rfl
  | some lob =>
    have read : (Except.ok lob : Except Failure Lob).bind Lob.stream = lob.stream := rfl
    rw [lobAt_of_some there, read, Lob.stream_eq, Option.bind_some]
    cases lob.stream? with
    | none => rfl
    | some stream =>
      dsimp only
      rw [if_pos rfl, List.getElem?_concat_length]
      rfl

theorem opened_of_ne {op : Op} (other : op ≠ .value (.openLob place)) :
    session.opened place op = none := by
  unfold opened
  split
  · exact if_neg fun same => other (by rw [same])
  · rfl

theorem stream?_onLob (place : Nat) (op : Op) (entry : Option Lob) :
    (op.onLob place entry).bind Lob.stream? = none ∨
      (op.onLob place entry).bind Lob.stream? = entry.bind Lob.stream? := by
  have emptied : (entry.map Lob.emptied).bind Lob.stream? = none := by cases entry <;> rfl
  unfold Op.onLob
  split
  · split
    · exact .inl emptied
    · exact .inr rfl
  · split
    · exact .inl emptied
    · exact .inr rfl
  · split
    · exact .inl rfl
    · exact .inr rfl
  · exact .inr rfl

/-- In a whole run at most one stream is made of a large object, the one that it can be turned into
at first. -/
theorem gather_opened {entry : Option Lob} (there : session.lobs[place]? = some entry)
    (ops : List Op) :
    (gather (opened place) session ops).Sublist (entry.bind Lob.stream?).toList := by
  induction ops generalizing session entry with
  | nil => exact List.nil_sublist _
  | cons op rest inductionHypothesis =>
    have later := inductionHypothesis (lob_step there op)
    show ((session.opened place op).toList ++ _).Sublist _
    by_cases opens : op = .value (.openLob place)
    · subst opens
      have gone : (Op.onLob place (.value (.openLob place)) entry).bind Lob.stream? = none := by
        rw [Op.onLob, if_pos rfl]
        cases entry <;> rfl
      rw [gone, Option.toList_none, List.sublist_nil] at later
      rw [later, List.append_nil, opened_openLob there]
    · rw [opened_of_ne opens, Option.toList_none, List.nil_append]
      rcases stream?_onLob place op entry with gone | same
      · rw [gone, Option.toList_none, List.sublist_nil] at later
        rw [later]
        exact List.nil_sublist _
      · rwa [same] at later

/-- Does the operation read or discard the large object at the place? -/
def Op.consumes (place : Nat) : Op → Bool
  | .value (.openLob target) | .value (.discardLob target) => target == place
  | _ => false

theorem Op.lob?_of_consumes {op : Op} (consumes : op.consumes place = true) :
    op.lob? = some place := by
  unfold Op.consumes at consumes
  split at consumes
  · exact congrArg some (eq_of_beq consumes)
  · exact congrArg some (eq_of_beq consumes)
  · cases consumes

theorem Op.onLob_some {op : Op} (kept : op ≠ .value (.dropLob place)) (lob : Lob) :
    op.onLob place (some lob) = some (if op.consumes place then lob.emptied else lob) := by
  by_cases named : op.lob? = some place
  · unfold Op.lob? at named
    split at named
    · cases named
      rw [Op.onLob, Op.consumes, if_pos rfl, beq_self_eq_true, if_pos rfl, Option.map_some]
    · cases named
      rw [Op.onLob, Op.consumes, if_pos rfl, beq_self_eq_true, if_pos rfl, Option.map_some]
    · cases named
      exact absurd rfl kept
    · cases named
  · rw [Op.onLob_of_other named, if_neg fun consumes => named (Op.lob?_of_consumes consumes)]

theorem lob_after_of_kept {lob : Lob} (there : session.lobs[place]? = some (some lob))
    {ops : List Op} (kept : ∀ op ∈ ops, op ≠ .value (.dropLob place)) :
    (session.after ops).lobs[place]? =
      some (some (if ops.any (Op.consumes place) then lob.emptied else lob)) := by
  induction ops generalizing session lob with
  | nil => exact there
  | cons op rest inductionHypothesis =>
    obtain ⟨here, kept⟩ := List.forall_mem_cons.1 kept
    have next := lob_step there op
    rw [Op.onLob_some here] at next
    have later := inductionHypothesis next kept
    show ((session.step op).session.after rest).lobs[place]? = _
    rw [later, List.any_cons]
    cases op.consumes place <;> cases rest.any (Op.consumes place) <;> rfl

theorem result_viewLob {lob : Lob} (there : session.lobs[place]? = some (some lob)) :
    (session.step (.value (.viewLob place))).result = .ok (.lob lob.owns lob.type.serverType) := by
  show (session.performValue (.viewLob place)).result = _
  unfold performValue
  dsimp only
  rw [lobAt_of_some there]
  rfl

/-- A large object can be turned into a stream, but once at most. -/
structure ReadOnce (session : Session) (place : Nat) (type : ColumnType) (stream : Stream) :
    Prop where
  once (ops : List Op) : (gather (opened place) session ops).Sublist [stream]
  /-- Until it is read, discarded or dropped it owns its value. -/
  unread (ops : List Op) : (∀ op ∈ ops, op.lob? ≠ some place) →
    ((session.after ops).step (.value (.viewLob place))).result =
      .ok (.lob true type.serverType) ∧
    (session.after ops).opened place (.value (.openLob place)) = some stream
  /-- When it has been read or discarded it owns nothing and cannot be read again. -/
  consumed (ops : List Op) : (∀ op ∈ ops, op ≠ .value (.dropLob place)) →
    (∃ op ∈ ops, op.consumes place = true) →
    ((session.after ops).step (.value (.viewLob place))).result =
      .ok (.lob false type.serverType) ∧
    (session.after ops).step (.value (.openLob place)) =
      ⟨session.after ops, .error .alreadyConsumed⟩

theorem readOnce_of_lob {kind : LargeObjectKind} {value : Value} {type : ColumnType}
    {config : StreamConfig}
    (there : session.lobs[place]? = some (some ⟨kind, some value, type, config⟩)) :
    session.ReadOnce place type (Stream.ofValue kind value type config) where
  once ops := gather_opened there ops
  unread ops untouched := by
    have idle : ¬ ops.any (Op.consumes place) = true := fun some => by
      obtain ⟨op, within, consumes⟩ := List.any_eq_true.1 some
      exact untouched op within (Op.lob?_of_consumes consumes)
    have after := lob_after_of_kept there fun op within dropped =>
      untouched op within (by rw [dropped]; rfl)
    rw [if_neg idle] at after
    exact ⟨result_viewLob after, opened_openLob after⟩
  consumed ops kept consumed := by
    have after := lob_after_of_kept there kept
    rw [if_pos (List.any_eq_true.2 consumed)] at after
    refine ⟨result_viewLob after, ?_⟩
    rw [step_openLob, lobAt_of_some after]
    rfl

/-! ### Taking a large object out of a row -/

/-- What is true of taking the large object of a column out of a row. -/
structure Extracts (session : Session) (kind : LargeObjectKind) (place : Nat) (row : Row)
    (index : Nat) (type : ColumnType) (demand : UInt64) (outcome : Outcome) : Prop where
  /-- The steps are taken in their order. -/
  stepwise : outcome =
    session.afterExtraction place (Lob.extract kind row index type ⟨demand⟩ session.pool)
  /-- A wrong type is refused, whatever the column is. -/
  refused : kind.accepts type = false →
    outcome.result = .error (.client .decodePreconditionViolated)
  /-- With a right type it fails when and as taking the data fails. -/
  failed : kind.accepts type = true → ∀ failure,
    outcome.result = .error failure ↔
      (session.step (.row (.take place index))).result = .error failure
  /-- There is no such column, or its data is gone, which is a misuse. -/
  misused : kind.accepts type = true → ∀ failure, outcome.result = .error failure →
    failure = .outOfRange ∨ failure.usageMessage?.isSome = true
  null : kind.accepts type = true →
    (outcome.result = .ok (.moved none) ↔ row.slots[index]? = some .null)
  object : (∃ made, outcome.result = .ok (.moved (some made))) ↔
    kind.accepts type = true ∧ ∃ value, row.slots[index]? = some (.owned value)
  /-- Unless there is an object, nothing changes: no slot, no data and no block of the pool. -/
  unchanged : (∀ made, outcome.result ≠ .ok (.moved (some made))) → outcome.session = session
  /-- Otherwise the data moves to a new object and nothing else changes. -/
  moved : kind.accepts type = true → ∀ value, row.slots[index]? = some (.owned value) →
    outcome = ⟨{ session with
      rows := session.rows.set place (some (row.setSlot index .transferred)),
      lobs := session.lobs ++ [some ⟨kind, some value, type, ⟨demand⟩⟩] },
      .ok (.moved (some session.lobs.length))⟩
  columns : kind.accepts type = true → ∀ value, row.slots[index]? = some (.owned value) →
    ∀ place' index', outcome.session.column? place' index' =
      if place' = place ∧ index' = index then some .transferred
      else session.column? place' index'
  /-- The stream of the object is the one that is made of the data directly. -/
  read : kind.accepts type = true → ∀ value, row.slots[index]? = some (.owned value) →
    outcome.session.ReadOnce session.lobs.length type (Stream.ofValue kind value type ⟨demand⟩)

theorem takeResult_error {slot : Option Slot} {made : Nat} {failure : Failure}
    (failed : takeResult slot made = .error failure) :
    failure = .outOfRange ∨ failure.usageMessage?.isSome = true := by
  unfold takeResult at failed
  split at failed <;> cases failed
  · exact .inl rfl
  · exact .inr rfl
  · exact .inr rfl

theorem takeResult_error_iff {slot : Option Slot} {made made' : Nat} {failure : Failure} :
    takeResult slot made = .error failure ↔ takeResult slot made' = .error failure := by
  cases slot with
  | none => exact Iff.rfl
  | some slot =>
    cases slot with
    | null | owned => exact iff_of_false nofun nofun
    | transferred | released => exact Iff.rfl

theorem takeResult_none_iff {slot : Option Slot} {made : Nat} :
    takeResult slot made = .ok (.moved none) ↔ slot = some .null := by
  cases slot with
  | none => exact iff_of_false nofun nofun
  | some slot =>
    cases slot with
    | null => exact iff_of_true rfl rfl
    | owned | transferred | released => exact iff_of_false nofun nofun

theorem takeResult_some_iff {slot : Option Slot} {made : Nat} :
    (∃ found, takeResult slot made = .ok (.moved (some found))) ↔
      ∃ value, slot = some (.owned value) := by
  cases slot with
  | none => exact iff_of_false nofun nofun
  | some slot =>
    cases slot with
    | owned value => exact iff_of_true ⟨made, rfl⟩ ⟨value, rfl⟩
    | null | transferred | released => exact iff_of_false nofun nofun

/-- Replacing the slot of one column changes no other column of any row. -/
theorem column?_setSlot {after : Session} (there : session.rows[place]? = some (some row))
    {old : Slot} (held : row.slots[index]? = some old) {new : Slot}
    (rows : after.rows = session.rows.set place (some (row.setSlot index new)))
    (place' index' : Nat) :
    after.column? place' index' =
      if place' = place ∧ index' = index then some new else session.column? place' index' := by
  obtain ⟨inside, -⟩ := List.getElem?_eq_some_iff.1 there
  by_cases same : place' = place
  · subst same
    rw [column?_of_set inside rows, slots_setSlot held, column?_of_row there]
    by_cases same : index = index'
    · rw [if_pos same, if_pos ⟨rfl, same.symm⟩]
    · rw [if_neg same, if_neg fun both => same both.2.symm]
  · have other : after.rows[place']? = session.rows[place']? := by
      rw [rows, List.getElem?_set_ne (Ne.symm same)]
    rw [column?_congr other, if_neg fun both => same both.1]

/-- Taking a large object out of a row either fails or finds NULL and changes nothing, or it moves
the data of the column to the object and changes nothing else. The object can be read once. -/
theorem lob_extraction_is_atomic (there : session.rows[place]? = some (some row))
    (kind : LargeObjectKind) (index : Nat) (type : ColumnType) (demand : UInt64) :
    session.Extracts kind place row index type demand
      (session.step (.value (.lobOfRow kind place index type demand))) := by
  have result := result_lobOfRow there kind index type demand
  have right (accepts : kind.accepts type = true) :
      (session.step (.value (.lobOfRow kind place index type demand))).result =
        takeResult row.slots[index]? session.lobs.length := by
    rw [result, extractResult, if_pos accepts]
  have wrong (refuses : kind.accepts type = false) :
      (session.step (.value (.lobOfRow kind place index type demand))).result =
        .error (.client .decodePreconditionViolated) := by
    rw [result, extractResult, refuses, if_neg Bool.false_ne_true]
  have moved (accepts : kind.accepts type = true) (value : Value)
      (owned : row.slots[index]? = some (.owned value)) :=
    step_lobOfRow_of_owned there accepts owned demand
  exact {
    stepwise := step_extract there kind index type demand
    refused := wrong
    failed := fun accepts failure => by
      rw [right accepts, result_take there]
      exact takeResult_error_iff
    misused := fun accepts failure failed => takeResult_error ((right accepts).symm.trans failed)
    null := fun accepts => by
      rw [right accepts]
      exact takeResult_none_iff
    object := by
      cases accepts : kind.accepts type with
      | true =>
        rw [right accepts, takeResult_some_iff]
        exact (and_iff_right rfl).symm
      | false =>
        rw [wrong accepts]
        exact iff_of_false nofun nofun
    unchanged := step_of_refused rfl
    moved := moved
    columns := fun accepts value owned place' index' => by
      rw [moved accepts value owned]
      exact column?_setSlot there owned rfl place' index'
    read := fun accepts value owned => by
      rw [moved accepts value owned]
      exact readOnce_of_lob List.getElem?_concat_length }

/-- The type of the large object in the first column. -/
def heldType : ColumnType := ⟨.varbinaryMax, .part, 0, .usAscii, 0, 0⟩

/-- A session in which the object has been taken out of the row. -/
def takenSession : Session :=
  (heldSession.step (.value (.lobOfRow .binary 0 0 heldType 1))).session

theorem lob_extraction_is_atomic_heldSession :
    (heldSession.step (.value (.lobOfRow .character 0 9 heldType 1))).result =
      .error (.client .decodePreconditionViolated) ∧
    (heldSession.step (.value (.lobOfRow .binary 0 1 heldType 1))).result = .ok (.moved none) ∧
    takenSession.column? 0 0 = some .transferred ∧
    ((takenSession.after [.value (.discardLob 0)]).step (.value (.openLob 0))).result =
      .error .alreadyConsumed := by
  have present : heldSession.rows[0]?.join.isSome = true := by decide +kernel
  obtain ⟨row, present⟩ := Option.isSome_iff_exists.1 present
  have there := Option.join_eq_some_iff.1 present
  have slots : (heldSession.rows[0]?.join.map fun row =>
      ((row.slots[0]?.bind Slot.value?).isSome, row.slots[1]?)) = some (true, some .null) := by
    decide +kernel
  rw [present] at slots
  obtain ⟨first, second⟩ := Prod.mk.inj (Option.some_inj.1 slots)
  obtain ⟨value, first⟩ := Option.isSome_iff_exists.1 first
  obtain ⟨slot, first, owned⟩ := Option.bind_eq_some_iff.1 first
  have owned : row.slots[0]? = some (.owned value) := by
    rw [first]
    cases slot <;> cases owned
    rfl
  have taken := lob_extraction_is_atomic there .binary 0 heldType 1
  have made : heldSession.lobs.length = 0 := by decide +kernel
  have read := taken.read rfl value owned
  rw [made] at read
  have consumed := (read.consumed [.value (.discardLob 0)] (by decide) (by decide)).2
  refine ⟨(lob_extraction_is_atomic there .character 9 heldType 1).refused rfl,
    (lob_extraction_is_atomic there .binary 1 heldType 1).null rfl |>.2 second, ?_,
    congrArg Outcome.result consumed⟩
  exact (taken.columns rfl value owned 0 0).trans (if_pos ⟨rfl, rfl⟩)

end Session

end TabularStream
