/-
This file says which operations of a session change the columns of a row. Only five of them do:
taking data, to a place of its own or into a large object, putting data into a column, and
releasing or dropping the row. Each of the five names the row; all other operations leave every
row alone, and so do these with rows that they do not name. What the five do is said in an
equation for each.
-/

import TabularStream.Proofs.Reachable

namespace TabularStream

/-! ### Slots -/

theorem Row.take_inversion {row left : Row} {index : Nat} {found : Option Value}
    (success : row.take index = .ok (found, left)) :
    (row.slots[index]? = some .null ∧ found = none ∧ left = row) ∨
      ∃ value, row.slots[index]? = some (.owned value) ∧ found = some value ∧
        left = row.setSlot index .transferred := by
  unfold Row.take at success
  split at success
  · cases success
  · rename_i there
    cases success
    exact .inl ⟨there, rfl, rfl⟩
  · rename_i value there
    cases success
    exact .inr ⟨value, there, rfl, rfl⟩
  · cases success
  · cases success

theorem Row.put_inversion {row filled : Row} {index : Nat} {value : Value}
    (success : row.put index value = .ok filled) :
    row.slots[index]? = some .null ∧ filled = row.setSlot index (.owned value) := by
  unfold Row.put at success
  split at success
  · cases success
  · rename_i there
    cases success
    exact ⟨there, rfl⟩
  · cases success

theorem Row.ownedCount_eq (row : Row) :
    row.ownedCount = (row.slots.map Slot.name).count "owned" := by
  rw [List.count_eq_countP, List.countP_map]
  refine List.countP_congr fun slot _ => ?_
  cases slot <;> simp [Slot.value?, Slot.name]

theorem Lob.ofRow_inversion {kind : LargeObjectKind} {row left : Row} {index : Nat}
    {type : ColumnType} {config : StreamConfig} {found : Option Lob}
    (success : Lob.ofRow kind row index type config = .ok (found, left)) :
    ∃ value, row.take index = .ok (value, left) ∧
      found = value.map fun value => ⟨kind, some value, type, config⟩ := by
  unfold Lob.ofRow at success
  split at success
  · cases taken : row.take index with
    | error failure =>
      rw [taken] at success
      cases success
    | ok pair =>
      obtain ⟨value, after⟩ := pair
      rw [taken] at success
      cases value <;> cases success <;> exact ⟨_, rfl, rfl⟩
  · cases success

namespace Session

variable {session : Session} {place index : Nat}

/-! ### Columns of a session -/

/-- The slot of a column, unless there is no such row or column. -/
def column? (session : Session) (place index : Nat) : Option Slot :=
  session.rows[place]?.join.bind fun row => row.slots[index]?

theorem column?_of_row {row : Row} (there : session.rows[place]? = some (some row))
    (index : Nat) : session.column? place index = row.slots[index]? := by
  rw [column?, there]
  rfl

theorem column?_congr {after : Session} (same : after.rows[place]? = session.rows[place]?)
    (index : Nat) : after.column? place index = session.column? place index := by
  rw [column?, column?, same]

theorem column?_of_set {after : Session} {row : Row} (inside : place < session.rows.length)
    (rows : after.rows = session.rows.set place (some row)) (index : Nat) :
    after.column? place index = row.slots[index]? := by
  refine column?_of_row ?_ index
  rw [rows, List.getElem?_set_self inside]

/-- Putting something else into a slot replaces what is there, and leaves the others alone. -/
theorem slots_setSlot {row : Row} {column : Nat} {old : Slot}
    (there : row.slots[column]? = some old) (new : Slot) (index : Nat) :
    (row.setSlot column new).slots[index]? =
      if column = index then some new else row.slots[index]? := by
  obtain ⟨inside, -⟩ := List.getElem?_eq_some_iff.1 there
  show (row.slots.set column new)[index]? = _
  split
  · rename_i same
    rw [← same, List.getElem?_set_self inside]
  · rename_i apart
    exact List.getElem?_set_ne apart

theorem rowAt_eq_ok_iff {row : Row} :
    session.rowAt place = .ok row ↔ session.rows[place]? = some (some row) := by
  refine ⟨objectAt_inversion, fun there => ?_⟩
  rw [rowAt, objectAt, there]

theorem join_of_rowAt_error {failure : Failure} (missing : session.rowAt place = .error failure) :
    session.rows[place]?.join = none := by
  cases there : session.rows[place]? with
  | none => rfl
  | some entry =>
    cases entry with
    | none => rfl
    | some row => cases missing.symm.trans (rowAt_eq_ok_iff.2 there)

theorem column?_of_rowAt_error {failure : Failure} (missing : session.rowAt place = .error failure)
    (index : Nat) : session.column? place index = none := by
  rw [column?, join_of_rowAt_error missing]
  rfl

/-! ### Operations that leave a row alone -/

/-- The row whose columns an operation may change. -/
def Op.target? : Op → Option Nat
  | .row (.take target _) | .row (.put target _ _) | .row (.release target)
  | .row (.drop target) | .value (.lobOfRow _ target _ _ _) => some target
  | _ => none

theorem rowAt_receiveRow (inside : place < session.rows.length) (reading : Reading Row) :
    (session.receiveRow reading).session.rows[place]? = session.rows[place]? := by
  obtain ⟨pool, buffer, failure | row⟩ := reading
  · rfl
  · exact List.getElem?_append_left inside

theorem rowAt_receiveToken (inside : place < session.rows.length) (reading : Reading Resumed) :
    (session.receiveToken reading).session.rows[place]? = session.rows[place]? := by
  obtain ⟨pool, buffer, failure | _ | error | row⟩ := reading
  · rfl
  · rfl
  · rfl
  · exact List.getElem?_append_left inside

theorem rowAt_putValue {row : Nat} (apart : row ≠ place) (column source : Nat) :
    (session.putValue row column source).session.rows[place]? = session.rows[place]? := by
  unfold putValue
  split
  · dsimp only
    split
    · exact List.getElem?_set_ne apart
    · rfl
  · rfl
  · rfl

theorem rowAt_performRow (inside : place < session.rows.length) {op : RowOp}
    (other : (Op.row op).target? ≠ some place) :
    (session.performRow op).session.rows[place]? = session.rows[place]? := by
  have apart {row : Nat} (other : some row ≠ some place) : row ≠ place :=
    fun same => other (congrArg some same)
  cases op with
  | setColumns | canDecode | canDecodeBitmap => rfl
  | decode | decodeBitmap => exact rowAt_receiveRow inside _
  | resume => exact rowAt_receiveToken inside _
  | view | slot =>
    exact same_attempt_bind (·.rows[place]?) fun _ =>
      same_attempt_bind (·.rows[place]?) fun _ => rfl
  | data =>
    exact same_attempt_bind (·.rows[place]?) fun _ =>
      same_attempt_bind (·.rows[place]?) fun _ => same_attempt_bind (·.rows[place]?) fun _ => rfl
  | take row column =>
    refine same_attempt_bind (·.rows[place]?) fun _ =>
      same_attempt_bind (·.rows[place]?) fun found => ?_
    obtain ⟨_ | value, left⟩ := found
    · rfl
    · exact List.getElem?_set_ne (apart other)
  | new columns =>
    exact same_attempt_bind (·.rows[place]?) fun _ => List.getElem?_append_left inside
  | put row column source => exact rowAt_putValue (apart other) column source
  | release row | drop row =>
    exact same_attempt_bind (·.rows[place]?) fun _ => List.getElem?_set_ne (apart other)

theorem rowAt_performValue {op : ValueOp} (other : (Op.value op).target? ≠ some place) :
    (session.performValue op).session.rows[place]? = session.rows[place]? := by
  cases op with
  | lobOfRow kind row column type demand =>
    have apart : row ≠ place := fun same => other (congrArg some same)
    refine same_attempt_bind (·.rows[place]?) fun _ =>
      same_attempt_bind (·.rows[place]?) fun found => ?_
    obtain ⟨_ | lob, left⟩ := found
    · rfl
    · exact List.getElem?_set_ne apart
  | _ => exact same_performValue (·.rows[place]?) (fun _ _ _ _ => rfl) fun _ _ _ _ _ => nofun

/-- An operation leaves the rows alone that it does not name. -/
theorem rowAt_step (inside : place < session.rows.length) {op : Op}
    (other : op.target? ≠ some place) :
    (session.step op).session.rows[place]? = session.rows[place]? := by
  cases op with
  | buffer op => exact same_performBuffer (·.rows[place]?) (fun _ _ _ => rfl) op
  | row op => exact rowAt_performRow inside other
  | value op => exact rowAt_performValue other
  | slice op => exact same_performSlice (·.rows[place]?) (fun _ _ _ => rfl) op
  | composite op => exact same_performComposite (·.rows[place]?) (fun _ _ _ _ => rfl) op

/-! ### Operations that change a row -/

/-- The outcome of taking something out of a row, when what comes out is moved to a place of its
own. -/
def movedOut {Item : Type} (session : Session) (after : Item → Row → Session) (made : Nat) :
    Except Failure (Option Item × Row) → Outcome
  | .error failure => ⟨session, .error failure⟩
  | .ok (none, _) => ⟨session, .ok (.moved none)⟩
  | .ok (some item, left) => ⟨after item left, .ok (.moved (some made))⟩

section MovedOut

variable {Item : Type} {after : Item → Row → Session} {made : Nat}

theorem attempt_movedOut {next : Option Item × Row → Except Failure (Session × Reply)} (row : Nat)
    (takeOut : Row → Except Failure (Option Item × Row))
    (nothing : ∀ left, next (none, left) = .ok (session, .moved none))
    (something : ∀ item left, next (some item, left) = .ok (after item left, .moved (some made))) :
    session.attempt (session.rowAt row >>= fun target => takeOut target >>= next) =
      session.movedOut after made ((session.rowAt row).bind takeOut) := by
  cases session.rowAt row with
  | error failure => rfl
  | ok target =>
    show session.attempt (takeOut target >>= next) = session.movedOut after made (takeOut target)
    cases takeOut target with
    | error failure => rfl
    | ok pair =>
      obtain ⟨_ | item, left⟩ := pair
      · exact congrArg session.attempt (nothing left)
      · exact congrArg session.attempt (something item left)

theorem inside_movedOut {row : Nat} (inside : place < session.rows.length)
    (rows : ∀ item left, (after item left).rows = session.rows.set row (some left))
    (found : Except Failure (Option Item × Row)) :
    place < (session.movedOut after made found).session.rows.length := by
  obtain failure | ⟨_ | item, left⟩ := found
  · exact inside
  · exact inside
  · show place < (after item left).rows.length
    rw [rows, List.length_set]
    exact inside

theorem movedOut_of_refused {found : Except Failure (Option Item × Row)}
    (idle : ∀ place, (session.movedOut after made found).result ≠ .ok (.moved (some place))) :
    (session.movedOut after made found).session = session := by
  obtain failure | ⟨_ | item, left⟩ := found
  · rfl
  · rfl
  · exact absurd rfl (idle _)

end MovedOut

theorem step_take (session : Session) (row column : Nat) :
    session.step (.row (.take row column)) =
      session.movedOut
        (fun value left => { session with
          rows := session.rows.set row (some left), values := session.values ++ [some value] })
        session.values.length ((session.rowAt row).bind (·.take column)) :=
  attempt_movedOut row (·.take column) (fun _ => rfl) fun _ _ => rfl

theorem step_lobOfRow (session : Session) (kind : LargeObjectKind) (row column : Nat)
    (type : ColumnType) (demand : UInt64) :
    session.step (.value (.lobOfRow kind row column type demand)) =
      session.movedOut
        (fun lob left => { session with
          rows := session.rows.set row (some left), lobs := session.lobs ++ [some lob] })
        session.lobs.length
        ((session.rowAt row).bind (Lob.ofRow kind · column type ⟨demand⟩)) :=
  attempt_movedOut row (Lob.ofRow kind · column type ⟨demand⟩) (fun _ => rfl) fun _ _ => rfl

theorem step_release (session : Session) (place : Nat) :
    session.step (.row (.release place)) =
      match session.rowAt place with
      | .error failure => ⟨session, .error failure⟩
      | .ok row =>
        ⟨{ session with
          pool := session.pool.releaseAll row.slices,
          rows := session.rows.set place (some ⟨row.slots.map Slot.afterRelease⟩) },
          .ok .nothing⟩ := by
  show session.performRow (.release place) = _
  unfold performRow
  dsimp only
  cases session.rowAt place <;> rfl

theorem step_drop (session : Session) (place : Nat) :
    session.step (.row (.drop place)) =
      match session.rows[place]? with
      | none => ⟨session, .error .unknownHandle⟩
      | some entry =>
        ⟨{ session with
          pool := session.pool.releaseAll ((entry.map Row.slices).getD []),
          rows := session.rows.set place none },
          .ok .nothing⟩ := by
  show session.performRow (.drop place) = _
  unfold performRow slicesAt placeAt
  dsimp only
  cases session.rows[place]? <;> rfl

/-- A row keeps its place, also when it has been dropped. -/
theorem inside_step (inside : place < session.rows.length) (op : Op) :
    place < (session.step op).session.rows.length := by
  by_cases named : op.target? = some place
  · unfold Op.target? at named
    split at named
    · rw [step_take]
      exact inside_movedOut inside (fun _ _ => rfl) _
    · show place < (session.putValue _ _ _).session.rows.length
      unfold putValue
      split
      · dsimp only
        split
        · exact (List.length_set ..).symm ▸ inside
        · exact inside
      · exact inside
      · exact inside
    · rw [step_release]
      split
      · exact inside
      · exact (List.length_set ..).symm ▸ inside
    · rw [step_drop]
      split
      · exact inside
      · exact (List.length_set ..).symm ▸ inside
    · rw [step_lobOfRow]
      exact inside_movedOut inside (fun _ _ => rfl) _
    · cases named
  · have same := rowAt_step inside named
    rw [List.getElem?_eq_getElem inside] at same
    exact (List.getElem?_eq_some_iff.1 same).1

theorem inside_after (inside : place < session.rows.length) (ops : List Op) :
    place < (session.after ops).rows.length := by
  induction ops generalizing session with
  | nil => exact inside
  | cons op rest inductionHypothesis => exact inductionHypothesis (inside_step inside op)

end Session

end TabularStream
