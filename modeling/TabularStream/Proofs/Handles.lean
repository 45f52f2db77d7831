/-
This file lists what an operation of a session does to a column of a row. It leaves the column
alone, puts data into it, hands its data on to a new value or large object, or gives its data back
to the pool with the rest of the row. `Handles` has a case for each, and every operation is one of
them, also one that fails.

What goes into a column and what comes out of it is read off the outcomes of the operations, from
the places of the values and large objects that they name.
-/

import TabularStream.Proofs.Columns

namespace TabularStream

/-- The states that a slot can take next. The row with all its slots may be dropped. -/
inductive Slot.Moves : Option Slot → Option Slot → Prop where
  | stay (slot : Option Slot) : Moves slot slot
  | fill (value : Value) : Moves (some .null) (some (.owned value))
  | transfer (value : Value) : Moves (some (.owned value)) (some .transferred)
  | release (value : Value) : Moves (some (.owned value)) (some .released)
  | drop (slot : Slot) : Moves (some slot) none

namespace Session

variable {session : Session} {place index : Nat}

/-! ### Data that is handed over -/

/-- Data with the bytes that it shows. -/
def shown (session : Session) (value : Value) : Value × Bytes := (value, value.bytes session.pool)

/-- The data of a column that the row owns. -/
def holding (session : Session) (place index : Nat) : Option (Value × Bytes) :=
  ((session.column? place index).bind Slot.value?).map session.shown

/-- The data that an operation puts into a column. -/
def entered (place index : Nat) (session : Session) (op : Op) : Option (Value × Bytes) :=
  match op, (session.step op).result with
  | .row (.put row column source), .ok _ =>
    if row = place ∧ column = index then (session.values[source]?.join).map session.shown
    else none
  | _, _ => none

/-- The data that an operation takes out of a column, as its new place shows it. -/
def returned (place index : Nat) (session : Session) (op : Op) : Option (Value × Bytes) :=
  let after := (session.step op).session
  match op, (session.step op).result with
  | .row (.take row column), .ok (.moved (some made)) =>
    if row = place ∧ column = index then (after.values[made]?.join).map after.shown else none
  | .value (.lobOfRow _ row column _ _), .ok (.moved (some made)) =>
    if row = place ∧ column = index then (after.lobs[made]?.join.bind Lob.value).map after.shown
    else none
  | _, _ => none

/-- The data of a column that an operation gives back, because the row is released or dropped. -/
def givenBack (place index : Nat) (session : Session) (op : Op) : Option (Value × Bytes) :=
  match op with
  | .row (.release row) | .row (.drop row) =>
    if row = place then session.holding place index else none
  | _ => none

/-! ### What one operation does to a column -/

/-- What an operation does to a column of a row. It hands data over as it is. -/
inductive Handles (session : Session) (place index : Nat) (op : Op) : Prop where
  | stays
      (column : (session.step op).session.column? place index = session.column? place index)
      (entered : session.entered place index op = none)
      (returned : session.returned place index op = none)
      (givenBack : session.givenBack place index op = none)
  | fills {value : Value} (before : session.column? place index = some .null)
      (after : (session.step op).session.column? place index = some (.owned value))
      (pool : (session.step op).session.pool = session.pool)
      (entered : session.entered place index op = some (session.shown value))
      (returned : session.returned place index op = none)
      (givenBack : session.givenBack place index op = none)
  | transfers {value : Value} (before : session.column? place index = some (.owned value))
      (after : (session.step op).session.column? place index = some .transferred)
      (entered : session.entered place index op = none)
      (returned : session.returned place index op = some (session.shown value))
      (givenBack : session.givenBack place index op = none)
  | releases {value : Value} (before : session.column? place index = some (.owned value))
      (after : (session.step op).session.column? place index = some .released)
      (entered : session.entered place index op = none)
      (returned : session.returned place index op = none)
      (givenBack : session.givenBack place index op = some (session.shown value))
  | drops {slot : Slot} (before : session.column? place index = some slot)
      (after : (session.step op).session.column? place index = none)
      (entered : session.entered place index op = none)
      (returned : session.returned place index op = none)
      (givenBack : session.givenBack place index op = session.holding place index)

/-- An operation on another row does nothing to a column. -/
theorem handles_of_target (inside : place < session.rows.length) {op : Op}
    (other : op.target? ≠ some place) (index : Nat) : session.Handles place index op := by
  have apart {row : Nat} (other : some row ≠ some place) : row ≠ place :=
    fun same => other (congrArg some same)
  refine .stays (column?_congr (rowAt_step inside other) index) ?_ ?_ ?_
  · unfold entered
    split
    · exact if_neg fun both => apart other both.1
    · rfl
  · unfold returned
    dsimp only
    split
    · exact if_neg fun both => apart other both.1
    · exact if_neg fun both => apart other both.1
    · rfl
  · unfold givenBack
    split
    · exact if_neg (apart other)
    · exact if_neg (apart other)
    · rfl

/-- An operation that fails hands over nothing. -/
theorem handles_of_error {op : Op} {failure : Failure}
    (refused : (session.step op).result = .error failure)
    (rows : (session.step op).session.rows[place]? = session.rows[place]?)
    (givenBack : session.givenBack place index op = none) : session.Handles place index op := by
  refine .stays (column?_congr rows index) ?_ ?_ givenBack
  · unfold entered
    rw [refused]
    split
    · rename_i success
      cases success
    · rfl
  · unfold returned
    rw [refused]
    dsimp only
    split
    · rename_i success
      cases success
    · rename_i success
      cases success
    · rfl

/-- An operation that changes nothing, and does not say that it made something. -/
theorem handles_of_same {op : Op} (same : (session.step op).session = session)
    (entered : session.entered place index op = none)
    (idle : ∀ made, (session.step op).result ≠ .ok (.moved (some made)))
    (givenBack : session.givenBack place index op = none) : session.Handles place index op := by
  refine .stays (congrArg (column? · place index) same) entered ?_ givenBack
  unfold returned
  dsimp only
  split
  · exact absurd ‹_› (idle _)
  · exact absurd ‹_› (idle _)
  · rfl

/-! ### Taking data out of a column -/

/-- Data that is taken out of a row goes to a new place, and nothing else changes. -/
theorem handles_of_take {op : Op} {row left : Row} {column : Nat} {value : Value}
    (there : session.rows[place]? = some (some row))
    (taken : row.take column = .ok (some value, left))
    (rows : (session.step op).session.rows = session.rows.set place (some left))
    (entered : session.entered place index op = none)
    (returned : session.returned place index op =
      if column = index then some (session.shown value) else none)
    (givenBack : session.givenBack place index op = none) : session.Handles place index op := by
  obtain ⟨inside, -⟩ := List.getElem?_eq_some_iff.1 there
  obtain ⟨-, none, -⟩ | ⟨_, owned, same, rfl⟩ := Row.take_inversion taken
  · cases none
  · cases same
    have before := column?_of_row there index
    have after := column?_of_set inside rows index
    rw [slots_setSlot owned] at after
    by_cases same : column = index
    · subst same
      rw [if_pos rfl] at after returned
      exact .transfers (before.trans owned) after entered returned givenBack
    · rw [if_neg same] at after returned
      exact .stays (after.trans before.symm) entered returned givenBack

/-- An operation that takes something out of a row takes it out of one of its columns. -/
theorem handles_of_movedOut {Item : Type} {op : Op} (column : Nat) {made : Nat}
    {after : Item → Row → Session} {takeOut : Row → Except Failure (Option Item × Row)}
    (step : session.step op = session.movedOut after made ((session.rowAt place).bind takeOut))
    (rows : ∀ item left, (after item left).rows = session.rows.set place (some left))
    (taken : ∀ row item left, takeOut row = .ok (some item, left) →
      session.step op = ⟨after item left, .ok (.moved (some made))⟩ →
      ∃ value, row.take column = .ok (some value, left) ∧ session.returned place index op =
        if column = index then some (session.shown value) else none)
    (entered : session.entered place index op = none)
    (givenBack : session.givenBack place index op = none) : session.Handles place index op := by
  cases found : (session.rowAt place).bind takeOut with
  | error failure =>
    rw [found] at step
    exact handles_of_error (congrArg Outcome.result step) (by rw [step]; rfl) givenBack
  | ok pair =>
    obtain ⟨row, there, out⟩ := bind_inversion found
    rw [found] at step
    obtain ⟨_ | item, left⟩ := pair
    · have same : (session.step op).session = session := congrArg Outcome.session step
      refine handles_of_same same entered (fun made moved => ?_) givenBack
      rw [step] at moved
      cases moved
    · obtain ⟨value, taken, returned⟩ := taken row item left out step
      refine handles_of_take (objectAt_inversion there) taken ?_ entered returned givenBack
      rw [step]
      exact rows item left

theorem handles_take (session : Session) (place column index : Nat) :
    session.Handles place index (.row (.take place column)) := by
  refine handles_of_movedOut column (step_take session place column) (fun _ _ => rfl)
    (fun row value left taken step => ⟨value, taken, ?_⟩) rfl rfl
  unfold returned
  dsimp only
  rw [step]
  dsimp only
  rw [List.getElem?_concat_length]
  simp only [true_and]
  rfl

theorem handles_lobOfRow (session : Session) (kind : LargeObjectKind) (place column : Nat)
    (type : ColumnType) (demand : UInt64) (index : Nat) :
    session.Handles place index (.value (.lobOfRow kind place column type demand)) := by
  refine handles_of_movedOut column (step_lobOfRow session kind place column type demand)
    (fun _ _ => rfl) (fun row lob left found step => ?_) rfl rfl
  obtain ⟨value, taken, same⟩ := Lob.ofRow_inversion found
  obtain ⟨value, rfl, rfl⟩ := Option.map_eq_some_iff.1 same.symm
  refine ⟨value, taken, ?_⟩
  unfold returned
  dsimp only
  rw [step]
  dsimp only
  rw [List.getElem?_concat_length]
  simp only [true_and]
  rfl

/-! ### Putting data into a column -/

theorem handles_put (session : Session) (place column source index : Nat) :
    session.Handles place index (.row (.put place column source)) := by
  have step : session.step (.row (.put place column source)) =
    session.putValue place column source := rfl
  unfold putValue at step
  split at step
  · rename_i row data there held
    dsimp only at step
    split at step
    · rename_i filled put
      obtain ⟨null, rfl⟩ := Row.put_inversion put
      have there := objectAt_inversion there
      have held := objectAt_inversion held
      obtain ⟨inside, -⟩ := List.getElem?_eq_some_iff.1 there
      have before := column?_of_row there index
      have after : (session.step (.row (.put place column source))).session.column? place index =
          (row.setSlot column (.owned data)).slots[index]? :=
        column?_of_set inside (by rw [step]) index
      rw [slots_setSlot null] at after
      have entered : session.entered place index (.row (.put place column source)) =
          if column = index then some (session.shown data) else none := by
        unfold entered
        rw [step]
        dsimp only
        rw [held]
        simp only [true_and]
        rfl
      by_cases same : column = index
      · subst same
        rw [if_pos rfl] at after entered
        exact .fills (before.trans null) after (by rw [step]) entered rfl rfl
      · rw [if_neg same] at after entered
        exact .stays (after.trans before.symm) entered rfl rfl
    · exact handles_of_error (congrArg Outcome.result step) (by rw [step]) rfl
  · exact handles_of_error (congrArg Outcome.result step) (by rw [step]) rfl
  · exact handles_of_error (congrArg Outcome.result step) (by rw [step]) rfl

/-! ### Giving data back -/

theorem holding_of_column? {slot : Option Slot} (column : session.column? place index = slot) :
    session.holding place index = (slot.bind Slot.value?).map session.shown := by
  rw [holding, column]

theorem handles_release (session : Session) (place index : Nat) :
    session.Handles place index (.row (.release place)) := by
  have step := step_release session place
  have givenBack : session.givenBack place index (.row (.release place)) =
    session.holding place index := if_pos rfl
  cases found : session.rowAt place with
  | error failure =>
    rw [found] at step
    refine handles_of_error (congrArg Outcome.result step) (by rw [step]) ?_
    rw [givenBack, holding_of_column? (column?_of_rowAt_error found index)]
    rfl
  | ok row =>
    rw [found] at step
    have there := rowAt_eq_ok_iff.1 found
    obtain ⟨inside, -⟩ := List.getElem?_eq_some_iff.1 there
    have before := column?_of_row there index
    have after : (session.step (.row (.release place))).session.column? place index =
        (row.slots.map Slot.afterRelease)[index]? := column?_of_set inside (by rw [step]) index
    have returned : session.returned place index (.row (.release place)) = none := by
      unfold Session.returned
      rw [step]
    rw [List.getElem?_map] at after
    rw [holding_of_column? before] at givenBack
    cases slot : row.slots[index]? with
    | none =>
      rw [slot] at before after givenBack
      exact .stays (after.trans before.symm) rfl returned givenBack
    | some slot' =>
      rw [slot] at before after givenBack
      cases slot' with
      | owned value => exact .releases before after rfl returned givenBack
      | null | transferred | released =>
        exact .stays (after.trans before.symm) rfl returned givenBack

theorem handles_drop (session : Session) (place index : Nat) :
    session.Handles place index (.row (.drop place)) := by
  have step := step_drop session place
  have givenBack : session.givenBack place index (.row (.drop place)) =
    session.holding place index := if_pos rfl
  cases there : session.rows[place]? with
  | none =>
    rw [there] at step
    have before : session.column? place index = none := by
      rw [column?, there]
      rfl
    refine handles_of_error (congrArg Outcome.result step) (by rw [step]) ?_
    rw [givenBack, holding_of_column? before]
    rfl
  | some entry =>
    rw [there] at step
    obtain ⟨inside, -⟩ := List.getElem?_eq_some_iff.1 there
    have returned : session.returned place index (.row (.drop place)) = none := by
      unfold Session.returned
      rw [step]
    have after : (session.step (.row (.drop place))).session.column? place index = none := by
      rw [step, column?, List.getElem?_set_self inside]
      rfl
    cases before : session.column? place index with
    | none =>
      rw [holding_of_column? before] at givenBack
      exact .stays (after.trans before.symm) rfl returned givenBack
    | some slot => exact .drops before after rfl returned givenBack

/-- Every operation does one of these things to a column of a row. -/
theorem handles_step (inside : place < session.rows.length) (index : Nat) (op : Op) :
    session.Handles place index op := by
  by_cases named : op.target? = some place
  · unfold Op.target? at named
    split at named
    · cases named
      exact handles_take session place _ index
    · cases named
      exact handles_put session place _ _ index
    · cases named
      exact handles_release session place index
    · cases named
      exact handles_drop session place index
    · cases named
      exact handles_lobOfRow session _ place _ _ _ index
    · cases named
  · exact handles_of_target inside named index

theorem Handles.moves {op : Op} (handles : session.Handles place index op) :
    Slot.Moves (session.column? place index)
      ((session.step op).session.column? place index) := by
  cases handles with
  | stays column =>
    rw [column]
    exact .stay _
  | @fills value before after =>
    rw [before, after]
    exact .fill value
  | @transfers value before after =>
    rw [before, after]
    exact .transfer value
  | @releases value before after =>
    rw [before, after]
    exact .release value
  | @drops slot before after =>
    rw [before, after]
    exact .drop slot

/-! ### Looking, and taking nothing -/

/-- What asking for the data of a slot gives. The data is shown as a copy, which fails only if the
data is too large for one. -/
def dataResult (pool : Pool) : Option Slot → Except Failure Reply
  | none => .error .outOfRange
  | some (.owned value) => (value.view pool).map fun view => .data (some view)
  | some .null | some .transferred | some .released => .ok (.data none)

theorem result_data {row : Row} (there : session.rows[place]? = some (some row)) (index : Nat) :
    (session.step (.row (.data place index))).result =
      dataResult session.pool row.slots[index]? := by
  show (session.performRow (.data place index)).result = _
  unfold performRow
  dsimp only
  rw [rowAt_eq_ok_iff.2 there]
  show (session.attempt (row.slot index >>= _)).result = _
  unfold Row.slot
  cases row.slots[index]? with
  | none => rfl
  | some slot =>
    cases slot with
    | owned value =>
      show (session.attempt ((value.view session.pool).map some >>= _)).result =
        (value.view session.pool).map _
      cases value.view session.pool <;> rfl
    | null | transferred | released => rfl

/-- What taking the data out of a slot gives, if the next value is made at some place. -/
def takeResult (slot : Option Slot) (made : Nat) : Except Failure Reply :=
  match slot with
  | none => .error .outOfRange
  | some .null => .ok (.moved none)
  | some (.owned _) => .ok (.moved (some made))
  | some .transferred => .error .alreadyTransferred
  | some .released => .error .rowReleased

theorem result_take {row : Row} (there : session.rows[place]? = some (some row)) (index : Nat) :
    (session.step (.row (.take place index))).result =
      takeResult row.slots[index]? session.values.length := by
  have found : (session.rowAt place).bind (·.take index) = row.take index := by
    rw [rowAt_eq_ok_iff.2 there]
    rfl
  rw [step_take, found]
  unfold Row.take
  obtain _ | _ | _ | _ | _ := row.slots[index]? <;> rfl

/-- The operations that take data out of a column, to a new value or into a new large object. -/
def Op.takes : Op → Bool
  | .row (.take _ _) | .value (.lobOfRow ..) => true
  | _ => false

theorem step_of_refused {op : Op} (takes : op.takes = true)
    (idle : ∀ made, (session.step op).result ≠ .ok (.moved (some made))) :
    (session.step op).session = session := by
  unfold Op.takes at takes
  split at takes
  · rw [step_take] at idle ⊢
    exact movedOut_of_refused idle
  · rw [step_lobOfRow] at idle ⊢
    exact movedOut_of_refused idle
  · cases takes

/-! ### Rows that are given back -/

/-- A row has been given back, what it still owned to the pool. Nothing else has changed: no other
row, value, large object or stream, and no byte that belongs to one of them. -/
structure GivesBack (session after : Session) (place : Nat) : Prop where
  others : after = { session with pool := after.pool, rows := after.rows }
  rows : ∀ other, other ≠ place → after.rows[other]? = session.rows[other]?
  pool : after.pool =
    session.pool.releaseAll ((session.rows[place]?.join.map Row.slices).getD [])
  bytes : ∀ slice ∈ after.handedOut, after.pool.bytesOf slice = session.pool.bytesOf slice

theorem givesBack_nothing {place : Nat} (missing : session.rows[place]?.join = none) :
    session.GivesBack session place := by
  refine ⟨rfl, fun _ _ => rfl, ?_, fun _ _ => rfl⟩
  rw [missing]
  rfl

/-- What is put in the place of a row owns nothing of it any more. -/
theorem Sheds.givesBack {place : Nat} {entry : Option Row} {released : List Slice}
    (sheds : session.Sheds
      { session with
        pool := session.pool.releaseAll released
        rows := session.rows.set place entry }
      released) (sound : session.Sound)
    (owned : (session.rows[place]?.join.map Row.slices).getD [] = released) :
    session.GivesBack
      { session with
        pool := session.pool.releaseAll released
        rows := session.rows.set place entry }
      place := by
  obtain ⟨-, spares⟩ := sheds.giveBack sound
  refine ⟨rfl, fun other apart => List.getElem?_set_ne apart.symm, ?_, fun slice member => ?_⟩
  · rw [owned]
  · exact (spares slice (List.mem_append_right _ member)).1

theorem Sound.givesBack_release (sound : session.Sound) (place : Nat) :
    session.GivesBack (session.step (.row (.release place))).session place := by
  rw [step_release]
  cases found : session.rowAt place with
  | error failure => exact givesBack_nothing (join_of_rowAt_error found)
  | ok row =>
    refine (sheds_releaseRow found).givesBack sound ?_
    rw [rowAt_eq_ok_iff.1 found]
    rfl

theorem Sound.givesBack_drop (sound : session.Sound) (place : Nat) :
    session.GivesBack (session.step (.row (.drop place))).session place := by
  rw [step_drop]
  cases there : session.rows[place]? with
  | none => exact givesBack_nothing (congrArg Option.join there)
  | some entry =>
    have found : slicesAt Row.slices session.rows place =
        .ok ((entry.map Row.slices).getD []) := by
      rw [slicesAt, placeAt, there]
      rfl
    refine (sheds_dropRow found).givesBack sound ?_
    rw [there]
    rfl

end Session

end TabularStream
