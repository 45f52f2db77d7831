/-
This file proves that the data of a column has one owner. Each operation hands over what it takes
out of a column as it is, and what is left alone keeps its bytes. So over a whole run, what was in
a column and what was put into it is what was taken out of it, what was given back and what is
still there. That is one value at most, and it has the same bytes wherever it shows up.
-/

import TabularStream.Proofs.Handles
import TabularStream.Proofs.Unchanged

namespace TabularStream.Session

variable {session : Session} {place index : Nat}

/-- What operations, performed one after the other, do of some kind. -/
def gather {Item : Type} (what : Session → Op → Option Item) : Session → List Op → List Item
  | _, [] => []
  | session, op :: rest => (what session op).toList ++ gather what (session.step op).session rest

/-! ### What a run does to a column -/

theorem mem_handedOut_of_column {value : Value} {slice : Slice}
    (owned : session.column? place index = some (.owned value)) (member : slice ∈ value.slices) :
    slice ∈ session.handedOut := by
  obtain ⟨row, there, slot⟩ := Option.bind_eq_some_iff.1 owned
  have inRow : slice ∈ row.slices :=
    List.mem_flatMap.2 ⟨.owned value, List.mem_of_getElem? slot, member⟩
  have inRows : slice ∈ slicesOf Row.slices session.rows := by
    refine List.mem_flatMap.2 ⟨some row, ?_, inRow⟩
    cases entry : session.rows[place]? with
    | none =>
      rw [entry] at there
      cases there
    | some object =>
      rw [entry] at there
      cases there
      exact List.mem_of_getElem? entry
  simp only [handedOut, List.mem_append, inRows, true_or, or_true]

/-- A column that is left alone goes on showing the same bytes. -/
theorem Keeps.holding {after : Session} (keeps : session.Keeps after)
    (same : after.column? place index = session.column? place index) :
    after.holding place index = session.holding place index := by
  rw [Session.holding, Session.holding, same]
  cases column : session.column? place index with
  | none => rfl
  | some slot =>
    cases slot with
    | owned value =>
      refine congrArg (fun bytes => some (value, bytes)) (Value.bytes_congr fun slice member => ?_)
      exact keeps.same slice (mem_handedOut_of_column column member)
        (mem_handedOut_of_column (same.trans column) member)
    | null | transferred | released => rfl

/-- What was in a column and what was put into it is what was taken out of it, what was given back
and what is there now. -/
structure Balances (session : Session) (place index : Nat) (ops : List Op) : Prop where
  balance : (session.holding place index).toList ++ gather (entered place index) session ops =
    gather (returned place index) session ops ++ gather (givenBack place index) session ops ++
      ((session.after ops).holding place index).toList
  /-- Data is put into a column once at most, and only if it was NULL at first. -/
  filled : gather (entered place index) session ops = [] ∨
    session.column? place index = some .null ∧
      ∃ data, gather (entered place index) session ops = [data]

theorem Balances.once {ops : List Op} (balances : session.Balances place index ops) :
    ((session.holding place index).toList ++
      gather (entered place index) session ops).length ≤ 1 := by
  rcases balances.filled with none | ⟨null, data, one⟩
  · rw [none, List.append_nil]
    cases session.holding place index <;> simp
  · rw [one, holding_of_column? null]
    exact Nat.le_refl 1

/-- Nothing happens to a column any more whose data is gone. -/
theorem Balances.nothing {ops : List Op} (balances : session.Balances place index ops)
    (empty : session.holding place index = none)
    (past : session.column? place index ≠ some .null) :
    gather (entered place index) session ops = [] ∧
      gather (returned place index) session ops = [] ∧
      gather (givenBack place index) session ops = [] ∧
      ((session.after ops).holding place index).toList = [] := by
  obtain ⟨balance, filled⟩ := balances
  have none := filled.resolve_right fun null => past null.1
  rw [empty, none] at balance
  obtain ⟨left, still⟩ := List.append_eq_nil_iff.1 balance.symm
  obtain ⟨returned, givenBack⟩ := List.append_eq_nil_iff.1 left
  exact ⟨none, returned, givenBack, still⟩

/-- The data leaves the column with an operation, and it is the last one that does something. -/
theorem Balances.of_left {op : Op} {rest : List Op}
    (later : (session.step op).session.Balances place index rest)
    (empty : (session.step op).session.holding place index = none)
    (past : (session.step op).session.column? place index ≠ some .null)
    (entered : session.entered place index op = none)
    (left : (session.holding place index).toList =
      (session.returned place index op).toList ++ (session.givenBack place index op).toList) :
    session.Balances place index (op :: rest) := by
  have goes : session.after (op :: rest) = (session.step op).session.after rest := rfl
  obtain ⟨noneIn, noneOut, noneBack, still⟩ := later.nothing empty past
  constructor
  · rw [left]
    simp only [gather, entered, goes, noneIn, noneOut, noneBack, still, Option.toList_none,
      List.append_nil]
  · exact .inl (by simp only [gather, entered, noneIn, Option.toList_none, List.append_nil])

/-- What an operation does to a column keeps the balance of the rest of the run. -/
theorem Handles.balances {op : Op} {rest : List Op} (handles : session.Handles place index op)
    (keeps : session.Keeps (session.step op).session)
    (later : (session.step op).session.Balances place index rest) :
    session.Balances place index (op :: rest) := by
  cases handles with
  | stays column entered returned givenBack =>
    obtain ⟨balance, filled⟩ := later
    rw [keeps.holding column] at balance
    rw [column] at filled
    constructor
    · simp only [gather, entered, returned, givenBack, Option.toList_none, List.nil_append]
      exact balance
    · simp only [gather, entered, Option.toList_none, List.nil_append]
      exact filled
  | @fills value before after pool entered returned givenBack =>
    have goes : session.after (op :: rest) = (session.step op).session.after rest := rfl
    have same : (session.step op).session.shown value = session.shown value := by
      rw [shown, shown, pool]
    obtain ⟨balance, filled⟩ := later
    have none := filled.resolve_right fun null => by cases after.symm.trans null.1
    rw [none, holding_of_column? after] at balance
    constructor
    · simp only [gather, entered, returned, givenBack, goes, none, holding_of_column? before,
        ← same, Option.toList_none, Option.toList_some, List.nil_append, ← balance]
      rfl
    · refine .inr ⟨before, session.shown value, ?_⟩
      simp only [gather, entered, none, Option.toList_some, List.append_nil]
  | transfers before after entered returned givenBack =>
    refine later.of_left (holding_of_column? after) (fun null => ?_) entered ?_
    · cases after.symm.trans null
    · rw [holding_of_column? before, returned, givenBack]
      rfl
  | releases before after entered returned givenBack =>
    refine later.of_left (holding_of_column? after) (fun null => ?_) entered ?_
    · cases after.symm.trans null
    · rw [holding_of_column? before, returned, givenBack]
      rfl
  | drops before after entered returned givenBack =>
    refine later.of_left (holding_of_column? after) (fun null => ?_) entered ?_
    · cases after.symm.trans null
    · rw [returned, givenBack]
      rfl

/-- The data of a column balances over every run that writes to no slice of somebody. -/
theorem Sound.balances {ops : List Op} (sound : session.Sound) (small : ∀ op ∈ ops, op.Small)
    (undisturbed : session.Undisturbed ops) (inside : place < session.rows.length)
    (index : Nat) : session.Balances place index ops := by
  induction ops generalizing session with
  | nil => exact ⟨List.append_nil _, .inl rfl⟩
  | cons op rest inductionHypothesis =>
    obtain ⟨quiet, undisturbed⟩ := undisturbed
    have kept := sound.keeps_step (small op List.mem_cons_self) quiet
    have later := inductionHypothesis kept.sound
      (fun other member => small other (List.mem_cons_of_mem _ member)) undisturbed
      (inside_step inside op)
    exact (handles_step inside index op).balances kept later

/-- Is this an operation on rows, or on values and what is made of them? -/
def Op.isOnData : Op → Bool
  | .row _ | .value _ => true
  | _ => false

/-- Operations on rows and values add no sizes to others and write to no slice. -/
theorem undisturbed_of_isOnData {ops : List Op} (onData : ∀ op ∈ ops, op.isOnData = true) :
    (∀ op ∈ ops, op.Small) ∧ session.Undisturbed ops := by
  induction ops generalizing session with
  | nil => exact ⟨List.forall_mem_nil _, trivial⟩
  | cons op rest inductionHypothesis =>
    obtain ⟨first, others⟩ := List.forall_mem_cons.1 onData
    obtain ⟨small, undisturbed⟩ := @inductionHypothesis (session.step op).session others
    cases op with
    | row | value =>
      exact ⟨List.forall_mem_cons.2 ⟨List.forall_mem_nil _, small⟩, rfl, undisturbed⟩
    | buffer | slice | composite => cases first

/-! ### One owner -/

/-- What is true of the data of a column when some operations have been performed, of which any
may have failed. What was in the column and what was put into it was taken out of it, given back or
is still there, with the same bytes. -/
structure OneOwner (session : Session) (place index : Nat) (ops : List Op) : Prop
    extends Balances session place index ops where
  /-- What was in the column and what was put into it is one value at most. -/
  once : ((session.holding place index).toList ++
    gather (entered place index) session ops).length ≤ 1
  /-- Whatever is done next, the slot moves from NULL to owned, from there to transferred or
  released, or not at all. -/
  moves : ∀ op, Slot.Moves ((session.after ops).column? place index)
    (((session.after ops).step op).session.column? place index)
  /-- Asking for the data gives some exactly while the row owns it. -/
  data : ∀ row, (session.after ops).rows[place]? = some (some row) →
    ((session.after ops).step (.row (.data place index))).result =
      dataResult (session.after ops).pool row.slots[index]?
  /-- The columns that count as owned are those whose state says so. -/
  counted : ∀ row, (session.after ops).rows[place]? = some (some row) →
    row.ownedCount = (row.slots.map Slot.name).count "owned"
  /-- Taking gives the data that the row owns and nothing for NULL. It fails if the data is gone
  or there is no such column. -/
  taken : ∀ row, (session.after ops).rows[place]? = some (some row) →
    ((session.after ops).step (.row (.take place index))).result =
      takeResult row.slots[index]? (session.after ops).values.length
  /-- An operation that would take data, but fails or gives none, changes nothing. -/
  refused : ∀ op, op.takes = true →
    (∀ made, ((session.after ops).step op).result ≠ .ok (.moved (some made))) →
    ((session.after ops).step op).session = session.after ops
  released : (session.after ops).GivesBack
    ((session.after ops).step (.row (.release place))).session place
  dropped : (session.after ops).GivesBack
    ((session.after ops).step (.row (.drop place))).session place

/-- The data of a column of a row has one owner at any time, whatever operations are performed on
the row and on anything else, as long as nobody writes to a slice that belongs to somebody. -/
theorem column_data_has_one_owner {ops : List Op} {row : Row} (reachable : session.Reachable)
    (small : ∀ op ∈ ops, op.Small) (undisturbed : session.Undisturbed ops)
    (there : session.rows[place]? = some (some row)) (index : Nat) :
    session.OneOwner place index ops := by
  obtain ⟨inside, -⟩ := List.getElem?_eq_some_iff.1 there
  have balances := reachable.sound.balances small undisturbed inside index
  have sound := (reachable.after small).sound
  exact {
    toBalances := balances
    once := balances.once
    moves := fun op => (handles_step (inside_after inside ops) index op).moves
    data := fun row there => result_data there index
    counted := fun row _ => row.ownedCount_eq
    taken := fun row there => result_take there index
    refused := fun op => step_of_refused
    released := sound.givesBack_release place
    dropped := sound.givesBack_drop place }

/-- A column for large binary objects, and one for small numbers. -/
def heldColumns : List ColumnType :=
  [⟨.varbinaryMax, .part, 0, .usAscii, 0, 0⟩, ⟨.intN, .byte, 4, .usAscii, 0, 0⟩]

/-- A large object in one chunk. -/
def heldObject : Bytes := [2, 0, 0, 0, 0, 0, 0, 0] ++ [2, 0, 0, 0, 7, 8] ++ [0, 0, 0, 0]

/-- A session that has decoded a row with this object and a NULL. -/
def heldSession : Session :=
  (fresh {} heldColumns).after [.buffer (.append (heldObject ++ [0])), .row .decode]

/-- Asking for the object as a text fails, taking it succeeds once, and the row is given back. -/
def heldUsed : List Op :=
  [.value (.lobOfRow .character 0 0 ⟨.varbinaryMax, .part, 0, .usAscii, 0, 0⟩ 1),
    .row (.take 0 0), .row (.take 0 0), .row (.release 0), .row (.drop 0)]

theorem column_data_has_one_owner_heldSession :
    (gather (returned 0 0) heldSession heldUsed).map Prod.snd = [heldObject] ∧
      gather (givenBack 0 0) heldSession heldUsed = [] := by
  have new : Session.new {} heldColumns = .ok (fresh {} heldColumns) := rfl
  have reachable : heldSession.Reachable := (Reachable.new new).after (by decide)
  have present : heldSession.rows[0]?.join.isSome = true := by decide +kernel
  obtain ⟨row, present⟩ := Option.isSome_iff_exists.1 present
  have there := Option.join_eq_some_iff.1 present
  have onData : ∀ op ∈ heldUsed, op.isOnData = true := by decide
  obtain ⟨small, undisturbed⟩ := undisturbed_of_isOnData onData
  have balance := (column_data_has_one_owner reachable small undisturbed there 0).balance
  have held : (heldSession.holding 0 0).map Prod.snd = some heldObject := by decide +kernel
  have entered : gather (entered 0 0) heldSession heldUsed = [] := by decide +kernel
  have left : (heldSession.after heldUsed).holding 0 0 = none := by decide +kernel
  have givenBack : gather (givenBack 0 0) heldSession heldUsed = [] := by decide +kernel
  rw [entered, left, givenBack, Option.toList_none, List.append_nil, List.append_nil,
    List.append_nil] at balance
  refine ⟨?_, givenBack⟩
  rw [← balance, ← Option.toList_map, held]
  rfl

end TabularStream.Session
