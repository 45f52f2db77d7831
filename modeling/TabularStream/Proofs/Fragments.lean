/-
This file proves that the rows that are read do not depend on how the bytes arrive. The bytes may
be cut into any fragments, reading may be resumed at any time, and what has been read may be
discarded and rows released at any time. Whatever is done, the bytes that were delivered are the
rows that were returned, in order, followed by what is readable. That is the invariant of a
delivery, `Follows`, and it leaves nothing open once no further row can be read: a token that is
whole stays the same token when more bytes arrive, so bytes can be cut into rows in one way only.
-/

import TabularStream.Proofs.Reachable

namespace TabularStream

/-! ### Bytes as rows -/

/-- Some bytes are rows, given by the pieces of their columns, followed by others. -/
inductive Tokens (columns : List ColumnType) :
    Bytes → List (List (Option Bytes)) → Bytes → Prop where
  | none (bytes : Bytes) : Tokens columns bytes [] bytes
  | row {bytes middle rest : Bytes} {pieces : List (Option Bytes)}
      {rows : List (List (Option Bytes))}
      (first : splitToken columns bytes = some (pieces, middle))
      (others : Tokens columns middle rows rest) : Tokens columns bytes (pieces :: rows) rest

namespace Tokens

variable {columns : List ColumnType} {bytes rest : Bytes} {rows : List (List (Option Bytes))}

/-- More bytes at the end change no row. -/
theorem append (tokens : Tokens columns bytes rows rest) (more : Bytes) :
    Tokens columns (bytes ++ more) rows (rest ++ more) := by
  induction tokens with
  | none => exact .none _
  | row first others inductionHypothesis =>
    exact .row (splitToken_append first more) inductionHypothesis

/-- The next row is read from what follows the rows so far. -/
theorem concat {last : Bytes} {pieces : List (Option Bytes)}
    (tokens : Tokens columns bytes rows rest)
    (next : splitToken columns rest = some (pieces, last)) :
    Tokens columns bytes (rows ++ [pieces]) last := by
  induction tokens with
  | none => exact .row next (.none _)
  | row first others inductionHypothesis => exact .row first (inductionHypothesis next)

/-- Bytes can be cut into rows to the end in one way only. -/
theorem deterministic {rest' : Bytes} {rows' : List (List (Option Bytes))}
    (tokens : Tokens columns bytes rows rest) (tokens' : Tokens columns bytes rows' rest')
    (ends : splitToken columns rest = Option.none)
    (ends' : splitToken columns rest' = Option.none) : rows = rows' ∧ rest = rest' := by
  induction tokens generalizing rows' with
  | none =>
    cases tokens' with
    | none => exact ⟨rfl, rfl⟩
    | row first => cases ends.symm.trans first
  | row first others inductionHypothesis =>
    cases tokens' with
    | none => cases ends'.symm.trans first
    | row first' others' =>
      cases first.symm.trans first'
      obtain ⟨rfl, rfl⟩ := inductionHypothesis others' ends
      exact ⟨rfl, rfl⟩

/-- Every row takes at least one byte. -/
theorem length_le (tokens : Tokens columns bytes rows rest) :
    rows.length + rest.length ≤ bytes.length := by
  induction tokens with
  | none => exact Nat.le_of_eq (Nat.zero_add _)
  | row first others inductionHypothesis =>
    have shorter := (length_lt_of_splitToken first).1
    rw [List.length_cons]
    omega

end Tokens

/-! ### What is seen of a row -/

/-- What can be seen of a slot: its state, and a copy of the wire bytes of its data. -/
def Slot.seen (pool : Pool) (slot : Slot) : String × Option (Except Failure Bytes) :=
  (slot.name, slot.value?.map (·.copy pool))

/-- What can be seen of a row. -/
def Row.seen (row : Row) (pool : Pool) : List (String × Option (Except Failure Bytes)) :=
  row.slots.map (Slot.seen pool)

/-- What is seen of a column that has just been read. -/
def seenPiece : Option Bytes → String × Option (Except Failure Bytes)
  | none => ("null", none)
  | some bytes => ("owned", some (.ok bytes))

/-- A row that has just been read shows the bytes that it was read from. -/
theorem Row.seen_eq {row : Row} {pool : Pool} {pieces : List (Option Bytes)}
    (fresh : ∀ slot ∈ row.slots, slot.IsFresh) (wires : row.slots.map (Slot.wire? pool) = pieces)
    (held : ∀ slice ∈ row.slices, pool.Holds slice)
    (small : ∀ piece, some piece ∈ pieces → piece.length ≤ Word.largestSize) :
    row.seen pool = pieces.map seenPiece := by
  subst wires
  rw [List.map_map]
  refine List.map_congr_left fun slot member => ?_
  rcases fresh slot member with rfl | ⟨value, rfl⟩
  · rfl
  · have inside : ∀ slice ∈ value.slices, pool.Holds slice :=
      fun slice here => held slice (List.mem_flatMap.2 ⟨_, member, here⟩)
    have copied := Value.copy_eq inside (small _ (List.mem_map.2 ⟨_, member, rfl⟩))
    exact congrArg (fun bytes => ("owned", some bytes)) copied

namespace Session

/-! ### Deliveries -/

/-- The moves of a delivery. -/
inductive Move where
  | append (fragment : Bytes)
  /-- Prepare room for a fragment and some more bytes, copy them, and commit the fragment. -/
  | write (fragment spare : Bytes)
  | prepare (count : UInt64)
  | resume
  | discard
  /-- Release a row that was returned. -/
  | release (row : Nat)
  /-- Drop a row that was returned. -/
  | drop (row : Nat)
  deriving DecidableEq, Repr

/-- The operation that performs a move. -/
def Move.op : Move → Op
  | append fragment => .buffer (.append fragment)
  | write fragment spare =>
    .buffer (.write (fragment ++ spare) (UInt64.ofNat fragment.length))
  | prepare count => .buffer (.prepare count)
  | resume => .row .resume
  | discard => .buffer .discard
  | release row => .row (.release row)
  | drop row => .row (.drop row)

/-- The bytes that a move delivers when it succeeds. -/
def Move.fragment : Move → Bytes
  | append fragment => fragment
  | write fragment _ => fragment
  | _ => []

/-- The bytes that have been delivered by a move. -/
def Outcome.delivered (outcome : Outcome) (move : Move) : Bytes :=
  match outcome.result with
  | .ok _ => move.fragment
  | .error _ => []

/-- The row that has been returned, as it is seen at that moment. -/
def Outcome.returned (outcome : Outcome) : List (List (String × Option (Except Failure Bytes))) :=
  match outcome.result with
  | .ok (.received index) =>
    (outcome.session.rows[index]?.join.map (·.seen outcome.session.pool)).toList
  | _ => []

/-- A session in the course of a delivery, the bytes that have been delivered to it, and the rows
that it has returned. -/
structure Delivery where
  session : Session
  delivered : Bytes := []
  rows : List (List (String × Option (Except Failure Bytes))) := []

/-- Make a move. -/
def Delivery.move (delivery : Delivery) (move : Move) : Delivery :=
  let outcome := delivery.session.step move.op
  { session := outcome.session
    delivered := delivery.delivered ++ outcome.delivered move
    rows := delivery.rows ++ outcome.returned }

/-- Make some moves, one after the other. -/
def deliver (session : Session) (moves : List Move) : Delivery :=
  moves.foldl Delivery.move { session }

/-- Resume once more. -/
def Delivery.resumed (delivery : Delivery) : Outcome := delivery.session.step (.row .resume)

/-- The bytes that have not been read. -/
def unread (session : Session) : Bytes := session.buffer.readable session.pool

/-! ### What a move does -/

/-- What a move does that reads no row: the bytes that it delivers become readable. -/
structure Arrives (session : Session) (move : Move) (outcome : Outcome) : Prop where
  unread : outcome.session.unread = session.unread ++ outcome.delivered move
  columns : outcome.session.columns = session.columns
  returned : outcome.returned = []

variable {session : Session}

theorem arrives_unchanged {move : Move} {outcome : Outcome} {failure : Failure}
    (same : outcome = ⟨session, .error failure⟩) : session.Arrives move outcome := by
  subst same
  exact ⟨(List.append_nil _).symm, rfl, rfl⟩

/-- A move that fails delivers nothing, so only its success matters. -/
theorem arrives_attempt {move : Move} {operation : Except Failure (Session × Reply)}
    (success : ∀ after reply, operation = .ok (after, reply) →
      session.Arrives move ⟨after, .ok reply⟩) :
    session.Arrives move (session.attempt operation) := by
  cases operation with
  | error failure => exact arrives_unchanged rfl
  | ok result => exact success _ _ rfl

/-- Taking slices back delivers nothing. -/
theorem Sheds.arrives {after : Session} {released : List Slice} {move : Move}
    (sheds : session.Sheds after released) (sound : session.Sound)
    (columns : after.columns = session.columns) (silent : move.fragment = []) :
    session.Arrives move ⟨after, .ok .nothing⟩ := by
  refine ⟨?_, columns, rfl⟩
  show after.unread = session.unread ++ move.fragment
  rw [silent, List.append_nil]
  exact sheds.readable sound

theorem Sound.arrives_append (sound : session.Sound) {fragment : Bytes}
    (small : fragment.length ≤ Word.largestSize) :
    session.Arrives (.append fragment) (session.step (.buffer (.append fragment))) := by
  refine arrives_attempt fun after reply success => ?_
  obtain ⟨found, appended, done⟩ := bind_inversion success
  cases done
  have receives := ReceiveBuffer.Sound.append sound (sound.add_lt small).1 appended
  exact ⟨receives.readable, rfl, rfl⟩

theorem Sound.arrives_prepare (sound : session.Sound) {count : UInt64}
    (small : count.toNat ≤ Word.largestSize) :
    session.Arrives (.prepare count) (session.step (.buffer (.prepare count))) := by
  refine arrives_attempt fun after reply success => ?_
  obtain ⟨found, made, done⟩ := bind_inversion success
  cases done
  have receives := (ReceiveBuffer.Sound.prepare sound (sound.add_lt small).1 made).1
  exact ⟨receives.readable, rfl, rfl⟩

theorem Sound.arrives_write (sound : session.Sound) {fragment spare : Bytes}
    (small : (fragment ++ spare).length ≤ Word.largestSize) :
    session.Arrives (.write fragment spare) (session.step (Move.write fragment spare).op) := by
  have shorter : fragment.length ≤ (fragment ++ spare).length := by
    rw [List.length_append]
    exact Nat.le_add_right _ _
  have count : (UInt64.ofNat fragment.length).toNat = fragment.length :=
    UInt64.toNat_ofNat_of_lt (Nat.lt_of_le_of_lt (Nat.le_trans shorter small) (by decide))
  unfold Move.op Session.step performBuffer writeBytes
  dsimp only
  rw [count]
  split
  · exact arrives_unchanged rfl
  · rename_i made
    obtain ⟨receives, held, -, room⟩ :=
      ReceiveBuffer.Sound.prepare sound (sound.add_lt small).1 made
    split
    · have nothing := receives.trans (receives.sound.fillRegion held room (Nat.zero_le _))
      exact ⟨nothing.readable, rfl, rfl⟩
    · rename_i committed done
      have limit := receives.sound.capacity_le
      obtain ⟨rfl, -, -⟩ := receives.sound.commit
        (Nat.lt_of_le_of_lt (Nat.le_trans (Nat.add_le_add_left shorter _)
          (Nat.le_trans room limit)) (by decide)) done
      have filled := receives.trans (receives.sound.fillRegion held room shorter)
      rw [List.take_left] at filled
      exact ⟨filled.readable, rfl, rfl⟩

theorem Sound.arrives_discard (sound : session.Sound) :
    session.Arrives .discard (session.step (.buffer .discard)) :=
  ⟨(ReceiveBuffer.Sound.discard sound).readable, rfl, rfl⟩

theorem Sound.arrives_release (sound : session.Sound) (row : Nat) :
    session.Arrives (.release row) (session.step (.row (.release row))) := by
  refine arrives_attempt fun after reply success => ?_
  obtain ⟨target, found, done⟩ := bind_inversion success
  cases done
  exact (sheds_releaseRow found).arrives sound rfl rfl

theorem Sound.arrives_drop (sound : session.Sound) (row : Nat) :
    session.Arrives (.drop row) (session.step (.row (.drop row))) := by
  refine arrives_attempt fun after reply success => ?_
  obtain ⟨released, found, done⟩ := bind_inversion success
  cases done
  exact (sheds_dropRow found).arrives sound rfl rfl

/-- The answer of resuming when no row can be read from the given bytes. -/
def Reply.stopped : Bytes → Reply
  | [] => .needsMore
  | byte :: _ =>
    match RowToken.ofByte? byte with
    | none => .unexpected .unexpectedToken
    | some _ => .needsMore

theorem Reply.stopped_eq (bytes : Bytes) :
    stopped bytes = .needsMore ∨ stopped bytes = .unexpected .unexpectedToken := by
  cases bytes with
  | nil => exact .inl rfl
  | cons byte body =>
    unfold stopped
    dsimp only
    cases RowToken.ofByte? byte with
    | none => exact .inr rfl
    | some token => exact .inl rfl

/-- Resuming without a whole row changes nothing. -/
theorem Sound.resume_of_none (sound : session.Sound)
    (found : splitToken session.columns session.unread = none) :
    session.step (.row .resume) = ⟨session, .ok (.stopped session.unread)⟩ := by
  unfold Session.step performRow
  dsimp only
  rw [ReceiveBuffer.Sound.resume_of_none sound found]
  change session.receiveToken ⟨_, _, .ok (ReceiveBuffer.verdict session.unread)⟩ = _
  cases session.unread with
  | nil => rfl
  | cons byte body =>
    unfold ReceiveBuffer.verdict Reply.stopped
    dsimp only
    cases RowToken.ofByte? byte <;> rfl

/-- Resuming with a whole row returns it and moves past it. -/
theorem Sound.resume_of_some (sound : session.Sound) {pieces : List (Option Bytes)} {rest : Bytes}
    (found : splitToken session.columns session.unread = some (pieces, rest)) :
    (session.step (.row .resume)).returned = [pieces.map seenPiece] ∧
      (session.step (.row .resume)).session.unread = rest ∧
      (session.step (.row .resume)).session.columns = session.columns := by
  obtain ⟨pool, buffer, row, resumed, takes, fresh, wires⟩ :=
    ReceiveBuffer.Sound.resume_of_some sound found
  unfold Session.step performRow
  dsimp only
  rw [resumed]
  refine ⟨?_, takes.readable, rfl⟩
  have seen : row.seen pool = pieces.map seenPiece := by
    refine Row.seen_eq fresh wires (fun slice member => ?_) fun piece member => ?_
    · refine takes.sound.accounts.holds (List.mem_append_right _ ?_)
      exact List.mem_append_left _ member
    · refine Nat.le_trans ((length_lt_of_splitToken found).2 piece member) ?_
      exact ReceiveBuffer.Sound.length_readable_le sound
  simp only [receiveToken, Outcome.returned, addRow, afterReading, List.getElem?_concat_length,
    Option.join_some, Option.map_some, Option.toList_some, seen]

/-! ### The invariant of a delivery -/

/-- What was delivered are the rows that were returned and what is readable. -/
structure Follows (columns : List ColumnType) (delivery : Delivery) : Prop where
  sound : delivery.session.Sound
  reads : delivery.session.columns = columns
  tokens : ∃ rows, delivery.rows = rows.map (List.map seenPiece) ∧
    Tokens columns delivery.delivered rows delivery.session.unread

variable {columns : List ColumnType} {delivery : Delivery}

theorem delivered_resume (outcome : Outcome) : outcome.delivered .resume = [] := by
  unfold Outcome.delivered
  split <;> rfl

theorem follows_of_arrives {move : Move} (follows : Follows columns delivery)
    (small : move.op.Small)
    (arrives : delivery.session.Arrives move (delivery.session.step move.op)) :
    Follows columns (delivery.move move) := by
  obtain ⟨rows, returned, tokens⟩ := follows.tokens
  refine ⟨follows.sound.step small, arrives.columns.trans follows.reads, rows, ?_, ?_⟩
  · show delivery.rows ++ _ = _
    rw [arrives.returned, List.append_nil, returned]
  · show Tokens columns (delivery.delivered ++ _) rows
      (delivery.session.step move.op).session.unread
    rw [arrives.unread]
    exact tokens.append _

theorem follows_resume (follows : Follows columns delivery) :
    Follows columns (delivery.move .resume) := by
  obtain ⟨rows, returned, tokens⟩ := follows.tokens
  have small : (Move.resume.op).Small := fun size member => by cases member
  have kept := follows.sound.step small
  cases found : splitToken columns delivery.session.unread with
  | none =>
    have same := follows.sound.resume_of_none (follows.reads ▸ found)
    have stays : Outcome.returned ⟨delivery.session, .ok (.stopped delivery.session.unread)⟩ =
        [] := by
      rcases Reply.stopped_eq delivery.session.unread with stops | stops
      · rw [stops]
        rfl
      · rw [stops]
        rfl
    refine follows_of_arrives follows small ⟨?_, ?_, ?_⟩
    · rw [delivered_resume, List.append_nil]
      exact congrArg (fun outcome => outcome.session.unread) same
    · exact congrArg (fun outcome => outcome.session.columns) same
    · exact (congrArg Outcome.returned same).trans stays
  | some cut =>
    obtain ⟨pieces, rest⟩ := cut
    obtain ⟨seen, left, same⟩ := follows.sound.resume_of_some (follows.reads ▸ found)
    refine ⟨kept, same.trans follows.reads, rows ++ [pieces], ?_, ?_⟩
    · show delivery.rows ++ _ = _
      rw [Move.op, seen, returned, List.map_append]
      rfl
    · show Tokens columns (delivery.delivered ++ _) _ _
      rw [delivered_resume, List.append_nil]
      exact left ▸ tokens.concat found

/-- Every move keeps the invariant. -/
theorem Follows.move (follows : Follows columns delivery) {move : Move} (small : move.op.Small) :
    Follows columns (delivery.move move) := by
  cases move with
  | append fragment =>
    exact follows_of_arrives follows small
      (follows.sound.arrives_append (small _ (List.mem_singleton.2 rfl)))
  | write fragment spare =>
    exact follows_of_arrives follows small
      (follows.sound.arrives_write (small _ List.mem_cons_self))
  | prepare count =>
    exact follows_of_arrives follows small
      (follows.sound.arrives_prepare (small _ (List.mem_singleton.2 rfl)))
  | resume => exact follows_resume follows
  | discard => exact follows_of_arrives follows small follows.sound.arrives_discard
  | release row => exact follows_of_arrives follows small (follows.sound.arrives_release row)
  | drop row => exact follows_of_arrives follows small (follows.sound.arrives_drop row)

theorem follows_deliver {config : PoolConfig} {session : Session} {moves : List Move}
    (made : Session.new config columns = .ok session) (small : ∀ move ∈ moves, move.op.Small) :
    Follows columns (session.deliver moves) := by
  have start : Follows columns { session } := by
    cases new_inversion made
    refine ⟨sound_fresh config columns, rfl, [], rfl, ?_⟩
    have nothing : (Session.fresh config columns).unread = [] := rfl
    exact nothing ▸ .none _
  unfold deliver
  generalize ({ session } : Delivery) = delivery at start
  induction moves generalizing delivery with
  | nil => exact start
  | cons move rest inductionHypothesis =>
    exact inductionHypothesis (fun other member => small other (List.mem_cons_of_mem _ member)) _
      (start.move (small move List.mem_cons_self))

/-- A delivery that has come to its end has no whole row left. -/
theorem Follows.split_eq_none (follows : Follows columns delivery)
    (ended : delivery.resumed.returned = []) :
    splitToken columns delivery.session.unread = none := by
  cases found : splitToken columns delivery.session.unread with
  | none => rfl
  | some cut =>
    obtain ⟨pieces, rest⟩ := cut
    have returned := (follows.sound.resume_of_some (follows.reads ▸ found)).1
    cases returned.symm.trans ended

/-- The rows that are read do not depend on how the bytes are cut into fragments: they are those
that the bytes start with. -/
theorem rows_independent_of_fragments {config config' : PoolConfig} {columns : List ColumnType}
    {session session' : Session} (made : Session.new config columns = .ok session)
    (made' : Session.new config' columns = .ok session') {moves moves' : List Move}
    (small : ∀ move ∈ moves, move.op.Small) (small' : ∀ move ∈ moves', move.op.Small)
    (same : (session.deliver moves).delivered = (session'.deliver moves').delivered)
    (ended : (session.deliver moves).resumed.returned = [])
    (ended' : (session'.deliver moves').resumed.returned = []) :
    (session.deliver moves).rows = (session'.deliver moves').rows ∧
      (session.deliver moves).resumed.result = (session'.deliver moves').resumed.result ∧
      ((session.deliver moves).resumed.result = .ok .needsMore ∨
        (session.deliver moves).resumed.result = .ok (.unexpected .unexpectedToken)) ∧
      (session.deliver moves).resumed.session.unread =
        (session'.deliver moves').resumed.session.unread ∧
      (∃ pieces, (session.deliver moves).rows = pieces.map (List.map seenPiece) ∧
        Tokens columns (session.deliver moves).delivered pieces
          (session.deliver moves).resumed.session.unread) ∧
      (session.deliver moves).rows.length ≤ (session.deliver moves).delivered.length := by
  have follows := follows_deliver made small
  have follows' := follows_deliver made' small'
  generalize session.deliver moves = delivery at same ended follows ⊢
  generalize session'.deliver moves' = delivery' at same ended' follows' ⊢
  obtain ⟨rows, returned, tokens⟩ := follows.tokens
  obtain ⟨rows', returned', tokens'⟩ := follows'.tokens
  have none := follows.split_eq_none ended
  have none' := follows'.split_eq_none ended'
  obtain ⟨rfl, unread⟩ := tokens.deterministic (same ▸ tokens') none none'
  have stopped : delivery.resumed = _ := follows.sound.resume_of_none (follows.reads ▸ none)
  have stopped' : delivery'.resumed = _ :=
    follows'.sound.resume_of_none (follows'.reads ▸ none')
  have read : ∃ pieces, delivery.rows = pieces.map (List.map seenPiece) ∧
      Tokens columns delivery.delivered pieces delivery.session.unread := ⟨rows, returned, tokens⟩
  rw [unread] at read
  rw [stopped, stopped', unread]
  refine ⟨returned.trans returned'.symm, rfl, ?_, rfl, read, ?_⟩
  · rcases Reply.stopped_eq delivery'.session.unread with stops | stops
    · exact .inl (congrArg Except.ok stops)
    · exact .inr (congrArg Except.ok stops)
  · rw [returned, List.length_map]
    have bound := tokens.length_le
    omega

/-- Two rows of one number each, the second one NULL, and a byte that starts no row. -/
def twoRows : Bytes := [0xD1, 1, 7, 0xD1, 0, 0xAA]

/-- The delivery of everything at once. -/
def atOnce : List Move := [.append twoRows, .resume, .resume]

/-- The delivery in three fragments, to a buffer that has to move on to another block. -/
def inFragments : List Move :=
  [.write [0xD1] [9], .resume, .append [1, 7, 0xD1], .resume, .discard, .drop 0,
    .write [0, 0xAA] [], .resume, .release 1]

theorem rows_independent_of_fragments_twoRows :
    ((fresh {} [⟨.intN, .byte, 4, .usAscii, 0, 0⟩]).deliver atOnce).rows =
      ((fresh ⟨2, 0⟩ [⟨.intN, .byte, 4, .usAscii, 0, 0⟩]).deliver inFragments).rows := by
  have new : Session.new {} [⟨.intN, .byte, 4, .usAscii, 0, 0⟩] = .ok (fresh {} _) := rfl
  have new' : Session.new ⟨2, 0⟩ [⟨.intN, .byte, 4, .usAscii, 0, 0⟩] = .ok (fresh ⟨2, 0⟩ _) := rfl
  exact (rows_independent_of_fragments new new' (by decide) (by decide) (by decide) rfl rfl).1

end Session

end TabularStream
