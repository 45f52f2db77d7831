/-
This file keeps the accounts of demand. Each segment takes one from the demand of its stream and
nothing else takes anything, so the demand is what has been asked for and not been given, and a
stream never gives more than it was asked for. The demand is counted modulo `2^64`, the accounts are
not.

What has to be shown is that a stream without demand gives no segment. It may still read on, past
the end of its value or over an empty scalar, if looking ahead shows no chunk with a payload; that
looking ahead misses none is proved for chunk readers. Reading to the end is taken apart into the
calls that it makes, so that what it asks for is counted too.
-/

import TabularStream.Proofs.Lifecycle
import TabularStream.Proofs.Lookahead

namespace TabularStream.Stream

variable {stream : Stream} {pool : Pool} {others : List Slice}

/-! ### One call -/

/-- A stream whose reader can look ahead, for as long as it is active. -/
def Placed (stream : Stream) (pool : Pool) (others : List Slice) : Prop :=
  stream.verdict? = none → stream.reader.Placed pool others

theorem placed_pull (placed : stream.reader.Placed pool others) :
    (stream.pull pool).stream.Placed (stream.pull pool).pool others := by
  fun_induction Stream.pull stream pool with
  | case1 => exact fun _ => placed
  | case2 | case3 | case4 | case5 => exact fun active => by cases active
  | case6 stream pool _ pulled payload chunk decoded released stream' _ _ inductionHypothesis =>
    exact inductionHypothesis placed.afterChunk
  | case7 => exact fun _ => placed.afterChunk

theorem Placed.next (placed : stream.Placed pool others) :
    (stream.next pool).stream.Placed (stream.next pool).pool others := by
  cases verdict : stream.verdict? with
  | none =>
    rw [next_of_active verdict]
    exact placed_pull (placed verdict)
  | some event =>
    rw [next_of_verdict verdict]
    exact placed

/-- A stream that sees no chunk with a payload, and has no demand, reads on to its end. -/
theorem last_of_pull (placed : stream.reader.Placed pool others) (spent : stream.demand = 0)
    (clear : stream.reader.chunkAhead pool = false) :
    (stream.pull pool).answer = .ended ∨ ∃ error, (stream.pull pool).answer = .failed error := by
  fun_induction Stream.pull stream pool with
  | case1 stream pool ahead => cases clear.symm.trans ahead.2
  | case2 | case3 | case5 => exact .inr ⟨_, rfl⟩
  | case4 => exact .inl rfl
  | case6 stream pool _ pulled payload chunk decoded released stream' _ _ inductionHypothesis =>
    cases placed.eq_nil_of_chunk clear chunk
    have phase : released.2.phase = .scalarRead := placed.phase_of_nil chunk
    refine inductionHypothesis placed.afterChunk spent ?_
    show released.2.chunkAhead released.1 = false
    unfold ChunkReader.chunkAhead
    rw [phase]
  | case7 stream pool _ pulled payload chunk decoded released stream' _ filled =>
    cases placed.eq_nil_of_chunk clear chunk
    have nothing : (stream.decoder.decode []).output = [] := by
      cases stream.decoder <;> rfl
    exact absurd nothing filled

/-- A stream without demand waits where there is a chunk with a payload. -/
theorem next_of_ahead (active : stream.verdict? = none)
    (ahead : stream.demand = 0 ∧ stream.reader.chunkAhead pool = true) :
    stream.next pool = ⟨pool, stream, .needsDemand⟩ := by
  rw [next_of_active active, pull, if_pos ahead]

/-- What a call to `next` answers that has no demand. -/
theorem Placed.next_of_spent (placed : stream.Placed pool others)
    (active : stream.verdict? = none) (spent : stream.demand = 0) :
    (stream.reader.chunkAhead pool = true ∧ stream.next pool = ⟨pool, stream, .needsDemand⟩) ∨
      (stream.reader.chunkAhead pool = false ∧ ((stream.next pool).answer = .ended ∨
        ∃ error, (stream.next pool).answer = .failed error)) := by
  cases ahead : stream.reader.chunkAhead pool with
  | true => exact .inl ⟨rfl, next_of_ahead active ⟨spent, ahead⟩⟩
  | false =>
    have last := last_of_pull (placed active) spent ahead
    rw [← next_of_active active] at last
    exact .inr ⟨rfl, last⟩

/-- A stream that waits has no demand, has a chunk with a payload ahead, and changes nothing. -/
theorem Placed.of_needsDemand (placed : stream.Placed pool others)
    (waits : (stream.next pool).answer = .needsDemand) :
    stream.demand = 0 ∧ stream.reader.chunkAhead pool = true ∧
      stream.next pool = ⟨pool, stream, .needsDemand⟩ := by
  have spent := demand_of_needsDemand waits
  have active := active_of_next waits (by simp)
  rcases placed.next_of_spent active spent with ⟨ahead, same⟩ | ⟨-, last⟩
  · exact ⟨spent, ahead, same⟩
  · rw [waits] at last
    exact absurd last (by simp)

/-- A stream without demand gives no segment. -/
theorem Placed.demand_ne_zero (placed : stream.Placed pool others) {bytes : Bytes}
    (segment : (stream.next pool).answer = .segment bytes) : stream.demand ≠ 0 := by
  intro spent
  have active := active_of_next segment (by simp)
  rcases placed.next_of_spent active spent with ⟨-, same⟩ | ⟨-, last⟩
  · rw [same] at segment
    cases segment
  · rw [segment] at last
    exact absurd last (by simp)

/-- A segment takes one from a demand that is there. -/
theorem Placed.demand_next_add_one (placed : stream.Placed pool others) {bytes : Bytes}
    (segment : (stream.next pool).answer = .segment bytes) :
    (stream.next pool).stream.demand.toNat + 1 = stream.demand.toNat := by
  have some : 0 < stream.demand.toNat :=
    Nat.pos_of_ne_zero fun zero => placed.demand_ne_zero segment (UInt64.toNat_inj.1 zero)
  have one : (1 : UInt64) ≤ stream.demand := UInt64.le_iff_toNat_le.2 some
  rw [demand_next, segment]
  dsimp only
  rw [UInt64.toNat_sub_of_le _ _ one]
  exact Nat.sub_add_cancel some

/-! ### Runs -/

/-- How many segments a way to use a stream asks for. -/
def Op.asks : Op → Nat
  | .request count => count.toNat
  | _ => 0

/-- The segment of an answer, if it is one. -/
def Reply.segment? : Reply → Option Bytes
  | .event (.segment bytes) => some bytes
  | _ => none

/-- How many segments some calls ask for. -/
def asked : List Op → Nat
  | [] => 0
  | op :: ops => op.asks + asked ops

/-- The segments among some answers. -/
def given (replies : List Reply) : List Bytes := replies.filterMap Reply.segment?

theorem length_given_cons (reply : Reply) (replies : List Reply) :
    (given (reply :: replies)).length =
      reply.segment?.toList.length + (given replies).length := by
  unfold given
  rw [List.filterMap_cons]
  cases reply.segment? with
  | none => exact (Nat.zero_add _).symm
  | some bytes => exact Nat.add_comm _ _

theorem placed_of_isDone (done : stream.isDone) : stream.Placed pool others := by
  intro active
  rw [isDone_eq, active] at done
  cases done

theorem Placed.perform (placed : stream.Placed pool others) (op : Op) :
    (stream.perform pool op).stream.Placed (stream.perform pool op).pool others := by
  cases op with
  | next => exact placed.next
  | request count => exact placed
  | cancel => exact placed_of_isDone (isDone_stop stream pool (by decide))
  | discard => exact placed_of_isDone (isDone_stop stream pool (by decide))
  | readAll => exact placed_of_isDone (isDone_readAll stream pool)
  | info => exact placed

/-- What is left of what has been asked for is the demand, modulo `2^64`. -/
def Owes (stream : Stream) (left : Nat) : Prop := stream.demand.toNat = left % Word.modulus

theorem eq_of_add_one {left demand : Nat} (one : demand + 1 = left % Word.modulus) :
    left = 1 + (left - 1) ∧ demand = (left - 1) % Word.modulus := by
  simp only [Word.modulus] at one ⊢
  omega

/-- A call adds what it asks for to what is left, and takes the segment that it gives. -/
theorem Placed.owes_perform (placed : stream.Placed pool others) {left : Nat}
    (owes : stream.Owes left) {op : Op} (single : op ≠ .readAll) :
    let used := stream.perform pool op
    ∃ left', left + op.asks = used.answer.segment?.toList.length + left' ∧
      used.stream.Owes left' := by
  cases op with
  | next =>
    have demand := stream.demand_next pool
    have taken (bytes : Bytes) (segment : (stream.next pool).answer = .segment bytes) :
        (stream.next pool).stream.demand.toNat + 1 = stream.demand.toNat :=
      placed.demand_next_add_one segment
    show ∃ left', left + 0 = (Reply.event (stream.next pool).answer).segment?.toList.length +
      left' ∧ (stream.next pool).stream.Owes left'
    cases answer : (stream.next pool).answer with
    | segment bytes =>
      have one := taken bytes answer
      rw [owes] at one
      obtain ⟨some, rest⟩ := eq_of_add_one one
      exact ⟨left - 1, some, rest⟩
    | needsDemand | ended | failed error =>
      rw [answer] at demand
      refine ⟨left, (Nat.zero_add left).symm, ?_⟩
      unfold Owes
      rw [demand]
      exact owes
  | request count =>
    refine ⟨left + count.toNat, (Nat.zero_add _).symm, ?_⟩
    show (stream.demand + count).toNat = _
    rw [UInt64.toNat_add, owes]
    exact Nat.mod_add_mod _ _ _
  | cancel | discard | info => exact ⟨left, (Nat.zero_add left).symm, owes⟩
  | readAll => exact absurd rfl single

/-- Over a run, what was left and what is asked for is what is given and what is left then. -/
theorem Placed.owes_useAll (placed : stream.Placed pool others) {left : Nat}
    (owes : stream.Owes left) {ops : List Op} (single : .readAll ∉ ops) :
    let used := stream.useAll pool ops
    used.stream.Placed used.pool others ∧
      ∃ left', left + asked ops = (given used.answer).length + left' ∧
        used.stream.Owes left' := by
  induction ops generalizing stream pool left with
  | nil => exact ⟨placed, left, (Nat.zero_add left).symm, owes⟩
  | cons op ops inductionHypothesis =>
    have first : op ≠ .readAll := fun same => single (same ▸ List.mem_cons_self)
    obtain ⟨middle, step, owes'⟩ := placed.owes_perform owes first
    obtain ⟨placed', left', rest, owes''⟩ := inductionHypothesis (placed.perform op) owes'
      fun member => single (List.mem_cons_of_mem op member)
    refine ⟨placed', left', ?_, owes''⟩
    show left + (op.asks + asked ops) = (given (_ :: _)).length + left'
    rw [length_given_cons, ← Nat.add_assoc, step]
    omega

/-! ### Reading to the end, call by call -/

/-- The calls that reading to the end makes. -/
def readCalls (stream : Stream) (pool : Pool) : List Op :=
  let step := stream.next pool
  match _event : step.answer with
  | .segment _ => .next :: step.stream.readCalls step.pool
  | .needsDemand => .next :: .request 1 :: (step.stream.request 1).readCalls step.pool
  | .ended => [.next]
  | .failed _ => [.next]
termination_by stream.remaining
decreasing_by
  · exact remaining_next_of_segment _event
  · exact remaining_request_of_needsDemand _event

/-- The calls of a run, with those that reading to the end makes. -/
def calls (stream : Stream) (pool : Pool) : List Op → List Op
  | [] => []
  | .readAll :: ops =>
    let run := stream.readAll pool
    stream.readCalls pool ++ run.stream.calls run.pool ops
  | op :: ops =>
    let step := stream.perform pool op
    op :: step.stream.calls step.pool ops

theorem useAll_append (stream : Stream) (pool : Pool) (ops more : List Op) :
    let used := stream.useAll pool ops
    let rest := used.stream.useAll used.pool more
    stream.useAll pool (ops ++ more) = ⟨rest.pool, rest.stream, used.answer ++ rest.answer⟩ := by
  induction ops generalizing stream pool with
  | nil => rfl
  | cons op ops inductionHypothesis =>
    dsimp only [List.cons_append, useAll]
    rw [inductionHypothesis]

/-- The calls that reading to the end makes lead to where it leads, and give what it gives. -/
theorem useAll_readCalls (stream : Stream) (pool : Pool) :
    let used := stream.useAll pool (stream.readCalls pool)
    let run := stream.readAll pool
    used.pool = run.pool ∧ used.stream = run.stream ∧
      (given used.answer).flatten = run.answer.bytes := by
  fun_induction readCalls stream pool with
  | case1 stream pool step bytes event inductionHypothesis =>
    obtain ⟨samePool, sameStream, bytes'⟩ := inductionHypothesis
    rw [readAll_eq]
    dsimp only
    rw [event]
    refine ⟨samePool, sameStream, ?_⟩
    show (given (.event step.answer :: _)).flatten = _
    rw [event, ← bytes']
    rfl
  | case2 stream pool step event inductionHypothesis =>
    rw [readAll_eq]
    dsimp only
    rw [event]
    refine ⟨inductionHypothesis.1, inductionHypothesis.2.1, ?_⟩
    show (given (.event step.answer :: _)).flatten = _
    rw [event]
    exact inductionHypothesis.2.2
  | case3 stream pool step event | case4 stream pool step error event =>
    rw [readAll_eq]
    dsimp only
    rw [event]
    refine ⟨rfl, rfl, ?_⟩
    show (given [.event step.answer]).flatten = _
    rw [event]
    rfl

theorem not_mem_readCalls (stream : Stream) (pool : Pool) :
    .readAll ∉ stream.readCalls pool := by
  fun_induction readCalls stream pool with
  | case1 stream pool step bytes event inductionHypothesis =>
    exact List.not_mem_cons_of_ne_of_not_mem (by decide) inductionHypothesis
  | case2 stream pool step event inductionHypothesis =>
    refine List.not_mem_cons_of_ne_of_not_mem (by decide) ?_
    exact List.not_mem_cons_of_ne_of_not_mem (by simp) inductionHypothesis
  | case3 | case4 => decide

/-- The calls of a run are single ones, and lead to where the run leads. -/
theorem useAll_calls (stream : Stream) (pool : Pool) (ops : List Op) :
    let used := stream.useAll pool (stream.calls pool ops)
    let run := stream.useAll pool ops
    .readAll ∉ stream.calls pool ops ∧ used.pool = run.pool ∧ used.stream = run.stream := by
  fun_induction calls stream pool ops with
  | case1 stream pool => exact ⟨List.not_mem_nil, rfl, rfl⟩
  | case2 stream pool ops run inductionHypothesis =>
    obtain ⟨samePool, sameStream, -⟩ := stream.useAll_readCalls pool
    obtain ⟨single, rest⟩ := inductionHypothesis
    refine ⟨fun member => ?_, ?_⟩
    · rcases List.mem_append.1 member with reading | later
      · exact stream.not_mem_readCalls pool reading
      · exact single later
    · rw [useAll_append]
      dsimp only
      rw [samePool, sameStream]
      exact rest
  | case3 stream pool op ops other step inductionHypothesis =>
    obtain ⟨single, rest⟩ := inductionHypothesis
    exact ⟨List.not_mem_cons_of_ne_of_not_mem (fun same => other same.symm) single, rest⟩

/-! ### The accounts -/

/-- The accounts of demand. However a stream is used, at every call that is made, also by reading to
the end, there are no more segments than have been asked for, and the demand is the difference,
modulo `2^64`. A segment is given only where there is demand for it. An active stream tells to wait
exactly when there is none and its reader comes to a chunk with a payload next, and then nothing
changes. -/
theorem demand_balances {session : Session} (reachable : session.Reachable) {value : Value}
    (owned : value.slices.Subperm session.handedOut) (kind : LargeObjectKind) (type : ColumnType)
    (config : StreamConfig) (ops : List Op) :
    let started := ofValue kind value type config
    let calls := started.calls session.pool ops
    (.readAll ∉ calls ∧
        (started.useAll session.pool calls).pool = (started.useAll session.pool ops).pool ∧
        (started.useAll session.pool calls).stream = (started.useAll session.pool ops).stream) ∧
      ∀ front, front <+: calls →
        let used := started.useAll session.pool front
        let total := config.initialDemand.toNat + asked front
        let segments := (given used.answer).length
        let step := used.stream.next used.pool
        segments ≤ total ∧
          used.stream.demand.toNat = (total - segments) % Word.modulus ∧
          (∀ bytes, step.answer = .segment bytes →
            used.stream.demand ≠ 0 ∧ step.stream.demand.toNat + 1 = used.stream.demand.toNat) ∧
          (used.stream.isDone = false → (step.answer = .needsDemand ↔ used.stream.demand = 0 ∧
            ∃ payload, payload ≠ [] ∧
              (used.stream.reader.next used.pool).event = .chunk payload)) ∧
          (step.answer = .needsDemand → step = ⟨used.pool, used.stream, .needsDemand⟩) := by
  intro started calls
  obtain ⟨single, same⟩ := started.useAll_calls session.pool ops
  obtain ⟨others, accounts⟩ := reachable.accounts_of_subperm owned
  have placed : started.Placed session.pool others := fun _ =>
    ChunkReader.placed_ofValue accounts type
  have owes : started.Owes config.initialDemand.toNat :=
    (Nat.mod_eq_of_lt config.initialDemand.toNat_lt).symm
  refine ⟨⟨single, same⟩, fun front made => ?_⟩
  intro used total segments step
  obtain ⟨placed, left, balance, owes⟩ :=
    placed.owes_useAll owes fun member => single (made.subset member)
  have balance : total = segments + left := balance
  refine ⟨?_, ?_, fun bytes segment => ?_, fun goes => ?_, fun waits => ?_⟩
  · exact balance ▸ Nat.le_add_right segments left
  · rw [balance, Nat.add_sub_cancel_left]
    exact owes
  · exact ⟨placed.demand_ne_zero segment, placed.demand_next_add_one segment⟩
  · rw [isDone_eq] at goes
    have active := Option.isNone_iff_eq_none.1 (Option.isSome_eq_false_iff.1 goes)
    rw [← (placed active).chunkAhead_iff]
    constructor
    · intro waits
      obtain ⟨spent, ahead, -⟩ := placed.of_needsDemand waits
      exact ⟨spent, ahead⟩
    · intro ahead
      exact congrArg Streamed.answer (next_of_ahead active ahead)
  · exact (placed.of_needsDemand waits).2.2

/-- A session that holds three letters in three chunks, cut within a length. -/
def pacedSession : Session :=
  (Session.fresh {} []).after [.value (.ofParts [pacedText.take 10, pacedText.drop 10])]

/-- The letters as a value. -/
def pacedLetters : Value := .chunked (Composite.ofList pacedSession.handedOut)

theorem demand_balances_pacedLetters :
    let started := ofValue .character pacedLetters pacedColumn {}
    let used := started.useAll pacedSession.pool [.next, .request 1, .next]
    started.calls pacedSession.pool [.next, .request 1, .readAll] =
        [.next, .request 1, .next, .next, .request 1, .next, .next] ∧
      given used.answer = [[0x41, 0x42]] ∧ used.stream.demand.toNat = (0 + 1 - 1) % Word.modulus ∧
      used.stream.next used.pool = ⟨used.pool, used.stream, .needsDemand⟩ ∧
      ∃ payload, payload ≠ [] ∧
        (used.stream.reader.next used.pool).event = .chunk payload := by
  intro started used
  have new : Session.new {} [] = .ok (Session.fresh {} []) := rfl
  have reachable : pacedSession.Reachable := (Session.Reachable.new new).after (by decide)
  have owned : pacedLetters.slices.Subperm pacedSession.handedOut := List.Subperm.refl _
  have calls : started.calls pacedSession.pool [.next, .request 1, .readAll] =
      [.next, .request 1, .next, .next, .request 1, .next, .next] := by
    decide +kernel
  have front : [.next, .request 1, .next] <+:
      started.calls pacedSession.pool [.next, .request 1, .readAll] := by
    rw [calls]
    exact ⟨_, rfl⟩
  have segments : given used.answer = [[0x41, 0x42]] := by decide +kernel
  have needs : (used.stream.next used.pool).answer = .needsDemand := by decide +kernel
  obtain ⟨-, accounts⟩ := demand_balances reachable owned .character pacedColumn {}
    [.next, .request 1, .readAll]
  obtain ⟨-, demand, -, waits, still⟩ := accounts [.next, .request 1, .next] front
  have balance : used.stream.demand.toNat =
      (0 + 1 - (given used.answer).length) % Word.modulus := demand
  rw [segments] at balance
  exact ⟨calls, segments, balance, still needs, ((waits (by decide +kernel)).1 needs).2⟩

/-! ### Demand that wraps around -/

/-- Asking for more adds to the demand unless their sum wraps around. -/
theorem demand_le_request (stream : Stream) (count : UInt64) :
    stream.demand ≤ (stream.request count).demand ↔
      stream.demand.toNat + count.toNat < Word.modulus := by
  have before := stream.demand.toNat_lt
  have more := count.toNat_lt
  have sum : (stream.request count).demand.toNat =
      (stream.demand.toNat + count.toNat) % Word.modulus := UInt64.toNat_add _ _
  rw [UInt64.le_iff_toNat_le, sum]
  simp only [Word.modulus]
  omega

/-- What a stream that waits has been asked for and has not given is a multiple of `2^64`. So it
has given all of it exactly if this is not `2^64` or more, and asking for more lets a stream give
more unless its demand wraps around. -/
theorem waits_when_served {session : Session} (reachable : session.Reachable) {value : Value}
    (owned : value.slices.Subperm session.handedOut) (kind : LargeObjectKind) (type : ColumnType)
    (config : StreamConfig) {ops : List Op} (single : .readAll ∉ ops) :
    let used := (ofValue kind value type config).useAll session.pool ops
    let total := config.initialDemand.toNat + asked ops
    let segments := (given used.answer).length
    ((used.stream.next used.pool).answer = .needsDemand →
        segments ≤ total ∧ Word.modulus ∣ total - segments ∧
          (total ≤ segments ↔ total - segments < Word.modulus)) ∧
      ∀ count, used.stream.demand ≤ (used.stream.request count).demand ↔
        used.stream.demand.toNat + count.toNat < Word.modulus := by
  intro used total segments
  refine ⟨fun waits => ?_, used.stream.demand_le_request⟩
  obtain ⟨others, accounts⟩ := reachable.accounts_of_subperm owned
  have placed : (ofValue kind value type config).Placed session.pool others := fun _ =>
    ChunkReader.placed_ofValue accounts type
  have owes : (ofValue kind value type config).Owes config.initialDemand.toNat :=
    (Nat.mod_eq_of_lt config.initialDemand.toNat_lt).symm
  obtain ⟨placed, left, balance, owes⟩ := placed.owes_useAll owes single
  have balance : total = segments + left := balance
  have whole : left % Word.modulus = 0 := by
    rw [← owes, (placed.of_needsDemand waits).1]
    rfl
  rw [balance, Nat.add_sub_cancel_left]
  refine ⟨Nat.le_add_right _ _, Nat.dvd_of_mod_eq_zero whole, ?_⟩
  simp only [Word.modulus] at whole ⊢
  omega

theorem waits_when_served_pacedLetters :
    let used := (ofValue .character pacedLetters pacedColumn {}).useAll pacedSession.pool
      [.request 1, .next]
    (used.stream.next used.pool).answer = .needsDemand ∧ 0 + 1 ≤ (given used.answer).length := by
  intro used
  have new : Session.new {} [] = .ok (Session.fresh {} []) := rfl
  have reachable : pacedSession.Reachable := (Session.Reachable.new new).after (by decide)
  have owned : pacedLetters.slices.Subperm pacedSession.handedOut := List.Subperm.refl _
  have waits : (used.stream.next used.pool).answer = .needsDemand := by decide +kernel
  have single : .readAll ∉ [Op.request 1, .next] := by decide
  obtain ⟨served, -⟩ := waits_when_served reachable owned .character pacedColumn {} single
  exact ⟨waits, (served waits).2.2.2 (by decide +kernel)⟩

/-- Asking for as much as can be asked for, and then for one more, asks for nothing. -/
theorem demand_wraps_pacedLetters :
    let ops := [.request 0xFFFFFFFFFFFFFFFF, .request 1]
    let used := (ofValue .character pacedLetters pacedColumn {}).useAll pacedSession.pool ops
    (used.stream.next used.pool).answer = .needsDemand ∧ given used.answer = [] ∧
      asked ops = Word.modulus := by
  decide +kernel

end TabularStream.Stream
