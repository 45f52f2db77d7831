/-
This file proves that demand only paces a stream. What a stream gives is set against what it gives
when there is always demand, `deliveries`: an answer is either the next of these, or that the
stream waits, and then the next of these is still to come. Chunks that complete nothing may have
been read while the stream came to wait; that they have been makes no difference.

So whatever a consumer does, the answers that it gets, without those that tell it to wait, are a
front of one list, and the list is segments and then one last answer for ever. Nothing is assumed
of the value, which may be malformed in any way.
-/

import TabularStream.LargeObject.Stream

namespace TabularStream.Stream

/-! ### One call -/

/-- The stream with demand for one segment. -/
def ready (stream : Stream) : Stream := { stream with demand := 1 }

/-- With demand, a pull reads one chunk, and pulls again if the chunk completes nothing. -/
theorem pull_ready (stream : Stream) (pool : Pool) :
    stream.ready.pull pool =
      let pulled := stream.reader.next pool
      match pulled.event with
      | .malformed error => { stream.ready with reader := pulled.reader }.fail pulled.pool error
      | .done =>
        let stream := { stream.ready with reader := pulled.reader }
        match stream.decoder.finish with
        | some error => stream.fail pulled.pool error
        | none => ⟨pulled.pool, { stream with state := .ended }, .ended⟩
      | .chunk payload =>
        let decoded := stream.decoder.decode payload
        let released := pulled.reader.releaseConsumed pulled.pool
        let stream := { stream with reader := released.2, decoder := decoded.decoder }
        match decoded.error with
        | some error => stream.ready.fail released.1 error
        | none =>
          if decoded.output = [] then stream.ready.pull released.1
          else ⟨released.1, { stream with demand := 0 }, .segment decoded.output⟩ := by
  have demanded : ¬ (stream.ready.demand = 0 ∧ stream.ready.reader.chunkAhead pool = true) :=
    fun waits => absurd waits.1 (show ¬ (1 : UInt64) = 0 by decide)
  rw [pull_eq, if_neg demanded]
  dsimp only [ready]
  generalize stream.reader.next pool = pulled
  obtain ⟨pool', reader, event⟩ := pulled
  cases event <;> rfl

/-- What a call gives against what it gives when there is demand. -/
inductive Paces (free paced : Streamed Event) : Prop where
  /-- Nothing yet, and the same is still to come. -/
  | waits (answer : paced.answer = .needsDemand) (spent : paced.stream.demand = 0)
      (later : paced.stream.ready.next paced.pool = free) : Paces free paced
  /-- The same at once. -/
  | gives (answer : paced.answer = free.answer) (pool : paced.pool = free.pool)
      (stream : paced.stream.ready = free.stream.ready) : Paces free paced

variable {stream other : Stream} {pool pool' : Pool}

/-- What a stream answers that has ended, failed or been cancelled. -/
def verdict? (stream : Stream) : Option Event :=
  match stream.state with
  | .active => none
  | .ended => some .ended
  | .failed error => some (.failed error)
  | .cancelled => some (.failed .streamCancelled)

theorem next_of_active (active : stream.verdict? = none) : stream.next pool = stream.pull pool := by
  obtain ⟨reader, decoder, demand, state⟩ := stream
  cases state with
  | active => rfl
  | ended | failed error | cancelled => cases active

theorem next_of_verdict {event : Event} (verdict : stream.verdict? = some event) :
    stream.next pool = ⟨pool, stream, event⟩ := by
  obtain ⟨reader, decoder, demand, state⟩ := stream
  cases state with
  | active => cases verdict
  | ended | failed error | cancelled =>
    cases verdict
    rfl

theorem eq_of_verdict {event : Event} (verdict : stream.verdict? = some event) :
    event = .ended ∨ ∃ error, event = .failed error := by
  obtain ⟨reader, decoder, demand, state⟩ := stream
  cases state with
  | active => cases verdict
  | ended =>
    cases verdict
    exact .inl rfl
  | failed error | cancelled =>
    cases verdict
    exact .inr ⟨_, rfl⟩

theorem paces_pull (active : stream.verdict? = none) :
    Paces (stream.ready.pull pool) (stream.pull pool) := by
  fun_induction pull stream pool with
  | case1 stream pool ahead =>
    exact .waits rfl ahead.1 (next_of_active active)
  | case2 stream pool _ pulled error malformed =>
    rw [pull_ready]
    dsimp only
    rw [malformed]
    exact .gives rfl rfl rfl
  | case3 stream pool _ pulled done stream' error cut =>
    rw [pull_ready]
    dsimp only
    rw [done]
    dsimp only [ready]
    rw [cut]
    exact .gives rfl rfl rfl
  | case4 stream pool _ pulled done stream' ends =>
    rw [pull_ready]
    dsimp only
    rw [done]
    dsimp only [ready]
    rw [ends]
    exact .gives rfl rfl rfl
  | case5 stream pool _ pulled payload chunk decoded released stream' error stopped =>
    rw [pull_ready]
    dsimp only
    rw [chunk]
    dsimp only
    rw [stopped]
    exact .gives rfl rfl rfl
  | case6 stream pool _ pulled payload chunk decoded released stream' whole empty
      inductionHypothesis =>
    rw [pull_ready]
    dsimp only
    rw [chunk]
    dsimp only
    rw [whole]
    dsimp only
    rw [if_pos empty]
    exact inductionHypothesis active
  | case7 stream pool _ pulled payload chunk decoded released stream' whole filled =>
    rw [pull_ready]
    dsimp only
    rw [chunk]
    dsimp only
    rw [whole]
    dsimp only
    rw [if_neg filled]
    exact .gives rfl rfl rfl

theorem paces_next (stream : Stream) (pool : Pool) :
    Paces (stream.ready.next pool) (stream.next pool) := by
  cases verdict : stream.verdict? with
  | none =>
    have active : stream.ready.verdict? = none := verdict
    rw [next_of_active verdict, next_of_active active]
    exact paces_pull verdict
  | some event =>
    have stays : stream.ready.verdict? = some event := verdict
    rw [next_of_verdict verdict, next_of_verdict stays]
    exact .gives rfl rfl rfl

/-- An answer that is not the last one comes from an active stream. -/
theorem active_of_next {event : Event} (answer : (stream.next pool).answer = event)
    (goes : ¬ (event = .ended ∨ ∃ error, event = .failed error)) : stream.verdict? = none := by
  cases verdict : stream.verdict? with
  | none => rfl
  | some last =>
    rw [next_of_verdict verdict] at answer
    exact absurd (answer ▸ eq_of_verdict verdict) goes

/-- A stream waits only without demand. -/
theorem demand_of_needsDemand (waits : (stream.next pool).answer = .needsDemand) :
    stream.demand = 0 := by
  have active := active_of_next waits (by simp)
  rw [next_of_active active] at waits
  exact (pull_of_needsDemand waits).1

theorem answer_ready_next_ne (stream : Stream) (pool : Pool) :
    (stream.ready.next pool).answer ≠ .needsDemand := fun waits =>
  absurd (demand_of_needsDemand waits) (show ¬ (1 : UInt64) = 0 by decide)

/-- A segment takes one from the demand, and no other answer takes anything. -/
theorem demand_next (stream : Stream) (pool : Pool) :
    (stream.next pool).stream.demand =
      match (stream.next pool).answer with
      | .segment _ => stream.demand - 1
      | _ => stream.demand := by
  cases verdict : stream.verdict? with
  | none =>
    rw [next_of_active verdict]
    fun_induction pull stream pool with
    | case6 stream pool _ pulled payload chunk decoded released stream' _ _ inductionHypothesis =>
      exact inductionHypothesis verdict
    | _ => rfl
  | some event =>
    rw [next_of_verdict verdict]
    rcases eq_of_verdict verdict with rfl | ⟨error, rfl⟩ <;> rfl

/-- An answer that is neither a segment nor tells to wait is the last one. -/
theorem verdict_of_pull (segment : ∀ bytes, (stream.pull pool).answer ≠ .segment bytes)
    (goes : (stream.pull pool).answer ≠ .needsDemand) :
    (stream.pull pool).stream.verdict? = some (stream.pull pool).answer := by
  fun_induction pull stream pool with
  | case1 => exact absurd rfl goes
  | case6 stream pool _ pulled payload chunk decoded released stream' _ _ inductionHypothesis =>
    exact inductionHypothesis segment goes
  | case7 => exact absurd rfl (segment _)
  | _ => rfl

/-- An end or an error is the last answer of a stream. -/
theorem verdict_of_next (final : event = .ended ∨ ∃ error, event = .failed error)
    (answer : (stream.next pool).answer = event) :
    (stream.next pool).stream.verdict? = some event := by
  cases verdict : stream.verdict? with
  | some event' =>
    rw [next_of_verdict verdict] at answer ⊢
    exact answer ▸ verdict
  | none =>
    rw [next_of_active verdict] at answer ⊢
    have stops : (∀ bytes, event ≠ .segment bytes) ∧ event ≠ .needsDemand := by
      rcases final with rfl | ⟨error, rfl⟩
      · exact ⟨nofun, nofun⟩
      · exact ⟨nofun, nofun⟩
    rw [← answer] at stops ⊢
    exact verdict_of_pull stops.1 stops.2

/-! ### What a stream that never waits gives -/

/-- The next answers of a stream that never waits. -/
def deliveries (stream : Stream) (pool : Pool) : Nat → List Event
  | 0 => []
  | count + 1 =>
    let step := stream.ready.next pool
    step.answer :: step.stream.deliveries step.pool count

/-- The first answer and what it leaves decide all of them. -/
theorem deliveries_congr (same : stream.ready.next pool = other.ready.next pool') (count : Nat) :
    stream.deliveries pool count = other.deliveries pool' count := by
  cases count with
  | zero => rfl
  | succ count => rw [deliveries, deliveries, same]

/-- Demand that was not used makes no difference. -/
theorem deliveries_of_ready (same : stream.ready = other.ready) (pool : Pool) (count : Nat) :
    stream.deliveries pool count = other.deliveries pool count :=
  deliveries_congr (by rw [same]) count

/-- A stream that has come to its end gives the same answer for ever. -/
theorem deliveries_of_verdict {event : Event} (verdict : stream.verdict? = some event)
    (pool : Pool) (count : Nat) : stream.deliveries pool count = List.replicate count event := by
  induction count with
  | zero => rfl
  | succ count inductionHypothesis =>
    have stays : stream.ready.verdict? = some event := verdict
    rw [deliveries, next_of_verdict stays, List.replicate_succ, ← inductionHypothesis]
    have same : stream.ready.ready = stream.ready := rfl
    exact congrArg (event :: ·) (deliveries_of_ready same pool count)

/-- Some segments, and one last answer for ever. -/
structure Ends (answers : Nat → List Event) (segments : List Event) (final : Event) : Prop where
  parts : ∀ event ∈ segments, ∃ bytes, event = .segment bytes
  last : final = .ended ∨ ∃ error, final = .failed error
  all : ∀ count, answers count = (segments ++ List.replicate count final).take count

theorem take_append_replicate {Item : Type} (items : List Item) (item : Item) {count more : Nat}
    (enough : count ≤ more) : (items ++ List.replicate more item).take count =
      (items ++ List.replicate count item).take count := by
  rw [List.take_append, List.take_append, List.take_replicate, List.take_replicate]
  congr 2
  omega

theorem Ends.cons {answers answers' : Nat → List Event} {bytes : Bytes} {segments : List Event}
    {final : Event} (ends : Ends answers segments final) (none : answers' 0 = [])
    (all : ∀ count, answers' (count + 1) = .segment bytes :: answers count) :
    Ends answers' (.segment bytes :: segments) final := by
  refine ⟨List.forall_mem_cons.2 ⟨⟨bytes, rfl⟩, ends.parts⟩, ends.last, fun count => ?_⟩
  cases count with
  | zero => exact none
  | succ count =>
    rw [all, ends.all, List.cons_append, List.take_succ_cons,
      take_append_replicate _ _ (Nat.le_succ count)]

/-- A stream that gives its last answer gives it for ever. -/
theorem ends_of_next {event : Event} (final : event = .ended ∨ ∃ error, event = .failed error)
    (answer : (stream.next pool).answer = event) : Ends (stream.deliveries pool) [] event := by
  refine ⟨List.forall_mem_nil _, final, fun count => ?_⟩
  rw [List.nil_append, List.take_replicate, Nat.min_self]
  cases count with
  | zero => rfl
  | succ count =>
    cases paces_next stream pool with
    | waits waits =>
      rw [← answer, waits] at final
      exact absurd final (by simp)
    | gives same _ left =>
      have stops := verdict_of_next final answer
      rw [deliveries, ← same, answer, ← deliveries_of_ready left, deliveries_of_verdict stops,
        List.replicate_succ]

/-- What went wrong with a stream, if the event says so. -/
def Event.error? : Event → Option ClientError
  | .failed error => some error
  | _ => none

/-- What a stream gives that never waits are some segments, and then one last answer for ever.
Reading to the end takes the segments, put together, and what went wrong. -/
theorem ends_readAll (stream : Stream) (pool : Pool) :
    ∃ (texts : List Bytes) (final : Event),
      Ends (stream.deliveries pool) (texts.map .segment) final ∧
        (stream.readAll pool).answer = ⟨texts.flatten, final.error?⟩ := by
  fun_induction readAll stream pool with
  | case1 stream pool step bytes segment rest inductionHypothesis =>
    obtain ⟨texts, final, ends, whole⟩ := inductionHypothesis
    refine ⟨bytes :: texts, final, ends.cons rfl fun count => ?_, ?_⟩
    · cases paces_next stream pool with
      | waits waits => cases segment.symm.trans waits
      | gives answer same left =>
        rw [deliveries, ← answer, ← same, ← deliveries_of_ready left]
        exact congrArg (· :: _) segment
    · rw [List.flatten_cons]
      show Whole.mk (bytes ++ rest.answer.bytes) rest.answer.error = _
      rw [whole]
  | case2 stream pool step waits inductionHypothesis =>
    obtain ⟨texts, final, ends, whole⟩ := inductionHypothesis
    refine ⟨texts, final, ⟨ends.parts, ends.last, fun count => ?_⟩, whole⟩
    cases paces_next stream pool with
    | waits _ _ later =>
      have same : stream.ready.next pool = (step.stream.request 1).ready.next step.pool :=
        later.symm
      exact (deliveries_congr same count).trans (ends.all count)
    | gives answer => exact absurd (answer.symm.trans waits) (answer_ready_next_ne stream pool)
  | case3 stream pool step ended => exact ⟨[], .ended, ends_of_next (.inl rfl) ended, rfl⟩
  | case4 stream pool step error failed =>
    exact ⟨[], .failed error, ends_of_next (.inr ⟨error, rfl⟩) failed, rfl⟩

/-- A stream that never waits gives some segments, and then one last answer for ever. -/
theorem exists_ends (stream : Stream) (pool : Pool) :
    ∃ segments final, Ends (stream.deliveries pool) segments final := by
  obtain ⟨texts, final, ends, -⟩ := ends_readAll stream pool
  exact ⟨texts.map .segment, final, ends⟩

/-! ### Runs -/

/-- What a consumer calls. -/
inductive Call where
  | request (count : UInt64)
  | next
  deriving DecidableEq, Repr

/-- The answers to the calls of `next`. -/
def answers (stream : Stream) (pool : Pool) : List Call → List Event
  | [] => []
  | .request count :: calls => (stream.request count).answers pool calls
  | .next :: calls =>
    let step := stream.next pool
    step.answer :: step.stream.answers step.pool calls

/-- The answers that do not tell to wait. -/
def delivered (stream : Stream) (pool : Pool) (calls : List Call) : List Event :=
  (stream.answers pool calls).filter fun event => event ≠ .needsDemand

/-- How many segments some calls ask for. -/
def requested : List Call → Nat
  | [] => 0
  | .request count :: calls => count.toNat + requested calls
  | .next :: calls => requested calls

/-- Does a consumer that is told to wait ask for something before it calls `next` again? The flag
says that it owes this. -/
def keepsRequesting (stream : Stream) (pool : Pool) (owes : Bool) : List Call → Bool
  | [] => true
  | .request count :: calls =>
    (stream.request count).keepsRequesting pool (owes && count == 0) calls
  | .next :: calls =>
    let step := stream.next pool
    !owes && step.stream.keepsRequesting step.pool (step.answer == .needsDemand) calls

theorem delivered_next_of_waits {calls : List Call}
    (waits : (stream.next pool).answer = .needsDemand) :
    stream.delivered pool (.next :: calls) =
      (stream.next pool).stream.delivered (stream.next pool).pool calls := by
  unfold delivered
  rw [answers, waits]
  rfl

theorem delivered_next_of_gives {calls : List Call}
    (gives : (stream.next pool).answer ≠ .needsDemand) :
    stream.delivered pool (.next :: calls) = (stream.next pool).answer ::
      (stream.next pool).stream.delivered (stream.next pool).pool calls := by
  unfold delivered
  rw [answers]
  exact List.filter_cons_of_pos (decide_eq_true gives)

/-- What a run delivers are the next answers of a stream that never waits. -/
theorem delivered_eq (stream : Stream) (pool : Pool) (calls : List Call) :
    stream.delivered pool calls =
      stream.deliveries pool (stream.delivered pool calls).length := by
  induction calls generalizing stream pool with
  | nil => rfl
  | cons call calls inductionHypothesis =>
    cases call with
    | request count =>
      have same : (stream.request count).ready = stream.ready := rfl
      exact (inductionHypothesis (stream.request count) pool).trans
        (deliveries_of_ready same pool _)
    | next =>
      cases paces_next stream pool with
      | waits answer _ later =>
        rw [delivered_next_of_waits answer]
        exact (inductionHypothesis _ _).trans (deliveries_congr later _)
      | gives answer same left =>
        have goes := answer_ready_next_ne stream pool
        rw [← answer] at goes
        rw [delivered_next_of_gives goes, List.length_cons, deliveries, answer, ← same]
        refine congrArg (_ :: ·) ((inductionHypothesis _ _).trans ?_)
        exact deliveries_of_ready left _ _

/-- With demand for all of its calls a consumer is never told to wait. -/
theorem answers_replicate {count : Nat} (enough : count ≤ stream.demand.toNat) :
    stream.answers pool (List.replicate count .next) = stream.deliveries pool count := by
  induction count generalizing stream pool with
  | zero => rfl
  | succ count inductionHypothesis =>
    have positive : stream.demand ≠ 0 := by
      intro spent
      rw [spent] at enough
      exact absurd enough (Nat.not_succ_le_zero _)
    rw [List.replicate_succ, answers, deliveries]
    cases paces_next stream pool with
    | waits answer _ _ => exact absurd (demand_of_needsDemand answer) positive
    | gives answer same left =>
      have left' : count ≤ (stream.next pool).stream.demand.toNat := by
        rw [demand_next]
        split
        · have one : (1 : UInt64) ≤ stream.demand := by
            rw [UInt64.le_iff_toNat_le]
            exact Nat.le_trans (Nat.succ_le_succ (Nat.zero_le _)) enough
          rw [UInt64.toNat_sub_of_le _ _ one]
          exact Nat.le_sub_of_add_le enough
        · exact Nat.le_of_succ_le enough
      rw [inductionHypothesis left', answer, ← same, deliveries_of_ready left]

/-- A consumer that waits and has asked, if it owes nothing, for something. -/
structure Asks (stream : Stream) (owes : Bool) (calls : List Call) : Prop where
  small : stream.demand.toNat + requested calls < Word.modulus
  asked : owes = false → stream.demand ≠ 0

theorem Asks.request {owes : Bool} {count : UInt64} {calls : List Call}
    (asks : stream.Asks owes (.request count :: calls)) :
    (stream.request count).Asks (owes && count == 0) calls := by
  have small := asks.small
  rw [requested] at small
  have sum : (stream.request count).demand.toNat = stream.demand.toNat + count.toNat := by
    refine (UInt64.toNat_add _ _).trans (Nat.mod_eq_of_lt ?_)
    exact Nat.lt_of_le_of_lt (by omega) small
  refine ⟨by omega, fun paid spent => ?_⟩
  rw [spent] at sum
  have nothing : stream.demand.toNat = 0 ∧ count.toNat = 0 := by
    rw [UInt64.toNat_zero] at sum
    omega
  cases owes with
  | false => exact asks.asked rfl (UInt64.toNat_inj.1 nothing.1)
  | true =>
    have zero : count = 0 := UInt64.toNat_inj.1 nothing.2
    rw [zero] at paid
    cases paid

/-- A consumer that keeps requesting is told to wait no more than every other time. -/
theorem count_next_le {owes : Bool} {calls : List Call} (waiting : Bool)
    (keeps : stream.keepsRequesting pool owes calls) (small : requested calls < Word.modulus)
    (asks : waiting = true → stream.Asks owes calls) :
    calls.count .next ≤
      2 * (stream.delivered pool calls).length + if waiting then 0 else 1 := by
  induction calls generalizing stream pool owes waiting with
  | nil => exact Nat.zero_le _
  | cons call calls inductionHypothesis =>
    cases call with
    | request count =>
      rw [List.count_cons_of_ne (by simp)]
      rw [requested] at small
      exact inductionHypothesis waiting keeps (by omega) fun waits => (asks waits).request
    | next =>
      rw [keepsRequesting, Bool.and_eq_true, Bool.not_eq_true'] at keeps
      rw [List.count_cons_self]
      cases paces_next stream pool with
      | waits answer spent _ =>
        rw [delivered_next_of_waits answer]
        cases waiting with
        | true => exact absurd (demand_of_needsDemand answer) ((asks rfl).asked keeps.1)
        | false =>
          have asks' : (stream.next pool).stream.Asks true calls := by
            refine ⟨?_, fun paid => by cases paid⟩
            rw [spent, UInt64.toNat_zero, Nat.zero_add]
            exact small
          have later := keeps.2
          rw [answer] at later
          have bound := inductionHypothesis true later small fun _ => asks'
          exact Nat.succ_le_succ bound
      | gives answer _ _ =>
        have goes := answer_ready_next_ne stream pool
        rw [← answer] at goes
        have bound := inductionHypothesis false keeps.2 small fun absurd => by cases absurd
        rw [delivered_next_of_gives goes, List.length_cons]
        rw [if_neg Bool.false_ne_true] at bound
        omega

theorem length_delivered_le (stream : Stream) (pool : Pool) (calls : List Call) :
    (stream.delivered pool calls).length ≤ calls.count .next := by
  refine Nat.le_trans (List.length_filter_le _ _) (Nat.le_of_eq ?_)
  induction calls generalizing stream pool with
  | nil => rfl
  | cons call calls inductionHypothesis =>
    cases call with
    | request count =>
      rw [List.count_cons_of_ne (by simp)]
      exact inductionHypothesis (stream.request count) pool
    | next =>
      rw [List.count_cons_self]
      exact congrArg (· + 1) (inductionHypothesis _ _)

/-! ### Any two runs -/

section

variable {segments : List Event} {final : Event} {calls : List Call}

theorem Ends.delivered_front (ends : Ends (stream.deliveries pool) segments final) {count : Nat}
    (enough : (stream.delivered pool calls).length ≤ count) :
    stream.delivered pool calls <+: segments ++ List.replicate count final := by
  rw [delivered_eq, ends.all, ← take_append_replicate _ _ enough]
  exact List.take_prefix _ _

theorem Ends.front_delivered (ends : Ends (stream.deliveries pool) segments final)
    (enough : segments.length + 1 ≤ (stream.delivered pool calls).length) :
    segments ++ [final] <+: stream.delivered pool calls := by
  have whole := ends.delivered_front (Nat.le_refl (stream.delivered pool calls).length)
  refine List.prefix_of_prefix_length_le ?_ whole (by rwa [List.length_append])
  rw [List.prefix_append_right_inj]
  obtain ⟨more, same⟩ := Nat.exists_eq_add_of_le' (Nat.le_trans (Nat.le_add_left 1 _) enough)
  rw [same, List.replicate_succ]
  exact List.prefix_append [final] _

end

/-- Demand only paces a stream. What two runs over a value deliver is a front of one another. There
are segments and a last answer, an end or an error, that a run with demand for all of its calls
gets without waiting; every run delivers a front of them, and all of them if the consumer asks
again whenever it is told to wait and goes on for long enough. -/
theorem demand_only_paces (value : Value) (pool : Pool) (kind : LargeObjectKind)
    (type : ColumnType) :
    (∀ config config' calls calls',
      (ofValue kind value type config).delivered pool calls <+:
          (ofValue kind value type config').delivered pool calls' ∨
        (ofValue kind value type config').delivered pool calls' <+:
          (ofValue kind value type config).delivered pool calls) ∧
      ∃ segments final, (∀ event ∈ segments, ∃ bytes, event = .segment bytes) ∧
        (final = .ended ∨ ∃ error, final = .failed error) ∧
        (∀ config count, count ≤ config.initialDemand.toNat →
          (ofValue kind value type config).answers pool (List.replicate count .next) =
            (segments ++ List.replicate count final).take count) ∧
        (∀ config calls, (ofValue kind value type config).delivered pool calls <+:
          segments ++ List.replicate (calls.count .next) final) ∧
        ∀ config calls, config.initialDemand.toNat + requested calls < Word.modulus →
          (ofValue kind value type config).keepsRequesting pool false calls →
          2 * (segments.length + 1) ≤ calls.count .next →
            segments ++ [final] <+: (ofValue kind value type config).delivered pool calls := by
  obtain ⟨segments, final, ends⟩ := exists_ends (ofValue kind value type {}) pool
  have all (config : StreamConfig) :
      Ends ((ofValue kind value type config).deliveries pool) segments final := by
    have same : (ofValue kind value type config).ready = (ofValue kind value type {}).ready := rfl
    exact ⟨ends.parts, ends.last, fun count =>
      (deliveries_of_ready same pool count).trans (ends.all count)⟩
  refine ⟨fun config config' calls calls' => ?_, segments, final, ends.parts, ends.last,
    fun config count enough => ?_, fun config calls => ?_, fun config calls small keeps long => ?_⟩
  · have one := length_delivered_le (ofValue kind value type config) pool calls
    have other := length_delivered_le (ofValue kind value type config') pool calls'
    exact List.prefix_or_prefix_of_prefix
      ((all config).delivered_front (Nat.le_trans one (Nat.le_add_right _ (calls'.count .next))))
      ((all config').delivered_front (Nat.le_trans other (Nat.le_add_left _ (calls.count .next))))
  · rw [answers_replicate enough]
    exact (all config).all count
  · exact (all config).delivered_front (length_delivered_le _ pool calls)
  · have bound := count_next_le false keeps (Nat.lt_of_le_of_lt (Nat.le_add_left _ _) small)
      fun absurd => by cases absurd
    rw [if_neg Bool.false_ne_true] at bound
    exact (all config).front_delivered (by omega)

/-- A column of UTF-16 text. -/
def pacedColumn : ColumnType := ⟨.nvarcharMax, .part, 0, .utf16le, 0, 0⟩

/-- The letters A, B and C in three chunks, of which the first one ends within A. -/
def pacedText : Bytes :=
  PlpTotal.unknown.encode ++ ((ChunkLength.mk 1).encode ++ [0x41]) ++
    ((ChunkLength.mk 3).encode ++ [0, 0x42, 0]) ++ ((ChunkLength.mk 2).encode ++ [0x43, 0]) ++
    (ChunkLength.mk 0).encode

/-- A pool with one block that holds the text. -/
def pacedPool : Pool := ⟨{}, [some ⟨Memory.ofBytes pacedText, 2⟩], []⟩

/-- The text as a value with two components, the first of which ends within a length. -/
def pacedValue : Value := .chunked (Composite.ofList [⟨0, 0, 10⟩, ⟨0, 10, 20⟩])

/-- Calls of a consumer that asks for a segment when it is told to wait. -/
def pacedCalls : List Call :=
  [.next, .request 1, .next, .next, .request 0, .request 2, .next, .next, .next]

theorem demand_only_paces_pacedText :
    (ofValue .character pacedValue pacedColumn ⟨3⟩).answers pacedPool (List.replicate 3 .next) =
        [.segment [0x41, 0x42], .segment [0x43], .ended] ∧
      [.segment [0x41, 0x42], .segment [0x43], .ended] <+:
        (ofValue .character pacedValue pacedColumn {}).delivered pacedPool pacedCalls := by
  obtain ⟨-, segments, final, parts, -, prompt, -, paced⟩ :=
    demand_only_paces pacedValue pacedPool .character pacedColumn
  have three := prompt ⟨3⟩ 3 (by decide)
  have answers : (ofValue .character pacedValue pacedColumn ⟨3⟩).answers pacedPool
      (List.replicate 3 .next) = [.segment [0x41, 0x42], .segment [0x43], .ended] := by
    decide +kernel
  rw [answers] at three
  have keeps : (ofValue .character pacedValue pacedColumn {}).keepsRequesting pacedPool false
      pacedCalls := by decide +kernel
  have delivered := paced {} pacedCalls (by decide) keeps
  refine ⟨answers, ?_⟩
  rcases segments with _ | ⟨first, _ | ⟨second, _ | ⟨third, others⟩⟩⟩
  · cases three
  · cases three
  · cases three
    exact delivered (by decide)
  · cases three
    obtain ⟨bytes, same⟩ := parts .ended (by simp)
    cases same

end TabularStream.Stream
