/-
This file runs the composites of a session in two other ways next to the session itself: as vectors
with an index, and as plain lists of slices. Adding appends to a list, releasing the front drops its
head, releasing empties it, and moving hands it over and leaves nothing behind.

The invariant is that the vectors are those of the composites, and the lists their slices. One step
keeps it, `Shelf.Matches.note`: operating on vectors and on lists leads to what the composites
become (`performVectors_eq`, `leaves_performComposite`). `Session.composites_refine_lists` follows by
induction on the operations. The shelf also remembers every slice that was added, given back or
moved on, and `count_performLists` says that none is given back twice or forgotten.
-/

import TabularStream.Proofs.ComponentVectors
import TabularStream.Proofs.Reachable

namespace TabularStream

namespace Session

variable {session : Session}

/-! ### Composites as vectors -/

/-- The vector at a place. -/
def vectorAt (vectors : List ComponentVector) (place : Nat) : Except Failure ComponentVector :=
  match vectors[place]? with
  | some vector => .ok vector
  | none => .error .unknownHandle

/-- Operate on vectors instead of composites. Gives the pool and the vectors after it. -/
def performVectors (session : Session) (vectors : List ComponentVector) :
    CompositeOp → Except Failure (Pool × List ComponentVector)
  | .new => return (session.pool, vectors ++ [{}])
  | .add place source => do
    let target ← vectorAt vectors place
    let grown ← target.add (← session.handleAt source)
    return (session.pool, vectors.set place grown)
  | .view place => do
    let _ ← (← vectorAt vectors place).copy session.pool
    return (session.pool, vectors)
  | .component place index => do
    let _ ← (← vectorAt vectors place).component index.toNat
    return (session.pool, vectors)
  | .releaseFront place => do
    let (pool, left) := (← vectorAt vectors place).releaseFront session.pool
    return (pool, vectors.set place left)
  | .release place => do
    let (pool, left) := (← vectorAt vectors place).release session.pool
    return (pool, vectors.set place left)
  | .move place => do
    let (moved, left) := (← vectorAt vectors place).move
    return (session.pool, vectors.set place left ++ [moved])
  | .assign target source => do
    let old ← vectorAt vectors target
    let (moved, left) := (← vectorAt vectors source).move
    if target = source then return (session.pool, vectors)
    else return ((old.release session.pool).1, (vectors.set source left).set target moved)
  | .toValue place => do
    let (_, left) := (← vectorAt vectors place).move
    return (session.pool, vectors.set place left)

/-- The pool and the vectors after an operation, if it succeeds. -/
def Outcome.vectors (outcome : Outcome) : Except Failure (Pool × List ComponentVector) :=
  outcome.result.map fun _ =>
    (outcome.session.pool, outcome.session.composites.map .ofComposite)

theorem vectors_bind {Item : Type} {first : Except Failure Item}
    {vectors : Item → Except Failure (Pool × List ComponentVector)}
    {next : Item → Except Failure (Session × Reply)}
    (same : ∀ item, vectors item = (session.attempt (next item)).vectors) :
    (first >>= vectors) = (session.attempt (first >>= next)).vectors := by
  cases first with
  | error failure => rfl
  | ok item => exact same item

/-- An operation on composites that fails leaves everything as it is. -/
theorem performComposite_of_failure {op : CompositeOp} {failure : Failure}
    (failed : (session.performComposite op).result = .error failure) :
    (session.performComposite op).session = session := by
  have unchanged {operation : Except Failure (Session × Reply)}
      (failed : (session.attempt operation).result = .error failure) :
      (session.attempt operation).session = session := by
    cases operation with
    | error failure => rfl
    | ok success => cases failed
  cases op <;> exact unchanged failed

/-- Going on with the vector at a place leads to the same as going on with the composite there. -/
theorem vectorAt_bind {place : Nat}
    {vectors : ComponentVector → Except Failure (Pool × List ComponentVector)}
    {next : Composite → Except Failure (Session × Reply)}
    (same : ∀ composite,
      vectors (.ofComposite composite) = (session.attempt (next composite)).vectors) :
    (vectorAt (session.composites.map .ofComposite) place >>= vectors) =
      (session.attempt (session.compositeAt place >>= next)).vectors := by
  unfold vectorAt compositeAt
  rw [List.getElem?_map]
  cases session.composites[place]? with
  | none => rfl
  | some composite => exact same composite

/-- Operating on vectors leads to the vectors of the composites, and fails where that does. -/
theorem performVectors_eq (session : Session) (op : CompositeOp) :
    session.performVectors (session.composites.map .ofComposite) op =
      (session.performComposite op).vectors := by
  cases op with
  | new =>
    have grown : (session.composites ++ [Composite.empty]).map ComponentVector.ofComposite = _ :=
      List.map_append
    exact congrArg (fun vectors => Except.ok (session.pool, vectors)) grown.symm
  | add place source =>
    refine vectorAt_bind fun target => vectors_bind fun handle => ?_
    cases handle with
    | none => rfl
    | some slice =>
      rw [ComponentVector.add_ofComposite]
      exact congrArg (fun vectors => Except.ok (session.pool, vectors)) List.map_set.symm
  | view place =>
    refine vectorAt_bind fun target => ?_
    rw [ComponentVector.copy_ofComposite]
    unfold Composite.view
    cases target.copy session.pool <;> rfl
  | component place index =>
    refine vectorAt_bind fun target => ?_
    rw [ComponentVector.component_ofComposite]
    exact vectors_bind fun _ => rfl
  | releaseFront place =>
    refine vectorAt_bind fun target => ?_
    rw [ComponentVector.releaseFront_ofComposite]
    exact congrArg (fun vectors => Except.ok (_, vectors)) List.map_set.symm
  | release place =>
    refine vectorAt_bind fun target => ?_
    rw [ComponentVector.release_ofComposite]
    exact congrArg (fun vectors => Except.ok (_, vectors)) List.map_set.symm
  | move place =>
    refine vectorAt_bind fun target => ?_
    have moved : (session.composites.set place .empty ++ [target]).map
        ComponentVector.ofComposite = (session.composites.map .ofComposite).set place
          (.ofComposite .empty) ++ [.ofComposite target] := by
      rw [List.map_append, List.map_set, List.map_singleton]
    exact congrArg (fun vectors => Except.ok (session.pool, vectors)) moved.symm
  | assign target source =>
    refine vectorAt_bind fun old => vectorAt_bind fun moved => ?_
    by_cases same : target = source
    · show (if target = source then _ else _) =
        (session.attempt (if target = source then _ else _)).vectors
      rw [if_pos same, if_pos same]
      rfl
    · show (if target = source then _ else _) =
        (session.attempt (if target = source then _ else _)).vectors
      rw [if_neg same, if_neg same, ComponentVector.release_ofComposite]
      have swapped : ((session.composites.set source .empty).set target moved).map
          ComponentVector.ofComposite = ((session.composites.map .ofComposite).set source
            (.ofComposite .empty)).set target (.ofComposite moved) := by
        rw [List.map_set, List.map_set]
      exact congrArg (fun vectors => Except.ok (_, vectors)) swapped.symm
  | toValue place =>
    refine vectorAt_bind fun target => ?_
    exact congrArg (fun vectors => Except.ok (_, vectors))
      (List.map_set (a := Composite.empty)).symm

/-! ### Composites as lists -/

/-- The list at a place, empty if there is none. -/
def listAt (lists : List (List Slice)) (place : Nat) : List Slice := lists[place]?.getD []

/-- The slices that an operation adds to a list. -/
def CompositeOp.added (session : Session) (lists : List (List Slice)) : CompositeOp → List Slice
  | .add place source =>
    if place < lists.length then (session.slices[source]?.join).toList else []
  | _ => []

/-- The slices that an operation takes out of the lists and gives back. -/
def CompositeOp.released (lists : List (List Slice)) : CompositeOp → List Slice
  | .releaseFront place => (listAt lists place).take 1
  | .release place => listAt lists place
  | .assign target source =>
    if target ≠ source ∧ source < lists.length then listAt lists target else []
  | _ => []

/-- The slices that an operation takes out of the lists and hands on to a value. -/
def CompositeOp.handedOn (lists : List (List Slice)) : CompositeOp → List Slice
  | .toValue place => listAt lists place
  | _ => []

/-- Operate on lists instead of composites. -/
def performLists (session : Session) (lists : List (List Slice)) :
    CompositeOp → List (List Slice)
  | .new => lists ++ [[]]
  | .add place source =>
    lists.set place (listAt lists place ++ CompositeOp.added session lists (.add place source))
  | .view _ | .component _ _ => lists
  | .releaseFront place => lists.set place (listAt lists place).tail
  | .release place => lists.set place []
  | .move place =>
    if place < lists.length then lists.set place [] ++ [listAt lists place] else lists
  | .assign target source =>
    if target ≠ source ∧ target < lists.length ∧ source < lists.length then
      (lists.set source []).set target (listAt lists source)
    else lists
  | .toValue place => lists.set place []

theorem listAt_map {place : Nat} {composite : Composite}
    (there : session.composites[place]? = some composite) :
    listAt (session.composites.map Composite.live) place = composite.live := by
  unfold listAt
  rw [List.getElem?_map, there]
  rfl

theorem listAt_of_none {lists : List (List Slice)} {place : Nat} (missing : lists[place]? = none) :
    listAt lists place = [] := by
  unfold listAt
  rw [missing]
  rfl

theorem set_of_none {lists : List (List Slice)} {place : Nat} (missing : lists[place]? = none)
    (list : List Slice) : lists.set place list = lists :=
  List.set_eq_of_length_le (List.getElem?_eq_none_iff.1 missing)

theorem inside_of_some {place : Nat} {composite : Composite}
    (there : session.composites[place]? = some composite) :
    place < (session.composites.map Composite.live).length := by
  rw [List.length_map]
  exact (List.getElem?_eq_some_iff.1 there).1

theorem set_same {place : Nat} {composite : Composite}
    (there : session.composites[place]? = some composite) :
    session.composites.set place composite = session.composites := by
  obtain ⟨inside, rfl⟩ := List.getElem?_eq_some_iff.1 there
  exact List.set_getElem_self inside

/-- An outcome leaves the composites of a session with these slices, and has given some back. -/
def Outcome.Leaves (outcome : Outcome) (session : Session) (lists : List (List Slice))
    (released : List Slice) : Prop :=
  lists = outcome.session.composites.map Composite.live ∧
    outcome.session.pool = session.pool.releaseAll released

/-- An operation on a composite leaves what it does if there is one, and fails if there is none. -/
theorem leaves_compositeAt {place : Nat} {next : Composite → Except Failure (Session × Reply)}
    {lists : List (List Slice)} {released : List Slice}
    (missing : (session.composites.map Composite.live)[place]? = none →
      lists = session.composites.map Composite.live ∧ released = [])
    (found : ∀ composite, session.composites[place]? = some composite →
      (session.attempt (next composite)).Leaves session lists released) :
    (session.attempt (session.compositeAt place >>= next)).Leaves session lists released := by
  unfold compositeAt
  cases there : session.composites[place]? with
  | none =>
    obtain ⟨same, nothing⟩ := missing (by rw [List.getElem?_map, there]; rfl)
    rw [same, nothing]
    exact ⟨rfl, rfl⟩
  | some composite => exact found composite there

theorem leaves_add (session : Session) (place source : Nat) :
    (session.performComposite (.add place source)).Leaves session
      (session.performLists (session.composites.map Composite.live) (.add place source)) [] := by
  refine leaves_compositeAt (fun missing => ⟨set_of_none missing _, rfl⟩) fun target there => ?_
  have held := listAt_map there
  have added : CompositeOp.added session (session.composites.map Composite.live)
      (.add place source) = (session.slices[source]?.join).toList :=
    if_pos (inside_of_some there)
  have unchanged (nothing : session.slices[source]?.join = none) :
      (session.composites.map Composite.live).set place
        (listAt (session.composites.map Composite.live) place ++
          CompositeOp.added session (session.composites.map Composite.live)
            (.add place source)) = session.composites.map Composite.live := by
    rw [held, added, nothing, Option.toList_none, List.append_nil, ← List.map_set, set_same there]
  unfold handleAt placeAt
  cases slot : session.slices[source]? with
  | none => exact ⟨unchanged (by rw [slot]; rfl), rfl⟩
  | some handle =>
    cases handle with
    | none => exact ⟨unchanged (by rw [slot]; rfl), rfl⟩
    | some slice =>
      have grown : listAt (session.composites.map Composite.live) place ++
          CompositeOp.added session (session.composites.map Composite.live)
            (.add place source) = (target.add slice).live := by
        rw [held, added, slot]
        rfl
      exact ⟨(congrArg (List.set _ place) grown).trans List.map_set.symm, rfl⟩

theorem leaves_releaseFront (session : Session) (place : Nat) :
    (session.performComposite (.releaseFront place)).Leaves session
      (session.performLists (session.composites.map Composite.live) (.releaseFront place))
      ((listAt (session.composites.map Composite.live) place).take 1) := by
  refine leaves_compositeAt (fun missing => ?_) fun target there => ?_
  · exact ⟨set_of_none missing _, congrArg (List.take 1) (listAt_of_none missing)⟩
  have held := listAt_map there
  have back := congrArg (fun list => session.pool.releaseAll (list.take 1)) held.symm
  have left := congrArg (fun list : List Slice =>
    (session.composites.map Composite.live).set place list.tail) held
  obtain ⟨released, live⟩ := target
  cases live with
  | nil => exact ⟨left.trans (List.map_set (a := Composite.mk released [])).symm, back⟩
  | cons slice rest =>
    exact ⟨left.trans (List.map_set (a := Composite.mk (released + 1) rest)).symm, back⟩

/-- The target is released first, unless it is the source, which stays as it is. -/
theorem leaves_assign (session : Session) (target source : Nat) :
    (session.performComposite (.assign target source)).Leaves session
      (session.performLists (session.composites.map Composite.live) (.assign target source))
      (CompositeOp.released (session.composites.map Composite.live) (.assign target source)) := by
  refine leaves_compositeAt (fun missing => ?_) fun old there => ?_
  · have outside := Nat.not_lt.2 (List.getElem?_eq_none_iff.1 missing)
    refine ⟨if_neg fun both => outside both.2.1, ?_⟩
    unfold CompositeOp.released
    dsimp only
    rw [listAt_of_none missing, ite_self]
  refine leaves_compositeAt (fun missing => ?_) fun moved there' => ?_
  · have outside := Nat.not_lt.2 (List.getElem?_eq_none_iff.1 missing)
    exact ⟨if_neg fun both => outside both.2.2, if_neg fun both => outside both.2⟩
  have inside := inside_of_some there
  have inside' := inside_of_some there'
  by_cases same : target = source
  · rw [if_pos same]
    have nothing : CompositeOp.released (session.composites.map Composite.live)
        (.assign target source) = [] := if_neg fun both => both.1 same
    exact ⟨if_neg fun both => both.1 same, (congrArg session.pool.releaseAll nothing).symm⟩
  · rw [if_neg same]
    have back : CompositeOp.released (session.composites.map Composite.live)
        (.assign target source) = old.live :=
      (if_pos ⟨same, inside'⟩).trans (listAt_map there)
    refine ⟨(if_pos ⟨same, inside, inside'⟩).trans ?_, congrArg session.pool.releaseAll back.symm⟩
    have swapped : ((session.composites.set source .empty).set target moved).map Composite.live =
        ((session.composites.map Composite.live).set source []).set target moved.live := by
      rw [List.map_set, List.map_set]
      rfl
    rw [listAt_map there']
    exact swapped.symm

/-- Operating on lists leads to the slices of the composites, and what is given back to the pool is
what the lists say. -/
theorem leaves_performComposite (session : Session) (op : CompositeOp) :
    (session.performComposite op).Leaves session
      (session.performLists (session.composites.map Composite.live) op)
      (op.released (session.composites.map Composite.live)) := by
  cases op with
  | new =>
    have grown : (session.composites ++ [Composite.empty]).map Composite.live = _ :=
      List.map_append
    exact ⟨grown.symm, rfl⟩
  | add place source => exact session.leaves_add place source
  | view | component =>
    refine leaves_compositeAt (fun _ => ⟨rfl, rfl⟩) fun target there => ?_
    exact ⟨congrArg (List.map _) (same_attempt_bind composites fun _ => rfl).symm,
      same_attempt_bind pool fun _ => rfl⟩
  | releaseFront place => exact session.leaves_releaseFront place
  | release place =>
    refine leaves_compositeAt (fun missing => ?_) fun target there => ?_
    · exact ⟨set_of_none missing _, listAt_of_none missing⟩
    · exact ⟨(List.map_set (a := Composite.empty)).symm,
        congrArg session.pool.releaseAll (listAt_map there).symm⟩
  | move place =>
    refine leaves_compositeAt (fun missing => ?_) fun target there => ?_
    · exact ⟨if_neg (Nat.not_lt.2 (List.getElem?_eq_none_iff.1 missing)), rfl⟩
    · refine ⟨(if_pos (inside_of_some there)).trans ?_, rfl⟩
      have moved : (session.composites.set place .empty ++ [target]).map Composite.live =
          (session.composites.map Composite.live).set place [] ++ [target.live] := by
        rw [List.map_append, List.map_set, List.map_singleton]
        rfl
      rw [listAt_map there]
      exact moved.symm
  | assign target source => exact session.leaves_assign target source
  | toValue place =>
    refine leaves_compositeAt (fun missing => ?_) fun target there => ?_
    · exact ⟨set_of_none missing _, rfl⟩
    · exact ⟨(List.map_set (a := Composite.empty)).symm, rfl⟩

/-! ### No slice is lost or made up -/

/-- Replacing a list replaces its slices. At a place where there is none, nothing is put. -/
theorem count_set (lists : List (List Slice)) (place : Nat) (list : List Slice)
    (inside : place < lists.length ∨ list = []) (slice : Slice) :
    (lists.set place list).flatten.count slice + (listAt lists place).count slice =
      lists.flatten.count slice + list.count slice := by
  cases there : lists[place]? with
  | none =>
    have outside := List.getElem?_eq_none_iff.1 there
    rcases inside with inside | nothing
    · omega
    · rw [set_of_none there, listAt_of_none there, nothing]
  | some old =>
    have replaced := count_flatMap_set id there list slice
    rw [List.flatMap_id, List.flatMap_id] at replaced
    unfold listAt
    rw [there]
    exact replaced

/-- At a place where there is no list, there is nothing to take and nothing to put. -/
theorem inside_or_empty (lists : List (List Slice)) (place : Nat) :
    place < lists.length ∨ listAt lists place = [] :=
  (Nat.lt_or_ge place lists.length).imp_right fun outside =>
    listAt_of_none (List.getElem?_eq_none outside)

section Balance

variable (session : Session) (lists : List (List Slice))

theorem count_add (place source : Nat) (slice : Slice) :
    (session.performLists lists (.add place source)).flatten.count slice =
      lists.flatten.count slice +
        (CompositeOp.added session lists (.add place source)).count slice := by
  have inside : place < lists.length ∨
      listAt lists place ++ CompositeOp.added session lists (.add place source) = [] := by
    by_cases inside : place < lists.length
    · exact .inl inside
    · have nothing : CompositeOp.added session lists (.add place source) = [] := if_neg inside
      rw [nothing, (inside_or_empty lists place).resolve_left inside]
      exact .inr rfl
  have grown := count_set lists place _ inside slice
  rw [List.count_append] at grown
  show (lists.set place _).flatten.count slice = _
  omega

theorem count_releaseFront (place : Nat) (slice : Slice) :
    (lists.set place (listAt lists place).tail).flatten.count slice +
        ((listAt lists place).take 1).count slice = lists.flatten.count slice := by
  have inside := (inside_or_empty lists place).imp_right fun nothing =>
    show (listAt lists place).tail = [] by rw [nothing]; rfl
  have shrunk := count_set lists place _ inside slice
  have split : (listAt lists place).count slice =
      ((listAt lists place).take 1).count slice + (listAt lists place).tail.count slice := by
    rw [← List.count_append, ← List.drop_one, List.take_append_drop]
  omega

theorem count_assign (target source : Nat) (slice : Slice) :
    (session.performLists lists (.assign target source)).flatten.count slice +
        (CompositeOp.released lists (.assign target source)).count slice =
      lists.flatten.count slice := by
  show (if target ≠ source ∧ target < lists.length ∧ source < lists.length then
      (lists.set source []).set target (listAt lists source) else lists).flatten.count slice +
    (if target ≠ source ∧ source < lists.length then listAt lists target
      else []).count slice = lists.flatten.count slice
  by_cases moves : target ≠ source ∧ target < lists.length ∧ source < lists.length
  · obtain ⟨different, inside, inside'⟩ := moves
    have emptied : (lists.set source []).flatten.count slice +
        (listAt lists source).count slice = lists.flatten.count slice :=
      count_set lists source [] (.inr rfl) slice
    -- The source goes first, so the list at the target is still the old one.
    have put := count_set (lists.set source []) target (listAt lists source)
      (.inl (by rwa [List.length_set])) slice
    have kept : listAt (lists.set source []) target = listAt lists target := by
      unfold listAt
      rw [List.getElem?_set_ne (Ne.symm different)]
    rw [kept] at put
    rw [if_pos ⟨different, inside, inside'⟩, if_pos ⟨different, inside'⟩]
    omega
  · have nothing : (if target ≠ source ∧ source < lists.length then listAt lists target
        else []) = [] := by
      split
      · next both =>
        exact (inside_or_empty lists target).resolve_left fun inside =>
          moves ⟨both.1, inside, both.2⟩
      · rfl
    rw [if_neg moves, nothing]
    rfl

/-- What was in the lists or is added is in the lists afterwards, given back, or handed on. -/
theorem count_performLists (op : CompositeOp) (slice : Slice) :
    (session.performLists lists op).flatten.count slice + (op.released lists).count slice +
        (op.handedOn lists).count slice =
      lists.flatten.count slice + (op.added session lists).count slice := by
  cases op with
  | new =>
    show (lists ++ [[]]).flatten.count slice + 0 + 0 = lists.flatten.count slice + 0
    rw [List.flatten_append, List.count_append]
    rfl
  | add place source => exact session.count_add lists place source slice
  | view | component => rfl
  | releaseFront place => exact count_releaseFront lists place slice
  | release place => exact count_set lists place [] (.inr rfl) slice
  | move place =>
    have emptied := count_set lists place [] (.inr rfl) slice
    show (if place < lists.length then lists.set place [] ++ [listAt lists place]
      else lists).flatten.count slice + 0 + 0 = lists.flatten.count slice + 0
    by_cases inside : place < lists.length
    · rw [if_pos inside, List.flatten_append, List.count_append, List.flatten_singleton]
      exact emptied
    · rw [if_neg inside]
  | assign target source => exact session.count_assign lists target source slice
  | toValue place => exact count_set lists place [] (.inr rfl) slice

end Balance

/-! ### Other operations -/

theorem composites_performValue (session : Session) (op : ValueOp) :
    (session.performValue op).session.composites = session.composites := by
  cases op with
  | lobOfRow kind row column type demand =>
    refine same_attempt_bind composites fun _ => same_attempt_bind composites fun found => ?_
    obtain ⟨_ | lob, left⟩ := found <;> rfl
  | _ => exact same_performValue composites (fun _ _ _ _ => rfl) fun _ _ _ _ _ => nofun

/-- Only an operation on composites changes them. -/
theorem composites_step (session : Session) {op : Op} (other : ∀ inner, op ≠ .composite inner) :
    (session.step op).session.composites = session.composites := by
  cases op with
  | buffer op => exact same_performBuffer composites (fun _ _ _ => rfl) op
  | row op => exact same_performRow composites (fun _ _ _ _ _ => rfl) op
  | value op => exact composites_performValue session op
  | slice op => exact same_performSlice composites (fun _ _ _ => rfl) op
  | composite op => exact (other op rfl).elim

/-! ### All three, side by side -/

/-- The composites of a session kept as vectors and as lists, and what has been put in and taken
out. -/
structure Shelf where
  vectors : List ComponentVector := []
  lists : List (List Slice) := []
  added : List Slice := []
  /-- What has been given back to the pool. -/
  released : List Slice := []
  /-- What has been moved into a value. -/
  handedOn : List Slice := []
  deriving DecidableEq, Repr

namespace Shelf

/-- Perform an operation of a session on the shelf. A vector stays as it is on a failure. -/
def note (shelf : Shelf) (session : Session) : Op → Shelf
  | .composite op =>
    { vectors := match session.performVectors shelf.vectors op with
        | .ok (_, vectors) => vectors
        | .error _ => shelf.vectors
      lists := session.performLists shelf.lists op
      added := shelf.added ++ op.added session shelf.lists
      released := shelf.released ++ op.released shelf.lists
      handedOn := shelf.handedOn ++ op.handedOn shelf.lists }
  | _ => shelf

/-- The shelf is that of the session. -/
structure Matches (shelf : Shelf) (session : Session) : Prop where
  vectors : shelf.vectors = session.composites.map .ofComposite
  lists : shelf.lists = session.composites.map Composite.live
  balance : shelf.added.Perm (shelf.released ++ shelf.handedOn ++ shelf.lists.flatten)

variable {shelf : Shelf}

theorem Matches.note_vectors (matching : shelf.Matches session) (op : CompositeOp) :
    (shelf.note session (.composite op)).vectors =
      (session.performComposite op).session.composites.map .ofComposite := by
  have same := session.performVectors_eq op
  rw [← matching.vectors] at same
  unfold note
  dsimp only
  rw [same]
  unfold Outcome.vectors
  cases failed : (session.performComposite op).result with
  | ok reply => rfl
  | error failure =>
    show shelf.vectors = _
    rw [matching.vectors, performComposite_of_failure failed]

theorem Matches.note_balance (matching : shelf.Matches session) (op : CompositeOp) :
    (shelf.note session (.composite op)).added.Perm
      ((shelf.note session (.composite op)).released ++
        (shelf.note session (.composite op)).handedOn ++
        (shelf.note session (.composite op)).lists.flatten) := by
  refine List.perm_iff_count.2 fun slice => ?_
  have before := List.perm_iff_count.1 matching.balance slice
  have step := count_performLists session shelf.lists op slice
  unfold note
  simp only [List.count_append] at before ⊢
  omega

/-- One step of the session and of the shelf. -/
theorem Matches.note (matching : shelf.Matches session) (op : Op) :
    (shelf.note session op).Matches (session.step op).session := by
  by_cases composite : ∃ inner, op = .composite inner
  · obtain ⟨inner, rfl⟩ := composite
    refine ⟨matching.note_vectors inner, ?_, matching.note_balance inner⟩
    have left := (leaves_performComposite session inner).1
    rw [← matching.lists] at left
    exact left
  · have same := composites_step session fun inner equal => composite ⟨inner, equal⟩
    have kept : shelf.note session op = shelf := by
      cases op with
      | composite inner => exact (composite ⟨inner, rfl⟩).elim
      | _ => rfl
    rw [kept]
    exact ⟨by rw [same]; exact matching.vectors, by rw [same]; exact matching.lists,
      matching.balance⟩

/-- What a shelf says about the composites of a session. -/
structure Explains (shelf : Shelf) (session : Session) : Prop where
  length : shelf.vectors.length = session.composites.length
  /-- Everything there is to see of a composite is that of the vector at its place, and of the list.
  A vector has no more components than there can be bytes. -/
  looks : ∀ (place : Nat) (vector : ComponentVector), shelf.vectors[place]? = some vector →
    vector.components.length ≤ Word.largestSize →
      ∃ composite list, session.composites[place]? = some composite ∧
        shelf.lists[place]? = some list ∧ vector.Agrees composite session.pool ∧
        vector.Resembles list session.pool
  /-- The next operation on composites does what it does to the vectors, and fails where that
  does. -/
  refines : ∀ op,
    session.performVectors shelf.vectors op = (session.performComposite op).vectors
  /-- The next operation on composites gives back what the lists say, each slice once. -/
  gives : ∀ op : CompositeOp,
    (session.performComposite op).session.pool =
      session.pool.releaseAll (op.released shelf.lists)
  /-- What has been added was given back once, moved into a value, or is still there. -/
  balance : shelf.added.Perm (shelf.released ++ shelf.handedOn ++ shelf.lists.flatten)
  /-- Destroying the vectors gives back what is still there. -/
  held : shelf.vectors.flatMap ComponentVector.held = shelf.lists.flatten

theorem Matches.explains (matching : shelf.Matches session) : shelf.Explains session where
  length := by rw [matching.vectors, List.length_map]
  looks place vector there fits := by
    rw [matching.vectors, List.getElem?_map] at there
    obtain ⟨composite, found, rfl⟩ := Option.map_eq_some_iff.1 there
    refine ⟨composite, composite.live, found, ?_,
      ComponentVector.agrees_ofComposite composite session.pool fits,
      ComponentVector.resembles_ofComposite composite session.pool fits⟩
    rw [matching.lists, List.getElem?_map, found]
    rfl
  refines op := by
    rw [matching.vectors]
    exact performVectors_eq session op
  gives op := by
    rw [matching.lists]
    exact (leaves_performComposite session op).2
  balance := matching.balance
  held := by
    rw [matching.vectors, matching.lists, List.flatMap_map]
    exact List.flatMap_congr fun composite _ => ComponentVector.held_ofComposite composite

end Shelf

/-- The shelf after some operations. -/
def shelfAfter (session : Session) (shelf : Shelf) : List Op → Shelf
  | [] => shelf
  | op :: rest => (session.step op).session.shelfAfter (shelf.note session op) rest

theorem matches_shelfAfter {shelf : Shelf} (matching : shelf.Matches session) (ops : List Op) :
    (session.shelfAfter shelf ops).Matches (session.after ops) := by
  induction ops generalizing session shelf with
  | nil => exact matching
  | cons op rest inductionHypothesis => exact inductionHypothesis (matching.note op)

/-- The composites of a session look like lists of slices after any operations, and what is added to
them is given back once. -/
theorem composites_refine_lists {config : PoolConfig} {columns : List ColumnType}
    (made : Session.new config columns = .ok session) (ops : List Op) :
    (session.shelfAfter {} ops).Explains (session.after ops) := by
  cases new_inversion made
  have matching : Shelf.Matches {} (fresh config columns) := ⟨rfl, rfl, .nil⟩
  exact (matches_shelfAfter matching ops).explains

/-- A composite is added to after it has released a component, assigned to itself and moved, and
what has been left behind is used again. -/
def movingOps : List Op :=
  [.slice (.allocate 4), .slice (.allocate 4), .slice (.allocate 4), .slice (.allocate 4),
    .composite .new, .composite (.add 0 0), .composite (.add 0 1), .composite (.releaseFront 0),
    .composite (.add 0 2), .composite (.assign 0 0), .composite (.move 0), .composite (.add 0 3)]

theorem composites_refine_lists_movingOps :
    let shelf := (fresh ⟨4, 8⟩ []).shelfAfter {} movingOps
    (shelf.vectors = [⟨[some ⟨3, 0, 4⟩], 0⟩, ⟨[none, some ⟨1, 0, 4⟩, some ⟨2, 0, 4⟩], 1⟩] ∧
        shelf.released = [⟨0, 0, 4⟩]) ∧
      shelf.Explains ((fresh ⟨4, 8⟩ []).after movingOps) := by
  have new : Session.new ⟨4, 8⟩ [] = .ok (fresh ⟨4, 8⟩ []) := rfl
  exact ⟨by decide +kernel, composites_refine_lists new movingOps⟩

end Session

end TabularStream
