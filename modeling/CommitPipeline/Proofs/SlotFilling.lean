import CommitPipeline.Proofs.Draining
import CommitPipeline.Proofs.Durability
import CommitPipeline.Proofs.Slots
import CommitPipeline.Proofs.StallFreedom

/-! What a pass does, whichever starts the store refuses. It goes through the ready operations in
their order and starts those whose start the store takes in its turn, until the slots are used up; a
refused start costs no slot. The started operations go from pending to active in the table, in the
active set and in the store, and nothing else is changed. -/
namespace CommitPipeline

namespace OperationStore
variable {σ : Type} [OperationStore σ] {store next : σ} {id : OperationId}

/-- Whether a store takes the start of an operation. -/
def takesStart (store : σ) (id : OperationId) : Bool := (perform store (.status id .active)).1.isOk

/-- Those of some operations whose start a store takes when the starts are written to it one after
the other. -/
def takenInTurn (store : σ) : List OperationId → List OperationId
  | [] => []
  | id :: rest =>
    let others := takenInTurn (perform store (.status id .active)).2 rest
    if takesStart store id then id :: others else others

theorem takenInTurn_refused {error : Error} (rest : List OperationId)
    (refused : perform store (.status id .active) = (.error error, next)) :
    takenInTurn store (id :: rest) = takenInTurn next rest := by
  rw [takenInTurn, takesStart, refused]
  rfl

theorem takenInTurn_accepted (rest : List OperationId)
    (accepted : perform store (.status id .active) = (.ok (), next)) :
    takenInTurn store (id :: rest) = id :: takenInTurn next rest := by
  rw [takenInTurn, takesStart, accepted]
  rfl

theorem takenInTurn_sublist (store : σ) (ids : List OperationId) :
    (takenInTurn store ids).Sublist ids := by
  induction ids generalizing store with
  | nil => exact .slnil
  | cons id rest ih =>
    rw [takenInTurn]
    split
    · exact (ih _).cons_cons id
    · exact (ih _).cons id

/-- What becomes of a store when starts are written to it. -/
inductive Starting (store : σ) : σ → Prop where
  | refl : Starting store store
  | write {next : σ} (starting : Starting store next) (id : OperationId) :
      Starting store (perform next (.status id .active)).2

/-- Which starts a store takes does not depend on those that were written before. -/
def Steady (store : σ) : Prop := ∀ next, Starting store next → takesStart next = takesStart store

theorem Steady.written (steady : Steady store) (id : OperationId) :
    Steady (perform store (.status id .active)).2 ∧
      takesStart (perform store (.status id .active)).2 = takesStart store := by
  have prepend {later : σ} (starting : Starting (perform store (.status id .active)).2 later) :
      Starting store later := by
    induction starting with
    | refl => exact .write .refl id
    | write _ id ih => exact ih.write id
  have same := steady _ (.write .refl id)
  exact ⟨fun later starting => (steady later (prepend starting)).trans same.symm, same⟩

/-- What a steady store takes in turn can be told of each operation by itself. -/
theorem Steady.takenInTurn_eq (steady : Steady store) (ids : List OperationId) :
    takenInTurn store ids = ids.filter (takesStart store) := by
  induction ids generalizing store with
  | nil => rfl
  | cons id rest ih =>
    obtain ⟨next, same⟩ := steady.written id
    rw [takenInTurn, List.filter_cons, ih next, same]

end OperationStore

open OperationStore (takesStart takenInTurn takenInTurn_refused takenInTurn_accepted
  takenInTurn_sublist Starting Steady)
open MemoryBacked (memory memory_of_refused perform_of_accepted)

namespace Memory
variable {m : Memory} {id : OperationId}

/-- The memory with the record of an operation marked as active. -/
def mark (m : Memory) (id : OperationId) : Memory :=
  (m.update id ({ · with status := .active })).2

theorem Indexed.mark (indexed : m.Indexed) (id : OperationId) : (m.mark id).Indexed :=
  indexed.update fun op => (rfl : { op with status := .active }.id = op.id)

theorem get?_markAll (indexed : m.Indexed) (ids : List OperationId) :
    (ids.foldl mark m).get? id =
      if id ∈ ids then (m.get? id).map ({ · with status := .active }) else m.get? id := by
  induction ids generalizing m with
  | nil => rfl
  | cons first rest ih =>
    rw [List.foldl_cons, ih (indexed.mark first), mark,
      get?_update indexed fun op => (rfl : { op with status := .active }.id = op.id)]
    by_cases here : first = id
    · rw [if_pos here, if_pos (List.mem_cons.mpr (.inl here.symm)), Option.map_map]
      split <;> rfl
    · simp only [if_neg here, List.mem_cons, or_iff_right (Ne.symm here)]

/-- An unlocked memory takes the start of every operation that it has a record of. -/
theorem takesStart_eq (indexed : m.Indexed) (id : OperationId) :
    takesStart m id = (!m.readOnly && m.snapshotOf.contains id) := by
  change (m.perform (.status id .active)).1.isOk = _
  unfold perform
  cases m.readOnly with
  | true => rfl
  | false =>
    simp only [Bool.false_eq_true, ↓reduceIte, update_answer indexed]
    cases m.snapshotOf.contains id <;> rfl

theorem Indexed.steady (indexed : m.Indexed) : Steady m := by
  intro next starting
  have kept : next.Indexed ∧ next.readOnly = m.readOnly ∧ next.snapshotOf = m.snapshotOf := by
    induction starting with
    | refl => exact ⟨indexed, rfl, rfl⟩
    | @write next _ id ih =>
      obtain ⟨nextIndexed, flag, index⟩ := ih
      refine ⟨nextIndexed.perform _, ?_⟩
      change (Memory.perform next _).2.readOnly = _ ∧ (Memory.perform next _).2.snapshotOf = _
      unfold Memory.perform
      split
      · exact ⟨flag, index⟩
      · exact ⟨(readOnly_update ..).trans flag, (snapshotOf_update ..).trans index⟩
  obtain ⟨nextIndexed, flag, index⟩ := kept
  funext id
  rw [takesStart_eq nextIndexed, takesStart_eq indexed, flag, index]

end Memory

namespace RefusingStore
variable {s : RefusingStore}

theorem perform_start (s : RefusingStore) (id : OperationId) :
    OperationStore.perform s (.status id .active) =
      if s.refuses id then (.error (.storage (.statusRefused id)), s)
      else s.pass (.status id .active) := rfl

/-- Of the starts that it does not refuse, a store takes those that its memory takes. -/
theorem takesStart_eq (s : RefusingStore) (id : OperationId) :
    takesStart s id = (!s.refuses id && takesStart s.memory id) := by
  rw [takesStart, perform_start]
  cases s.refuses id <;> rfl

theorem steady (indexed : s.memory.Indexed) : Steady s := by
  intro next starting
  have kept : next.refuses = s.refuses ∧ Starting s.memory next.memory := by
    induction starting with
    | refl => exact ⟨rfl, .refl⟩
    | @write next _ id ih =>
      rw [perform_start]
      split
      · exact ih
      · exact ⟨ih.1, ih.2.write id⟩
  obtain ⟨refuses, memory⟩ := kept
  funext id
  rw [takesStart_eq, takesStart_eq, refuses, indexed.steady next.memory memory]

end RefusingStore

namespace MemoryBacked
variable {σ : Type} [OperationStore σ] [MemoryBacked σ] {store next : σ} {id : OperationId}
  {ids : List OperationId}

theorem updated_of_started
    (performed : OperationStore.perform store (.status id .active) = (.ok (), next)) :
    (memory store).update id ({ · with status := .active }) = (.ok (), memory next) :=
  Memory.perform_accepted (perform_of_accepted performed)

/-- A start that a store takes is marked in its memory. -/
theorem memory_of_started
    (performed : OperationStore.perform store (.status id .active) = (.ok (), next)) :
    memory next = (memory store).mark id :=
  (congrArg Prod.snd (updated_of_started performed)).symm

/-- A store takes a start only if its memory has the record. -/
theorem known_of_started
    (performed : OperationStore.perform store (.status id .active) = (.ok (), next)) :
    id ∈ (memory store).snapshotOf := by
  have updated := updated_of_started performed
  rw [Std.ExtTreeMap.mem_iff_isSome_getElem?]
  cases filed : (memory store).snapshotOf[id]? with
  | some snapshot => rfl
  | none =>
    rw [Memory.update_unknown filed] at updated
    cases updated

theorem known_of_takenInTurn (indexed : (memory store).Indexed)
    (taken : id ∈ takenInTurn store ids) : id ∈ (memory store).snapshotOf := by
  induction ids generalizing store with
  | nil => cases taken
  | cons first rest ih =>
    cases performed : OperationStore.perform store (.status first .active) with
    | mk answer next =>
      cases answer with
      | error error =>
        rw [takenInTurn_refused rest performed] at taken
        have unchanged := memory_of_refused indexed performed
        exact unchanged ▸ ih (unchanged ▸ indexed) taken
      | ok done =>
        rw [takenInTurn_accepted rest performed] at taken
        rcases List.mem_cons.mp taken with rfl | later
        · exact known_of_started performed
        · have marked := memory_of_started performed
          have known := ih (marked ▸ indexed.mark first) later
          rwa [marked, Memory.mark, Memory.snapshotOf_update] at known

end MemoryBacked

namespace Engine
variable {σ : Type} [OperationStore σ] [MemoryBacked σ]

/-- A pass starts the first of the operations whose start the store takes, and marks them there. -/
theorem start_taken (e : Engine σ) (free : Nat) {ids : List OperationId}
    (keyed : e.core.table.Keyed) (live : ∀ id ∈ ids, id ∈ e.core.table)
    (indexed : (memory e.store).Indexed) :
    (e.start ids free).1.map (·.id) = (takenInTurn e.store ids).take free ∧
      memory (e.start ids free).2.store =
        ((takenInTurn e.store ids).take free).foldl Memory.mark (memory e.store) := by
  induction ids generalizing e free with
  | nil =>
    rw [start, takenInTurn, List.take_nil]
    exact ⟨rfl, rfl⟩
  | cons id rest ih =>
    cases free with
    | zero =>
      rw [start]
      exact ⟨rfl, rfl⟩
    | succ free =>
      obtain ⟨op, held⟩ := mem_table.mp (live id List.mem_cons_self)
      have restLive : ∀ id ∈ rest, id ∈ e.core.table :=
        fun id member => live id (List.mem_cons_of_mem _ member)
      rw [start]
      cases performed : OperationStore.perform e.store (.status id .active) with
      | mk answer store =>
        cases answer with
        | error error =>
          have unchanged := memory_of_refused indexed performed
          obtain ⟨started, marked⟩ :=
            ih { e with store } (free + 1) keyed restLive (unchanged ▸ indexed)
          rw [takenInTurn_refused rest performed]
          exact ⟨started, marked.trans (by rw [unchanged])⟩
        | ok done =>
          have written := MemoryBacked.memory_of_started performed
          have named : op.id = id := keyed id op held
          obtain ⟨started, marked⟩ :=
            ih ⟨e.core.start { op with status := .active }, store⟩ free keyed.insert
              (fun id member => Std.ExtTreeMap.mem_insert.mpr (.inr (restLive id member)))
              (written ▸ indexed.mark id)
          rw [takenInTurn_accepted rest performed]
          simp only [held]
          exact ⟨congrArg₂ List.cons named started, by rw [marked, written]; rfl⟩

theorem dispatch_taken (e : Engine σ) (now : Instant) (keyed : e.core.table.Keyed)
    (indexed : (memory e.store).Indexed) :
    (e.dispatch now).1.map (·.id) =
        (takenInTurn e.store (e.core.ready now)).take e.core.freeSlots ∧
      memory (e.dispatch now).2.store =
        ((takenInTurn e.store (e.core.ready now)).take e.core.freeSlots).foldl
          Memory.mark (memory e.store) := by
  rw [dispatch]
  split
  · rename_i noSlots
    rw [noSlots]
    exact ⟨rfl, rfl⟩
  · refine e.start_taken _ keyed (fun id member => ?_) indexed
    obtain ⟨op, held, -⟩ := Readiness.pending_of_ready member
    exact mem_table.mpr ⟨op, held⟩

end Engine

/-! ### A whole call -/

/-- A request is carried out: it stands for a change, its write leaves some store, and the pass
after it leads to the end of the call. -/
structure Engine.CarriesOut {σ : Type} [OperationStore σ] (e : Engine σ) (now : Instant)
    (request : Request) (change : Change) (store : σ) (step : Step) (after : Engine σ) : Prop where
  decided : e.core.changeFor now request = .ok (some change)
  wrote : e.write change.write = (.ok (), { e with store })
  ended : e.apply now request = (.ok step, after)

/-- Some pending operations of a core are started, each gets a slot that it did not have, and
nothing else is changed; only the activity is noted anew. -/
structure Core.Starts (c : Core) (operations : List Operation) (after : Core) : Prop where
  started : ∀ op ∈ operations, ∃ waiting, c.table[op.id]? = some waiting ∧
    waiting.status = .pending ∧ op = { waiting with status := .active } ∧
    after.table[op.id]? = some op
  slots : ∀ op ∈ operations, op.id ∉ c.active ∧ op.id ∈ after.active
  others : ∀ id ∉ operations.map (·.id), after.table[id]? = c.table[id]? ∧
    (id ∈ after.active ↔ id ∈ c.active)
  size : after.active.size = c.active.size + operations.length
  rest : after =
    { c with table := after.table, active := after.active, wasActive := after.wasActive }

/-- The records of some operations become active, one write for each, and nothing else is changed. -/
structure Memory.Marks (m : Memory) (ids : List OperationId) (after : Memory) : Prop where
  written : after = ids.foldl Memory.mark m
  marked : ∀ id ∈ ids, ∃ record, m.get? id = some record ∧
    after.get? id = some { record with status := .active }
  others : ∀ id ∉ ids, after.get? id = m.get? id

/-- Starts that a memory takes are marked in it. -/
theorem Memory.Indexed.marks {m : Memory} {ids : List OperationId} (indexed : m.Indexed)
    (known : ∀ id ∈ ids, id ∈ m.snapshotOf) : m.Marks ids (ids.foldl Memory.mark m) where
  written := rfl
  marked id member := by
    obtain ⟨snapshot, filed⟩ := Option.isSome_iff_exists.mp
      (Std.ExtTreeMap.mem_iff_isSome_getElem?.mp (known id member))
    obtain ⟨record, found⟩ := Option.isSome_iff_exists.mp (indexed.isSome_get? filed)
    exact ⟨record, found, by rw [get?_markAll indexed, if_pos member, found]; rfl⟩
  others id absent := by rw [get?_markAll indexed, if_neg absent]

namespace Core
variable {c : Core} {now : Instant} {operations : List Operation}

/-- A call ends with the start of what its pass has chosen. -/
theorem starts_settled (filed : c.Filed) (tracked : c.Tracked)
    (dispatches : c.prune.2.Dispatches now operations) :
    c.prune.2.Starts operations (c.settled operations) where
  started op member := by
    obtain ⟨-, -, -, waiting, held, isReady, handedOut⟩ := dispatches.ready member
    exact ⟨waiting, held, (Readiness.isReady_iff.mp isReady).1, handedOut,
      lookup_started dispatches filed.prune member⟩
  slots op member := by
    have started : op.id ∈ operations.map (·.id) := List.mem_map_of_mem member
    rw [pruned_active, settled_active]
    exact ⟨fun taken => tracked.not_started dispatches taken started, .inl started⟩
  others id absent := by
    rw [settled_active, pruned_active]
    exact ⟨lookup_not_started absent, or_iff_right absent⟩
  size := by rw [active_size_settled tracked filed dispatches, pruned_active]
  rest := by
    rw [settled, noteActivity, startAll_eq]

end Core

namespace Engine.CarriesOut
variable {σ : Type} [OperationStore σ] {e after : Engine σ} {now : Instant}
  {request : Request} {change : Change} {store : σ} {step : Step}

/-- Whatever is accepted and asks for something is carried out. -/
theorem of_accepted (asks : e.core.changeFor now request ≠ .ok none)
    (accepted : (e.apply now request).1 = .ok step) :
    ∃ change store after, e.CarriesOut now request change store step after := by
  cases decided : e.core.changeFor now request with
  | error error =>
    rw [apply_error decided] at accepted
    cases accepted
  | ok found =>
    cases found with
    | none => exact (asks decided).elim
    | some change =>
      have kept : (e.write change.write).2.core = e.core := by cases change.write <;> rfl
      cases wrote : e.write change.write with
      | mk answer noted =>
        rw [wrote] at kept
        cases answer with
        | error error =>
          rw [apply_refused decided wrote] at accepted
          cases accepted
        | ok done =>
          refine ⟨change, noted.store, _, decided, ?_, Prod.ext accepted rfl⟩
          rw [wrote, ← kept]

/-- The pass of a call over the changed and pruned core, and what it leaves. -/
theorem passed (carried : e.CarriesOut now request change store step after)
    (filed : change.core.Filed) :
    change.core.prune.2.Dispatches now step.dispatched ∧
      (dispatch ⟨change.core.prune.2, store⟩ now).1 = step.dispatched ∧
      after = ⟨change.core.settled step.dispatched,
        (dispatch ⟨change.core.prune.2, store⟩ now).2.store⟩ := by
  have done := apply_done carried.decided carried.wrote
  rw [carried.ended, Prod.mk.injEq, Except.ok.injEq] at done
  obtain ⟨rfl, rfl⟩ := done
  obtain ⟨operations, dispatches, rfl, left⟩ :=
    finish_settled (e := ⟨change.core, store⟩) now change.events filed
  exact ⟨dispatches, rfl, left⟩

variable [MemoryBacked σ]

/-- What the write of a request makes of the memory. -/
theorem written (carried : e.CarriesOut now request change store step after) :
    (∀ write, change.write = some write →
      (memory e.store).perform write = (.ok (), memory store)) ∧
    (change.write = none → memory store = memory e.store) := by
  have wrote := carried.wrote
  cases writes : change.write with
  | none =>
    rw [writes] at wrote
    refine ⟨?_, fun _ => congrArg memory (store_of_silent wrote)⟩
    rintro _ ⟨⟩
  | some write =>
    rw [writes] at wrote
    refine ⟨?_, fun silent => (Option.some_ne_none write silent).elim⟩
    rintro _ ⟨⟩
    exact perform_of_accepted (perform_of_wrote wrote)

theorem indexed (carried : e.CarriesOut now request change store step after)
    (indexed : (memory e.store).Indexed) : (memory store).Indexed := by
  obtain ⟨wrote, silent⟩ := carried.written
  cases writes : change.write with
  | none => exact silent writes ▸ indexed
  | some write =>
    have next := indexed.perform write
    rwa [wrote write writes] at next

/-- If nobody else writes to the store, the pass finds the records as they are in the table. -/
theorem mirrored {names : Names} {algorithm : Algorithm} {initial : σ} {history : List Entry}
    (carried : e.CarriesOut now request change store step after)
    (sole : SoleRun names algorithm initial history e) (indexed : (memory initial).Indexed) :
    change.core.prune.2.Mirrored (memory initial) (memory store) := by
  have filed := sole.run.sound.filed
  have admitted := Core.admits_of_changeFor carried.decided
  obtain ⟨wrote, silent⟩ := carried.written
  exact ((sole.mirrored indexed).admitted filed admitted wrote silent).prune
    (filed.admitted admitted)

end Engine.CarriesOut

section Run
variable {σ : Type} [OperationStore σ] [MemoryBacked σ] {names : Names} {algorithm : Algorithm}
  {history : List Entry} {e after : Engine σ} {now : Instant} {request : Request}
  {change : Change} {store : σ} {step : Step}

/-- A request that is carried out starts the first ready operations whose start the store takes in
its turn, as many as there are slots after its own change, and nothing else happens in the pass. If
what the store takes does not depend on the starts before, they are those ready ones that it takes.
In the table, in the active set and in the store exactly these operations become active; they were
pending, also in a store that nobody else writes to. The operations with a slot are never more than
the limit, unless they were before, and not even then if the call starts one. -/
theorem slots_filled_in_order (run : Run names algorithm history e)
    (indexed : (memory e.store).Indexed)
    (carried : e.CarriesOut now request change store step after) :
    let c := change.core.prune.2
    let free := if c.isSuspended then 0 else c.limit - c.active.size
    let taken := takenInTurn store (c.ready now)
    let started := taken.take free
    step.dispatched.map (·.id) = started ∧
      taken.Sublist (c.ready now) ∧
      (Steady store → taken = (c.ready now).filter (takesStart store)) ∧
      c.Starts step.dispatched after.core ∧
      (memory store).Marks started (memory after.store) ∧
      (∀ initial, SoleRun names algorithm initial history e → (memory initial).Indexed →
        ∀ id ∈ started, (memory store).get? id = c.table[id]?) ∧
      after.core.active.size ≤ max after.core.limit e.core.active.size ∧
      (step.dispatched ≠ [] → after.core.active.size ≤ after.core.limit) := by
  intro c free taken started
  have admitted := Core.admits_of_changeFor carried.decided
  have filed := run.sound.filed.admitted admitted
  have tracked := run.sound.tracked.admitted run.sound.filed admitted
  have storeIndexed := carried.indexed indexed
  obtain ⟨dispatches, passed, rfl⟩ := carried.passed filed
  obtain ⟨chosen, marked⟩ := Engine.dispatch_taken ⟨c, store⟩ now filed.prune.keyed storeIndexed
  have order : step.dispatched.map (·.id) = started := passed ▸ chosen
  have starts := Core.starts_settled filed tracked dispatches
  have size : (change.core.settled step.dispatched).active.size =
    c.active.size + step.dispatched.length := starts.size
  have limit : (change.core.settled step.dispatched).limit = c.limit := by
    rw [Core.settled_limit, Core.pruned_limit]
  have released : c.active.size ≤ e.core.active.size := by
    rw [Core.pruned_active]
    exact admitted.active_size_le
  have bounded : step.dispatched.length ≤ c.limit - c.active.size := dispatches.length_le
  have sublist : taken.Sublist (c.ready now) := takenInTurn_sublist store _
  refine ⟨order, sublist, fun steady => steady.takenInTurn_eq _, starts, ?marks, ?alike, ?kept,
    ?within⟩
  case marks =>
    have known : ∀ id ∈ started, id ∈ (memory store).snapshotOf := fun id member =>
      MemoryBacked.known_of_takenInTurn storeIndexed (List.mem_of_mem_take member)
    have marks := storeIndexed.marks known
    rwa [← show memory _ = started.foldl Memory.mark (memory store) from marked] at marks
  case alike =>
    intro initial sole initialIndexed id member
    obtain ⟨waiting, held, pending⟩ :=
      Readiness.pending_of_ready (sublist.subset (List.mem_of_mem_take member))
    refine ((carried.mirrored sole initialIndexed).get?_live filed.prune held).trans ?_
    rw [pending]
    exact held.symm
  case kept =>
    rw [size, limit]
    omega
  case within =>
    intro some
    have positive := List.length_pos_iff.mpr some
    rw [size, limit]
    omega

/-- A store that refuses to note the start of the third operation. -/
def RefusingStore.thirdRefused : RefusingStore :=
  { RefusingStore.empty with refused := Std.ExtTreeSet.ofList [OperationId.ofNat 3] }

/-- Two slots, a commit of one operation, and one of four more. The latest call is first. -/
def fourBehindOne : List Call := [
  .request .first
    (.append 2 [.new (.ofNat 2), .new (.ofNat 3), .new (.ofNat 4), .new (.ofNat 5)] []),
  .request .first (.append 1 [.new (.ofNat 1)] []),
  .request .first (.setLimit 2)]

/-- When the first operation is completed its commit goes, and the two slots go to the first and the
third of the next commit: the second is refused. -/
theorem refused_start_costs_no_slot :
    let e := (runOf (.new "uploads" []) .commitGraph RefusingStore.thirdRefused fourBehindOne).2
    ∃ change store step after, (memory e.store).Indexed ∧ Steady store ∧
      e.CarriesOut .first (.complete (.ofNat 1)) change store step after ∧
      step.dispatched.map (·.id) = [.ofNat 2, .ofNat 4] ∧
      takenInTurn store (change.core.prune.2.ready .first) =
        (change.core.prune.2.ready .first).filter (takesStart store) ∧
      change.core.prune.2.Starts step.dispatched after.core ∧
      (memory store).Marks [.ofNat 2, .ofNat 4] (memory after.store) ∧
      after.core.active.size ≤ after.core.limit := by
  intro e
  have sole : SoleRun (.new "uploads" []) .commitGraph RefusingStore.thirdRefused _ e :=
    .of_calls _ _ _ fourBehindOne
  have indexed := (sole.mirrored Memory.indexed_empty).indexed
  have answered : (e.apply .first (.complete (.ofNat 1))).1.map
      (fun step => step.dispatched.map (·.id)) = .ok [.ofNat 2, .ofNat 4] := by decide +kernel
  cases accepted : (e.apply .first (.complete (.ofNat 1))).1 with
  | error error =>
    rw [accepted] at answered
    cases answered
  | ok step =>
    rw [accepted] at answered
    have chosen : step.dispatched.map (·.id) = [.ofNat 2, .ofNat 4] := Except.ok.inj answered
    have asks : e.core.changeFor .first (.complete (.ofNat 1)) ≠ .ok none :=
      fun idle => Option.some_ne_none _ (Core.idle_outcome idle)
    obtain ⟨change, store, after, carried⟩ := Engine.CarriesOut.of_accepted asks accepted
    have steady : Steady store := RefusingStore.steady (carried.indexed indexed)
    obtain ⟨order, -, told, starts, marks, -, -, within⟩ :=
      slots_filled_in_order sole.run indexed carried
    rw [← order, chosen] at marks
    refine ⟨change, store, step, after, indexed, steady, carried, chosen, told steady, starts,
      marks, within fun none => ?_⟩
    rw [none] at chosen
    cases chosen

end Run
end CommitPipeline
