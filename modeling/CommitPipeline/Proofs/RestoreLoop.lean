import CommitPipeline.Proofs.BatchDraining
import CommitPipeline.Proofs.ChosenRecords
import CommitPipeline.Proofs.CrossCommitEdges
import CommitPipeline.Proofs.DrainWaiting

/-! Queueing again what an earlier run has left, while the tasks of the pipeline are already at work.
Left alone, the loop takes up every batch. But between two batches the worker may be handed what the
first of them brought, and may itself queue new commits. If such a commit is as late as a batch that
is to come, that batch is rejected; nothing else can stop the loop. -/
namespace CommitPipeline

namespace OperationStore
variable {σ : Type} [OperationStore σ]

/-- The store after some writes, accepted or not. -/
def after (store : σ) (writes : List Write) : σ :=
  writes.foldl (fun store write => (perform store write).2) store

/-- Whatever has been written, the store takes a batch. -/
def Takes (store : σ) : Prop :=
  ∀ (writes : List Write) (snapshot : Nat) (operations : List Operation),
    (perform (after store writes) (.save snapshot operations [])).1 = .ok ()

theorem Takes.perform {store : σ} (takes : Takes store) (write : Write) :
    Takes (OperationStore.perform store write).2 := fun writes => takes (write :: writes)

end OperationStore

open OperationStore (Takes)

/-- A memory that is not locked takes every batch. -/
theorem Memory.takes {m : Memory} (indexed : m.Indexed) (unlocked : m.readOnly = false) :
    Takes m := by
  intro writes
  induction writes generalizing m with
  | nil =>
    intro snapshot operations
    change (m.perform (.save snapshot operations [])).1 = .ok ()
    rw [Memory.perform_unlocked unlocked]
    rcases Memory.save_cases indexed snapshot operations [] with ⟨_, stray, -⟩ | ⟨-, saved, -⟩
    · cases stray
    · exact saved
  | cons write rest ih =>
    exact ih (indexed.perform write) ((Memory.readOnly_perform indexed write).trans unlocked)

namespace Engine
variable {σ : Type} [OperationStore σ] {e : Engine σ} {now : Instant} {batch : Batch}

section Kept
variable {P : σ → Prop}

section Starts
variable (started : ∀ store id, P store → P (OperationStore.perform store (.status id .active)).2)
include started

theorem dispatch_keeps (now : Instant) (holds : P e.store) : P (e.dispatch now).2.store := by
  rw [dispatch]
  split
  · exact holds
  · refine e.start_preserves (P := fun e => P e.store) _ ?_ ?_ holds
    · intro e error store id _ performed holds
      have next := started e.store id holds
      rwa [performed] at next
    · intro e store id _ performed holds
      have next := started e.store id holds
      rw [performed] at next
      exact ⟨fun _ => next, fun _ _ => next⟩

/-- What starting an operation keeps of a store is kept by the end of every call. -/
theorem finish_keeps (now : Instant) (events : EventSet) (holds : P e.store) :
    P (e.finish now events).2.store := by
  have next := dispatch_keeps (e := { e with core := e.core.prune.2 }) started now holds
  unfold finish
  exact next

end Starts

section Writes
variable (kept : ∀ store write, P store → P (OperationStore.perform store write).2)
include kept

theorem write_keeps (write : Option Write) (holds : P e.store) : P (e.write write).2.store := by
  cases write with
  | none => exact holds
  | some write => exact kept e.store write holds

/-- What every write keeps of a store is kept by every request. -/
theorem apply_keeps (now : Instant) (request : Request) (holds : P e.store) :
    P (e.apply now request).2.store := by
  cases decided : e.core.changeFor now request with
  | error error =>
    rw [apply_error decided]
    exact holds
  | ok found =>
    cases found with
    | none =>
      rw [apply_idle decided]
      exact holds
    | some change =>
      have next := write_keeps kept change.write holds
      cases wrote : e.write change.write with
      | mk answer after =>
        rw [wrote] at next
        cases answer with
        | error error =>
          rw [apply_refused decided wrote]
          exact next
        | ok =>
          rw [apply_done decided wrote]
          exact finish_keeps (fun store id => kept store _) now change.events next

end Writes

end Kept

/-- A batch that is late is rejected, with the snapshot that it comes after. -/
theorem restore_late {latest : Nat} (known : e.core.queue.latest = some latest)
    (late : batch.snapshot ≤ latest) :
    e.apply now (.restore batch) = (.error (.orderingViolation batch.snapshot latest), e) := by
  refine apply_error ?_
  unfold Core.changeFor Core.restoreChange Queue.push Queue.check
  simp only [known, if_pos late]
  rfl

/-- A batch that is not late, and whose operations are new, is taken up. -/
theorem restore_taken (takes : Takes e.store)
    (above : ∀ latest, e.core.queue.latest = some latest → latest < batch.snapshot)
    (distinct : ((e.core.ownOperations batch).map (·.id)).Nodup)
    (fresh : ∀ id ∈ (e.core.ownOperations batch).map (·.id), id ∉ e.core.table) :
    ∃ step, (e.apply now (.restore batch)).1 = .ok step := by
  obtain ⟨queue, pushed⟩ :=
    Core.push_above ⟨batch.snapshot, (e.core.ownOperations batch).map (·.id)⟩ above
  have decided := Core.restore_admitted now pushed distinct fresh
  have wrote : ∀ operations : List Operation,
      (e.write (e.core.queueBatch queue batch.snapshot operations []).write).1 = .ok () := by
    intro operations
    unfold Core.queueBatch
    split
    · rfl
    · exact takes [] batch.snapshot operations
  have done := wrote ((e.core.ownOperations batch).map (e.core.stamp batch.snapshot))
  rw [apply_done decided (Prod.ext done rfl)]
  exact ⟨_, rfl⟩

end Engine

/-! ### What the queue tells of the commits -/

namespace Core
variable {c after : Core} {now : Instant} {request : Request} {answer : Except Error Step}
  {graphs : List Graph}

/-- The highest snapshot is that of a graph that was queued, no graph that was queued is above it,
and whatever is live came with one. -/
structure Traced (c : Core) (graphs : List Graph) : Prop where
  filed : c.Filed
  latest : ∀ latest, c.queue.latest = some latest → ∃ graph ∈ graphs, graph.snapshot = latest
  accepted : ∀ graph ∈ graphs, ∃ latest, c.queue.latest = some latest ∧ graph.snapshot ≤ latest
  live : ∀ id ∈ c.table, ∃ graph ∈ graphs, id ∈ graph.members

theorem traced_new (names : Names) (algorithm : Algorithm) : (new names algorithm).Traced [] where
  filed := filed_new names algorithm
  latest := nofun
  accepted := List.forall_mem_nil _
  live id present := by simp [new] at present

/-- An answer adds the graph that it queues, if there is one. -/
theorem Traced.answered (traced : c.Traced graphs)
    (answers : c.Answers now request answer after) :
    after.Traced ((Entry.queued? ⟨c, .request now request, answer⟩).toList ++ graphs) := by
  have filed := answers.filed traced.filed
  have live : ∀ id ∈ after.table,
      ∃ graph ∈ (Entry.queued? ⟨c, .request now request, answer⟩).toList ++ graphs,
        id ∈ graph.members := by
    intro id present
    rcases answers.live_origin traced.filed present with earlier | ⟨graph, queued, member⟩
    · obtain ⟨graph, listed, member⟩ := traced.live id earlier
      exact ⟨graph, List.mem_append_right _ listed, member⟩
    · exact ⟨graph, List.mem_append_left _ (Option.mem_toList.mpr queued), member⟩
  rcases answers.latest with ⟨graph, queued, newest, above⟩ | ⟨nothing, same⟩
  · rw [queued] at live ⊢
    refine ⟨filed, fun latest known => ?_, fun other member => ⟨graph.snapshot, newest, ?_⟩, live⟩
    · exact ⟨graph, List.mem_cons_self, Option.some.inj (newest.symm.trans known)⟩
    · rcases List.mem_cons.mp member with rfl | member
      · exact Nat.le_refl _
      · obtain ⟨latest, known, bound⟩ := traced.accepted other member
        exact Nat.le_of_lt (Nat.lt_of_le_of_lt bound (above latest known))
  · rw [nothing] at live ⊢
    exact ⟨filed, same ▸ traced.latest, same ▸ traced.accepted, live⟩

end Core

/-- The owner of some names, with a store that takes every batch, has been given these graphs. -/
structure Engine.Supplied {σ : Type} [OperationStore σ] (e : Engine σ) (names : Names)
    (graphs : List Graph) : Prop where
  traced : e.core.Traced graphs
  named : e.core.names = names
  takes : Takes e.store

namespace Engine
variable {σ : Type} [OperationStore σ] {e : Engine σ} {names : Names} {graphs : List Graph}
  {batch : Batch}

theorem Supplied.apply (supplied : e.Supplied names graphs) (now : Instant) (request : Request) :
    (e.apply now request).2.Supplied names
      ((Entry.queued? ⟨e.core, .request now request, (e.apply now request).1⟩).toList ++
        graphs) := by
  have answers := e.apply_answers now request supplied.traced.filed
  exact ⟨supplied.traced.answered answers, answers.names.trans supplied.named,
    apply_keeps (fun _ write takes => takes.perform write) now request supplied.takes⟩

/-- A request that brings no graph adds none. -/
theorem Supplied.quiet (supplied : e.Supplied names graphs) (now : Instant) (request : Request)
    (noGraph : request.graph? e.core.names = none) :
    (e.apply now request).2.Supplied names graphs := by
  have next := supplied.apply now request
  have nothing : Entry.queued? ⟨e.core, .request now request, (e.apply now request).1⟩ = none := by
    cases (e.apply now request).1 with
    | error error => rfl
    | ok step => exact noGraph
  rwa [nothing] at next

theorem Supplied.retireMissing (supplied : e.Supplied names graphs) (batches : List Batch) :
    (e.retireMissing batches).Supplied names graphs := by
  obtain ⟨⟨filed, latest, accepted, live⟩, named, takes⟩ := supplied
  exact ⟨⟨filed.of_continues rfl rfl rfl (.refl _), latest, accepted, live⟩, named, takes⟩

/-- A batch of new operations is taken up, unless a graph is in its way. -/
theorem Supplied.restore_cases (supplied : e.Supplied names graphs) (now : Instant)
    (distinct : (batch.graphFor names).members.Nodup)
    (fresh : ∀ graph ∈ graphs, ∀ id ∈ (batch.graphFor names).members, id ∉ graph.members) :
    ((∃ step, (e.apply now (.restore batch)).1 = .ok step) ∧
        ∀ graph ∈ graphs, graph.snapshot < batch.snapshot) ∨
      ∃ graph ∈ graphs, batch.snapshot ≤ graph.snapshot ∧
        (e.apply now (.restore batch)).1 =
          .error (.orderingViolation batch.snapshot graph.snapshot) := by
  obtain ⟨⟨filed, latest, accepted, live⟩, rfl, takes⟩ := supplied
  by_cases late : ∃ latest, e.core.queue.latest = some latest ∧ batch.snapshot ≤ latest
  · obtain ⟨newest, known, late⟩ := late
    obtain ⟨graph, member, rfl⟩ := latest newest known
    exact .inr ⟨graph, member, late, congrArg Prod.fst (restore_late known late)⟩
  · have above : ∀ latest, e.core.queue.latest = some latest → latest < batch.snapshot :=
      fun latest known => Nat.lt_of_not_le fun bound => late ⟨latest, known, bound⟩
    have new : ∀ id ∈ (batch.graphFor e.core.names).members, id ∉ e.core.table := by
      intro id member present
      obtain ⟨graph, listed, holds⟩ := live id present
      exact fresh graph listed id member holds
    refine .inl ⟨restore_taken takes above distinct new, fun graph member => ?_⟩
    obtain ⟨latest, known, bound⟩ := accepted graph member
    exact Nat.lt_of_le_of_lt bound (above latest known)

end Engine

/-! ### The loop -/

namespace Pipeline
variable {σ ω : Type} [OperationStore σ]

theorem call_answer (p : Pipeline σ ω) (now : Instant) (request : Request) :
    (p.call now request).1 = (p.engine.apply now request).1.map fun _ => () := by
  unfold call change
  cases p.engine.apply now request with
  | mk answer engine => cases answer <;> rfl

/-- A batch that is taken up brings its graph. -/
theorem queued?_restore {p : Pipeline σ ω} {now : Instant} {batch : Batch}
    (through : (p.call now (.restore batch)).1 = .ok ()) :
    (p.entryFor now (.restore batch)).queued? = some (batch.graphFor p.engine.core.names) := by
  rw [call_answer] at through
  unfold entryFor
  cases answered : (p.engine.apply now (.restore batch)).1 with
  | error error =>
    rw [answered] at through
    cases through
  | ok step => rfl

end Pipeline

namespace Watched
variable {σ ω : Type} {s after : Watched σ ω} {settings : LaunchSettings}
  {batches taken : List Batch} {foreign : List Graph} {history : List Entry} {batch : Batch}

/-- An act of others while the batches are taken up. It brings no operation of theirs. -/
structure Joins (s : Watched σ ω) (reserved : List OperationId) (act : Act σ) : Prop where
  isOpen : act.isOpen = true
  fresh : ∀ request ∈ s.request? act, ∀ graph ∈ request.graph? s.pipeline.engine.core.names,
    ∀ id ∈ graph.members, id ∉ reserved

instance (s : Watched σ ω) (reserved : List OperationId) (act : Act σ) :
    Decidable (s.Joins reserved act) :=
  decidable_of_iff (act.isOpen = true ∧ ∀ request ∈ s.request? act,
      ∀ graph ∈ request.graph? s.pipeline.engine.core.names, ∀ id ∈ graph.members, id ∉ reserved)
    ⟨fun ⟨isOpen, fresh⟩ => ⟨isOpen, fresh⟩, fun ⟨isOpen, fresh⟩ => ⟨isOpen, fresh⟩⟩

variable [OperationStore σ]

/-- The request of an act with its answer. -/
def entriesOf (s : Watched σ ω) (act : Act σ) : List Entry :=
  (s.request? act).toList.map (s.pipeline.entryFor s.clock)

/-- How far the loop has come: exactly the graphs of the batches that have been taken up and those
of the others have been queued, and the others have brought none of the operations. -/
structure Underway (settings : LaunchSettings) (batches taken : List Batch) (foreign : List Graph)
    (history : List Entry) (s : Watched σ ω) : Prop where
  supplied : s.pipeline.engine.Supplied settings.names (queuedGraphs history)
  begun : taken <+: batches
  queued : (queuedGraphs history).Perm (foreign ++ taken.map (·.graphFor settings.names))
  apart : ∀ graph ∈ foreign, ∀ id ∈ graph.members, id ∉ Batch.ids batches settings.names

theorem underway_launch (batches : List Batch) {store : σ} (takes : Takes store) (worker : ω)
    (now : Instant) :
    Underway settings batches [] [] [] ⟨.launch settings store worker now, now, now, now⟩ := by
  have blank : Engine.Supplied ⟨.new settings.names settings.algorithm, store⟩ settings.names [] :=
    ⟨Core.traced_new settings.names settings.algorithm, rfl, takes⟩
  have limited := blank.quiet now (.setLimit settings.limit) rfl
  exact ⟨limited.quiet now (.suspend settings.suspendCount) rfl, List.nil_prefix, .refl _,
    List.forall_mem_nil _⟩

/-- The identifiers that have been queued are those of the others and those of the batches that have
been taken up. -/
theorem Underway.everQueued (underway : Underway settings batches taken foreign history s) :
    (everQueued history).Perm (foreign.flatMap (·.members) ++ Batch.ids taken settings.names) := by
  have members := underway.queued.flatMap_right (·.members)
  rwa [List.flatMap_append, List.flatMap_map] at members

/-- The next batch is taken up, or a graph of the others is in its way. -/
theorem Underway.restore_cases {rest : List Batch}
    (underway : Underway settings batches taken foreign history s)
    (ascending : batches.Pairwise (·.snapshot < ·.snapshot))
    (distinct : (Batch.ids batches settings.names).Nodup)
    (next : batches = taken ++ batch :: rest) :
    ((s.pipeline.call s.clock (.restore batch)).1 = .ok () ∧
        ∀ graph ∈ foreign, graph.snapshot < batch.snapshot) ∨
      ∃ graph ∈ foreign, batch.snapshot ≤ graph.snapshot ∧
        (s.pipeline.call s.clock (.restore batch)).1 =
          .error (.orderingViolation batch.snapshot graph.snapshot) := by
  obtain ⟨supplied, -, queued, apart⟩ := underway
  subst next
  have below : ∀ earlier ∈ taken, earlier.snapshot < batch.snapshot := fun earlier member =>
    (List.pairwise_append.mp ascending).2.2 earlier member batch List.mem_cons_self
  have own : ∀ id ∈ (batch.graphFor settings.names).members,
      id ∈ Batch.ids (taken ++ batch :: rest) settings.names := fun id member =>
    List.mem_flatMap.mpr ⟨batch, by simp, member⟩
  rw [Batch.ids, List.flatMap_append, List.flatMap_cons, List.nodup_append, List.nodup_append]
    at distinct
  obtain ⟨-, ⟨ownDistinct, -, -⟩, elsewhere⟩ := distinct
  have fresh : ∀ graph ∈ queuedGraphs history,
      ∀ id ∈ (batch.graphFor settings.names).members, id ∉ graph.members := by
    intro graph listed id member holds
    rcases List.mem_append.mp (queued.mem_iff.mp listed) with theirs | ours
    · exact apart graph theirs id holds (own id member)
    · obtain ⟨earlier, isTaken, rfl⟩ := List.mem_map.mp ours
      exact elsewhere id (List.mem_flatMap.mpr ⟨earlier, isTaken, holds⟩) id
        (List.mem_append_left _ member) rfl
  rw [Pipeline.call_answer]
  rcases supplied.restore_cases s.clock ownDistinct fresh with ⟨⟨step, answered⟩, above⟩ |
    ⟨graph, listed, late, refused⟩
  · rw [answered]
    exact .inl ⟨rfl, fun graph member =>
      above graph (queued.mem_iff.mpr (List.mem_append_left _ member))⟩
  · rw [refused]
    rcases List.mem_append.mp (queued.mem_iff.mp listed) with theirs | ours
    · exact .inr ⟨graph, theirs, late, rfl⟩
    · obtain ⟨earlier, isTaken, rfl⟩ := List.mem_map.mp ours
      exact absurd (below earlier isTaken) (Nat.not_lt.mpr late)

variable [Worker ω]

/-- What can come of a launch with batches to take up. First what they leave open is retired, then
one is taken up after the other, as long as none is rejected; in between everybody else may act as
he likes. On record are the batches that have been taken up so far, the graphs that others have
queued, and all requests, the latest first. -/
inductive Builds (settings : LaunchSettings) (batches : List Batch) :
    Option (List Batch) → List Graph → List Entry → Watched σ ω → Prop where
  | launch (store : σ) (worker : ω) (now : Instant) (takes : Takes store) :
      Builds settings batches none [] [] ⟨.launch settings store worker now, now, now, now⟩
  | clock {stage : Option (List Batch)} {foreign : List Graph} {history : List Entry}
      {s : Watched σ ω} (builds : Builds settings batches stage foreign history s)
      (now : Instant) : Builds settings batches stage foreign history { s with clock := now }
  | join {stage : Option (List Batch)} {foreign : List Graph} {history : List Entry}
      {s after : Watched σ ω} (builds : Builds settings batches stage foreign history s)
      {act : Act σ} (joins : s.Joins (Batch.ids batches settings.names) act)
      (acted : s.act? act = some after) :
      Builds settings batches stage (queuedGraphs (s.entriesOf act) ++ foreign)
        (s.entriesOf act ++ history) after
  | retire {foreign : List Graph} {history : List Entry} {s after : Watched σ ω}
      (builds : Builds settings batches none foreign history s)
      (acted : s.act? (.retireMissing batches) = some after) :
      Builds settings batches (some []) foreign history after
  | restore {taken rest : List Batch} {foreign : List Graph} {history : List Entry}
      {s after : Watched σ ω} {batch : Batch}
      (builds : Builds settings batches (some taken) foreign history s)
      (next : batches = taken ++ batch :: rest)
      (acted : s.act? (.call (.restore batch)) = some after)
      (through : (s.pipeline.call s.clock (.restore batch)).1 = .ok ()) :
      Builds settings batches (some (taken ++ [batch])) foreign
        (s.pipeline.entryFor s.clock (.restore batch) :: history) after

theorem Underway.join (underway : Underway settings batches taken foreign history s)
    {act : Act σ} (joins : s.Joins (Batch.ids batches settings.names) act)
    (acted : s.act? act = some after) :
    Underway settings batches taken (queuedGraphs (s.entriesOf act) ++ foreign)
      (s.entriesOf act ++ history) after := by
  obtain ⟨supplied, begun, queued, apart⟩ := underway
  have engine := engine_of_act supplied.traced.filed joins.isOpen acted
  unfold entriesOf
  cases asked : s.request? act with
  | none =>
    rw [asked] at engine
    exact ⟨engine ▸ supplied, begun, queued, apart⟩
  | some request =>
    rw [asked] at engine
    have brought : queuedGraphs [s.pipeline.entryFor s.clock request] =
        (s.pipeline.entryFor s.clock request).queued?.toList := by
      rw [Core.queuedGraphs_cons]
      exact List.append_nil _
    have grown := supplied.apply s.clock request
    change Underway settings batches taken (queuedGraphs [s.pipeline.entryFor s.clock request] ++ _)
      (s.pipeline.entryFor s.clock request :: history) after
    rw [brought]
    refine ⟨?_, begun, ?_, fun graph member => ?_⟩
    · rw [engine, Core.queuedGraphs_cons]
      exact grown
    · rw [Core.queuedGraphs_cons, List.append_assoc]
      exact queued.append_left _
    · rcases List.mem_append.mp member with own | earlier
      · have asks := Entry.queued?_request (Option.mem_toList.mp own)
        exact joins.fresh request asked graph asks
      · exact apart graph earlier

theorem Underway.restore {rest : List Batch}
    (underway : Underway settings batches taken foreign history s)
    (next : batches = taken ++ batch :: rest) (acted : s.act? (.call (.restore batch)) = some after)
    (through : (s.pipeline.call s.clock (.restore batch)).1 = .ok ()) :
    Underway settings batches (taken ++ [batch]) foreign
      (s.pipeline.entryFor s.clock (.restore batch) :: history) after := by
  obtain ⟨supplied, begun, queued, apart⟩ := underway
  have engine := engine_of_act supplied.traced.filed rfl acted
  have brought := Pipeline.queued?_restore through
  rw [supplied.named] at brought
  have grown : queuedGraphs (s.pipeline.entryFor s.clock (.restore batch) :: history) =
      batch.graphFor settings.names :: queuedGraphs history := by
    rw [Core.queuedGraphs_cons, brought]
    rfl
  refine ⟨?_, ⟨rest, by rw [next, List.append_assoc, List.singleton_append]⟩, ?_, apart⟩
  · rw [engine, Core.queuedGraphs_cons]
    exact supplied.apply s.clock (.restore batch)
  · rw [grown, List.map_append, ← List.append_assoc]
    exact (queued.cons _).trans (List.perm_append_singleton _ _).symm

theorem Builds.underway {stage : Option (List Batch)}
    (builds : Builds settings batches stage foreign history s) :
    Underway settings batches (stage.getD []) foreign history s := by
  induction builds with
  | launch store worker now takes => exact underway_launch batches takes worker now
  | clock builds now ih => exact ⟨ih.supplied, ih.begun, ih.queued, ih.apart⟩
  | join builds joins acted ih => exact ih.join joins acted
  | retire builds acted ih =>
    cases acted
    exact ⟨ih.supplied.retireMissing batches, ih.begun, ih.queued, ih.apart⟩
  | restore builds next acted through ih => exact ih.restore next acted through

/-- Callers finish their deliveries. -/
theorem Builds.flush {stage : Option (List Batch)}
    (builds : Builds settings batches stage foreign history s) :
    ∃ after : Watched σ ω, Builds settings batches stage foreign history after ∧
      after.pipeline = s.pipeline.flush s.clock ∧ after.clock = s.clock := by
  unfold Pipeline.flush
  generalize s.pipeline.deliveries.foldl (· + ·.size) 0 = count
  induction count generalizing s with
  | zero => exact ⟨s, builds, rfl, rfl⟩
  | succ count ih =>
    rw [Pipeline.makeMoves]
    cases made : s.pipeline.move? s.clock (.deliver 0) with
    | none => exact ⟨s, builds, by simp [made], rfl⟩
    | some pipeline =>
      have acted : s.act? (.move (.deliver 0)) = some _ := congrArg (Option.map _) made
      have joins : s.Joins (Batch.ids batches settings.names) (.move (.deliver 0)) :=
        ⟨rfl, fun request asked => by cases asked⟩
      obtain ⟨after, delivered, same, clock⟩ := ih (builds.join joins acted)
      exact ⟨after, delivered, by simpa [made] using same, clock⟩

/-- As long as nobody else queues anything the loop goes through. -/
theorem Builds.restoreEach {left : List Batch}
    (builds : Builds settings batches (some taken) [] history s)
    (ascending : batches.Pairwise (·.snapshot < ·.snapshot))
    (distinct : (Batch.ids batches settings.names).Nodup) (split : batches = taken ++ left) :
    (s.pipeline.restoreEach s.clock left).1 = .ok () ∧
      ∃ (history : List Entry) (after : Watched σ ω),
        Builds settings batches (some batches) [] history after ∧
        after.pipeline = (s.pipeline.restoreEach s.clock left).2 := by
  induction left generalizing s taken history with
  | nil =>
    rw [List.append_nil] at split
    subst split
    exact ⟨rfl, history, s, builds, rfl⟩
  | cons batch rest ih =>
    have through := ((builds.underway.restore_cases ascending distinct split).resolve_right
      fun ⟨_, member, _⟩ => List.not_mem_nil member).1
    obtain ⟨next, flushed, same, clock⟩ := (builds.restore split rfl through).flush
    have onward := ih flushed (by rw [split, List.append_assoc, List.singleton_append])
    change next.pipeline =
      (s.pipeline.call s.clock (.restore batch)).2.flush s.clock at same
    change next.clock = s.clock at clock
    rw [clock, same] at onward
    have made : s.pipeline.restoreEach s.clock (batch :: rest) =
        ((s.pipeline.call s.clock (.restore batch)).2.flush s.clock).restoreEach s.clock rest := by
      simp only [Pipeline.restoreEach, Pipeline.request, through]
    rw [made]
    exact onward

/-- A pipeline that is launched and left alone takes up everything, and the loop as it runs then is
one of the interleavings. -/
theorem restore_undisturbed {store : σ} (takes : Takes store)
    (ascending : batches.Pairwise (·.snapshot < ·.snapshot))
    (distinct : (Batch.ids batches settings.names).Nodup) (worker : ω) (now : Instant) :
    let restored := (Pipeline.launch settings store worker now).restore now batches
    restored.1 = .ok () ∧ ∃ (history : List Entry) (after : Watched σ ω),
      Builds settings batches (some batches) [] history after ∧ after.pipeline = restored.2 := by
  have launched : Builds settings batches none [] []
      ⟨.launch settings store worker now, now, now, now⟩ := .launch store worker now takes
  exact (launched.retire rfl).restoreEach ascending distinct rfl

/-- A batch is taken up if and only if nothing has been queued in the meantime that is as late, and
is rejected for no other reason. Of the operations of the batches those have been queued whose batch
has been taken up, once each, and no other. -/
theorem restored_iff_nothing_later (ascending : batches.Pairwise (·.snapshot < ·.snapshot))
    (distinct : (Batch.ids batches settings.names).Nodup)
    (builds : Builds settings batches (some taken) foreign history s) :
    (∀ batch rest, batches = taken ++ batch :: rest →
      ((s.pipeline.call s.clock (.restore batch)).1 = .ok () ↔
        ∀ graph ∈ foreign, graph.snapshot < batch.snapshot) ∧
      ∀ error, (s.pipeline.call s.clock (.restore batch)).1 = .error error →
        ∃ graph ∈ foreign, error = .orderingViolation batch.snapshot graph.snapshot) ∧
    ∀ id ∈ Batch.ids batches settings.names, (everQueued history).count id =
      if id ∈ Batch.ids taken settings.names then 1 else 0 := by
  have underway := builds.underway
  refine ⟨fun batch rest next => ?_, fun id member => ?_⟩
  · rcases underway.restore_cases ascending distinct next with ⟨through, below⟩ |
      ⟨graph, member, late, refused⟩
    · rw [through]
      exact ⟨iff_of_true rfl below, nofun⟩
    · rw [refused]
      refine ⟨iff_of_false nofun fun below => ?_, fun error same => ?_⟩
      · exact absurd (below graph member) (Nat.not_lt.mpr late)
      · cases same
        exact ⟨graph, member, rfl⟩
  · have foreignNone : id ∉ foreign.flatMap (·.members) := by
      intro theirs
      obtain ⟨graph, listed, holds⟩ := List.mem_flatMap.mp theirs
      exact underway.apart graph listed id holds member
    have once : (Batch.ids taken settings.names).Nodup := by
      obtain ⟨rest, rfl⟩ := underway.begun
      rw [Batch.ids, List.flatMap_append] at distinct
      exact (List.nodup_append.mp distinct).1
    rw [underway.everQueued.count_eq, List.count_append, List.count_eq_zero_of_not_mem foreignNone,
      Nat.zero_add]
    exact once.count

/-- What comes of some acts of others, with the graphs that they have queued by then. -/
def joinAll? (s : Watched σ ω) (reserved : List OperationId) (foreign : List Graph) :
    List (Act σ) → Option (List Graph × Watched σ ω)
  | [] => some (foreign, s)
  | act :: rest =>
    if s.Joins reserved act then
      (s.act? act).bind fun after =>
        joinAll? after reserved (queuedGraphs (s.entriesOf act) ++ foreign) rest
    else none

theorem Builds.joinAll {stage : Option (List Batch)} {found : List Graph}
    (builds : Builds settings batches stage foreign history s) {acts : List (Act σ)}
    (joined : s.joinAll? (Batch.ids batches settings.names) foreign acts = some (found, after)) :
    ∃ history, Builds settings batches stage found history after := by
  induction acts generalizing s foreign history with
  | nil =>
    cases joined
    exact ⟨history, builds⟩
  | cons act rest ih =>
    rw [joinAll?] at joined
    split at joined
    · rename_i joins
      obtain ⟨next, first, others⟩ := Option.bind_eq_some_iff.mp joined
      exact ih (builds.join joins first) others
    · cases joined

end Watched

/-- A worker that queues a commit of its own whenever it is handed an operation. -/
structure Committer where
  snapshot : Nat
  id : OperationId

instance : Worker Committer := ⟨fun w _ _ => (.call (.append w.snapshot [.new w.id] []), w)⟩

/-- What is left of a commit with one upload. -/
def uploadAt (snapshot : Nat) : Batch :=
  ⟨snapshot, [{ Operation.new (.ofNat snapshot) with pipeline := "uploads" }]⟩

/-- Two uploads are to be taken up. When the first is there it is started and handed to a worker,
who makes a commit at once. -/
def commitBetween (later : Batch) : Option (List Graph × Watched Memory Committer) :=
  let batches := [uploadAt 1, later]
  let launched : Watched Memory Committer :=
    ⟨.launch oneAtATime .empty ⟨5, .ofNat 9⟩ .first, .first, .first, .first⟩
  (launched.act? (.retireMissing batches)).bind fun ready =>
    (ready.act? (.call (.restore (uploadAt 1)))).bind fun begun =>
      begun.joinAll? (Batch.ids batches oneAtATime.names) [] [
        .move (.deliver 0), .move (.deliver 0), .move (.deliver 0), .move (.deliver 0),
        .move .dispatch, .move .dispatch]

theorem commitBetween_builds {later : Batch} {foreign : List Graph} {s : Watched Memory Committer}
    (ascending : [uploadAt 1, later].Pairwise (·.snapshot < ·.snapshot))
    (distinct : (Batch.ids [uploadAt 1, later] oneAtATime.names).Nodup)
    (reached : commitBetween later = some (foreign, s)) :
    ∃ history, Watched.Builds oneAtATime [uploadAt 1, later] (some [uploadAt 1]) foreign history
      s := by
  unfold commitBetween at reached
  obtain ⟨ready, retired, rest⟩ := Option.bind_eq_some_iff.mp reached
  obtain ⟨begun, restored, joined⟩ := Option.bind_eq_some_iff.mp rest
  have takes : Takes Memory.empty := Memory.takes Memory.indexed_empty rfl
  have launched : Watched.Builds oneAtATime [uploadAt 1, later] none [] []
      ⟨.launch oneAtATime Memory.empty (⟨5, .ofNat 9⟩ : Committer) .first, .first, .first, .first⟩ :=
    .launch _ _ _ takes
  have builds := launched.retire retired
  -- Nobody has queued anything yet, so the first batch is taken up.
  have through := (builds.underway.restore_cases ascending distinct rfl).resolve_right
    fun ⟨_, member, _⟩ => List.not_mem_nil member
  exact (builds.restore rfl restored through.1).joinAll joined

/-- The worker's commit comes between, so the second batch is rejected. -/
theorem commit_between_bars_batch : ∃ history, ∃ s : Watched Memory Committer,
    let batches := [uploadAt 1, uploadAt 3]
    batches.Pairwise (·.snapshot < ·.snapshot) ∧ (Batch.ids batches oneAtATime.names).Nodup ∧
      s.Builds oneAtATime batches (some [uploadAt 1]) [⟨5, [.ofNat 9]⟩] history ∧
      s.pipeline.deliveries.length = 0 ∧
      (s.pipeline.call s.clock (.restore (uploadAt 3))).1 = .error (.orderingViolation 3 5) := by
  have ascending : [uploadAt 1, uploadAt 3].Pairwise (·.snapshot < ·.snapshot) := by decide
  have distinct : (Batch.ids [uploadAt 1, uploadAt 3] oneAtATime.names).Nodup := by decide +kernel
  have computed : (commitBetween (uploadAt 3)).any (fun (foreign, s) =>
      foreign = [⟨5, [.ofNat 9]⟩] ∧ s.pipeline.deliveries.length = 0) = true := by decide +kernel
  obtain ⟨⟨foreign, s⟩, reached, facts⟩ := (Option.any_eq_true _ _).mp computed
  obtain ⟨rfl, settled⟩ := of_decide_eq_true facts
  obtain ⟨history, builds⟩ := commitBetween_builds ascending distinct reached
  refine ⟨history, s, ascending, distinct, builds, settled, ?_⟩
  rcases builds.underway.restore_cases ascending distinct rfl with ⟨-, below⟩ |
    ⟨graph, member, -, refused⟩
  · exact absurd (below _ List.mem_cons_self) (by decide)
  · cases List.mem_singleton.mp member
    exact refused

/-- If the second batch is above the worker's commit, it is taken up. -/
theorem later_batch_taken_up : ∃ history, ∃ s : Watched Memory Committer,
    let batches := [uploadAt 1, uploadAt 10]
    batches.Pairwise (·.snapshot < ·.snapshot) ∧ (Batch.ids batches oneAtATime.names).Nodup ∧
      s.Builds oneAtATime batches (some [uploadAt 1]) [⟨5, [.ofNat 9]⟩] history ∧
      (s.pipeline.call s.clock (.restore (uploadAt 10))).1 = .ok () ∧
      (everQueued history).count (.ofNat 1) = 1 ∧ (everQueued history).count (.ofNat 10) = 0 := by
  have ascending : [uploadAt 1, uploadAt 10].Pairwise (·.snapshot < ·.snapshot) := by decide
  have distinct : (Batch.ids [uploadAt 1, uploadAt 10] oneAtATime.names).Nodup := by decide +kernel
  have computed : (commitBetween (uploadAt 10)).any (fun (foreign, _) =>
      foreign = [⟨5, [.ofNat 9]⟩]) = true := by decide +kernel
  obtain ⟨⟨foreign, s⟩, reached, facts⟩ := (Option.any_eq_true _ _).mp computed
  obtain rfl := of_decide_eq_true facts
  obtain ⟨history, builds⟩ := commitBetween_builds ascending distinct reached
  obtain ⟨restored, queued⟩ := Watched.restored_iff_nothing_later ascending distinct builds
  refine ⟨history, s, ascending, distinct, builds, ?_, ?_, ?_⟩
  · refine (restored (uploadAt 10) [] rfl).1.mpr fun graph member => ?_
    cases List.mem_singleton.mp member
    decide
  · rw [queued (.ofNat 1) (by decide +kernel), if_pos (by decide +kernel)]
  · rw [queued (.ofNat 10) (by decide +kernel), if_neg (by decide +kernel)]

end CommitPipeline
