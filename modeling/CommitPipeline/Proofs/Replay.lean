import CommitPipeline.Proofs.DispatchOrder

/-! Runs in which a pipeline takes up the batches of a source, one after the other, and is driven
from outside meanwhile. Whatever such a run starts comes from one of the batches. Its dependencies
have been finalized by then, unless graphs run one at a time and a dependency comes with a later
batch than the operation: nothing waits for those. -/
namespace CommitPipeline

/-- The graph of a batch, as the owner of some names takes it up. -/
def Batch.graphFor (batch : Batch) (names : Names) : Graph :=
  ⟨batch.snapshot, (batch.operations.filter fun op => names.owns op.pipeline).map (·.id)⟩

/-- Requests that bring no work. -/
def Request.Drives : Request → Prop
  | .append .. | .restore _ => False
  | _ => True

/-- The calls of a replay, each with its answer and with the batches that are to come before and
after it. After a batch that is rejected none is taken up any more. -/
inductive Replay.Move (batches : List Batch) :
    List Batch → Call → Except Error Step → List Batch → Prop where
  | retire (left : List Batch) (answer : Except Error Step) :
      Move batches left (.retireMissing batches) answer left
  | taken (now : Instant) (batch : Batch) (rest : List Batch) (step : Step) :
      Move batches (batch :: rest) (.request now (.restore batch)) (.ok step) rest
  | refused (now : Instant) (batch : Batch) (rest : List Batch) (error : Error) :
      Move batches (batch :: rest) (.request now (.restore batch)) (.error error) []
  | drive (now : Instant) {request : Request} (drives : request.Drives) (left : List Batch)
      (answer : Except Error Step) : Move batches left (.request now request) answer left

/-- The replays of some batches, each with those that are still to come. Between two calls the store
may become any other. -/
inductive Replay {σ : Type} [OperationStore σ] (names : Names) (algorithm : Algorithm)
    (batches : List Batch) : List Batch → List Entry → Engine σ → Prop where
  | launch (store : σ) : Replay names algorithm batches batches [] ⟨.new names algorithm, store⟩
  | call {left after : List Batch} {history : List Entry} {e : Engine σ}
      (replay : Replay names algorithm batches left history e) (store : σ) {call : Call}
      (move : Replay.Move batches left call (Engine.call ⟨e.core, store⟩ call).1 after) :
      Replay names algorithm batches after
        (⟨e.core, call, (Engine.call ⟨e.core, store⟩ call).1⟩ :: history)
        (Engine.call ⟨e.core, store⟩ call).2

/-- What is asked of a pipeline next in a replay. -/
inductive Replay.Turn where
  | retire
  | restore (now : Instant)
  | drive (now : Instant) (request : Request)

/-- The replay that takes some turns, given with the latest first, while nobody else touches the
store. It comes with the batches that are still to come. -/
def replayOf {σ : Type} [OperationStore σ] (names : Names) (algorithm : Algorithm) (store : σ)
    (batches : List Batch) : List Replay.Turn → List Batch × List Entry × Engine σ
  | [] => (batches, [], ⟨.new names algorithm, store⟩)
  | turn :: earlier =>
    let (left, history, e) := replayOf names algorithm store batches earlier
    let made (call : Call) (left : List Batch) :=
      (left, (⟨e.core, call, (e.call call).1⟩ : Entry) :: history, (e.call call).2)
    match turn, left with
    | .retire, _ => made (.retireMissing batches) left
    | .drive now request, _ => made (.request now request) left
    | .restore _, [] => (left, history, e)
    | .restore now, batch :: rest =>
      made (.request now (.restore batch))
        (if (e.apply now (.restore batch)).1.isOk then rest else [])

namespace Core
variable {c after : Core} {id : OperationId} {op : Operation} {names : Names} {now : Instant}
  {batches done : List Batch} {batch : Batch} {history : List Entry} {entry : Entry}
  {request : Request} {change : Change} {operations : List Operation}

/-- What a pipeline has of the batches that it took up. Every live operation comes from one of
them, with at least the dependencies that it has there. -/
structure Replays (c : Core) (names : Names) (done : List Batch) (history : List Entry) :
    Prop where
  named : c.names = names
  taken : ∀ batch ∈ done, ∃ entry ∈ history, entry.queued? = some (batch.graphFor names)
  graphs : ∀ graph ∈ c.queue.graphs, ∃ batch ∈ done, graph = batch.graphFor names
  table : ∀ (id : OperationId) (op : Operation), c.table[id]? = some op →
    ∃ batch ∈ done, ∃ given ∈ batch.operations, names.owns given.pipeline = true ∧ given.id = id ∧
      op.snapshot = batch.snapshot ∧ ∀ dependency ∈ given.dependencies, dependency ∈ op.dependencies

theorem replays_new (names : Names) (algorithm : Algorithm) :
    (new names algorithm).Replays names [] [] where
  named := rfl
  taken := List.forall_mem_nil _
  graphs := List.forall_mem_nil _
  table id op held := by simp [new] at held

/-- A pipeline keeps what it took up as long as its graphs go at most and its operations go on. -/
theorem Replays.of_origin (replays : c.Replays names done history) (named : after.names = c.names)
    (graphs : ∀ graph ∈ after.queue.graphs, graph ∈ c.queue.graphs)
    (origin : ∀ (id : OperationId) (op : Operation), after.table[id]? = some op →
      ∃ earlier, c.table[id]? = some earlier ∧ earlier.Continues op) :
    after.Replays names done history where
  named := named.trans replays.named
  taken := replays.taken
  graphs graph queued := replays.graphs graph (graphs graph queued)
  table id op held := by
    obtain ⟨earlier, found, continues⟩ := origin id op held
    obtain ⟨batch, member, given, listed, own, same, snapshot, depends⟩ :=
      replays.table id earlier found
    exact ⟨batch, member, given, listed, own, same, continues.snapshot.trans snapshot,
      fun dependency known => continues.dependencies dependency (depends dependency known)⟩

theorem Replays.note (replays : c.Replays names done history) (entry : Entry) :
    c.Replays names done (entry :: history) where
  named := replays.named
  taken batch member := by
    obtain ⟨earlier, listed, queued⟩ := replays.taken batch member
    exact ⟨earlier, List.mem_cons_of_mem entry listed, queued⟩
  graphs := replays.graphs
  table := replays.table

theorem Replays.settle (replays : c.Replays names done history) (filed : c.Filed)
    (dispatches : c.prune.2.Dispatches now operations) :
    (c.settled operations).Replays names done history := by
  refine replays.of_origin (settled_names c operations) (fun graph queued => ?_) ?_
  · exact (mem_settled_graphs.mp queued).1
  · intro id op held
    obtain ⟨earlier, found, continues, -⟩ := settled_origin filed dispatches held
    exact ⟨earlier, found, continues⟩

theorem Replays.driven (replays : c.Replays names done history) (drives : request.Drives)
    (admitted : c.Admits now request change) : change.core.Replays names done history := by
  rcases admitted.cases_batch with ⟨queue, _, _, _, -, answers, -⟩ | ⟨queue, continues, -⟩
  · have brings := answers.graph
    cases request with
    | append | restore => exact drives.elim
    | _ => cases brings
  · refine replays.of_origin admitted.names (fun graph queued => by rwa [← queue]) ?_
    exact fun id op held => continues.backward held

/-- A batch is taken up. -/
theorem Replays.take (replays : c.Replays names done history) (filed : c.Filed)
    (admitted : c.Admits now (.restore batch) change) (step : Step) :
    change.core.Replays names (done ++ [batch])
      (⟨c, .request now (.restore batch), .ok step⟩ :: history) := by
  cases admitted with
  | @restore _ queue pushed distinct fresh =>
    have fits := restore_fits pushed distinct fresh
    have ids : ((c.ownOperations batch).map (c.stamp batch.snapshot)).map (·.id) =
        (c.ownOperations batch).map (·.id) := by
      rw [List.map_map]
      rfl
    refine ⟨replays.named, ?taken, ?graphs, ?table⟩
    case taken =>
      intro other member
      rcases List.mem_append.mp member with earlier | new
      · exact (replays.note _).taken other earlier
      · obtain rfl := List.mem_singleton.mp new
        refine ⟨_, List.mem_cons_self, ?_⟩
        change some (other.graphFor c.names) = _
        rw [replays.named]
    case graphs =>
      intro graph queued
      rcases mem_batch_graphs fits queued with old | rfl
      · obtain ⟨other, member, same⟩ := replays.graphs graph old
        exact ⟨other, List.mem_append_left _ member, same⟩
      · refine ⟨batch, List.mem_append_right _ List.mem_cons_self, ?_⟩
        rw [ids, Batch.graphFor, ← replays.named]
        rfl
    case table =>
      intro id op held
      rcases batch_origin filed fits held with ⟨member, named⟩ | ⟨-, earlier, found, same⟩
      · obtain ⟨given, own, rfl⟩ := List.mem_map.mp member
        obtain ⟨listed, owned⟩ := List.mem_filter.mp own
        exact ⟨batch, List.mem_append_right _ List.mem_cons_self, given, listed,
          replays.named ▸ owned, named, rfl, fun _ known => known⟩
      · obtain ⟨other, member, rest⟩ := replays.table id earlier found
        rw [same]
        exact ⟨other, List.mem_append_left _ member, rest⟩

theorem Replays.restored {step : Step} (replays : c.Replays names done history) (filed : c.Filed)
    (answers : c.Answers now (.restore batch) (.ok step) after) :
    after.Replays names (done ++ [batch])
      (⟨c, .request now (.restore batch), .ok step⟩ :: history) := by
  cases answers with
  | idle idle => cases (idle_quiet idle).1
  | accepted admitted dispatches =>
    exact (replays.take filed admitted _).settle (filed.admitted admitted) dispatches

theorem Replays.refused {error : Error} (replays : c.Replays names done history)
    (answers : c.Answers now request (.error error) after) : after.Replays names done history := by
  cases answers with
  | rejected => exact replays

theorem Replays.answered {answer : Except Error Step} (replays : c.Replays names done history)
    (filed : c.Filed) (drives : request.Drives) (answers : c.Answers now request answer after) :
    after.Replays names done history := by
  cases answers with
  | rejected | idle => exact replays
  | accepted admitted dispatches =>
    exact (replays.driven drives admitted).settle (filed.admitted admitted) dispatches

end Core

namespace Batch
variable {batches done left : List Batch} {batch other : Batch}

/-- Batches that wait for nothing outside of them. -/
def Closed (batches : List Batch) (names : Names) : Prop :=
  ∀ batch ∈ batches, ∀ op ∈ batch.operations, ∀ dependency ∈ op.dependencies,
    ∃ other ∈ batches, dependency ∈ (other.graphFor names).members

theorem eq_of_snapshot_eq (ascending : batches.Pairwise (·.snapshot < ·.snapshot))
    (member : batch ∈ batches) (otherMember : other ∈ batches)
    (same : batch.snapshot = other.snapshot) : batch = other := by
  have distinct : (batches.map (·.snapshot)).Nodup :=
    List.pairwise_map.mpr (ascending.imp Nat.ne_of_lt)
  exact List.inj_on_of_nodup_map distinct member otherMember same

/-- Whoever has taken up a batch has taken up all those with lower snapshots. -/
theorem mem_of_lower (ascending : batches.Pairwise (·.snapshot < ·.snapshot))
    (isPrefix : (done ++ left).IsPrefix batches) (isDone : batch ∈ done)
    (member : other ∈ batches) (lower : other.snapshot < batch.snapshot) : other ∈ done := by
  obtain ⟨rest, rfl⟩ := isPrefix
  rw [List.append_assoc] at ascending member
  rcases List.mem_append.mp member with earlier | later
  · exact earlier
  · have higher := (List.pairwise_append.mp ascending).2.2 batch isDone other later
    omega

end Batch

namespace Replay
variable {σ : Type} [OperationStore σ] {names : Names} {algorithm : Algorithm}
  {batches left : List Batch} {history : List Entry} {e : Engine σ}

theorem run (replay : Replay names algorithm batches left history e) :
    Run names algorithm history e := by
  induction replay with
  | launch store => exact .launch store
  | call _ store _ ih => exact ih.call store _

/-- The batches that were taken up are the first ones. -/
theorem replays (replay : Replay names algorithm batches left history e) :
    ∃ done, (done ++ left).IsPrefix batches ∧ e.core.Replays names done history := by
  induction replay with
  | launch store => exact ⟨[], List.prefix_rfl, Core.replays_new names algorithm⟩
  | @call left after history e earlier store call move ih =>
    obtain ⟨done, isPrefix, replays⟩ := ih
    have filed := earlier.run.sound.filed
    generalize answered : (Engine.call ⟨e.core, store⟩ call).1 = answer at move ⊢
    cases move with
    | retire =>
      refine ⟨done, isPrefix, Core.Replays.note ?_ _⟩
      exact replays.of_origin rfl (fun _ queued => queued) fun id op held => ⟨op, held, .refl op⟩
    | taken now batch rest step =>
      have answers := Engine.apply_answers ⟨e.core, store⟩ now (.restore batch) filed
      change (Engine.apply ⟨e.core, store⟩ now (.restore batch)).1 = _ at answered
      rw [answered] at answers
      exact ⟨done ++ [batch], by rwa [List.append_cons] at isPrefix, replays.restored filed answers⟩
    | refused now batch rest error =>
      have answers := Engine.apply_answers ⟨e.core, store⟩ now (.restore batch) filed
      change (Engine.apply ⟨e.core, store⟩ now (.restore batch)).1 = _ at answered
      rw [answered] at answers
      refine ⟨done, ?_, (replays.refused answers).note _⟩
      rw [List.append_nil]
      exact (List.prefix_append done _).trans isPrefix
    | @drive now request drives =>
      have answers := Engine.apply_answers ⟨e.core, store⟩ now request filed
      exact ⟨done, isPrefix, (replays.answered filed drives answers).note _⟩

/-- Where batches wait for nothing outside of them, nothing is taken for finished earlier. -/
theorem not_retiredIn (replay : Replay names algorithm batches left history e)
    (closed : Batch.Closed batches names) : ∀ batch ∈ batches, ∀ op ∈ batch.operations,
      ∀ dependency ∈ op.dependencies, ¬ RetiredIn history dependency := by
  intro batch member op listed dependency depends
  obtain ⟨other, otherMember, inside⟩ := closed batch member op listed dependency depends
  obtain ⟨twin, own, named⟩ := List.mem_map.mp inside
  induction replay with
  | launch store => simp [RetiredIn]
  | @call left after history e earlier store call move ih =>
    rw [retiredIn_cons, not_or]
    refine ⟨?_, ih⟩
    rintro ⟨given, isRetire, -, unrestored, -⟩
    obtain ⟨_, _, taken⟩ := earlier.replays
    generalize (Engine.call ⟨e.core, store⟩ call).1 = answer at move
    cases move with
    | retire =>
      cases isRetire
      have own : twin ∈ e.core.ownOperations other := by rwa [Core.ownOperations, taken.named]
      exact unrestored other otherMember twin own named
    | taken | refused | drive => cases isRetire

/-- A dependency of a batch is missed by an operation of it: graphs run one at a time, and the
dependency comes with a later batch. -/
def Overlooks (algorithm : Algorithm) (names : Names) (batches : List Batch) (batch : Batch)
    (dependency : OperationId) : Prop :=
  algorithm = .commitGraph ∧ ∃ later ∈ batches, batch.snapshot < later.snapshot ∧
    dependency ∈ (later.graphFor names).members

/-- Whatever a replay starts comes from one of the batches, and its dependencies there have been
finalized, but for those that are overlooked. -/
theorem dispatched {entry : Entry} {op : Operation}
    (replay : Replay names algorithm batches left (entry :: history) e)
    (ascending : batches.Pairwise (·.snapshot < ·.snapshot))
    (closed : Batch.Closed batches names) (started : op ∈ entry.dispatched) :
    ∃ batch ∈ batches, ∃ given ∈ batch.operations, given.id = op.id ∧
      ∀ dependency ∈ given.dependencies, FinalizedIn (entry :: history) dependency ∨
        Overlooks algorithm names batches batch dependency := by
  have sound := replay.run.sound
  obtain ⟨done, isPrefix, taken⟩ := replay.replays
  obtain ⟨c, now, operations, filed, algorithm_eq, dispatches, member, settled⟩ :=
    replay.run.dispatched started
  have live : e.core.table[op.id]? = some op := by
    rw [settled]
    exact Core.lookup_started dispatches filed.prune member
  obtain ⟨batch, isDone, given, listed, own, named, snapshot, depends⟩ := taken.table op.id op live
  have batchMember : batch ∈ batches := isPrefix.subset (List.mem_append_left left isDone)
  refine ⟨batch, batchMember, given, listed, named, fun dependency known => ?_⟩
  rw [settled] at sound
  cases algorithm with
  | flatGraph =>
    refine .inl ?_
    have unhindered := sound.starts_unhindered filed algorithm_eq dispatches member
    rcases unhindered.met dependency (depends dependency known) with ⟨other, held, final⟩ | gone
    · exact sound.recorded.final dependency other held final
    · exact gone.2.resolve_right
        (replay.not_retiredIn closed batch batchMember given listed dependency known)
  | commitGraph =>
    obtain ⟨graph, inTurn⟩ := sound.starts_in_turn filed algorithm_eq dispatches member
    obtain ⟨other, otherMember, inside⟩ := closed batch batchMember given listed dependency known
    rcases Nat.lt_trichotomy other.snapshot batch.snapshot with lower | same | higher
    · have isEarlier := Batch.mem_of_lower ascending isPrefix isDone otherMember lower
      obtain ⟨queuing, listed, queued⟩ := taken.taken other isEarlier
      obtain ⟨later, past, split⟩ := List.append_of_mem listed
      obtain ⟨final, member, found⟩ :=
        inTurn.earlier split queued (by rw [snapshot]; exact lower) dependency inside
      exact .inl ⟨final, by rw [split]; exact List.mem_append_left _ member, found⟩
    · have queued : graph ∈ e.core.queue.graphs := by
        rw [settled]
        exact List.mem_of_head? inTurn.oldest
      obtain ⟨home, homeDone, rfl⟩ := taken.graphs graph queued
      have homeMember : home ∈ batches := isPrefix.subset (List.mem_append_left left homeDone)
      have isHome : other = home := Batch.eq_of_snapshot_eq ascending otherMember homeMember
        (same.trans (snapshot.symm.trans inTurn.snapshot))
      obtain ⟨final, held, isFinal⟩ :=
        inTurn.own dependency (depends dependency known) (isHome ▸ inside)
      exact .inl (sound.recorded.final dependency final held isFinal)
    · exact .inr ⟨rfl, other, otherMember, higher, inside⟩

/-- Turns that bring no work of their own make up a replay. -/
theorem of_turns (names : Names) (algorithm : Algorithm) (store : σ) (batches : List Batch)
    (turns : List Turn) (drives : ∀ now request, .drive now request ∈ turns → request.Drives) :
    Replay names algorithm batches (replayOf names algorithm store batches turns).1
      (replayOf names algorithm store batches turns).2.1
      (replayOf names algorithm store batches turns).2.2 := by
  induction turns with
  | nil => exact .launch store
  | cons turn earlier ih =>
    have replay := ih fun now request member =>
      drives now request (List.mem_cons_of_mem turn member)
    rw [replayOf]
    generalize replayOf names algorithm store batches earlier = before at replay
    obtain ⟨left, history, e⟩ := before
    cases turn with
    | retire => exact replay.call e.store (.retire left _)
    | drive now request =>
      exact replay.call e.store (.drive now (drives now request List.mem_cons_self) left _)
    | restore now =>
      cases left with
      | nil => exact replay
      | cons batch rest =>
        have move : Move batches (batch :: rest) (.request now (.restore batch))
            (e.apply now (.restore batch)).1
            (if (e.apply now (.restore batch)).1.isOk then rest else []) := by
          cases (e.apply now (.restore batch)).1 with
          | ok step => exact .taken now batch rest step
          | error error => exact .refused now batch rest error
        exact replay.call e.store move

end Replay
end CommitPipeline
