import CommitPipeline.Proofs.AlikeStores
import CommitPipeline.Proofs.CrossCommitEdges

/-! Running graphs one at a time is running all of them at once with the complete dependencies
between the commits. Two pipelines are given the same calls, one of them with the order of the
commits spelled out, over stores that refuse the same writes. Each call keeps them in step: the
second is the first one with other dependencies, so it answers alike. -/
namespace CommitPipeline

/-- What a caller learns: the kind of the error, or the operations started and the events. -/
def told {κ : Type} (kind : Error → κ) (answer : Except Error Step) :
    Except κ (List OperationId × EventSet) :=
  (answer.map fun step => (step.dispatched.map (·.id), step.events)).mapError kind

section Twins
variable {σ τ κ : Type} [OperationStore σ] [OperationStore τ] {kind : Error → κ} {links : Links}
  {e : Engine σ} {f : Engine τ} {now : Instant}

/-- Two pipelines in step: the second has other dependencies, and the stores refuse the same
writes. -/
structure Engine.Twins (kind : Error → κ) (links : Links) (e : Engine σ) (f : Engine τ) : Prop where
  core : f.core = e.core.relink links
  alike : RefuseAlike kind e.store f.store

namespace Engine

/-- Both pipelines start the same operations if the same ones are offered. -/
theorem Twins.start (twins : Twins kind links e f) (ids : List OperationId) (free : Nat) :
    (f.start ids free).1 = (e.start ids free).1.map (·.relink links) ∧
      Twins kind links (e.start ids free).2 (f.start ids free).2 := by
  induction ids generalizing e f free with
  | nil =>
    rw [start, start]
    exact ⟨rfl, twins⟩
  | cons id rest ih =>
    cases free with
    | zero =>
      rw [start, start]
      exact ⟨rfl, twins⟩
    | succ free =>
      rw [start, start]
      obtain ⟨answered, alike⟩ := twins.alike.perform (.status id .active) (.status id .active) rfl
      generalize OperationStore.perform e.store (.status id .active) = left at answered alike ⊢
      generalize OperationStore.perform f.store (.status id .active) = right at answered alike ⊢
      obtain ⟨answer, one⟩ := left
      obtain ⟨twin, other⟩ := right
      have passedOver := ih (e := { e with store := one }) (f := { f with store := other })
        ⟨twins.core, alike⟩ (free + 1)
      cases answer with
      | error reason =>
        cases twin with
        | error reason => exact passedOver
        | ok done => cases answered
      | ok done =>
        cases twin with
        | error reason => cases answered
        | ok done =>
          have held : f.core.table[id]? = e.core.table[id]?.map (·.relink links) := by
            rw [twins.core]
            exact Table.lookup_relink
          simp only [held]
          cases e.core.table[id]? with
          | none => exact passedOver
          | some op =>
            have core : f.core.start { op.relink links with status := .active } =
                (e.core.start { op with status := .active }).relink links := by
              rw [twins.core]
              exact Core.start_relink { op with status := .active }
            obtain ⟨started, after⟩ := ih (e := ⟨e.core.start { op with status := .active }, one⟩)
              (f := ⟨f.core.start { op.relink links with status := .active }, other⟩)
              ⟨core, alike⟩ free
            exact ⟨congrArg (List.cons _) started, after⟩

/-- A pass starts the same operations if the same ones are ready. -/
theorem Twins.dispatch (twins : Twins kind links e f) (now : Instant)
    (ready : (e.core.relink links).ready now = e.core.ready now) :
    (f.dispatch now).1 = (e.dispatch now).1.map (·.relink links) ∧
      Twins kind links (e.dispatch now).2 (f.dispatch now).2 := by
  have slots : f.core.freeSlots = e.core.freeSlots := by
    rw [twins.core]
    rfl
  rw [Engine.dispatch, Engine.dispatch, slots, twins.core, ready]
  cases e.core.freeSlots with
  | zero => exact ⟨rfl, twins⟩
  | succ free => exact twins.start (e.core.ready now) (free + 1)

/-- The ends of two calls are alike if the same operations are ready once the drained graphs are
gone. -/
theorem Twins.finish (twins : Twins kind links e f) (now : Instant) (events : EventSet)
    (ready : (e.core.prune.2.relink links).ready now = e.core.prune.2.ready now) :
    (f.finish now events).1.dispatched = (e.finish now events).1.dispatched.map (·.relink links) ∧
      (f.finish now events).1.events = (e.finish now events).1.events ∧
      Twins kind links (e.finish now events).2 (f.finish now events).2 := by
  have pruned : Twins kind links { e with core := e.core.prune.2 }
      { f with core := f.core.prune.2 } := ⟨by rw [twins.core, Core.prune_relink], twins.alike⟩
  have gone : f.core.prune.1 = e.core.prune.1 := by rw [twins.core, Core.prune_relink]
  obtain ⟨started, after⟩ := pruned.dispatch now ready
  have noted := congrArg Core.noteActivity after.core
  rw [Core.noteActivity_relink] at noted
  simp only [Engine.finish, gone, noted, started, List.isEmpty_map, true_and]
  exact ⟨rfl, after.alike⟩

/-- The writes of two calls are refused alike. -/
theorem Twins.write (twins : Twins kind links e f) (write : Option Write) :
    (f.write (write.map (·.relink links))).1.mapError kind = (e.write write).1.mapError kind ∧
      Twins kind links (e.write write).2 (f.write (write.map (·.relink links))).2 := by
  cases write with
  | none => exact ⟨rfl, twins⟩
  | some write =>
    obtain ⟨answered, alike⟩ :=
      twins.alike.perform write (write.relink links) (Write.bare_relink links write).symm
    exact ⟨answered.symm, twins.core, alike⟩

variable {history : List Entry} {request : Request}

/-- A call that leaves a pipeline as it is leaves its twin as it is, too. -/
theorem Twins.rejected {error : Error} (twins : Twins kind links e f)
    (plain : request.isPlain = true) (earlier : List OperationId)
    (refused : e.core.changeFor now request = .error error) :
    e.apply now request = (.error error, e) ∧
      f.apply now (request.spelledOut earlier) = (.error error, f) := by
  obtain ⟨other, same⟩ := request.spelledOut_eq_relink earlier
  have refusedToo : f.core.changeFor now (request.spelledOut earlier) = .error error := by
    rw [same, twins.core]
    exact Core.changeFor_refused plain refused
  exact ⟨apply_error refused, apply_error refusedToo⟩

theorem Twins.idle (twins : Twins kind links e f) (plain : request.isPlain = true)
    (earlier : List OperationId) (idle : e.core.changeFor now request = .ok none) :
    e.apply now request = (.ok .empty, e) ∧
      f.apply now (request.spelledOut earlier) = (.ok .empty, f) := by
  have same : request.spelledOut earlier = request.relink links := by
    cases request with
    | append =>
      obtain ⟨_, -, done⟩ := except_bind_ok.mp idle
      cases done
    | restore | complete | skip | reset | forceActive | setHold | setLimit | suspend | resume
    | dispatch => rfl
  have idleToo : f.core.changeFor now (request.spelledOut earlier) = .ok none := by
    rw [same, twins.core, Core.changeFor_relink plain, idle]
    rfl
  exact ⟨apply_idle idle, apply_idle idleToo⟩

/-- A change is made in both pipelines, or the stores of both refuse it. -/
theorem Twins.changed {change : Change} {twin : Request} (twins : Twins kind links e f)
    (decided : e.core.changeFor now request = .ok (some change))
    (decidedToo : f.core.changeFor now twin = .ok (some (change.relink links)))
    (ready : ∀ step, (e.apply now request).1 = .ok step →
      (change.core.prune.2.relink links).ready now = change.core.prune.2.ready now) :
    told kind (f.apply now twin).1 = told kind (e.apply now request).1 ∧
      Twins kind links (e.apply now request).2 (f.apply now twin).2 := by
  obtain ⟨answered, wrote⟩ := twins.write change.write
  cases left : e.write change.write with
  | mk answer afterLeft =>
  cases right : f.write (change.write.map (·.relink links)) with
  | mk mirror afterRight =>
  rw [left, right] at answered wrote
  cases answer with
  | error reason =>
    cases mirror with
    | error other =>
      rw [apply_refused decided left, apply_refused decidedToo right]
      exact ⟨congrArg Except.error (Except.error.inj answered), wrote⟩
    | ok done => cases answered
  | ok done =>
    cases mirror with
    | error other => cases answered
    | ok done =>
      rw [apply_done decided left] at ready ⊢
      rw [apply_done decidedToo right]
      simp only [Change.relink]
      have changed : Twins kind links { afterLeft with core := change.core }
          { afterRight with core := change.core.relink links } := ⟨rfl, wrote.alike⟩
      obtain ⟨started, events, after⟩ := changed.finish now change.events (ready _ rfl)
      refine ⟨?_, after⟩
      simp only [told, Except.map, started, events, List.map_map]
      rfl

/-- One call keeps the pipelines in step, and tells the same. -/
theorem Twins.apply (twins : Twins kind (Links.ofCommits (queuedGraphs history)) e f)
    (chronicled : e.core.Chronicled history) (inOrder : e.core.algorithm = .commitGraph)
    (plain : request.isPlain = true)
    (distinct : (everQueued
      (⟨e.core, .request now request, (e.apply now request).1⟩ :: history)).Nodup) :
    told kind (f.apply now (request.spelledOut (everQueued history))).1 =
        told kind (e.apply now request).1 ∧
      Twins kind
        (Links.ofCommits (queuedGraphs
          (⟨e.core, .request now request, (e.apply now request).1⟩ :: history)))
        (e.apply now request).2 (f.apply now (request.spelledOut (everQueued history))).2 := by
  cases decided : e.core.changeFor now request with
  | error error =>
    obtain ⟨left, right⟩ := twins.rejected plain (everQueued history) decided
    rw [left, right]
    exact ⟨rfl, twins⟩
  | ok found =>
    cases found with
    | none =>
      obtain ⟨left, right⟩ := twins.idle plain (everQueued history) decided
      rw [left, right, Core.queuedGraphs_idle decided]
      exact ⟨rfl, twins⟩
    | some change =>
      have admitted := Core.admits_of_changeFor decided
      let links := Links.ofCommits
        (queuedGraphs (⟨e.core, .request now request, .ok .empty⟩ :: history))
      have core : f.core = e.core.relink links :=
        twins.core.trans (chronicled.relink_accepted admitted .empty)
      have decidedToo : f.core.changeFor now (request.spelledOut (everQueued history)) =
          .ok (some (change.relink links)) := by
        rw [chronicled.spelledOut_accepted admitted .empty, core, Core.changeFor_relink plain,
          decided]
        rfl
      have step : Twins kind links e f := ⟨core, twins.alike⟩
      obtain ⟨same, after⟩ := step.changed decided decidedToo fun step accepted => by
        rw [accepted] at distinct
        exact chronicled.ready_pruned inOrder admitted step distinct
      refine ⟨same, ?_⟩
      cases answered : (e.apply now request).1 with
      | ok step => exact after
      | error error =>
        have unchanged : (e.apply now request).2.core = e.core := by
          have answers := e.apply_answers now request chronicled.sound.filed
          rw [answered] at answers
          generalize (e.apply now request).2.core = left at answers
          cases answers
          rfl
        refine ⟨after.core.trans ?_, after.alike⟩
        rw [unchanged]
        exact (chronicled.relink_accepted admitted .empty).symm

end Engine
end Twins

/-- The runs of two new pipelines that are given the same calls. In the first one graphs run one at
a time; in the second all are considered at once, and every commit comes with the order of the
commits spelled out. Between two calls the stores may become any others that refuse alike. -/
inductive TwinRuns {σ τ κ : Type} [OperationStore σ] [OperationStore τ] (kind : Error → κ)
    (names : Names) : List Entry → List Entry → Engine σ → Engine τ → Prop where
  | launch (one : σ) (other : τ) (alike : RefuseAlike kind one other) :
      TwinRuns kind names [] [] ⟨.new names .commitGraph, one⟩ ⟨.new names .flatGraph, other⟩
  | call {history mirrored : List Entry} {e : Engine σ} {f : Engine τ}
      (runs : TwinRuns kind names history mirrored e f) (now : Instant) (request : Request)
      (plain : request.isPlain = true) :
      TwinRuns kind names
        (⟨e.core, .request now request, (e.apply now request).1⟩ :: history)
        (⟨f.core, .request now (request.spelledOut (everQueued history)),
          (f.apply now (request.spelledOut (everQueued history))).1⟩ :: mirrored)
        (e.apply now request).2 (f.apply now (request.spelledOut (everQueued history))).2
  | restock {history mirrored : List Entry} {e : Engine σ} {f : Engine τ}
      (runs : TwinRuns kind names history mirrored e f) (one : σ) (other : τ)
      (alike : RefuseAlike kind one other) :
      TwinRuns kind names history mirrored { e with store := one } { f with store := other }

/-- Twin runs in which some requests are made, given with the latest first. -/
def twinRunsOf {σ τ : Type} [OperationStore σ] [OperationStore τ] (names : Names) (one : σ)
    (other : τ) : List (Instant × Request) → (List Entry × Engine σ) × (List Entry × Engine τ)
  | [] => (([], ⟨.new names .commitGraph, one⟩), ([], ⟨.new names .flatGraph, other⟩))
  | (now, request) :: rest =>
    let ((history, e), (mirrored, f)) := twinRunsOf names one other rest
    let twin := request.spelledOut (everQueued history)
    let (answer, after) := e.apply now request
    let (mirror, twinAfter) := f.apply now twin
    ((⟨e.core, .request now request, answer⟩ :: history, after),
      (⟨f.core, .request now twin, mirror⟩ :: mirrored, twinAfter))

section TwinRuns
variable {σ τ κ : Type} [OperationStore σ] [OperationStore τ] {kind : Error → κ} {names : Names}
  {history mirrored : List Entry} {e : Engine σ} {f : Engine τ}

/-- What no call has queued twice was not queued twice before the latest call. -/
theorem everQueued_nodup_of_cons {entry : Entry}
    (distinct : (everQueued (entry :: history)).Nodup) : (everQueued history).Nodup := by
  change ((queuedGraphs (entry :: history)).flatMap (·.members)).Nodup at distinct
  rw [Core.queuedGraphs_cons, List.flatMap_append] at distinct
  exact distinct.of_append_right

/-- The pipelines stay in step, the first one stays true to its history, and all answers tell the
same. -/
theorem TwinRuns.twins (runs : TwinRuns kind names history mirrored e f)
    (distinct : (everQueued history).Nodup) :
    Engine.Twins kind (Links.ofCommits (queuedGraphs history)) e f ∧
      e.core.Chronicled history ∧ e.core.algorithm = .commitGraph ∧
      mirrored.map (told kind ·.answer) = history.map (told kind ·.answer) := by
  induction runs with
  | launch one other alike =>
    exact ⟨⟨rfl, alike⟩, Core.chronicled_new names .commitGraph, rfl, rfl⟩
  | @call history mirrored e f runs now request plain ih =>
    obtain ⟨twins, chronicled, inOrder, same⟩ := ih (everQueued_nodup_of_cons distinct)
    obtain ⟨told, after⟩ := twins.apply chronicled inOrder plain distinct
    have answers := e.apply_answers now request chronicled.sound.filed
    exact ⟨after, chronicled.answered answers, answers.algorithm.trans inOrder,
      congrArg₂ List.cons told same⟩
  | restock runs one other alike ih =>
    obtain ⟨twins, kept⟩ := ih distinct
    exact ⟨⟨twins.core, alike⟩, kept⟩

theorem TwinRuns.of_requests (names : Names) (one : σ) (other : τ)
    (alike : RefuseAlike kind one other) (requests : List (Instant × Request))
    (plain : ∀ given ∈ requests, given.2.isPlain = true) :
    let runs := twinRunsOf names one other requests
    TwinRuns kind names runs.1.1 runs.2.1 runs.1.2 runs.2.2 := by
  induction requests with
  | nil => exact .launch one other alike
  | cons given rest ih =>
    obtain ⟨now, request⟩ := given
    exact (ih fun given member => plain given (List.mem_cons_of_mem _ member)).call now request
      (plain _ List.mem_cons_self)

/-- Running graphs one at a time is considering all of them with the complete dependencies between
the commits. As long as no commit brings an identifier a second time, the two pipelines answer every
call alike, and after each they have the same queue, statuses, holds and active set, and the same
operations ready at every instant. -/
theorem commitGraph_as_flatGraph (runs : TwinRuns kind names history mirrored e f)
    (distinct : (everQueued history).Nodup) :
    mirrored.map (told kind ·.answer) = history.map (told kind ·.answer) ∧
      f.core.queue = e.core.queue ∧
      (∀ id, f.core.statusOf id = e.core.statusOf id) ∧
      (∀ id, f.core.holdOf id = e.core.holdOf id) ∧
      f.core.active = e.core.active ∧
      ∀ now, f.core.ready now = e.core.ready now := by
  obtain ⟨twins, chronicled, inOrder, same⟩ := runs.twins distinct
  rw [twins.core]
  exact ⟨same, rfl, fun _ => Core.statusOf_relink, fun _ => Core.holdOf_relink, rfl,
    chronicled.ready_relink distinct inOrder⟩

/-- Two commits, of which the second one is begun out of turn. The start of the first operation is
refused until it is skipped, and an attempt to complete it before is rejected; its dependency is
never committed. The latest request is first. -/
def secondBegunFirst : List (Instant × Request) := [
  (.first, .skip (.ofNat 1)),
  (.first, .complete (.ofNat 1)),
  (.first, .complete (.ofNat 2)),
  (.first, .complete (.ofNat 3)),
  (.first, .forceActive (.ofNat 3)),
  (.first, .append 2 [.new (.ofNat 3), (Operation.new (.ofNat 4)).dependingOn (.ofNat 3)] []),
  (.first, .append 1 [(Operation.new (.ofNat 1)).dependingOn (.ofNat 9), .new (.ofNat 2)] []),
  (.first, .setLimit 1)]

theorem second_begun_first_as_flatGraph :
    let store := RefusingStore.firstRefused
    let runs := twinRunsOf (.new "uploads" []) store store secondBegunFirst
    (runs.1.1.map fun entry => entry.dispatched.map (·.id)) =
        [[.ofNat 4], [], [], [], [], [], [.ofNat 2], []] ∧
      (runs.2.2.core.table[OperationId.ofNat 4]?.map (·.dependencies.toList)) =
        some [.ofNat 1, .ofNat 2, .ofNat 3] ∧
      (everQueued runs.1.1).Nodup ∧
      runs.2.1.map (told id ·.answer) = runs.1.1.map (told id ·.answer) ∧
      runs.2.2.core.queue = runs.1.2.core.queue ∧
      (∀ id, runs.2.2.core.statusOf id = runs.1.2.core.statusOf id) ∧
      (∀ id, runs.2.2.core.holdOf id = runs.1.2.core.holdOf id) ∧
      runs.2.2.core.active = runs.1.2.core.active ∧
      ∀ now, runs.2.2.core.ready now = runs.1.2.core.ready now := by
  have alike : RefuseAlike id RefusingStore.firstRefused RefusingStore.firstRefused :=
    RefusingStore.refuseAlike id ⟨Memory.indexed_empty, Memory.indexed_empty, rfl, rfl⟩ rfl rfl
  have runs := TwinRuns.of_requests (.new "uploads" []) _ _ alike secondBegunFirst (by decide)
  have distinct : (everQueued (twinRunsOf (.new "uploads" []) RefusingStore.firstRefused
    RefusingStore.firstRefused secondBegunFirst).1.1).Nodup := by decide +kernel
  have agree := commitGraph_as_flatGraph runs distinct
  exact ⟨by decide +kernel, by decide +kernel, distinct, agree⟩

end TwinRuns
end CommitPipeline
