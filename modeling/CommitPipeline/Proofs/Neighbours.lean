import Mathlib.Logic.Function.Basic
import CommitPipeline.Proofs.ChosenRecords
import CommitPipeline.Proofs.Relaunch

/-! Pipelines that share one memory. Their names and their operations are different, and each of
them writes about its own operations only, so whatever the others do and whenever they do it, a
pipeline is answered, and is returned its operations, as if it had a memory of its own. -/
namespace CommitPipeline

namespace Core
variable {c : Core} {id : OperationId} {now : Instant} {request : Request} {change : Change}
  {write : Write}

/-- A request is about what is live and what it queues itself. -/
def Concerns (c : Core) (request : Request) (id : OperationId) : Prop :=
  id ∈ c.table ∨ ∃ graph, request.graph? c.names = some graph ∧ id ∈ graph.members

theorem concerns_of_held {op : Operation} (held : c.table[id]? = some op) :
    c.Concerns request id := .inl (mem_table.mpr ⟨op, held⟩)

theorem BatchFits.concerns {queue : Queue} {snapshot : Nat} {operations : List Operation}
    {edges : List Edge} (fits : c.BatchFits queue snapshot operations edges)
    (answers : c.BatchAnswers request snapshot operations edges)
    (wrote : (c.queueBatch queue snapshot operations edges).write = some write) :
    ∀ id ∈ write.ids, c.Concerns request id := by
  intro id member
  unfold queueBatch at wrote
  split at wrote
  · cases wrote
  · cases wrote
    rcases List.mem_append.mp member with listed | starts
    · exact .inr ⟨_, answers.graph, listed⟩
    · obtain ⟨edge, among, rfl⟩ := List.mem_map.mp starts
      obtain ⟨-, op, held, -⟩ := fits.outer edge among
      exact concerns_of_held held

/-- So is the write of a request. -/
theorem Admits.write_concerns (admitted : c.Admits now request change)
    (wrote : change.write = some write) : ∀ id ∈ write.ids, c.Concerns request id := by
  cases admitted with
  | append pushed distinct fresh fit =>
    exact (append_fits pushed distinct fresh fit).concerns append_answers wrote
  | restore pushed distinct fresh =>
    exact (restore_fits pushed distinct fresh).concerns restore_answers wrote
  | complete held | skip held | forceActive held | setHold held =>
    cases wrote
    intro id member
    cases List.mem_singleton.mp member
    exact concerns_of_held held
  | @reset id op delay held =>
    intro other member
    cases delay with
    | none | some =>
      cases wrote
      cases List.mem_singleton.mp member
      exact concerns_of_held held
  | setLimit | suspend | resume | dispatch => cases wrote

theorem Admits.live_concerns (filed : c.Filed) (admitted : c.Admits now request change)
    (live : id ∈ change.core.table) : c.Concerns request id := by
  by_cases before : id ∈ c.table
  · exact .inl before
  · exact .inr (admitted.queues_new filed live before)

/-- What is live after a call is what the request was about. -/
theorem Answers.live_concerns {answer : Except Error Step} {after : Core} (filed : c.Filed)
    (answers : c.Answers now request answer after) (live : id ∈ after.table) :
    c.Concerns request id := by
  rcases answers.live_origin filed live with before | ⟨graph, queued, member⟩
  · exact .inl before
  · exact .inr ⟨graph, Entry.queued?_request queued, member⟩

end Core

/-! ### Two stores in lockstep -/

section Lockstep
variable {σ τ α : Type} [OperationStore σ] [OperationStore τ] {related : σ → τ → Prop}
  {about : OperationId → Prop}

/-- Related stores answer writes about some operations alike, and remain related. -/
structure Lockstep (related : σ → τ → Prop) (about : OperationId → Prop) : Prop where
  answer : ∀ (one : σ) (other : τ) (write : Write), related one other →
    (∀ id ∈ write.ids, about id) →
      (OperationStore.perform one write).1 = (OperationStore.perform other write).1
  keeps : ∀ (one : σ) (other : τ) (write : Write), related one other →
    (∀ id ∈ write.ids, about id) →
      related (OperationStore.perform one write).2 (OperationStore.perform other write).2

/-- The same result, the same state in memory, and related stores. -/
structure Engine.InStep (related : σ → τ → Prop) (one : α × Engine σ) (other : α × Engine τ) :
    Prop where
  result : one.1 = other.1
  core : one.2.core = other.2.core
  store : related one.2.store other.2.store

namespace Lockstep
variable {one : σ} {other : τ} {c : Core}

theorem start (lockstep : Lockstep related about) (relates : related one other)
    {ids : List OperationId} (within : ∀ id ∈ ids, about id) (free : Nat) :
    Engine.InStep related (Engine.start ⟨c, one⟩ ids free) (Engine.start ⟨c, other⟩ ids free) := by
  induction ids generalizing c one other free with
  | nil =>
    rw [Engine.start, Engine.start]
    exact ⟨rfl, rfl, relates⟩
  | cons id rest ih =>
    cases free with
    | zero =>
      rw [Engine.start, Engine.start]
      exact ⟨rfl, rfl, relates⟩
    | succ free =>
      have withinRest : ∀ id ∈ rest, about id := fun id later =>
        within id (List.mem_cons_of_mem _ later)
      have this : ∀ other ∈ (Write.status id .active).ids, about other := by
        intro other member
        cases List.mem_singleton.mp member
        exact within id List.mem_cons_self
      have answer := lockstep.answer one other (.status id .active) relates this
      have keeps := lockstep.keeps one other (.status id .active) relates this
      rw [Engine.start, Engine.start]
      generalize OperationStore.perform one (.status id .active) = left at answer keeps ⊢
      generalize OperationStore.perform other (.status id .active) = right at answer keeps ⊢
      obtain ⟨answered, oneNext⟩ := left
      obtain ⟨answeredToo, otherNext⟩ := right
      simp only at answer keeps
      subst answer
      cases answered with
      | error error => exact ih keeps withinRest _
      | ok done =>
        simp only
        cases c.table[id]? with
        | none => exact ih keeps withinRest _
        | some op =>
          obtain ⟨result, core, store⟩ :=
            ih (c := c.start { op with status := .active }) keeps withinRest free
          exact ⟨congrArg (List.cons _) result, core, store⟩

theorem dispatch (lockstep : Lockstep related about) (relates : related one other)
    (within : ∀ id ∈ c.table, about id) (now : Instant) :
    Engine.InStep related (Engine.dispatch ⟨c, one⟩ now) (Engine.dispatch ⟨c, other⟩ now) := by
  have ready : ∀ id ∈ c.ready now, about id := by
    intro id member
    obtain ⟨op, held, -⟩ := Readiness.pending_of_ready member
    exact within id (mem_table.mpr ⟨op, held⟩)
  rw [Engine.dispatch, Engine.dispatch]
  simp only
  cases c.freeSlots with
  | zero => exact ⟨rfl, rfl, relates⟩
  | succ free => exact lockstep.start relates ready (free + 1)

theorem finish (lockstep : Lockstep related about) (relates : related one other)
    (within : ∀ id ∈ c.table, about id) (now : Instant) (events : EventSet) :
    Engine.InStep related (Engine.finish ⟨c, one⟩ now events)
      (Engine.finish ⟨c, other⟩ now events) := by
  have left : ∀ id ∈ c.prune.2.table, about id := by
    intro id member
    exact within id (Core.mem_pruned_table.mp member).1
  obtain ⟨result, core, store⟩ := lockstep.dispatch relates left now
  constructor
  · simp only [Engine.finish, result, core]
  · simp only [Engine.finish, core]
  · simpa only [Engine.finish] using store

/-- A request is answered alike over stores that treat what it is about alike. -/
theorem apply (lockstep : Lockstep related about) (relates : related one other)
    (filed : c.Filed) (now : Instant) {request : Request}
    (within : ∀ id, c.Concerns request id → about id) :
    Engine.InStep related (Engine.apply ⟨c, one⟩ now request)
      (Engine.apply ⟨c, other⟩ now request) := by
  cases decided : c.changeFor now request with
  | error error =>
    rw [Engine.apply_error decided, Engine.apply_error decided]
    exact ⟨rfl, rfl, relates⟩
  | ok found =>
    cases found with
    | none =>
      rw [Engine.apply_idle decided, Engine.apply_idle decided]
      exact ⟨rfl, rfl, relates⟩
    | some change =>
      have admitted := Core.admits_of_changeFor decided
      have live : ∀ id ∈ change.core.table, about id := fun id member =>
        within id (admitted.live_concerns filed member)
      cases writes : change.write with
      | none =>
        have silent {ρ : Type} [OperationStore ρ] (store : ρ) :
            Engine.write ⟨c, store⟩ change.write = (.ok (), ⟨c, store⟩) := by
          rw [writes]
          rfl
        rw [Engine.apply_done decided (silent one), Engine.apply_done decided (silent other)]
        obtain ⟨result, core, store⟩ := lockstep.finish relates live now change.events
        dsimp only
        exact ⟨congrArg Except.ok result, core, store⟩
      | some write =>
        have concerned : ∀ id ∈ write.ids, about id := fun id member =>
          within id (admitted.write_concerns writes id member)
        have answer := lockstep.answer one other write relates concerned
        have keeps := lockstep.keeps one other write relates concerned
        have written {ρ : Type} [OperationStore ρ] (store : ρ) :
            Engine.write ⟨c, store⟩ change.write =
              ((OperationStore.perform store write).1,
                ⟨c, (OperationStore.perform store write).2⟩) := by
          rw [writes]
          rfl
        cases answered : (OperationStore.perform one write).1 with
        | error error =>
          rw [Engine.apply_refused decided ((written one).trans (by rw [answered])),
            Engine.apply_refused decided ((written other).trans (by rw [← answer, answered]))]
          exact ⟨rfl, rfl, keeps⟩
        | ok done =>
          rw [Engine.apply_done decided ((written one).trans (by rw [answered])),
            Engine.apply_done decided ((written other).trans (by rw [← answer, answered]))]
          obtain ⟨result, core, store⟩ := lockstep.finish keeps live now change.events
          dsimp only
          exact ⟨congrArg Except.ok result, core, store⟩

end Lockstep
end Lockstep

/-! ### Turns on a shared memory -/

/-- What a pipeline does with its memory: it makes a call, or asks for what is stored in its
names. -/
inductive Turn where
  | call (call : Call)
  | restore

/-- What comes of a turn: the answer with the state that is left, or the batches. -/
inductive Reply where
  | answered (answer : Except Error Step) (state : Core)
  | restored (batches : List Batch)

namespace Engine

def turn (e : Engine Memory) : Turn → Reply × Engine Memory
  | .call call =>
    let (answer, e) := e.call call
    (.answered answer e.core, e)
  | .restore => (.restored (e.store.restore e.core.names), e)

/-- The turns of a pipeline that has a memory of its own. -/
def turns (e : Engine Memory) : List Turn → List Reply × Engine Memory
  | [] => ([], e)
  | turn :: rest =>
    let (reply, e) := e.turn turn
    let (replies, e) := turns e rest
    (reply :: replies, e)

end Engine

/-- Pipelines with a memory that they share. -/
structure Neighbours (ι : Type) where
  cores : ι → Core
  store : Memory

/-- What is about one of the neighbours. -/
def about {ι α : Type} [DecidableEq ι] (i : ι) (all : List (ι × α)) : List α :=
  (all.filter fun entry => entry.1 = i).map (·.2)

section About
variable {ι α : Type} [DecidableEq ι] {i j : ι} {first : α} {rest : List (ι × α)}

theorem about_cons_self : about i ((i, first) :: rest) = first :: about i rest := by
  simp [about]

theorem about_cons_other (other : j ≠ i) : about i ((j, first) :: rest) = about i rest := by
  simp [about, other]

end About

/-- A turn asks that an operation be queued. -/
def Turn.Brings (turn : Turn) (names : Names) (id : OperationId) : Prop :=
  ∃ now request graph, turn = .call (.request now request) ∧
    request.graph? names = some graph ∧ id ∈ graph.members

namespace Neighbours
variable {ι : Type} [DecidableEq ι]

def turn (n : Neighbours ι) (i : ι) (turn : Turn) : Reply × Neighbours ι :=
  let (reply, e) := Engine.turn ⟨n.cores i, n.store⟩ turn
  (reply, ⟨Function.update n.cores i e.core, e.store⟩)

/-- Turns of some of the neighbours, one after the other. -/
def turns (n : Neighbours ι) : List (ι × Turn) → List (ι × Reply) × Neighbours ι
  | [] => ([], n)
  | (i, turn) :: rest =>
    let (reply, n) := n.turn i turn
    let (replies, n) := turns n rest
    ((i, reply) :: replies, n)

end Neighbours

namespace Memory
variable {names : Names} {chosen : OperationId → Bool} {one other : Memory}

/-- Two memories that are the same to a pipeline: they have the same records of its operations, and
nobody else's are stored in its names. -/
structure Alike (names : Names) (chosen : OperationId → Bool) (one other : Memory) : Prop where
  agree : Agree chosen one other
  left : Tagged names chosen one
  right : Tagged names chosen other

theorem alike_empty (names : Names) (chosen : OperationId → Bool) :
    Alike names chosen empty empty := by
  have tagged : Tagged names chosen empty := by
    rintro id tag ⟨place, op, member, -⟩
    simp [recordsAt, empty] at member
  exact ⟨⟨indexed_empty, indexed_empty, rfl, fun _ => rfl⟩, tagged, tagged⟩

/-- Memories with the same records of some operations treat writes about them alike. -/
theorem lockstep_agree : Lockstep (Agree chosen) fun id => chosen id = true where
  answer _ _ _ agree within := agree.answer within
  keeps _ _ _ agree within := agree.perform within

/-- A memory goes on having the same records of some operations as another while only others are
written about. -/
theorem lockstep_others (own : Memory) :
    Lockstep (fun one other => one = other ∧ Agree chosen one own) fun id => chosen id = false where
  answer := by
    rintro one other write ⟨rfl, -⟩ -
    rfl
  keeps := by
    rintro one other write ⟨rfl, agree⟩ others
    exact ⟨rfl, agree.perform_others others⟩

/-- What a pipeline stores in its name are operations that it queues. -/
theorem Tagged.apply {e : Engine Memory} (tagged : Tagged names chosen e.store)
    (indexed : e.store.Indexed) (now : Instant) (request : Request)
    (brought : ∀ id, (Turn.call (.request now request)).Brings e.core.names id →
      names.owns e.core.names.current = true → chosen id = true) :
    Tagged names chosen (e.apply now request).2.store := by
  intro id tag holds owns
  rcases ((e.apply_holds now request indexed).2 id tag).mp holds with
    ⟨⟨graph, queued, member⟩, rfl⟩ | ⟨-, -, before⟩
  · exact brought id ⟨now, request, graph, rfl, Entry.queued?_request queued, member⟩ owns
  · exact tagged id tag before owns

end Memory

namespace Neighbours
variable {ι : Type} {names : ι → Names} {owner : OperationId → ι} {n : Neighbours ι}
  {e : Engine Memory} {i j : ι}

/-- A neighbour goes by its own names and has its own operations. -/
structure Belongs (names : ι → Names) (owner : OperationId → ι) (j : ι) (c : Core) : Prop where
  filed : c.Filed
  named : c.names = names j
  owned : ∀ id ∈ c.table, owner id = j

/-- So does everybody. -/
def Orderly (names : ι → Names) (owner : OperationId → ι) (n : Neighbours ι) : Prop :=
  ∀ j, Belongs names owner j (n.cores j)

theorem Belongs.concerned {c : Core} (belongs : Belongs names owner j c) {now : Instant}
    {request : Request}
    (brought : ∀ id, (Turn.call (.request now request)).Brings (names j) id → owner id = j) :
    ∀ id, c.Concerns request id → owner id = j := by
  intro id concerns
  rcases concerns with live | ⟨graph, found, member⟩
  · exact belongs.owned id live
  · rw [belongs.named] at found
    exact brought id ⟨now, request, graph, rfl, found, member⟩

theorem Belongs.turn {e : Engine Memory} {turn : Turn} (belongs : Belongs names owner j e.core)
    (brought : ∀ id, turn.Brings (names j) id → owner id = j) :
    Belongs names owner j (e.turn turn).2.core := by
  obtain ⟨filed, named, owned⟩ := id belongs
  cases turn with
  | restore => exact belongs
  | call call =>
    cases call with
    | retireMissing batches => exact ⟨filed.of_continues rfl rfl rfl (.refl _), named, owned⟩
    | request now request =>
      have answers := e.apply_answers now request filed
      refine ⟨answers.filed filed, answers.names.trans named, fun id live => ?_⟩
      exact belongs.concerned brought id (answers.live_concerns filed live)

variable [DecidableEq ι]

theorem Orderly.turn {turn : Turn} (orderly : n.Orderly names owner)
    (brought : ∀ id, turn.Brings (names j) id → owner id = j) :
    (n.turn j turn).2.Orderly names owner := by
  intro k
  have belongs : Belongs names owner j (Engine.turn ⟨n.cores j, n.store⟩ turn).2.core :=
    Belongs.turn (e := ⟨n.cores j, n.store⟩) (orderly j) brought
  unfold Neighbours.turn
  by_cases here : k = j
  · subst here
    simpa only [Function.update_self] using belongs
  · simpa only [Function.update_of_ne here] using orderly k

/-- One of the neighbours is as it would be alone. -/
structure Mirrors (names : ι → Names) (owner : OperationId → ι) (i : ι) (n : Neighbours ι)
    (e : Engine Memory) : Prop where
  core : n.cores i = e.core
  alike : Memory.Alike (names i) (fun id => owner id = i) n.store e.store

/-- Its own turns come to the same. -/
theorem Mirrors.own {turn : Turn} (mirrors : Mirrors names owner i n e)
    (orderly : n.Orderly names owner) (brought : ∀ id, turn.Brings (names i) id → owner id = i) :
    (n.turn i turn).1 = (e.turn turn).1 ∧
      Mirrors names owner i (n.turn i turn).2 (e.turn turn).2 := by
  obtain ⟨core, own⟩ := e
  obtain ⟨rfl, alike⟩ := mirrors
  cases turn with
  | restore =>
    have same := alike.agree.restore_eq alike.left alike.right
    rw [← (orderly i).named] at same
    refine ⟨congrArg Reply.restored same, ?_, alike⟩
    simp [Neighbours.turn, Engine.turn]
  | call call =>
    cases call with
    | retireMissing batches =>
      refine ⟨rfl, ?_, alike⟩
      simp [Neighbours.turn, Engine.turn, Engine.call, Engine.retireMissing]
    | request now request =>
      have concerned := (orderly i).concerned brought
      obtain ⟨result, core, store⟩ := Memory.lockstep_agree.apply alike.agree (orderly i).filed now
        fun id concerns => decide_eq_true (concerned id concerns)
      have stored {m : Memory} (indexed : m.Indexed)
          (tagged : Memory.Tagged (names i) (fun id => owner id = i) m) :
          Memory.Tagged (names i) (fun id => owner id = i)
            (Engine.apply ⟨n.cores i, m⟩ now request).2.store := by
        refine tagged.apply indexed now request fun id brings _ => decide_eq_true ?_
        exact brought id ((orderly i).named ▸ brings)
      refine ⟨?_, ?_, store, stored alike.agree.left alike.left,
        stored alike.agree.right alike.right⟩
      · simp only [Neighbours.turn, Engine.turn, Engine.call, result, core]
      · simp only [Neighbours.turn, Engine.turn, Engine.call, Function.update_self, core]

/-- The turns of others change nothing for it. -/
theorem Mirrors.others {turn : Turn} (mirrors : Mirrors names owner i n e)
    (orderly : n.Orderly names owner)
    (namesApart : ∀ i j tag, (names i).owns tag = true → (names j).owns tag = true → i = j)
    (brought : ∀ id, turn.Brings (names j) id → owner id = j) (other : j ≠ i) :
    Mirrors names owner i (n.turn j turn).2 e := by
  have core : (n.turn j turn).2.cores i = e.core := by
    simp only [Neighbours.turn, Function.update_of_ne other.symm, mirrors.core]
  refine ⟨core, ?_⟩
  obtain ⟨-, alike⟩ := mirrors
  cases turn with
  | restore => exact alike
  | call call =>
    cases call with
    | retireMissing batches => exact alike
    | request now request =>
      have concerned := (orderly j).concerned brought
      have foreign : ∀ id, (n.cores j).Concerns request id → decide (owner id = i) = false := by
        intro id concerns
        rw [concerned id concerns]
        exact decide_eq_false other
      obtain ⟨-, -, -, agree⟩ := (Memory.lockstep_others e.store).apply ⟨rfl, alike.agree⟩
        (orderly j).filed now foreign
      refine ⟨agree, ?_, alike.right⟩
      refine alike.left.apply alike.agree.left now request fun id brings owns => ?_
      have currentOwned : (names j).owns (n.cores j).names.current = true := by
        rw [(orderly j).named, Names.owns_iff]
        exact .inl rfl
      exact absurd (namesApart i j _ owns currentOwned).symm other

end Neighbours

/-- Pipelines on one memory do not interfere. Whatever turns they take in whatever order, each of
them gets the replies, comes to the states and finds stored in its names what its own turns alone
bring on a memory of its own, if their names and their operations are different. -/
theorem neighbours_apart {ι : Type} [DecidableEq ι] (names : ι → Names) (algorithm : ι → Algorithm)
    (owner : OperationId → ι)
    (namesApart : ∀ i j tag, (names i).owns tag = true → (names j).owns tag = true → i = j)
    (turns : List (ι × Turn))
    (idsApart : ∀ entry ∈ turns, ∀ id, entry.2.Brings (names entry.1) id → owner id = entry.1)
    (i : ι) (shared own : Memory)
    (alike : Memory.Alike (names i) (fun id => owner id = i) shared own) :
    let together := Neighbours.turns ⟨fun j => .new (names j) (algorithm j), shared⟩ turns
    let alone := Engine.turns ⟨.new (names i) (algorithm i), own⟩ (about i turns)
    about i together.1 = alone.1 ∧ together.2.cores i = alone.2.core ∧
      together.2.store.restore (names i) = alone.2.store.restore (names i) := by
  -- The states go on for any neighbours that are orderly and mirror what is alone.
  have kept (turns : List (ι × Turn))
      (idsApart : ∀ entry ∈ turns, ∀ id, entry.2.Brings (names entry.1) id → owner id = entry.1)
      (n : Neighbours ι) (e : Engine Memory) (orderly : n.Orderly names owner)
      (mirrors : Neighbours.Mirrors names owner i n e) :
      about i (n.turns turns).1 = (e.turns (about i turns)).1 ∧
        Neighbours.Mirrors names owner i (n.turns turns).2 (e.turns (about i turns)).2 := by
    induction turns generalizing n e with
    | nil => exact ⟨rfl, mirrors⟩
    | cons entry rest ih =>
      obtain ⟨j, turn⟩ := entry
      have brought := idsApart (j, turn) List.mem_cons_self
      have next := ih fun entry later => idsApart entry (List.mem_cons_of_mem _ later)
      have orderlyNext := orderly.turn brought
      by_cases here : j = i
      · subst here
        obtain ⟨reply, mirrorsNext⟩ := mirrors.own orderly brought
        obtain ⟨replies, after⟩ := next _ _ orderlyNext mirrorsNext
        rw [about_cons_self]
        simp only [Neighbours.turns, Engine.turns, about_cons_self, reply, replies]
        exact ⟨trivial, after⟩
      · obtain ⟨replies, after⟩ :=
          next _ _ orderlyNext (mirrors.others orderly namesApart brought here)
        rw [about_cons_other here]
        simp only [Neighbours.turns, about_cons_other here, replies]
        exact ⟨trivial, after⟩
  have orderly : Neighbours.Orderly names owner
      ⟨fun j => .new (names j) (algorithm j), shared⟩ := by
    intro j
    refine ⟨Core.filed_new .., rfl, fun id live => ?_⟩
    simp [Core.new] at live
  obtain ⟨replies, core, agree, left, right⟩ :=
    kept turns idsApart _ ⟨.new (names i) (algorithm i), own⟩ orderly ⟨rfl, alike⟩
  exact ⟨replies, core, agree.restore_eq left right⟩

/-- Two pipelines, one of which went by another name before. -/
def uploadsAndImports : Bool → Names
  | true => .new "uploads" ["drafts"]
  | false => .new "imports" []

/-- Both begin with a first commit; of the later commit something is to come before an operation of
the first one. -/
def bothFromTheFirst : List (Bool × Turn) := [
  (true, .call (.request .first (.append 1 [.new (.ofNat 1), .new (.ofNat 2)] []))),
  (false, .call (.request .first (.append 1 [.new (.ofNat 3)] []))),
  (true, .call (.request .first (.append 2 [.new (.ofNat 4)] [⟨.ofNat 1, .ofNat 4⟩]))),
  (true, .restore),
  (false, .call (.request .first (.complete (.ofNat 3)))),
  (false, .restore),
  (true, .restore)]

/-- What was returned, by snapshot. -/
def Reply.returned : Reply → List (Nat × List OperationId)
  | .answered _ _ => []
  | .restored batches => batches.map fun batch => (batch.snapshot, batch.operations.map (·.id))

theorem both_from_the_first :
    let together := Neighbours.turns ⟨fun j => .new (uploadsAndImports j) .flatGraph, .empty⟩
      bothFromTheFirst
    let alone := Engine.turns ⟨.new (uploadsAndImports true) .flatGraph, .empty⟩
      (about true bothFromTheFirst)
    about true together.1 = alone.1 ∧ together.2.cores true = alone.2.core ∧
      (alone.1.map (·.returned)).getLast? =
        some [(1, [.ofNat 1, .ofNat 2]), (2, [.ofNat 4])] := by
  intro together alone
  have namesApart : ∀ i j tag, (uploadsAndImports i).owns tag = true →
      (uploadsAndImports j).owns tag = true → i = j := by
    intro i j tag first second
    rw [Names.owns_iff] at first second
    cases i <;> cases j <;>
      simp_all [uploadsAndImports, Names.new]
  have idsApart : ∀ entry ∈ bothFromTheFirst, ∀ id,
      entry.2.Brings (uploadsAndImports entry.1) id → decide (id ≠ .ofNat 3) = entry.1 := by
    rintro entry member id ⟨now, request, graph, made, found, among⟩
    simp only [bothFromTheFirst, List.mem_cons, List.not_mem_nil, or_false] at member
    rcases member with rfl | rfl | rfl | rfl | rfl | rfl | rfl
    all_goals
      cases made
    all_goals
      cases found
    all_goals
      simp only [List.map_cons, List.map_nil, List.mem_cons, List.not_mem_nil, or_false] at among
    · rcases among with rfl | rfl <;> decide
    · cases among
      decide
    · cases among
      decide
  obtain ⟨replies, core, -⟩ := neighbours_apart uploadsAndImports (fun _ => .flatGraph)
    (fun id => decide (id ≠ .ofNat 3)) namesApart bothFromTheFirst idsApart true .empty .empty
    (Memory.alike_empty ..)
  exact ⟨replies, core, by decide +kernel⟩

end CommitPipeline
