import CommitPipeline.Proofs.HandOver

/-! In which order the worker is handed what is started. The dispatcher hands over what it is sent in
the order of sending, and whoever sends keeps the order of starting. Between different senders
nothing is agreed: what one of them has not yet sent may be overtaken by what another starts later.
-/
namespace CommitPipeline

/-- What one sender has yet to send is all there is if it is all of what he has. -/
theorem eq_of_owing {operations waiting : List Operation} {others : Multiset (List Operation)}
    (same : owing waiting = {operations} + others) : waiting = operations ∧ others = 0 := by
  rw [Multiset.singleton_add] at same
  cases waiting with
  | nil => exact (Multiset.cons_ne_zero same.symm).elim
  | cons op rest => exact (Multiset.singleton_eq_cons_iff _).mp same

namespace Pipeline
variable {σ ω : Type} [OperationStore σ] {p after : Pipeline σ ω} {now : Instant}

theorem Calls.dispatcher {request : Request} (called : p.Calls now request after) :
    after.dispatcher = p.dispatcher := by
  cases called with
  | rejected => rfl
  | accepted =>
    unfold owe
    split <;> rfl

variable [Worker ω]

/-! ### A dispatcher that has broken down -/

theorem Makes.ended {move : Move} (made : p.Makes now move after)
    (ended : p.dispatcher = .ended) : after.dispatcher = .ended := by
  cases made with
  | deliver | timerDelivers => exact (p.deliver_frame _).2.2.2.trans ended
  | handOver stands | serve stands | dispatcherDelivers stands =>
    rw [ended] at stands
    cases stands
  | look | wake | timerThrough | expire | expireRejected => exact ended
  | report _ _ called => exact called.dispatcher.trans ended

/-- The move by which the dispatcher breaks down hands nothing over. -/
theorem Makes.silent {move : Move} (made : p.Makes now move after)
    (ended : after.dispatcher = .ended) : ∀ note ∈ p.notes now move, note.handed = [] := by
  cases hands : p.handsOver? move with
  | none =>
    intro note member
    rw [notes, hands] at member
    obtain ⟨request, -, rfl⟩ := List.mem_map.mp member
    rfl
  | some op =>
    -- Having handed an operation over the dispatcher waits for the worker.
    unfold handsOver? at hands
    split at hands
    · rename_i stands
      cases made with
      | handOver => cases ended
      | serve busy | dispatcherDelivers busy =>
        rw [stands] at busy
        cases busy
    · cases hands

end Pipeline

namespace Pipeline
variable {σ ω : Type} {p after next : Pipeline σ ω} {notes new : List Note} {tail : List Operation}

/-- From one state to another everything that had been sent is handed over before everything that is
sent in between. Of that each sender keeps its order: of what it was about to send, and of what it
started with a request. -/
structure InSendingOrder (p after : Pipeline σ ω) (notes : List Note) (tail : List Operation) :
    Prop where
  line : handOvers notes ++ after.outbox = p.outbox ++ tail
  ordered : ∀ operations : List Operation,
    operations ∈ p.unsent ∨ (∃ entry, .answered entry ∈ notes ∧ operations = entry.dispatched) →
      ∃ sent rest, operations = sent ++ rest ∧ sent.Sublist tail ∧
        (rest = [] ∨ rest ∈ after.unsent)

theorem inSendingOrder_refl (p : Pipeline σ ω) : p.InSendingOrder p [] [] where
  line := (List.append_nil _).symm
  ordered operations := by
    rintro (waiting | ⟨_, ⟨⟩, -⟩)
    exact ⟨[], operations, rfl, List.nil_sublist _, .inr waiting⟩

theorem InSendingOrder.step (order : p.InSendingOrder after notes tail)
    (transfers : after.Transfers next new) (alive : next.dispatcher ≠ .ended) :
    ∃ tail, p.InSendingOrder next (new ++ notes) tail := by
  obtain ⟨line, ordered⟩ := order
  cases transfers with
  | broken ended => exact absurd ended alive
  | keeps _ unsent outbox =>
    refine ⟨tail, outbox ▸ line, fun operations among => ?_⟩
    exact unsent ▸ ordered operations among
  | starts entry _ unsent outbox =>
    refine ⟨tail, ?_, fun operations among => ?_⟩
    · rw [handOvers_append, outbox]
      exact (congrArg (· ++ after.outbox) (List.append_nil _)).trans line
    · rw [unsent]
      by_cases old : operations ∈ p.unsent ∨
          ∃ entry, .answered entry ∈ notes ∧ operations = entry.dispatched
      · obtain ⟨sent, rest, same, kept, left⟩ := ordered operations old
        exact ⟨sent, rest, same, kept, left.imp_right fun waits => Multiset.mem_add.mpr (.inl waits)⟩
      · refine ⟨[], operations, rfl, List.nil_sublist _, ?_⟩
        rcases among with waiting | ⟨one, member, same⟩
        · exact absurd (.inl waiting) old
        · rcases List.mem_cons.mp member with new | earlier
          · cases new
            rw [Multiset.mem_add, mem_owing, same]
            exact (em _).imp_right fun some => .inr ⟨some, rfl⟩
          · exact absurd (.inr ⟨one, earlier, same⟩) old
  | sends op rest others _ unsent left outbox =>
    refine ⟨tail ++ [op], ?_, fun operations among => ?_⟩
    · rw [outbox, ← List.append_assoc, ← List.append_assoc]
      exact congrArg (· ++ [op]) line
    · obtain ⟨sent, waiting, same, kept, waits⟩ := ordered operations among
      have longer : sent.Sublist (tail ++ [op]) := kept.trans (List.sublist_append_left _ _)
      rw [left]
      rcases waits with none | waits
      · exact ⟨sent, waiting, same, longer, .inl none⟩
      · rw [unsent, Multiset.mem_add, Multiset.mem_singleton] at waits
        rcases waits with rfl | others
        · refine ⟨sent ++ [op], rest, by simp [same], kept.append (.refl _), ?_⟩
          rw [Multiset.mem_add, mem_owing]
          exact (em _).imp_right fun some => .inl ⟨some, rfl⟩
        · exact ⟨sent, waiting, same, longer, .inr (Multiset.mem_add.mpr (.inr others))⟩
  | handsOver op _ unsent outbox =>
    refine ⟨tail, ?_, fun operations among => ?_⟩
    · rw [← line, handOvers_append, outbox, List.append_assoc]
      rfl
    · rw [unsent]
      refine ordered operations (among.imp_right fun ⟨entry, member, same⟩ => ⟨entry, ?_, same⟩)
      exact (List.mem_cons.mp member).resolve_left nofun

end Pipeline

namespace Watched
variable {σ ω : Type} [OperationStore σ] [Worker ω] {s after : Watched σ ω} {notes : List Note}

/-- The act by which the dispatcher breaks down hands nothing over, and neither does any later
one. -/
theorem silent_of_ended {act : Act σ} (acted : s.act? act = some after)
    (ended : after.pipeline.dispatcher = .ended) : ∀ note ∈ s.notesOf act, note.handed = [] := by
  cases ensues_of_act? acted with
  | advance | retireMissing | meddle => exact List.forall_mem_nil _
  | call =>
    intro note member
    cases List.mem_singleton.mp member
    rfl
  | move made => exact made.silent ended

theorem transfers_of_act {act : Act σ} (acted : s.act? act = some after) :
    s.pipeline.Transfers after.pipeline (s.notesOf act) := by
  by_cases ended : after.pipeline.dispatcher = .ended
  · exact .broken ended (silent_of_ended acted ended)
  · cases ensues_of_act? acted with
    | advance | retireMissing | meddle => exact .keeps ended rfl rfl
    | call called => exact called.transfers fun before => ended (called.dispatcher.trans before)
    | move made => exact made.transfers (fun before => ended (made.ended before)) ended

/-- The dispatcher hands over what is started in the order in which it is sent. If it breaks down
this holds up to the last operation that it hands over. -/
theorem LeadsTo.in_sending_order (leads : s.LeadsTo notes after)
    (alive : s.pipeline.dispatcher ≠ .ended) :
    (after.pipeline.dispatcher ≠ .ended →
      ∃ tail, s.pipeline.InSendingOrder after.pipeline notes tail) ∧
    (after.pipeline.dispatcher = .ended → ∃ later earlier between, notes = later ++ earlier ∧
      s.LeadsTo earlier between ∧ between.pipeline.dispatcher ≠ .ended ∧
      (∀ note ∈ later, note.handed = []) ∧
      ∃ tail, s.pipeline.InSendingOrder between.pipeline earlier tail) := by
  induction leads with
  | refl => exact ⟨fun _ => ⟨[], s.pipeline.inSendingOrder_refl⟩, fun ended => absurd ended alive⟩
  | clock leads now ih =>
    refine ⟨ih.1, fun ended => ?_⟩
    exact ih.2 ended
  | @act notes after next leads act acted ih =>
    have transfers := transfers_of_act acted
    refine ⟨fun stillAlive => ?_, fun ended => ?_⟩
    · obtain ⟨tail, order⟩ := ih.1 (transfers.alive stillAlive)
      exact order.step transfers stillAlive
    · have silent := silent_of_ended acted ended
      by_cases before : after.pipeline.dispatcher = .ended
      · obtain ⟨later, earlier, between, rfl, led, running, quiet, order⟩ := ih.2 before
        refine ⟨after.notesOf act ++ later, earlier, between, (List.append_assoc ..).symm, led,
          running, fun note member => ?_, order⟩
        exact (List.mem_append.mp member).elim (silent note) (quiet note)
      · exact ⟨after.notesOf act, notes, after, rfl, leads, before, silent, ih.1 before⟩

/-- What the worker was started on and what has been sent since is, in this order, what it had been
started on and sent before, and then what was sent in between. -/
theorem LeadsTo.recorded {s after : Watched σ (Recorder ω)} {tail : List Operation}
    (leads : s.LeadsTo notes after) (order : s.pipeline.InSendingOrder after.pipeline notes tail) :
    after.pipeline.worker.started ++ after.pipeline.outbox.map (·.id) =
      s.pipeline.worker.started ++ (s.pipeline.outbox ++ tail).map (·.id) := by
  rw [leads.started, List.append_assoc, ← List.map_append, order.line]

/-- The worker is started on operations in the order in which they are sent, and its own record
tells it. What has been sent when a request is made comes before what the request starts, and a
sender keeps the order of starting. If the dispatcher breaks down this holds up to the last operation
that is handed over. -/
theorem handed_over_in_sending_order {s after : Watched σ (Recorder ω)}
    (alive : s.pipeline.dispatcher ≠ .ended) (leads : s.LeadsTo notes after) :
    after.pipeline.worker.started =
      s.pipeline.worker.started ++ (handOvers notes).map (·.id) ∧
    (after.pipeline.dispatcher ≠ .ended →
      ∃ tail, s.pipeline.InSendingOrder after.pipeline notes tail ∧
        after.pipeline.worker.started ++ after.pipeline.outbox.map (·.id) =
          s.pipeline.worker.started ++ (s.pipeline.outbox ++ tail).map (·.id)) ∧
    (after.pipeline.dispatcher = .ended → ∃ later earlier between, notes = later ++ earlier ∧
      s.LeadsTo earlier between ∧ between.pipeline.dispatcher ≠ .ended ∧
      (∀ note ∈ later, note.handed = []) ∧
      after.pipeline.worker.started = between.pipeline.worker.started ∧
      ∃ tail, s.pipeline.InSendingOrder between.pipeline earlier tail ∧
        between.pipeline.worker.started ++ between.pipeline.outbox.map (·.id) =
          s.pipeline.worker.started ++ (s.pipeline.outbox ++ tail).map (·.id)) := by
  obtain ⟨running, brokenDown⟩ := leads.in_sending_order alive
  refine ⟨leads.started, fun stillAlive => ?_, fun ended => ?_⟩
  · obtain ⟨tail, order⟩ := running stillAlive
    exact ⟨tail, order, leads.recorded order⟩
  · obtain ⟨later, earlier, between, rfl, led, stood, silent, tail, order⟩ := brokenDown ended
    refine ⟨later, earlier, between, rfl, led, stood, silent, ?_, tail, order, led.recorded order⟩
    rw [leads.started, led.started, handOvers_append, handOvers_silent silent, List.append_nil]

/-- What is attended to leads on. -/
theorem LeadsTo.of_acts {acts : List (Act σ)} {noted : List Note}
    (acted : s.attend? notes acts = some (noted, after)) :
    ∃ new, noted = new ++ notes ∧ s.LeadsTo new after := by
  induction acts generalizing notes s with
  | nil =>
    cases acted
    exact ⟨[], rfl, .refl⟩
  | cons act rest ih =>
    rw [attend?] at acted
    split at acted
    · obtain ⟨next, first, others⟩ := Option.bind_eq_some_iff.mp acted
      split at others
      · cases others
      · obtain ⟨new, rfl, leads⟩ := ih others
        have here : s.LeadsTo (s.notesOf act ++ []) next := LeadsTo.refl.act first
        exact ⟨new ++ (s.notesOf act ++ []), by simp, here.trans leads⟩
    · cases acted

/-- The states that a state leads to if whoever makes a request that starts something waits until
everybody has sent what he had to. -/
inductive LeadsInTurnTo (s : Watched σ ω) : List Note → Watched σ ω → Prop where
  | refl : LeadsInTurnTo s [] s
  | clock {notes : List Note} {after : Watched σ ω} (leads : LeadsInTurnTo s notes after)
      (now : Instant) : LeadsInTurnTo s notes { after with clock := now }
  | act {notes : List Note} {after next : Watched σ ω} (leads : LeadsInTurnTo s notes after)
      {act : Act σ} (acted : after.act? act = some next)
      (turn : ∀ note ∈ after.notesOf act, note.dispatched ≠ [] → after.pipeline.unsent = 0) :
      LeadsInTurnTo s (after.notesOf act ++ notes) next

end Watched

/-- What is started, in order; the notes are given with the latest first. -/
def starts (notes : List Note) : List Operation := notes.reverse.flatMap (·.dispatched)

theorem starts_append (later earlier : List Note) :
    starts (later ++ earlier) = starts earlier ++ starts later := by
  rw [starts, List.reverse_append, List.flatMap_append]
  rfl

namespace Pipeline
variable {σ ω : Type} {p after next : Pipeline σ ω} {notes new : List Note}

/-- What has been handed over and sent is what has been started, but for what one sender has yet to
send. -/
structure InDispatchOrder (p after : Pipeline σ ω) (notes : List Note) : Prop where
  handed : handOvers notes <+: p.outbox ++ starts notes
  line : after.dispatcher ≠ .ended → ∃ waiting, after.unsent = owing waiting ∧
    p.outbox ++ starts notes = handOvers notes ++ after.outbox ++ waiting

theorem InDispatchOrder.step (order : p.InDispatchOrder after notes)
    (transfers : after.Transfers next new)
    (turn : ∀ note ∈ new, note.dispatched ≠ [] → after.unsent = 0) :
    p.InDispatchOrder next (new ++ notes) := by
  have longer : p.outbox ++ starts notes <+: p.outbox ++ starts (new ++ notes) := by
    rw [starts_append, ← List.append_assoc]
    exact List.prefix_append _ _
  cases transfers with
  | broken ended silent =>
    refine ⟨?_, fun alive => absurd ended alive⟩
    rw [handOvers_append, handOvers_silent silent, List.append_nil]
    exact order.handed.trans longer
  | keeps alive unsent outbox =>
    exact ⟨order.handed, fun _ => by rw [unsent, outbox]; exact order.line alive⟩
  | starts entry alive unsent outbox =>
    obtain ⟨waiting, left, line⟩ := order.line alive
    have same : handOvers ([.answered entry] ++ notes) = handOvers notes := by
      rw [handOvers_append]
      exact List.append_nil _
    have started : starts ([.answered entry] ++ notes) = starts notes ++ entry.dispatched := by
      rw [starts_append]
      exact congrArg _ (List.append_nil _)
    refine ⟨same ▸ order.handed.trans longer, fun _ => ?_⟩
    rw [unsent, outbox, same, started, ← List.append_assoc, line]
    by_cases nothing : entry.dispatched = []
    · exact ⟨waiting, by rw [nothing, left, owing_nil, add_zero], by rw [nothing, List.append_nil]⟩
    · have free := turn _ List.mem_cons_self nothing
      have through : waiting = [] := by
        by_contra some
        have waits : waiting ∈ after.unsent := left ▸ mem_owing.mpr ⟨some, rfl⟩
        rw [free] at waits
        exact Multiset.notMem_zero _ waits
      exact ⟨entry.dispatched, by rw [free, zero_add], by rw [through, List.append_nil]⟩
  | sends op rest others alive unsent left outbox =>
    obtain ⟨waiting, same, line⟩ := order.line alive
    obtain ⟨rfl, none⟩ := eq_of_owing (same.symm.trans unsent)
    refine ⟨order.handed, fun _ => ⟨rest, by rw [left, none, add_zero], ?_⟩⟩
    rw [outbox]
    exact line.trans (by simp)
  | handsOver op alive unsent outbox =>
    obtain ⟨waiting, left, line⟩ := order.line alive
    have line : p.outbox ++ starts ([.handedOver op] ++ notes) =
        handOvers ([.handedOver op] ++ notes) ++ next.outbox ++ waiting := by
      rw [starts_append, handOvers_append]
      change p.outbox ++ (starts notes ++ []) = handOvers notes ++ [op] ++ _ ++ _
      rw [List.append_nil, line, outbox]
      simp
    exact ⟨⟨_, by rw [line, List.append_assoc]⟩, fun _ => ⟨waiting, unsent.trans left, line⟩⟩

end Pipeline

namespace Watched
variable {σ ω : Type} [OperationStore σ] [Worker ω] {s after : Watched σ ω} {notes : List Note}

theorem LeadsInTurnTo.leads (leads : s.LeadsInTurnTo notes after) : s.LeadsTo notes after := by
  induction leads with
  | refl => exact .refl
  | clock _ now ih => exact ih.clock now
  | act _ acted _ ih => exact ih.act acted

theorem LeadsInTurnTo.in_dispatch_order (leads : s.LeadsInTurnTo notes after)
    (settled : s.pipeline.unsent = 0) : s.pipeline.InDispatchOrder after.pipeline notes := by
  induction leads with
  | refl => exact ⟨List.nil_prefix, fun _ => ⟨[], settled, by simp [starts, handOvers]⟩⟩
  | clock leads now ih => exact ih
  | act leads acted turn ih => exact ih.step (transfers_of_act acted) turn

/-- If senders wait for one another the worker is started in the order of starting. -/
theorem handed_over_in_dispatch_order {s after : Watched σ (Recorder ω)}
    (settled : s.pipeline.unsent = 0) (leads : s.LeadsInTurnTo notes after) :
    after.pipeline.worker.started <+:
      s.pipeline.worker.started ++ (s.pipeline.outbox ++ starts notes).map (·.id) := by
  rw [leads.leads.started]
  exact (List.prefix_append_right_inj _).mpr ((leads.in_dispatch_order settled).handed.map _)

end Watched

/-- A caller has started two operations and sent the first of them. -/
def firstOfTwoSent : List (Act Memory) :=
  [.call (.append 1 [.new (.ofNat 1), .new (.ofNat 2)] []), .move (.deliver 0)]

/-- Another caller starts a third operation and sends it at once; then the second one is sent as well,
and the dispatcher hands over what it has. -/
def thirdOvertakes : List (Act Memory) := [
  .call (.append 2 [.new (.ofNat 3)] []), .move (.deliver 1), .move (.deliver 0),
  .move .dispatch, .move .dispatch, .move .dispatch, .move .dispatch, .move .dispatch]

/-- The state when the first operation is sent, and what comes of it. The starts of the worker are
recorded. -/
def overtaken? : Option (List Note × Watched Memory (Recorder ScriptedWorker) × List Note ×
    Watched Memory (Recorder ScriptedWorker)) :=
  let settings : LaunchSettings := ⟨.new "uploads" [], .flatGraph, 3, 0, 64⟩
  let launched := ⟨.launch settings .empty (.new ⟨.nothing, ∅⟩) .first, .first, .first, .first⟩
  (Watched.attend? [] launched firstOfTwoSent).bind fun (earlier, s) =>
    (Watched.attend? earlier s thirdOvertakes).map fun (notes, after) => (earlier, s, notes, after)

/-- What there is to see of it. -/
def showsOvertaking (s : Watched Memory (Recorder ScriptedWorker)) (notes : List Note)
    (after : Watched Memory (Recorder ScriptedWorker)) : Prop :=
  s.pipeline.dispatcher.isEnded = false ∧ after.pipeline.dispatcher.isEnded = false ∧
    s.pipeline.worker.started = [] ∧ after.pipeline.outbox.length = 0 ∧
    s.pipeline.outbox.map (·.id) = [.ofNat 1] ∧
    (starts notes).map (·.id) = [.ofNat 1, .ofNat 2, .ofNat 3] ∧
    after.pipeline.worker.started = [.ofNat 1, .ofNat 3, .ofNat 2]

instance (notes : List Note) (s after : Watched Memory (Recorder ScriptedWorker)) :
    Decidable (showsOvertaking s notes after) :=
  inferInstanceAs (Decidable (_ ∧ _))

theorem attended_overtaking : ∃ settings worker earlier s new after,
    s.LeadsTo new after ∧ Watched.Attended settings (.new worker) (new ++ earlier) after ∧
      showsOvertaking s (new ++ earlier) after := by
  have computed : overtaken?.any (fun (_, s, notes, after) =>
      showsOvertaking s notes after) = true := by decide +kernel
  obtain ⟨⟨earlier, s, notes, after⟩, reached, told⟩ := (Option.any_eq_true ..).mp computed
  unfold overtaken? at reached
  obtain ⟨⟨_, _⟩, launched, acted⟩ := Option.bind_eq_some_iff.mp reached
  obtain ⟨⟨_, _⟩, acted, same⟩ := Option.map_eq_some_iff.mp acted
  cases same
  have attended := ((Watched.Attended.launch ..).acts launched).acts acted
  obtain ⟨new, rfl, leads⟩ := Watched.LeadsTo.of_acts acted
  exact ⟨_, _, earlier, s, new, after, leads, attended, of_decide_eq_true told⟩

/-- What was sent stays first, and of what was not, something else takes the place: the worker is
started on the first operation, and then on the third one before the second. -/
theorem third_sent_first : ∃ (s after : Watched Memory (Recorder ScriptedWorker)) (new : List Note)
    (tail : List Operation), s.LeadsTo new after ∧
      s.pipeline.InSendingOrder after.pipeline new tail ∧
      s.pipeline.outbox.map (·.id) = [.ofNat 1] ∧ tail.map (·.id) = [.ofNat 3, .ofNat 2] ∧
      s.pipeline.worker.started = [] ∧
      after.pipeline.worker.started = (s.pipeline.outbox ++ tail).map (·.id) ∧
      after.pipeline.worker.started = [.ofNat 1, .ofNat 3, .ofNat 2] := by
  obtain ⟨_, _, earlier, s, new, after, leads, -, alive, stillAlive, none, through, first, -,
    started⟩ := attended_overtaking
  have notEnded {d : Dispatcher} (alive : d.isEnded = false) : d ≠ .ended :=
    mt Dispatcher.isEnded_iff.mpr (Bool.eq_false_iff.mp alive)
  obtain ⟨tail, order, line⟩ :=
    (Watched.handed_over_in_sending_order (notEnded alive) leads).2.1 (notEnded stillAlive)
  rw [List.length_eq_zero_iff.mp through, List.map_nil, List.append_nil, none,
    List.nil_append] at line
  refine ⟨s, after, new, tail, leads, order, first, ?_, none, line, started⟩
  rw [started, List.map_append, first] at line
  exact (List.cons.inj line).2.symm

/-- In an interleaving of two callers the worker is started on the third operation before the
second, which was started before it. -/
theorem third_handed_over_first : ∃ settings worker notes,
    ∃ s : Watched Memory (Recorder ScriptedWorker), s.Attended settings (.new worker) notes ∧
      (starts notes).map (·.id) = [.ofNat 1, .ofNat 2, .ofNat 3] ∧
      s.pipeline.worker.started = [.ofNat 1, .ofNat 3, .ofNat 2] ∧
      ¬ s.pipeline.worker.started <+: (starts notes).map (·.id) := by
  obtain ⟨settings, worker, earlier, s, new, after, -, attended, -, -, -, -, -, dispatched,
    started⟩ := attended_overtaking
  refine ⟨settings, worker, _, after, attended, dispatched, started, fun kept => ?_⟩
  rw [dispatched, started] at kept
  revert kept
  decide

end CommitPipeline
