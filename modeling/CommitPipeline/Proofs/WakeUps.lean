import CommitPipeline.Proofs.Draining
import CommitPipeline.Proofs.Eligibility
import CommitPipeline.Proofs.NextHold

/-! What time alone changes. As time goes by operations only get ready, and none does before the
next hold ends; so a dispatcher that runs whenever the next hold ends sees every change. -/
namespace CommitPipeline

/-! ### Leaving entries out -/

namespace Listed
variable {fewer entries : List Listed}

private theorem insertByPriority_extends (entry : Listed) (entries : List Listed) :
    entries.Sublist (insertByPriority entry entries) := by
  induction entries with
  | nil => exact List.nil_sublist _
  | cons other rest ih =>
    rw [insertByPriority]
    split
    · exact (List.Sublist.refl _).cons entry
    · exact ih.cons_cons other

/-- Entries that are in their places already may be left out before or after another is put in. -/
private theorem insertByPriority_sublist (entry : Listed) (part : fewer.Sublist entries)
    (sorted : entries.Pairwise (Precedes fun _ _ => True)) :
    (insertByPriority entry fewer).Sublist (insertByPriority entry entries) := by
  induction part with
  | slnil => exact .refl _
  | @cons fewer entries other part ih =>
    obtain ⟨otherFirst, restSorted⟩ := List.pairwise_cons.mp sorted
    rw [insertByPriority.eq_def entry (other :: entries)]
    dsimp only
    split
    · rename_i notHigher
      -- Whatever follows `other` is not higher either, so the entry goes to the front.
      have front : insertByPriority entry fewer = entry :: fewer := by
        cases fewer with
        | nil => rfl
        | cons next rest =>
          have below := (otherFirst next (part.subset List.mem_cons_self)).priority_le
          rw [insertByPriority, if_pos (Int.le_trans below notHigher)]
      rw [front]
      exact (part.cons other).cons_cons entry
    · exact (ih restSorted).cons other
  | @cons_cons fewer entries other part ih =>
    obtain ⟨-, restSorted⟩ := List.pairwise_cons.mp sorted
    rw [insertByPriority, insertByPriority]
    split
    · exact (part.cons_cons other).cons_cons entry
    · exact (ih restSorted).cons_cons other

/-- Leaving entries out does not change the order of the others. -/
theorem byPriority_sublist (part : fewer.Sublist entries) :
    (byPriority fewer).Sublist (byPriority entries) := by
  induction part with
  | slnil => exact .refl _
  | @cons fewer entries other _ ih => exact ih.trans (insertByPriority_extends other _)
  | @cons_cons fewer entries other _ ih =>
    refine insertByPriority_sublist other ih (byPriority_pairwise ?_)
    exact List.pairwise_of_forall fun _ _ => trivial

end Listed

/-! ### Time alone -/

namespace Readiness
variable {r : Readiness} {op : Operation} {now t : Instant}

theorem isReady_mono (order : now ≤ t) (isReady : r.isReady op now = true) :
    r.isReady op t = true := by
  obtain ⟨pending, candidate, free, met⟩ := isReady_iff.mp isReady
  exact isReady_iff.mpr ⟨pending, candidate, Engine.isHeld_later free order, met⟩

/-- An operation that only gets ready later is held until some time in between. -/
theorem hold_of_isReady (before : r.isReady op now = false) (after : r.isReady op t = true) :
    op.status = .pending ∧ ∃ hold, op.hold = some hold ∧ now < hold ∧ hold ≤ t := by
  obtain ⟨pending, candidate, free, met⟩ := isReady_iff.mp after
  refine ⟨pending, ?_⟩
  have waits : op.isHeld now = true := by
    by_contra notHeld
    have isReady : r.isReady op now = true :=
      isReady_iff.mpr ⟨pending, candidate, Bool.eq_false_iff.mpr notHeld, met⟩
    cases before.symm.trans isReady
  obtain ⟨hold, found, ahead⟩ := Operation.isHeld_iff.mp waits
  refine ⟨hold, found, ahead, Instant.not_lt.mp fun still => ?_⟩
  cases free.symm.trans (Operation.isHeld_iff.mpr ⟨hold, found, still⟩)

end Readiness

namespace Core
variable {c : Core} {now t deadline : Instant} {id : OperationId} {hold : Instant}

/-- As time goes by operations are added to those that may start, and none is taken away. -/
theorem ready_sublist (c : Core) (order : now ≤ t) : (c.ready now).Sublist (c.ready t) := by
  refine (Listed.byPriority_sublist ?_).map _
  exact List.monotone_filter_right _ fun entry => Readiness.isReady_mono order

theorem holds_iff : c.Holds id hold ↔ ∃ graph ∈ c.readiness.candidates, id ∈ graph.members ∧
    ∃ op, c.table[id]? = some op ∧ op.status = .pending ∧ op.hold = some hold := by
  constructor
  · rintro ⟨entry, considered, rfl, pending, held⟩
    obtain ⟨⟨graph, candidate, member⟩, found⟩ := Readiness.mem_considered considered
    exact ⟨graph, candidate, member, entry.operation, found, pending, held⟩
  · rintro ⟨graph, candidate, member, op, found, pending, held⟩
    obtain ⟨entry, considered, named, rfl⟩ := Readiness.considered_of_mem candidate member found
    exact ⟨entry, considered, named, pending, held⟩

/-- The next hold is ahead, and some operation has it. -/
theorem holds_of_nextHold (found : c.nextHold now = some deadline) :
    now < deadline ∧ ∃ id, c.Holds id deadline := by
  obtain ⟨entry, considered, chosen⟩ := List.mem_filterMap.mp (Instant.earliest?_spec found).1
  simp only [Bool.and_eq_true, decide_eq_true_eq] at chosen
  split at chosen
  · rename_i release held
    split at chosen
    · rename_i waits
      cases chosen
      exact ⟨waits.2, entry.id, entry, considered, rfl, waits.1, held⟩
    · cases chosen
  · cases chosen

/-- The next hold is the least of those ahead. -/
theorem nextHold_eq_some_iff : c.nextHold now = some deadline ↔
    now < deadline ∧ (∃ id, c.Holds id deadline) ∧
      ∀ id hold, c.Holds id hold → now < hold → deadline ≤ hold := by
  constructor
  · intro found
    obtain ⟨ahead, holds⟩ := holds_of_nextHold found
    refine ⟨ahead, holds, fun id hold holds ahead => ?_⟩
    obtain ⟨earliest, again, bound⟩ := (nextHold_covers now holds).mpr ahead
    cases found.symm.trans again
    exact bound
  · rintro ⟨ahead, ⟨id, holds⟩, least⟩
    obtain ⟨earliest, found, bound⟩ := (nextHold_covers now holds).mpr ahead
    obtain ⟨earliestAhead, other, otherHolds⟩ := holds_of_nextHold found
    have same : earliest = deadline :=
      Instant.le_antisymm bound (least other earliest otherHolds earliestAhead)
    rw [found, same]

/-- What may start differs at two instants only if the next hold ends in between. -/
theorem nextHold_of_ready_ne (order : now ≤ t) (differ : c.ready now ≠ c.ready t) :
    ∃ deadline, c.nextHold now = some deadline ∧ now < deadline ∧ deadline ≤ t := by
  have later : ∃ entry ∈ c.readiness.considered,
      c.readiness.isReady entry.operation now ≠ c.readiness.isReady entry.operation t := by
    by_contra same
    push Not at same
    refine differ ?_
    rw [ready, ready, Readiness.ready, Readiness.ready, List.filter_congr same]
  obtain ⟨entry, considered, differ⟩ := later
  have before : c.readiness.isReady entry.operation now = false := by
    by_contra isReady
    rw [Bool.not_eq_false] at isReady
    exact differ (isReady.trans (Readiness.isReady_mono order isReady).symm)
  have after : c.readiness.isReady entry.operation t = true := by
    rw [before] at differ
    exact Bool.eq_true_of_not_eq_false differ.symm
  obtain ⟨pending, hold, held, ahead, bound⟩ := Readiness.hold_of_isReady before after
  obtain ⟨deadline, found, below⟩ :=
    (nextHold_covers now ⟨entry, considered, rfl, pending, held⟩).mpr ahead
  exact ⟨deadline, found, (holds_of_nextHold found).1, Instant.le_trans below bound⟩

/-- All holds of pending operations are among some instants. -/
def HeldWithin (c : Core) (holds : List Instant) : Prop :=
  ∀ (id : OperationId) (op : Operation), c.table[id]? = some op → op.status = .pending →
    ∀ hold, op.hold = some hold → hold ∈ holds

theorem HeldWithin.mem {holds : List Instant} (within : c.HeldWithin holds)
    (held : c.Holds id hold) : hold ∈ holds := by
  obtain ⟨-, -, -, op, found, pending, same⟩ := holds_iff.mp held
  exact within id op found pending hold same

end Core

/-! ### A dispatcher that wakes at each deadline -/

namespace Engine
variable {σ : Type} [OperationStore σ] {e later : Engine σ} {now look t : Instant}

/-- A pass adds no hold of a pending operation. -/
theorem heldWithin_dispatch {holds : List Instant} (e : Engine σ) (now : Instant)
    (within : e.core.HeldWithin holds) :
    (e.apply now .dispatch).2.core.HeldWithin holds := by
  have pruned : e.core.prune.2.HeldWithin holds := fun id op held =>
    within id op (Core.held_of_pruned held)
  have passed : (dispatch { e with core := e.core.prune.2 } now).2.core.HeldWithin holds := by
    rw [dispatch]
    split
    · exact pruned
    · refine start_preserves (P := fun e => e.core.HeldWithin holds)
        { e with core := e.core.prune.2 } _ ?refused ?accepted pruned
      case refused => exact fun _ _ _ _ _ _ within => within
      case accepted =>
        refine fun e _ _ _ _ within => ⟨fun _ => within, fun op _ id other held pending => ?_⟩
        rw [Core.start, lookup_insert] at held
        split at held
        · cases held
          cases pending
        · exact within id other held pending
  have finished : (e.apply now .dispatch).2 = (e.finish now .none).2 := rfl
  rw [finished]
  simp only [finish]
  exact passed

/-- Fewer holds are ahead at a hold than before it. -/
private theorem length_filter_lt {holds : List Instant} {deadline : Instant}
    (ahead : look < deadline) (member : deadline ∈ holds) :
    (holds.filter (deadline < ·)).length < (holds.filter (look < ·)).length := by
  have shorter : ((holds.filter (look < ·)).filter (deadline < ·)).length <
      (holds.filter (look < ·)).length := by
    refine List.length_filter_lt_length_iff_exists.mpr ⟨deadline, ?_, ?_⟩
    · simp [member, ahead]
    · simp [Instant.lt_irrefl]
  have same : (holds.filter (look < ·)).filter (deadline < ·) = holds.filter (deadline < ·) := by
    rw [List.filter_filter]
    refine List.filter_congr fun hold _ => ?_
    rw [Bool.eq_iff_iff, Bool.and_eq_true, decide_eq_true_eq, decide_eq_true_eq,
      and_iff_left_iff_imp]
    intro later
    rw [Instant.lt_iff] at ahead later ⊢
    omega
  rwa [same] at shorter

/-- A dispatcher wakes whenever the next hold of its latest look ends, then makes a pass and looks
again; nobody else calls meanwhile. -/
inductive Wakes (e : Engine σ) (now : Instant) : Engine σ → Instant → Prop where
  | begin : Wakes e now e now
  | wake {later : Engine σ} {look deadline : Instant} (wakes : e.Wakes now later look)
      (due : later.core.nextHold look = some deadline) :
      Wakes e now (later.apply deadline .dispatch).2 deadline

/-- The dispatcher catches up with any instant: it gets to a look after which no hold ends until
then. Each time it wakes one of the finitely many holds is over. -/
theorem Wakes.catches_up {holds : List Instant} (within : later.core.HeldWithin holds)
    (wakes : e.Wakes now later look) (order : look ≤ t) :
    ∃ last latest, e.Wakes now last latest ∧ latest ≤ t ∧
      ∀ deadline, last.core.nextHold latest = some deadline → t < deadline := by
  induction left : (holds.filter (look < ·)).length using Nat.strong_induction_on
    generalizing later look with
  | _ count ih =>
    by_cases due : ∃ deadline, later.core.nextHold look = some deadline ∧ deadline ≤ t
    · obtain ⟨deadline, found, bound⟩ := due
      obtain ⟨ahead, id, held⟩ := Core.holds_of_nextHold found
      have fewer := length_filter_lt ahead (within.mem held)
      rw [left] at fewer
      exact ih _ fewer (heldWithin_dispatch later deadline within) (wakes.wake found) bound rfl
    · refine ⟨later, look, wakes, order, fun deadline found => ?_⟩
      exact Instant.not_le.mp fun bound => due ⟨deadline, found, bound⟩

/-- For any state and any two instants, the later one last: what may start at the first may start at
the second, in the same order; the two lists differ only if the next hold ends in between, and that
is the least hold ahead of a pending operation that the algorithm considers. So a dispatcher that
wakes whenever the next hold ends has, at any time, seen at its latest look what may start. -/
theorem time_matters_at_holds (e : Engine σ) (order : now ≤ t) :
    (e.core.ready now).Sublist (e.core.ready t) ∧
    (e.core.ready now ≠ e.core.ready t →
      ∃ deadline, e.core.nextHold now = some deadline ∧ now < deadline ∧ deadline ≤ t) ∧
    (∀ deadline, e.core.nextHold now = some deadline ↔
      now < deadline ∧ (∃ id, e.core.Holds id deadline) ∧
        ∀ id hold, e.core.Holds id hold → now < hold → deadline ≤ hold) ∧
    ∃ later look, e.Wakes now later look ∧ look ≤ t ∧
      ∀ u, look ≤ u → u ≤ t → later.core.ready u = later.core.ready look := by
  refine ⟨e.core.ready_sublist order, Core.nextHold_of_ready_ne order,
    fun _ => Core.nextHold_eq_some_iff, ?_⟩
  have within : e.core.HeldWithin (e.core.table.values.filterMap (·.hold)) :=
    fun id op held _ hold isHeld =>
      List.mem_filterMap.mpr ⟨op, mem_values.mpr ⟨id, held⟩, isHeld⟩
  obtain ⟨later, look, wakes, bound, past⟩ := Wakes.begin.catches_up within order
  refine ⟨later, look, wakes, bound, fun u after before => ?_⟩
  by_contra differ
  obtain ⟨deadline, found, -, due⟩ := Core.nextHold_of_ready_ne after (Ne.symm differ)
  exact Instant.not_le.mpr (past deadline found) (Instant.le_trans due before)

/-- A commit with two held operations and one that waits for the first of them. -/
def heldTwice : List Call := [
  .request .first (.append 1
    [{ Operation.new (.ofNat 1) with hold := some (.after .first .microsecond) },
      { Operation.new (.ofNat 2) with hold := some .last },
      .new (.ofNat 3)] [⟨.ofNat 3, .ofNat 1⟩])]

theorem first_hold_wakes :
    let e := (runOf (.new "uploads" []) .commitGraph Memory.empty heldTwice).2
    let t := Instant.after .first (.ofMillis 1)
    e.core.ready .first = [] ∧ e.core.ready t = [.ofNat 1] ∧
      e.core.nextHold .first = some (.after .first .microsecond) ∧
      ((e.core.ready .first).Sublist (e.core.ready t) ∧
      (e.core.ready .first ≠ e.core.ready t →
        ∃ deadline, e.core.nextHold .first = some deadline ∧ .first < deadline ∧ deadline ≤ t) ∧
      (∀ deadline, e.core.nextHold .first = some deadline ↔
        .first < deadline ∧ (∃ id, e.core.Holds id deadline) ∧
          ∀ id hold, e.core.Holds id hold → .first < hold → deadline ≤ hold) ∧
      ∃ later look, e.Wakes .first later look ∧ look ≤ t ∧
        ∀ u, look ≤ u → u ≤ t → later.core.ready u = later.core.ready look) := by
  intro e t
  have order : Instant.first ≤ t := by decide +kernel
  have covered := time_matters_at_holds e order
  exact ⟨by decide +kernel, by decide +kernel, by decide +kernel, covered⟩

end Engine
end CommitPipeline
