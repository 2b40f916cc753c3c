import Mathlib.Data.List.Induction
import CommitPipeline.Proofs.Admission

/-! The queue and its index. The index is extended by each graph that is queued, and made anew only
when graphs go; either way it is what one would make of the graphs as they stand. So a snapshot
leads to its place and back, whatever has been offered and taken out. The highest snapshot outlives
the graphs, so no snapshot is accepted twice. -/
namespace CommitPipeline.Queue

variable {q : Queue} {graph : Graph} {graphs : List Graph} {snapshot place : Nat}
  {accepted : List Nat}

/-! ### The index -/

/-- A graph at the end of the queue is one more entry of the index. -/
theorem placesOf_concat (graphs : List Graph) (graph : Graph) :
    placesOf (graphs ++ [graph]) = (placesOf graphs).insert graph.snapshot graphs.length := by
  simp only [placesOf, List.zipIdx_append, List.foldl_append, List.zipIdx_singleton,
    List.foldl_cons, List.foldl_nil, Nat.zero_add]

/-- Where snapshots ascend, the index leads to the place of each of them, and nowhere else. -/
theorem placesOf_eq_some (ascending : graphs.Pairwise (·.snapshot < ·.snapshot)) :
    (placesOf graphs)[snapshot]? = some place ↔
      graphs[place]?.map (·.snapshot) = some snapshot := by
  induction graphs using List.reverseRecOn with
  | nil => simp [placesOf]
  | append_singleton graphs graph ih =>
    obtain ⟨before, -, last⟩ := List.pairwise_append.mp ascending
    rw [placesOf_concat, Std.ExtTreeMap.getElem?_insert]
    simp only [Nat.compare_eq_eq]
    by_cases here : graph.snapshot = snapshot
    · -- No graph before this one has its snapshot.
      rw [if_pos here, Option.some.injEq]
      constructor
      · rintro rfl
        simp [here]
      · intro found
        obtain ⟨other, there, same⟩ := Option.map_eq_some_iff.mp found
        by_contra elsewhere
        rw [List.getElem?_append] at there
        split at there
        · have earlier := last other (List.mem_of_getElem? there) graph List.mem_cons_self
          omega
        · have bound := (List.getElem?_eq_some_iff.mp there).1
          rw [List.length_singleton] at bound
          omega
    · rw [if_neg here, ih before, List.getElem?_append]
      split
      · rfl
      · rename_i behind
        rw [List.getElem?_eq_none (Nat.not_lt.mp behind)]
        cases place - graphs.length <;> simp [here]

/-- The graphs have operations and stand by ascending snapshot, and the index is theirs. -/
structure Ordered (q : Queue) : Prop where
  ascending : q.graphs.Pairwise (·.snapshot < ·.snapshot)
  filled : ∀ graph ∈ q.graphs, graph.members ≠ []
  places : q.places = placesOf q.graphs

theorem ordered_empty : empty.Ordered := ⟨.nil, List.forall_mem_nil _, rfl⟩

theorem Ordered.index?_eq_some (ordered : q.Ordered) :
    q.index? snapshot = some place ↔ q.snapshotAt? place = some snapshot := by
  rw [index?, snapshotAt?, ordered.places]
  exact placesOf_eq_some ordered.ascending

/-! ### Offering a graph -/

/-- The queue once it has accepted a graph. A graph without operations leaves its snapshot only. -/
def accept (q : Queue) (graph : Graph) : Queue :=
  if graph.members = [] then { q with latest := some graph.snapshot }
  else {
    graphs := q.graphs ++ [graph]
    places := q.places.insert graph.snapshot q.graphs.length
    latest := some graph.snapshot }

/-- A graph is accepted if it is above all before it, and otherwise told the one it is not above. -/
theorem push_eq (q : Queue) (graph : Graph) : q.push graph =
    match q.latest with
    | some latest =>
      if graph.snapshot ≤ latest then .error (.orderingViolation graph.snapshot latest)
      else .ok (q.accept graph)
    | none => .ok (q.accept graph) := by
  have pushed : ((if graph.members.isEmpty = true
      then pure { q with latest := some graph.snapshot }
      else pure {
        graphs := q.graphs ++ [graph]
        places := q.places.insert graph.snapshot q.graphs.length
        latest := some graph.snapshot }) : Except Error Queue) = .ok (q.accept graph) := by
    simp only [List.isEmpty_iff, accept]
    split <;> rfl
  unfold push check
  cases q.latest with
  | none => exact pushed
  | some latest =>
    by_cases late : graph.snapshot ≤ latest
    · simp only [if_pos late]
      rfl
    · simp only [if_neg late]
      exact pushed

/-- Offers a graph to a queue, which stays as it is if it refuses it. -/
def offer (q : Queue) (graph : Graph) : Except Error Unit × Queue :=
  match q.push graph with
  | .ok next => (.ok (), next)
  | .error error => (.error error, q)

theorem offer_above (above : ∀ latest, q.latest = some latest → latest < graph.snapshot) :
    q.offer graph = (.ok (), q.accept graph) := by
  rw [offer, push_eq]
  cases known : q.latest with
  | none => rfl
  | some latest => simp only [if_neg (Nat.not_le.mpr (above latest known))]

theorem offer_late {latest : Nat} (known : q.latest = some latest)
    (late : graph.snapshot ≤ latest) :
    q.offer graph = (.error (.orderingViolation graph.snapshot latest), q) := by
  rw [offer, push_eq, known]
  simp only [if_pos late]

/-- A graph is either above all before it or late. -/
theorem above_or_late (q : Queue) (snapshot : Nat) :
    (∀ latest, q.latest = some latest → latest < snapshot) ∨
      ∃ latest, q.latest = some latest ∧ snapshot ≤ latest := by
  cases q.latest with
  | none => exact .inl nofun
  | some latest =>
    rcases Nat.lt_or_ge latest snapshot with below | late
    · exact .inl fun other same => Option.some.inj same ▸ below
    · exact .inr ⟨latest, rfl, late⟩

theorem offer_eq_ok_iff : (q.offer graph).1 = .ok () ↔
    ∀ latest, q.latest = some latest → latest < graph.snapshot := by
  rcases q.above_or_late graph.snapshot with above | ⟨latest, known, late⟩
  · rw [offer_above above]
    exact iff_of_true rfl above
  · rw [offer_late known late]
    exact iff_of_false nofun fun above => absurd (above latest known) (Nat.not_lt.mpr late)

/-! ### What a queue goes through -/

/-- What can come of a new queue, and the snapshots that it has accepted, the latest first. -/
inductive Reached : List Nat → Queue → Prop where
  | empty : Reached [] empty
  | offer {accepted : List Nat} {q : Queue} (reached : Reached accepted q) (graph : Graph) :
      Reached (if (q.offer graph).1.isOk then graph.snapshot :: accepted else accepted)
        (q.offer graph).2
  | prune {accepted : List Nat} {q : Queue} (reached : Reached accepted q)
      (drained : Graph → Bool) : Reached accepted (q.prune drained).2

/-- The queue is in order, and knows the last of the snapshots that it accepted, which is above all
others and above those of its graphs. -/
structure Sound (q : Queue) (accepted : List Nat) : Prop where
  ordered : q.Ordered
  descending : accepted.Pairwise (· > ·)
  latest : q.latest = accepted.head?
  below : ∀ graph ∈ q.graphs, graph.snapshot ∈ accepted

theorem Sound.le_latest {latest : Nat} (sound : q.Sound accepted) (known : q.latest = some latest)
    (member : snapshot ∈ accepted) : snapshot ≤ latest := by
  obtain ⟨others, rfl⟩ := List.head?_eq_some_iff.mp (sound.latest.symm.trans known)
  rcases List.mem_cons.mp member with rfl | earlier
  · exact Nat.le_refl _
  · exact Nat.le_of_lt (List.rel_of_pairwise_cons sound.descending earlier)

theorem Sound.lt_of_above (sound : q.Sound accepted)
    (above : ∀ latest, q.latest = some latest → latest < graph.snapshot) :
    ∀ snapshot ∈ accepted, snapshot < graph.snapshot := by
  intro snapshot member
  cases known : q.latest with
  | none =>
    rw [sound.latest, List.head?_eq_none_iff] at known
    simp [known] at member
  | some latest => exact Nat.lt_of_le_of_lt (sound.le_latest known member) (above latest known)

theorem Sound.accept (sound : q.Sound accepted)
    (above : ∀ snapshot ∈ accepted, snapshot < graph.snapshot) :
    (q.accept graph).Sound (graph.snapshot :: accepted) := by
  obtain ⟨⟨ascending, filled, places⟩, descending, -, below⟩ := sound
  have descends := List.pairwise_cons.mpr ⟨above, descending⟩
  rw [Queue.accept]
  split
  · exact ⟨⟨ascending, filled, places⟩, descends, rfl,
      fun other queued => List.mem_cons_of_mem _ (below other queued)⟩
  · rename_i nonempty
    refine ⟨⟨?ascending, ?filled, ?places⟩, descends, rfl, ?below⟩
    case ascending =>
      refine List.pairwise_append.mpr ⟨ascending, List.pairwise_singleton _ _, ?_⟩
      rintro other queued _ (_ | ⟨_, ⟨⟩⟩)
      exact above other.snapshot (below other queued)
    case filled =>
      exact List.forall_mem_append.mpr ⟨filled, List.forall_mem_singleton.mpr nonempty⟩
    case places => rw [placesOf_concat, places]
    case below =>
      refine List.forall_mem_append.mpr ⟨fun other queued => ?_, ?_⟩
      · exact List.mem_cons_of_mem _ (below other queued)
      · exact List.forall_mem_singleton.mpr List.mem_cons_self

theorem Sound.prune (sound : q.Sound accepted) (drained : Graph → Bool) :
    (q.prune drained).2.Sound accepted := by
  obtain ⟨⟨ascending, filled, places⟩, descending, latest, below⟩ := sound
  have kept : ∀ graph ∈ (q.prune drained).2.graphs, graph ∈ q.graphs := by
    rw [prune_graphs]
    exact fun graph queued => (List.mem_filter.mp queued).1
  refine ⟨⟨?ascending, fun graph queued => filled graph (kept graph queued), ?places⟩, descending,
    (q.prune_latest drained).trans latest, fun graph queued => below graph (kept graph queued)⟩
  case ascending =>
    rw [prune_graphs]
    exact ascending.filter _
  case places =>
    simp only [Queue.prune, List.partition_eq_filter_filter]
    split
    · -- Nothing goes, so the graphs and their index stay.
      rename_i nothing
      have all : q.graphs.filter (fun graph => !drained graph) = q.graphs := by
        refine List.filter_eq_self.mpr fun graph queued => ?_
        have stays := List.filter_eq_nil_iff.mp (List.isEmpty_iff.mp nothing) graph queued
        simpa using stays
      change q.places = placesOf (q.graphs.filter fun graph => !drained graph)
      rw [all, places]
    · rfl

theorem Reached.sound (reached : Reached accepted q) : q.Sound accepted := by
  induction reached with
  | empty => exact ⟨ordered_empty, .nil, rfl, List.forall_mem_nil _⟩
  | @offer accepted q reached graph ih =>
    rcases q.above_or_late graph.snapshot with above | ⟨latest, known, late⟩
    · rw [offer_above above]
      exact ih.accept (ih.lt_of_above above)
    · rw [offer_late known late]
      exact ih
  | prune reached drained ih => exact ih.prune drained

/-- Whatever a queue has been offered and whatever has been taken out of it, its graphs have
operations and stand by ascending snapshot, and a snapshot leads to a place exactly if the place
leads to the snapshot. It knows the highest snapshot that it ever accepted, and accepts no snapshot
twice: it takes what is above that one, and nothing else changes it. What is taken out is what was
asked for, in the order of the queue, and the others stay in theirs. -/
theorem reached_in_order (reached : Reached accepted q) :
    q.graphs.Pairwise (·.snapshot < ·.snapshot) ∧ (∀ graph ∈ q.graphs, graph.members ≠ []) ∧
      (∀ snapshot place, q.index? snapshot = some place ↔ q.snapshotAt? place = some snapshot) ∧
      (∀ snapshot, q.latest = some snapshot ↔
        snapshot ∈ accepted ∧ ∀ other ∈ accepted, other ≤ snapshot) ∧
      accepted.Nodup ∧
      (∀ graph : Graph, graph.snapshot ∈ accepted → (q.offer graph).1 ≠ .ok ()) ∧
      (∀ graph, (q.offer graph).1 = .ok () ↔
        ∀ latest, q.latest = some latest → latest < graph.snapshot) ∧
      (∀ graph, (q.offer graph).1 ≠ .ok () → (q.offer graph).2 = q) ∧
      ∀ drained, (q.prune drained).1 = q.graphs.filter drained ∧
        (q.prune drained).2.graphs = q.graphs.filter fun graph => !drained graph := by
  have sound := reached.sound
  refine ⟨sound.ordered.ascending, sound.ordered.filled,
    fun _ _ => sound.ordered.index?_eq_some, fun snapshot => ⟨fun known => ?_, ?_⟩,
    sound.descending.imp Nat.ne_of_gt, fun graph member taken => ?_, fun _ => offer_eq_ok_iff,
    fun graph refused => ?_, fun drained => ⟨q.prune_gone drained, q.prune_graphs drained⟩⟩
  · exact ⟨List.mem_of_head? (sound.latest.symm.trans known),
      fun other member => sound.le_latest known member⟩
  · rintro ⟨member, highest⟩
    cases known : q.latest with
    | none =>
      rw [sound.latest, List.head?_eq_none_iff] at known
      simp [known] at member
    | some latest =>
      have isAccepted : latest ∈ accepted := List.mem_of_head? (sound.latest.symm.trans known)
      rw [Nat.le_antisymm (highest latest isAccepted) (sound.le_latest known member)]
  · have above := sound.lt_of_above (offer_eq_ok_iff.mp taken) graph.snapshot member
    exact Nat.lt_irrefl _ above
  · rcases q.above_or_late graph.snapshot with above | ⟨latest, known, late⟩
    · exact (refused (offer_eq_ok_iff.mpr above)).elim
    · rw [offer_late known late]

/-- Three graphs are queued and the middle one goes, then a commit without operations comes, and the
snapshot of the middle one comes again. -/
def middleGone : Queue :=
  let first := (empty.offer ⟨10, [.ofNat 1]⟩).2
  let queued := ((first.offer ⟨20, [.ofNat 2]⟩).2.offer ⟨30, [.ofNat 3]⟩).2
  ((((queued.prune (·.snapshot = 20)).2.offer ⟨40, []⟩).2).offer ⟨20, [.ofNat 2]⟩).2

theorem middle_gone_in_order : Reached [40, 30, 20, 10] middleGone ∧
    middleGone.index? 30 = some 1 ∧ middleGone.snapshotAt? 1 = some 30 ∧
    middleGone.latest = some 40 ∧ (middleGone.offer ⟨40, [.ofNat 4]⟩).1 ≠ .ok () ∧
    (middleGone.offer ⟨41, []⟩).1 = .ok () := by
  have reached : Reached [40, 30, 20, 10] middleGone :=
    (((((Reached.empty.offer ⟨10, [.ofNat 1]⟩).offer ⟨20, [.ofNat 2]⟩).offer
      ⟨30, [.ofNat 3]⟩).prune (·.snapshot = 20)).offer ⟨40, []⟩).offer ⟨20, [.ofNat 2]⟩
  obtain ⟨-, -, places, latest, -, -, taken, -⟩ := reached_in_order reached
  have third : middleGone.snapshotAt? 1 = some 30 := by decide +kernel
  have known : middleGone.latest = some 40 := (latest 40).mpr (by decide)
  refine ⟨reached, (places 30 1).mpr third, third, known, fun accepted => ?_, ?_⟩
  · exact absurd ((taken _).mp accepted 40 known) (by decide)
  · refine (taken _).mpr fun latest same => ?_
    cases known.symm.trans same
    decide

end CommitPipeline.Queue
