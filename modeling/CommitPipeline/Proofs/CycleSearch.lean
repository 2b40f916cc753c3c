import Mathlib.Data.List.Perm.Subperm
import Mathlib.Logic.Relation
import CommitPipeline.Proofs.WalkOrder

/-! Which plans have a cycle, and what the search for one finds. The order of the walk is a good one
but for cycles: a name that stands before one of its dependencies was still open when the dependency
was done with, so the walk came from the name to the dependency, and the two lie on a cycle. The
checks of a plan thus accept exactly the plans without faults, and a cycle is reported by a name on
it. -/
namespace CommitPipeline.Plan
open Relation (ReflTransGen TransGen)
variable {p : Plan} {name dependency other : String} {w after : Walk} {names : List String}

/-- An operation is to come after another one that it names. -/
def ComesAfter (p : Plan) (name dependency : String) : Prop :=
  ∃ op ∈ p.operations, op.name = name ∧ dependency ∈ op.after

/-- No operation comes after itself, at whatever distance. -/
def Acyclic (p : Plan) : Prop :=
  ∀ name, ¬ TransGen p.ComesAfter name name

theorem mem_dependents : other ∈ p.dependents name ↔ p.ComesAfter other name := by
  simp only [dependents, List.mem_map, List.mem_filter, List.contains_iff_mem, ComesAfter,
    and_assoc, and_comm (a := _ = other)]

theorem comesAfter_of_dependency (depends : dependency ∈ p.dependencies name) :
    p.ComesAfter name dependency := by
  rw [dependencies] at depends
  cases found : p.operations.find? (·.name = name) with
  | none => simp [found] at depends
  | some op =>
    rw [found] at depends
    exact ⟨op, List.mem_of_find?_eq_some found, by simpa using List.find?_some found, depends⟩

theorem ComesAfter.listed (after : p.ComesAfter name dependency) : name ∈ p.operationNames := by
  obtain ⟨op, listed, rfl, -⟩ := after
  exact List.mem_map_of_mem listed

/-! ### What the walk has done with stands in order, but for cycles -/

/-- Names that were met are names of the plan, each met and done with once. What comes after a name
was done with before it, or is a dependency of it at whatever distance. -/
structure Walk.Sound (p : Plan) (w : Walk) : Prop where
  met : ∀ name ∈ w.done, name ∈ w.met
  metOnce : w.met.Nodup
  listed : ∀ name ∈ w.met, name ∈ p.operationNames
  doneOnce : w.done.Nodup
  placed : ∀ front name back, w.done = front ++ name :: back →
    ∀ other, p.ComesAfter other name → other ∈ back ∨ ReflTransGen p.ComesAfter name other

theorem Walk.Sound.length_le (sound : w.Sound p) : w.met.length ≤ p.operationCount := by
  have within := (sound.metOnce.subperm sound.listed).length_le
  rwa [operationNames, List.length_map] at within

/-- The walk may meet another name. -/
theorem Walk.Sound.meet (sound : w.Sound p) (listed : name ∈ p.operationNames)
    (unmet : name ∉ w.met) : Walk.Sound p { w with met := name :: w.met } where
  met other done := List.mem_cons_of_mem name (sound.met other done)
  metOnce := List.nodup_cons.mpr ⟨unmet, sound.metOnce⟩
  listed other met := by
    rcases List.mem_cons.mp met with rfl | before
    · exact listed
    · exact sound.listed other before
  doneOnce := sound.doneOnce
  placed := sound.placed

/-- The walk may be done with a name once it is done with all that comes after it, but for what is a
dependency as well. -/
theorem Walk.Sound.finish (sound : w.Sound p) (met : name ∈ w.met) (undone : name ∉ w.done)
    (followed : ∀ other, p.ComesAfter other name →
      other ∈ w.done ∨ ReflTransGen p.ComesAfter name other) :
    Walk.Sound p { w with done := name :: w.done } where
  met other done := by
    rcases List.mem_cons.mp done with rfl | before
    · exact met
    · exact sound.met other before
  metOnce := sound.metOnce
  listed := sound.listed
  doneOnce := List.nodup_cons.mpr ⟨undone, sound.doneOnce⟩
  placed front one back split other after := by
    rcases List.cons_eq_append_iff.mp split with ⟨rfl, same⟩ | ⟨front, rfl, before⟩
    · cases same
      exact followed other after
    · exact sound.placed front one back before other after

/-- The walk has come to a name from all that it has met and is not done with. -/
def Walk.CameTo (p : Plan) (w : Walk) (name : String) : Prop :=
  ∀ other ∈ w.met, other ∉ w.done → ReflTransGen p.ComesAfter name other

/-- What a walk was not done with when it met it again, it is not done with later. -/
def Walk.KeepsOpen (w after : Walk) : Prop :=
  ∀ name ∈ w.met, name ∉ w.done → name ∉ after.done

theorem Walk.CameTo.goesOn (came : w.CameTo p name) (goesOn : w.GoesOn after) :
    after.CameTo p name := by
  intro other met undone
  have metBefore := (goesOn.new other met).resolve_right undone
  exact came other metBefore fun done => undone (goesOn.done other done)

theorem Walk.GoesOn.length_le (goesOn : w.GoesOn after) (sound : w.Sound p) :
    w.met.length ≤ after.met.length :=
  (sound.metOnce.subperm goesOn.met).length_le

/-- What a step keeps, from any walk that has met enough names already, a row of steps keeps. -/
theorem sound_foldl {step : Walk → String → Walk} {enough : Nat}
    (goesOn : ∀ (w : Walk) (name : String), w.GoesOn (step w name))
    (sound_step : ∀ (w : Walk) (name : String), w.Sound p → name ∈ p.operationNames →
      w.CameTo p name → enough ≤ w.met.length →
      (step w name).Sound p ∧ w.KeepsOpen (step w name))
    (sound : w.Sound p) (listed : ∀ name ∈ names, name ∈ p.operationNames)
    (came : ∀ name ∈ names, w.CameTo p name) (met : enough ≤ w.met.length) :
    (names.foldl step w).Sound p ∧ w.KeepsOpen (names.foldl step w) := by
  induction names generalizing w with
  | nil => exact ⟨sound, fun _ _ undone => undone⟩
  | cons name rest ih =>
    obtain ⟨soundNext, kept⟩ := sound_step w name sound (listed name List.mem_cons_self)
      (came name List.mem_cons_self) met
    have next := goesOn w name
    obtain ⟨soundLast, keptLast⟩ := ih soundNext
      (fun other member => listed other (List.mem_cons_of_mem _ member))
      (fun other member => (came other (List.mem_cons_of_mem _ member)).goesOn next)
      (met.trans (next.length_le sound))
    exact ⟨soundLast, fun other metBefore undone =>
      keptLast other (next.met other metBefore) (kept other metBefore undone)⟩

/-- A visit keeps the order if the walk came to the name from all that is open. The depth suffices,
since every step down has met one more name of the plan. -/
theorem sound_visit (p : Plan) (depth : Nat) (w : Walk) (name : String) (sound : w.Sound p)
    (listed : name ∈ p.operationNames) (came : w.CameTo p name)
    (met : p.operationCount + 1 - depth ≤ w.met.length) :
    (p.visit depth w name).Sound p ∧ w.KeepsOpen (p.visit depth w name) := by
  induction depth generalizing w name with
  | zero =>
    have within := sound.length_le
    omega
  | succ depth ih =>
    rw [visit]
    split
    · exact ⟨sound, fun _ _ undone => undone⟩
    · rename_i again
      have unmet : name ∉ w.met := by simpa using again
      have undone : name ∉ w.done := fun done => unmet (sound.met name done)
      have soundHere := sound.meet listed unmet
      have cameHere : Walk.CameTo p { w with met := name :: w.met } name := by
        intro other member undone
        rcases List.mem_cons.mp member with rfl | before
        · exact .refl
        · exact came other before undone
      have comesAfter : ∀ other ∈ (p.dependents name).reverse, p.ComesAfter other name :=
        fun other member => mem_dependents.mp (List.mem_reverse.mp member)
      have goesOn := goesOn_foldl (goesOn_visit p depth) (p.dependents name).reverse
        { w with met := name :: w.met }
      obtain ⟨soundInner, kept⟩ := sound_foldl (goesOn_visit p depth) ih soundHere
        (fun other member => (comesAfter other member).listed)
        (fun other member one met undone =>
          .head (comesAfter other member) (cameHere one met undone))
        (by rw [List.length_cons]; omega)
      refine ⟨soundInner.finish (goesOn.met name List.mem_cons_self)
        (kept name List.mem_cons_self undone) fun other after => ?_,
        fun other metBefore stillOpen => ?_⟩
      · -- What comes after the name has been met. If it is still open, the walk came from there.
        have within := soundHere.length_le
        obtain ⟨deeper, rfl⟩ : ∃ deeper, depth = deeper + 1 :=
          Nat.exists_eq_succ_of_ne_zero (by rw [List.length_cons] at within; omega)
        have met := met_foldl p deeper { w with met := name :: w.met }
          (List.mem_reverse.mpr (mem_dependents.mpr after))
        exact or_iff_not_imp_left.mpr ((cameHere.goesOn goesOn) other met)
      · rw [List.mem_cons, not_or]
        exact ⟨fun same => unmet (same ▸ metBefore),
          kept other (List.mem_cons_of_mem name metBefore) stillOpen⟩

theorem sound_walkOrder (p : Plan) : ∃ met, Walk.Sound p ⟨met, p.walkOrder⟩ := by
  have start : Walk.Sound p ⟨[], []⟩ := by
    refine ⟨nofun, .nil, nofun, .nil, fun front name back split => ?_⟩
    simp at split
  have whole := sound_foldl (goesOn_visit p (p.operationCount + 1))
    (sound_visit p (p.operationCount + 1)) start (fun _ member => member) (fun _ _ => nofun)
    (by simp)
  exact ⟨_, whole.1⟩

/-! ### What the search finds -/

theorem misplaced?_eq_some {before order : List String}
    (found : p.misplaced? before order = some dependency) : ∃ front name back,
      order = front ++ name :: back ∧ dependency ∈ p.dependencies name ∧
        dependency ∉ before ∧ dependency ∉ front := by
  induction order generalizing before with
  | nil => cases found
  | cons first rest ih =>
    rw [misplaced?] at found
    split at found
    · rename_i missing
      obtain rfl := Option.some.inj found
      obtain ⟨depends, absent⟩ := List.mem_filter.mp (List.mem_of_getLast? missing)
      exact ⟨[], first, rest, rfl, depends, by simpa using absent, List.not_mem_nil⟩
    · obtain ⟨front, name, back, rfl, depends, absent, behind⟩ := ih found
      rw [List.mem_cons, not_or] at absent
      exact ⟨first :: front, name, back, rfl, depends, absent.2,
        fun member => (List.mem_cons.mp member).elim absent.1 behind⟩

/-- What is found stands behind an operation that is to come after it, and so lies on a cycle. -/
theorem cycle_of_misplaced? (known : ∀ name dependency, p.ComesAfter name dependency →
      dependency ∈ p.operationNames)
    (found : p.misplaced? [] p.walkOrder = some dependency) :
    TransGen p.ComesAfter dependency dependency := by
  obtain ⟨front, name, back, split, depends, -, behind⟩ := misplaced?_eq_some found
  have after := comesAfter_of_dependency depends
  obtain ⟨met, sound⟩ := sound_walkOrder p
  have inOrder := mem_walkOrder (known name dependency after)
  rw [split, List.mem_append, List.mem_cons] at inOrder
  rcases inOrder.resolve_left behind with rfl | later
  · exact .single after
  · obtain ⟨between, rest, rfl⟩ := List.append_of_mem later
    rcases sound.placed (front ++ name :: between) dependency rest (by simp [split]) name after with
      earlier | waits
    · -- The order has no name twice, so the operation does not stand behind the dependency too.
      have once := sound.doneOnce
      rw [split, List.nodup_append] at once
      have twice := (List.nodup_cons.mp once.2.1).1
      exact absurd (List.mem_append_right _ (List.mem_cons_of_mem _ earlier)) twice
    · exact .tail' waits after

/-- Ranks fall along every dependency, so no operation is behind itself. -/
theorem acyclic_of_cycleFault? (fine : p.cycleFault? = none) (distinct : p.operationNames.Nodup) :
    p.Acyclic := by
  have falls {name dependency : String} (waits : TransGen p.ComesAfter name dependency) :
      p.rank dependency < p.rank name := by
    induction waits with
    | single after =>
      obtain ⟨op, listed, rfl, after⟩ := after
      exact rank_lt fine distinct listed after
    | tail _ after ih =>
      obtain ⟨op, listed, rfl, after⟩ := after
      exact (rank_lt fine distinct listed after).trans ih
  exact fun name waits => absurd (falls waits) (Nat.lt_irrefl _)

/-! ### Which plans are accepted -/

/-- What is asked of a plan, but for cycles. -/
structure WellFormed (p : Plan) : Prop where
  named : ∃ c ∈ p.name.toList, Text.isBlank c = false
  renamed : p.name ∉ p.previousNames
  nonempty : p.graphs ≠ []
  ascending : p.graphs.Pairwise (·.snapshot < ·.snapshot)
  distinct : p.operationNames.Nodup
  known : ∀ op ∈ p.operations, ∀ dependency ∈ op.after,
    dependency ∈ p.operationNames ∧ dependency ≠ op.name
  once : ∀ op ∈ p.operations, op.after.Nodup
  /-- Commits in turn do not wait for later ones. -/
  inTurn : p.algorithm = .commitGraph → ∀ graph ∈ p.graphs, ∀ op ∈ graph.operations,
    ∀ later ∈ p.graphs, graph.snapshot < later.snapshot →
      ∀ other ∈ later.operations, other.name ∉ op.after

theorem nameFault?_eq_none : p.nameFault? = none ↔
    (∃ c ∈ p.name.toList, Text.isBlank c = false) ∧ p.name ∉ p.previousNames := by
  rw [nameFault?]
  split
  · rename_i blank
    refine iff_of_false nofun fun ⟨⟨c, member, visible⟩, _⟩ => ?_
    rw [Text.trimList_eq_nil_iff.mp blank c member] at visible
    cases visible
  · rename_i unblank
    have visible : ∃ c ∈ p.name.toList, Text.isBlank c = false := by
      simpa using mt Text.trimList_eq_nil_iff.mpr unblank
    rw [and_iff_right visible]
    by_cases former : p.name ∈ p.previousNames <;> simp [former]

theorem mem_operationNames : name ∈ p.operationNames ↔
    ∃ graph ∈ p.graphs, ∃ op ∈ graph.operations, op.name = name := by
  simp only [operationNames, operations, List.mem_map, List.mem_flatMap]
  grind

/-- Where no name is used twice, each dependency is checked against the graph that lists it. -/
theorem dependenciesFault?_eq_none (distinct : p.operationNames.Nodup) :
    p.dependenciesFault? = none ↔
      (∀ op ∈ p.operations, ∀ dependency ∈ op.after,
        dependency ∈ p.operationNames ∧ dependency ≠ op.name) ∧
      (∀ op ∈ p.operations, op.after.Nodup) ∧
      (p.algorithm = .commitGraph → ∀ graph ∈ p.graphs, ∀ op ∈ graph.operations,
        ∀ later ∈ p.graphs, graph.snapshot < later.snapshot →
          ∀ other ∈ later.operations, other.name ∉ op.after) := by
  simp only [dependenciesFault?, List.findSome?_eq_none_iff, dependencyFault?_eq_none]
  constructor
  · intro fine
    refine ⟨fun op listed dependency waits => ?_, fun op listed => ?_,
      fun inTurn graph member op listed later laterMember higher other otherListed waits => ?_⟩
    · obtain ⟨graph, member, inGraph⟩ := List.mem_flatMap.mp listed
      obtain ⟨⟨snapshot, found, -⟩, different⟩ := (fine graph member op inGraph).1 dependency waits
      obtain ⟨home, homeMember, -, twin, twinListed, named⟩ := snapshotOf?_eq_some found
      exact ⟨mem_operationNames.mpr ⟨home, homeMember, twin, twinListed, named⟩, different⟩
    · obtain ⟨graph, member, inGraph⟩ := List.mem_flatMap.mp listed
      exact (fine graph member op inGraph).2.1
    · obtain ⟨⟨snapshot, found, allowed⟩, -⟩ := (fine graph member op listed).1 other.name waits
      rw [snapshotOf?_eq distinct laterMember otherListed] at found
      cases found
      exact allowed ⟨inTurn, higher⟩
  · rintro ⟨known, once, inTurn⟩ graph member op listed
    have inPlan : op ∈ p.operations := List.mem_flatMap.mpr ⟨graph, member, listed⟩
    refine ⟨fun dependency waits => ?_, once op inPlan, fun _ _ => List.not_mem_nil⟩
    obtain ⟨named, different⟩ := known op inPlan dependency waits
    obtain ⟨home, homeMember, twin, twinListed, rfl⟩ := mem_operationNames.mp named
    refine ⟨⟨home.snapshot, snapshotOf?_eq distinct homeMember twinListed, ?_⟩, different⟩
    rintro ⟨commits, later⟩
    exact inTurn commits graph member op listed home homeMember later twin twinListed waits

/-- The checks before the search for cycles. -/
theorem wellFormed_iff : p.WellFormed ↔ p.nameFault? = none ∧ p.emptyFault? = none ∧
    orderFault? (p.graphs.map (·.snapshot)) = none ∧ repeatedName? [] p.operationNames = none ∧
    p.dependenciesFault? = none := by
  have nonempty : p.emptyFault? = none ↔ p.graphs ≠ [] := by
    rw [emptyFault?]
    cases p.graphs <;> simp
  rw [nameFault?_eq_none, nonempty, orderFault?_eq_none, List.pairwise_map, repeatedName?_eq_none]
  constructor
  · intro wellFormed
    exact ⟨⟨wellFormed.named, wellFormed.renamed⟩, wellFormed.nonempty, wellFormed.ascending,
      ⟨wellFormed.distinct, fun _ _ => List.not_mem_nil⟩,
      (dependenciesFault?_eq_none wellFormed.distinct).mpr
        ⟨wellFormed.known, wellFormed.once, wellFormed.inTurn⟩⟩
  · rintro ⟨⟨named, renamed⟩, nonempty, ascending, ⟨distinct, -⟩, fine⟩
    obtain ⟨known, once, inTurn⟩ := (dependenciesFault?_eq_none distinct).mp fine
    exact ⟨named, renamed, nonempty, ascending, distinct, known, once, inTurn⟩

theorem WellFormed.fault?_eq (wellFormed : p.WellFormed) : p.fault? = p.cycleFault? := by
  obtain ⟨named, nonempty, ordered, once, known⟩ := wellFormed_iff.mp wellFormed
  rw [fault?, named, nonempty, ordered, once, known]
  rfl

/-- The search reports an operation on a cycle, or there is none. -/
theorem WellFormed.search (wellFormed : p.WellFormed) :
    p.cycleFault? = none ∧ p.Acyclic ∨
      ∃ name, p.cycleFault? = some (.cycle name) ∧ TransGen p.ComesAfter name name := by
  cases found : p.misplaced? [] p.walkOrder with
  | none =>
    have fine : p.cycleFault? = none := by rw [cycleFault?, found, Option.map_none]
    exact .inl ⟨fine, acyclic_of_cycleFault? fine wellFormed.distinct⟩
  | some name =>
    have known : ∀ name dependency, p.ComesAfter name dependency →
        dependency ∈ p.operationNames := by
      rintro name dependency ⟨op, listed, -, waits⟩
      exact (wellFormed.known op listed dependency waits).1
    exact .inr ⟨name, by rw [cycleFault?, found, Option.map_some], cycle_of_misplaced? known found⟩

/-- A plan is accepted exactly if it is well-formed and its dependencies have no cycle, and it is
accepted as it is. A plan that only has a cycle is refused by the name of an operation on one. -/
theorem accepted_iff (p : Plan) :
    (∀ checked, p.check = .ok checked ↔ checked = p ∧ p.WellFormed ∧ p.Acyclic) ∧
    (p.WellFormed → ¬ p.Acyclic →
      ∃ name, p.check = .error (.cycle name) ∧ TransGen p.ComesAfter name name) := by
  refine ⟨fun checked => ?_, fun wellFormed cyclic => ?_⟩
  · rw [check_eq_ok, and_congr_right_iff]
    rintro rfl
    constructor
    · intro fine
      simp only [fault?, Option.orElse_eq_none, Option.map_eq_none_iff] at fine
      obtain ⟨named, nonempty, ordered, once, known, acyclic⟩ := fine
      have wellFormed := wellFormed_iff.mpr ⟨named, nonempty, ordered, once, known⟩
      exact ⟨wellFormed, acyclic_of_cycleFault? acyclic wellFormed.distinct⟩
    · rintro ⟨wellFormed, acyclic⟩
      rcases wellFormed.search with ⟨fine, -⟩ | ⟨name, -, cycle⟩
      · rw [wellFormed.fault?_eq, fine]
      · exact absurd cycle (acyclic name)
  · rcases wellFormed.search with ⟨-, acyclic⟩ | ⟨name, found, cycle⟩
    · exact absurd acyclic cyclic
    · exact ⟨name, by rw [check, wellFormed.fault?_eq, found], cycle⟩

/-- Three operations wait for each other in a circle, and the first operation for one of them. -/
def circle : Plan where
  name := "photos"
  algorithm := .flatGraph
  limit := 8
  previousNames := ["pictures"]
  worker := .default
  graphs := [
    ⟨1, [⟨"notify", 0, ["publish"], .null⟩, ⟨"crop", 0, ["publish"], .null⟩]⟩,
    ⟨2, [⟨"resize", 0, ["crop"], .null⟩, ⟨"publish", 0, ["resize"], .null⟩]⟩]

/-- The same operations, but nothing has to be published before it is cropped. -/
def unwound : Plan :=
  { circle with graphs := [
    ⟨1, [⟨"notify", 0, ["publish"], .null⟩, ⟨"crop", 0, [], .null⟩]⟩,
    ⟨2, [⟨"resize", 0, ["crop"], .null⟩, ⟨"publish", 0, ["resize"], .null⟩]⟩] }

theorem publish_on_circle :
    circle.check = .error (.cycle "publish") ∧
    TransGen circle.ComesAfter "publish" "publish" ∧
    unwound.check = .ok unwound ∧ unwound.Acyclic := by
  have wellFormed : circle.WellFormed := wellFormed_iff.mpr (by decide +kernel)
  have cyclic : ¬ circle.Acyclic := by
    intro acyclic
    have resize : circle.ComesAfter "publish" "resize" := ⟨⟨"publish", 0, ["resize"], .null⟩,
      by simp [operations, circle], rfl, List.mem_singleton_self _⟩
    have crop : circle.ComesAfter "resize" "crop" := ⟨⟨"resize", 0, ["crop"], .null⟩,
      by simp [operations, circle], rfl, List.mem_singleton_self _⟩
    have publish : circle.ComesAfter "crop" "publish" := ⟨⟨"crop", 0, ["publish"], .null⟩,
      by simp [operations, circle], rfl, List.mem_singleton_self _⟩
    exact acyclic "publish" (((TransGen.single resize).tail crop).tail publish)
  obtain ⟨name, refused, cycle⟩ := (accepted_iff circle).2 wellFormed cyclic
  have reported : circle.fault? = some (.cycle "publish") := by decide +kernel
  have here : circle.check = .error (.cycle "publish") := by rw [check, reported]
  cases here.symm.trans refused
  have accepted : unwound.check = .ok unwound := check_eq_ok.mpr ⟨rfl, by decide +kernel⟩
  exact ⟨here, cycle, accepted, (((accepted_iff unwound).1 unwound).mp accepted).2.2⟩

end CommitPipeline.Plan
