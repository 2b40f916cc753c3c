import CommitPipeline.Proofs.AcceptedPlans

/-! What the search for cycles in a plan is good for. The walk reaches every name, and its order is
checked afterwards: if every name stands behind its dependencies, the places in that order are ranks
that fall along every dependency. Whether the walk is a good one does not matter for that. -/
namespace CommitPipeline.Plan
variable {p : Plan} {name dependency : String} {w after later : Walk}

/-! ### The walk reaches every name -/

/-- A walk that went on: it forgets no name, and has done with all that it met since. -/
structure Walk.GoesOn (w after : Walk) : Prop where
  met : ∀ name ∈ w.met, name ∈ after.met
  done : ∀ name ∈ w.done, name ∈ after.done
  new : ∀ name ∈ after.met, name ∈ w.met ∨ name ∈ after.done

theorem Walk.GoesOn.refl (w : Walk) : w.GoesOn w :=
  ⟨fun _ member => member, fun _ member => member, fun _ member => .inl member⟩

theorem Walk.GoesOn.trans (first : w.GoesOn after) (second : after.GoesOn later) :
    w.GoesOn later where
  met name member := second.met name (first.met name member)
  done name member := second.done name (first.done name member)
  new name member := by
    rcases second.new name member with before | done
    · exact (first.new name before).imp_right (second.done name)
    · exact .inr done

theorem goesOn_foldl {step : Walk → String → Walk}
    (goesOn : ∀ (w : Walk) (name : String), w.GoesOn (step w name)) (names : List String)
    (w : Walk) : w.GoesOn (names.foldl step w) := by
  induction names generalizing w with
  | nil => exact .refl w
  | cons name rest ih => exact (goesOn w name).trans (ih (step w name))

theorem goesOn_visit (p : Plan) (depth : Nat) (w : Walk) (name : String) :
    w.GoesOn (p.visit depth w name) := by
  induction depth generalizing w name with
  | zero => exact .refl w
  | succ depth ih =>
    rw [visit]
    split
    · exact .refl w
    · have inner := goesOn_foldl ih (p.dependents name).reverse { w with met := name :: w.met }
      refine ⟨fun other member => inner.met other (List.mem_cons_of_mem name member),
        fun other member => List.mem_cons_of_mem name (inner.done other member),
        fun other member => ?_⟩
      rcases inner.new other member with before | done
      · rcases List.mem_cons.mp before with rfl | before
        · exact .inr List.mem_cons_self
        · exact .inl before
      · exact .inr (List.mem_cons_of_mem name done)

theorem met_visit (p : Plan) (depth : Nat) (w : Walk) (name : String) :
    name ∈ (p.visit (depth + 1) w name).met := by
  rw [visit]
  split
  · rename_i met
    simpa using met
  · exact (goesOn_foldl (goesOn_visit p depth) _ _).met name List.mem_cons_self

theorem met_foldl (p : Plan) (depth : Nat) {names : List String} (w : Walk)
    (listed : name ∈ names) : name ∈ (names.foldl (p.visit (depth + 1)) w).met := by
  induction names generalizing w with
  | nil => cases listed
  | cons first rest ih =>
    rcases List.mem_cons.mp listed with rfl | later
    · exact (goesOn_foldl (goesOn_visit p (depth + 1)) rest _).met name (met_visit p depth w name)
    · exact ih _ later

/-- Every operation has a place in the order. -/
theorem mem_walkOrder (member : name ∈ p.operationNames) : name ∈ p.walkOrder := by
  have whole := goesOn_foldl (goesOn_visit p (p.operationCount + 1)) p.operationNames ⟨[], []⟩
  exact (whole.new name (met_foldl p p.operationCount _ member)).resolve_left List.not_mem_nil

/-! ### The order is checked -/

theorem misplaced?_eq_none {before order : List String} (fine : p.misplaced? before order = none)
    {front back : List String} (split : order = front ++ name :: back) :
    ∀ dependency ∈ p.dependencies name, dependency ∈ before ∨ dependency ∈ front := by
  induction order generalizing before front with
  | nil => simp at split
  | cons first rest ih =>
    rw [misplaced?] at fine
    cases missing : ((p.dependencies first).filter fun d => !before.contains d).getLast? with
    | some dependency =>
      rw [missing] at fine
      cases fine
    | none =>
      rw [missing] at fine
      rcases List.cons_eq_append_iff.mp split with ⟨rfl, same⟩ | ⟨front, rfl, rest_split⟩
      -- The name itself: all its dependencies stood before it, whatever comes behind.
      · cases same
        rw [List.getLast?_eq_none_iff, List.filter_eq_nil_iff] at missing
        intro dependency depends
        simpa using missing dependency depends
      · intro dependency depends
        rcases ih fine rest_split dependency depends with earlier | inFront
        · rcases List.mem_cons.mp earlier with rfl | earlier
          · exact .inr List.mem_cons_self
          · exact .inl earlier
        · exact .inr (List.mem_cons_of_mem first inFront)

theorem cycleFault?_of_check {checked : Plan} (accepted : p.check = .ok checked) :
    p.cycleFault? = none := by
  have fine := (check_eq_ok.mp accepted).2
  simp only [fault?, Option.orElse_eq_none] at fine
  exact fine.2.2.2.2.2

/-- The place of a name in the order. -/
def rank (p : Plan) (name : String) : Nat := p.walkOrder.idxOf name

theorem dependencies_eq (distinct : p.operationNames.Nodup) {op : PlannedOperation}
    (listed : op ∈ p.operations) : p.dependencies op.name = op.after := by
  have found : p.operations.find? (·.name = op.name) = some op := by
    cases first : p.operations.find? (·.name = op.name) with
    | none => simpa using List.find?_eq_none.mp first op listed
    | some other =>
      have named : other.name = op.name := by simpa using List.find?_some first
      rw [List.inj_on_of_nodup_map distinct (List.mem_of_find?_eq_some first) listed named]
  rw [dependencies, found]

/-- In a plan without cycles the rank falls from an operation to what it is to come after. -/
theorem rank_lt (acyclic : p.cycleFault? = none) (distinct : p.operationNames.Nodup)
    {op : PlannedOperation} (listed : op ∈ p.operations) (after : dependency ∈ op.after) :
    p.rank dependency < p.rank op.name := by
  rw [cycleFault?, Option.map_eq_none_iff] at acyclic
  obtain ⟨front, back, split, first⟩ :=
    List.eq_append_cons_of_mem (mem_walkOrder (List.mem_map_of_mem listed : op.name ∈ _))
  have inFront : dependency ∈ front := by
    refine (misplaced?_eq_none acyclic split dependency ?_).resolve_left List.not_mem_nil
    rwa [dependencies_eq distinct listed]
  rw [rank, rank, split, List.idxOf_append_of_mem inFront, List.idxOf_append_of_notMem first,
    List.idxOf_cons_self, Nat.add_zero]
  exact List.idxOf_lt_length_of_mem inFront

end CommitPipeline.Plan
