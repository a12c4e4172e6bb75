import Dexplore.Machine
import Dexplore.Proofs.Allowance
import Dexplore.Proofs.Plan
import Dexplore.Proofs.Precision
import Dexplore.Proofs.Template
import Dexplore.Proofs.Visit

/-!
# Exploring depth first

The exploration of a method that stays within itself computes its path tree: it succeeds
exactly if there is such a tree and the tree takes no way too often, and then the graph holds
the tree (`exploreFrom_of_feasible`, `feasible_of_exploreFrom`).
-/

set_option autoImplicit false

namespace Dexplore

/-! ## Exploring -/

namespace Exploration

/-- Executing the instructions of a method comes to what `step` says, and leaves the static
state as it is. -/
structure Follows (setup : Setup) (calls : Calls) (statics : Statics) (code : Graph)
    (step : PathTree.PathStep) : Prop where
  placed : ∀ {address frame after successors}, step address frame = some (after, successors) →
    (code.instruction? address).isSome
  succeeds : ∀ {address frame after successors instruction},
    step address frame = some (after, successors) →
    code.instruction? address = some instruction → ∀ events, ∃ later,
      instruction.execute setup calls code.method ⟨frame, ⟨statics, events⟩⟩ =
        .ok successors ⟨after, ⟨statics, later⟩⟩
  fails : ∀ {address frame instruction}, step address frame = none →
    code.instruction? address = some instruction → ∀ events, ∃ fault scene,
      instruction.execute setup calls code.method ⟨frame, ⟨statics, events⟩⟩ =
        .error fault scene

variable {setup : Setup} {calls : Calls} {statics : Statics} {code graph : Graph}
  {step : PathTree.PathStep} {task : Task} {rest : List Task} {instruction : Instruction}

/-- The instruction at an address fails, or leads to an address without an instruction. -/
def Stuck (step : PathTree.PathStep) (code : Graph) (address : Address) (frame : Frame) : Prop :=
  step address frame = none ∨
    ∃ after successors, step address frame = some (after, successors) ∧
      ∃ target ∈ successors, code.instruction? target = none

theorem visit_task (follows : Follows setup calls statics code step)
    (same : graph.SameCode code) (waiting : graph.Waiting (task :: rest))
    (present : code.instruction? task.id.address = some instruction)
    {after : Frame} {successors : List Address}
    (executed : step task.id.address task.frame = some (after, successors))
    (placed : ∀ target ∈ successors, (code.instruction? target).isSome) (events : List Event) :
    ∃ children grown later,
      visit setup calls task.id instruction ⟨graph, ⟨statics, events⟩⟩ =
        .ok children ⟨grown, ⟨statics, later⟩⟩ ∧
      children.map (·.address) = successors ∧
      graph.Branched grown task.id after children := by
  obtain ⟨later, run⟩ := follows.succeeds executed present
    (.visiting graph.method task.id instruction :: events)
  have runHere : instruction.execute setup calls graph.method
      ⟨task.frame, visiting graph ⟨statics, events⟩ task.id instruction⟩ =
        .ok successors ⟨after, ⟨statics, later⟩⟩ := same.method ▸ run
  obtain ⟨children, grown, visited, addresses, branched⟩ :=
    visit_of_ok waiting.head rfl runHere
      (fun target inside => same.instruction? target ▸ placed target inside)
  exact ⟨children, grown, later, visited, addresses, branched⟩

/-- The instruction at an address leads to instructions, or the path ends with a fault. -/
theorem step_or_stuck (step : PathTree.PathStep) (code : Graph) (address : Address)
    (frame : Frame) :
    Stuck step code address frame ∨
      ∃ after successors, step address frame = some (after, successors) ∧
        ∀ target ∈ successors, (code.instruction? target).isSome := by
  cases executed : step address frame with
  | none => exact .inl (.inl executed)
  | some result =>
      obtain ⟨after, successors⟩ := result
      by_cases placed : ∀ target ∈ successors, (code.instruction? target).isSome
      · exact .inr ⟨after, successors, rfl, placed⟩
      · left
        right
        simp only [not_forall] at placed
        obtain ⟨target, isTarget, missing⟩ := placed
        exact ⟨after, successors, executed, target, isTarget,
          Option.not_isSome_iff_eq_none.mp missing⟩

theorem visit_task_of_error (follows : Follows setup calls statics code step)
    (same : graph.SameCode code) (waiting : graph.Waiting (task :: rest))
    (present : code.instruction? task.id.address = some instruction) (events : List Event)
    (stuck : Stuck step code task.id.address task.frame) :
    ∃ fault after, visit setup calls task.id instruction ⟨graph, ⟨statics, events⟩⟩ =
      .error fault after := by
  have here : visiting graph ⟨statics, events⟩ task.id instruction =
      ⟨statics, .visiting graph.method task.id instruction :: events⟩ := rfl
  rcases stuck with failed | ⟨after, successors, executed, target, isTarget, missing⟩
  · obtain ⟨fault, scene, run⟩ := follows.fails failed present
      (.visiting graph.method task.id instruction :: events)
    rw [← same.method, ← here] at run
    obtain ⟨grown, visited⟩ := visit_of_error waiting.head rfl run
    exact ⟨fault, _, visited⟩
  · obtain ⟨later, run⟩ := follows.succeeds executed present
      (.visiting graph.method task.id instruction :: events)
    rw [← same.method, ← here] at run
    obtain ⟨address, grown, -, -, visited⟩ := visit_of_missing waiting.head rfl run
      ⟨target, isTarget, (same.instruction? target).trans missing⟩
    exact ⟨_, _, visited⟩

/-! ## Trees that an allowance admits -/

/-- Plans whose trees unfold as `step` says and take no way more often than is left. -/
structure Feasible (budget : VisitBudget) (step : PathTree.PathStep) (plans : List Plan)
    (allowance : Allowance) : Prop where
  unfolds : ∀ plan ∈ plans, PathTree.Unfolds step plan.1.id.address plan.1.frame plan.2
  admitted : ∀ entrance, (Plan.entrances budget plans).count entrance ≤ allowance.left entrance

namespace Feasible

variable {budget : VisitBudget} {plans : List Plan} {allowance remaining : Allowance}
  {after : Frame} {children : List NodeId} {branches : List (PathTree (Address × Frame))}

/-- The step from a task to its children, read in both directions. -/
theorem visited_iff (executed : step task.id.address task.frame =
      some (after, children.map (·.address)))
    (count : children.length = branches.length)
    (spent : allowance.spend? (task.entrance budget) = some remaining) :
    Feasible budget step ((task, .node (task.id.address, after) branches) :: plans) allowance ↔
      Feasible budget step ((Plan.offspring task after children branches).reverse ++ plans)
        remaining := by
  have counted := Plan.count_entrances_visited budget task after plans count
  have left := Allowance.left_of_spend? spent
  have ofBranches := Plan.offspring_unfolds_iff step task after count
  constructor
  · intro feasible
    refine ⟨?_, ?_⟩
    · intro plan inside
      rcases List.mem_append.mp inside with isChild | isRest
      · obtain ⟨_, _, _, executed', isTree, each⟩ := (feasible.unfolds _ List.mem_cons_self).inv
        rw [executed] at executed'
        cases executed'
        cases isTree
        exact ofBranches.mpr each plan (List.mem_reverse.mp isChild)
      · exact feasible.unfolds plan (List.mem_cons_of_mem _ isRest)
    · intro entrance
      have admitted := feasible.admitted entrance
      rw [counted entrance, left entrance] at admitted
      omega
  · intro feasible
    refine ⟨?_, ?_⟩
    · intro plan inside
      rcases List.mem_cons.mp inside with rfl | isRest
      · exact .of_forall₂ executed (ofBranches.mp fun plan isChild =>
          feasible.unfolds plan (by simp [isChild]))
      · exact feasible.unfolds plan (by simp [isRest])
    · intro entrance
      have admitted := feasible.admitted entrance
      rw [counted entrance, left entrance]
      omega

theorem exists_spend? (feasible : Feasible budget step
      ((task, .node (task.id.address, after) branches) :: plans) allowance) :
    ∃ remaining, allowance.spend? (task.entrance budget) = some remaining := by
  cases spent : allowance.spend? (task.entrance budget) with
  | some remaining => exact ⟨remaining, rfl⟩
  | none =>
      rw [Allowance.spend?_eq_none_iff] at spent
      have admitted := feasible.admitted (task.entrance budget)
      rw [spent, Plan.entrances, List.flatMap_cons, PathTree.entrances_node] at admitted
      simp [Task.entrance] at admitted

end Feasible

variable {allowance : Allowance}

/-- If the pending nodes have trees that the allowance admits, the exploration succeeds and
the graph holds the trees. -/
theorem exploreFrom_of_feasible (follows : Follows setup calls statics code step)
    {plans : List Plan} (events : List Event) (same : graph.SameCode code)
    (waiting : graph.Waiting (plans.map (·.1)))
    (feasible : Feasible setup.config.budget step plans allowance) :
    ∃ final later explored,
      exploreFrom setup calls (plans.map (·.1.id)) allowance ⟨graph, ⟨statics, events⟩⟩ =
        .ok () ⟨final, ⟨statics, later⟩⟩ ∧
      final.SameCode code ∧ graph.Completed final explored ∧
      explored.map (fun entry => (entry.1, entry.2.paths)) = plans := by
  -- Every visit uses up one of the visits that are left.
  induction visits : allowance.total using Nat.strongRecOn
    generalizing plans allowance events graph with
  | ind visits induction =>
      cases plans with
      | nil => exact ⟨graph, events, [], exploreFrom_nil _ _ _ _, same, .nil graph, rfl⟩
      | cons plan rest =>
          obtain ⟨task, tree⟩ := plan
          obtain ⟨after, successors, branches, executed, isTree, each⟩ :=
            (feasible.unfolds (task, tree) List.mem_cons_self).inv
          replace isTree : tree = .node (task.id.address, after) branches := isTree
          subst isTree
          have placed : ∀ target ∈ successors, (code.instruction? target).isSome := by
            intro target isTarget
            obtain ⟨index, inside, rfl⟩ := List.getElem_of_mem isTarget
            obtain ⟨_, _, _, executedThere, _⟩ := (each.get inside (each.length_eq ▸ inside)).inv
            exact follows.placed executedThere
          obtain ⟨instruction, present⟩ := Option.isSome_iff_exists.mp (follows.placed executed)
          obtain ⟨children, grown, later, visited, rfl, branched⟩ :=
            visit_task follows same waiting present executed placed events
          obtain ⟨remaining, spent⟩ := feasible.exists_spend?
          have count : children.length = branches.length := by
            rw [← each.length_eq, List.length_map]
          have tasks := Plan.map_fst_offspring task after count
          have waitingNext : grown.Waiting
              (((Plan.offspring task after children branches).reverse ++ rest).map (·.1)) := by
            rw [List.map_append, List.map_reverse, tasks]
            exact waiting.visited branched
          have fewer := Allowance.total_spend? spent
          obtain ⟨final, last, explored, run, sameFinal, done, planned⟩ :=
            induction remaining.total (by omega) later (branched.sameCode same) waitingNext
              ((Feasible.visited_iff executed count spent).mp feasible) rfl
          obtain ⟨low, high, rfl, plannedLow, plannedHigh⟩ := List.map_eq_append_iff.mp planned
          have plannedBelow : low.reverse.map (fun entry => (entry.1, entry.2.paths)) =
              Plan.offspring task after children branches := by
            rw [List.map_reverse, plannedLow, List.reverse_reverse]
          have belowTasks : low.reverse.map (·.1) = children.map (task.child after) := by
            rw [← tasks, ← plannedBelow, List.map_map]
            rfl
          have belowTrees : (low.reverse.map (·.2)).map PathTree.paths = branches := by
            rw [← Plan.map_snd_offspring task after count, ← plannedBelow, List.map_map,
              List.map_map]
            rfl
          have highTasks : high.map (·.1) = rest.map (·.1) := by
            rw [← plannedHigh, List.map_map]
            rfl
          refine ⟨final, last, (task, .node (task.id, after) (low.reverse.map (·.2))) :: high,
            ?_, sameFinal, ?_, ?_⟩
          · have spentHere : allowance.spend? (entranceOf setup.config graph task.id) =
                some remaining := waiting.entranceOf setup.config ▸ spent
            rw [List.map_cons,
              exploreFrom_of_spent ((same.instruction? _).trans present) spentHere, visited]
            rw [List.map_append, List.map_reverse, Plan.map_id_offspring task after count] at run
            exact run
          · refine .visited (highTasks ▸ waiting) branched belowTasks ?_
            rw [List.reverse_reverse]
            exact done
          · rw [List.map_cons, plannedHigh, PathTree.paths_node, belowTrees]

/-- If the exploration succeeds, the pending nodes have trees that the allowance admits. -/
theorem feasible_of_exploreFrom (follows : Follows setup calls statics code step)
    {tasks : List Task} (events : List Event) (same : graph.SameCode code)
    (waiting : graph.Waiting tasks) {final : Exploration}
    (run : exploreFrom setup calls (tasks.map (·.id)) allowance ⟨graph, ⟨statics, events⟩⟩ =
      .ok () final) :
    ∃ plans : List Plan, plans.map (·.1) = tasks ∧
      Feasible setup.config.budget step plans allowance := by
  induction visits : allowance.total using Nat.strongRecOn
    generalizing tasks allowance events graph with
  | ind visits induction =>
      cases tasks with
      | nil => exact ⟨[], rfl, by simp, by simp [Plan.entrances]⟩
      | cons task rest =>
          rw [List.map_cons] at run
          cases present : graph.instruction? task.id.address with
          | none =>
              rw [exploreFrom_of_noInstruction present] at run
              cases run
          | some instruction =>
              have presentToo := (same.instruction? _).symm.trans present
              cases spent : allowance.spend? (entranceOf setup.config graph task.id) with
              | none =>
                  rw [exploreFrom_of_rejected present spent] at run
                  cases run
              | some remaining =>
                  rw [exploreFrom_of_spent present spent] at run
                  rw [waiting.entranceOf setup.config] at spent
                  rcases step_or_stuck step code task.id.address task.frame with
                    stuck | ⟨after, successors, executed, placed⟩
                  · obtain ⟨fault, failed, visited⟩ :=
                      visit_task_of_error follows same waiting presentToo events stuck
                    rw [visited] at run
                    cases run
                  · obtain ⟨children, grown, later, visited, rfl, branched⟩ :=
                      visit_task follows same waiting presentToo executed placed events
                    rw [visited] at run
                    have names := task.map_id_children after children rest
                    have fewer := Allowance.total_spend? spent
                    obtain ⟨plans, planned, feasible⟩ :=
                      induction remaining.total (by omega) later (branched.sameCode same)
                        (waiting.visited branched) (names ▸ run) rfl
                    obtain ⟨low, high, rfl, lowTasks, rfl⟩ := List.map_eq_append_iff.mp planned
                    have children' : children.map (task.child after) = low.reverse.map (·.1) := by
                      rw [List.map_reverse, lowTasks, List.reverse_reverse]
                    have isOffspring :
                        Plan.offspring task after children (low.reverse.map (·.2)) =
                          low.reverse := by
                      rw [Plan.offspring, children', List.zip_map']
                      exact List.map_id _
                    have count : children.length = (low.reverse.map (·.2)).length := by
                      rw [← List.length_map (task.child after), children', List.length_map,
                        List.length_map]
                    refine ⟨(task, .node (task.id.address, after) (low.reverse.map (·.2))) :: high,
                      rfl, (Feasible.visited_iff executed count spent).mpr ?_⟩
                    rw [isOffspring, List.reverse_reverse]
                    exact feasible

end Exploration

end Dexplore
