import Dexplore.Proofs.DepthFirst

/-!
# The paths of a method

A method that calls no other method and starts no class has a path tree for every entry frame
whose paths end.  Exploring the method from that frame succeeds exactly if there is such a
tree and it takes no way into an instruction more often than the configuration allows; the
nodes of the graph that lie on paths are then the nodes of the tree.
-/

set_option autoImplicit false

namespace Dexplore

def Graph.OnPath (graph : Graph) (id : NodeId) : Prop :=
  ∃ node, graph.node? id = some node ∧ node.frame.isSome

/-- The nodes of a graph that lie on paths form a tree under the entry: the children of its
nodes, in order, give the tree, and every node with a frame stands in it once.  Only at the
entry does the first node of an instruction lie on a path. -/
structure Graph.IsTree (graph : Graph) (located : PathTree (NodeId × Frame)) : Prop where
  root : located.label.1 = .root
  holds : graph.Holds none located
  nodup : located.ids.Nodup
  onPath : ∀ id, id ∈ located.ids ↔ graph.OnPath id
  first : ∀ id ∈ located.ids, id.index = 0 → id = .root

/-! ## Code that stays within its method -/

/-- Executing an instruction that stays within its method does not depend on the record of
events, and leaves the static state as it is. -/
theorem Instruction.execute_of_local {setup : Setup} {calls : Calls} {statics : Statics}
    (idle : calls.Idle) {method : String} {instruction : Instruction}
    (stays : instruction.op.Local statics) {frame : Frame} {events : List Event}
    {successors : List Address} {scene : Scene}
    (run : instruction.execute setup calls method ⟨frame, ⟨statics, events⟩⟩ =
      .ok successors scene) (others : List Event) :
    ∃ later, instruction.execute setup calls method ⟨frame, ⟨statics, others⟩⟩ =
      .ok successors ⟨scene.frame, ⟨statics, later⟩⟩ := by
  have relates : Step.Relates statics Eq (fun all some => some.Sublist all)
      (instruction.execute setup calls method) (instruction.execute setup calls method) :=
    Instruction.execute_relates .eq idle method instruction stays (.inl rfl)
  have same : frame.Related Eq frame := .refl .eq frame
  obtain ⟨-, fewer, scene', run', quiet, frames, below⟩ := relates same events others _ _ run
  obtain ⟨-, again, scene'', run'', -, -, above⟩ := relates same others events _ _ run'
  rw [run] at run''
  cases run''
  cases below.antisymm above
  refine ⟨scene'.world.events, ?_⟩
  rw [run', frames.eq, ← quiet]

namespace Machine

variable (machine : Machine) {method : MethodDef} {template : Graph} {frame : Frame}

def pathStep (code : Graph) : PathTree.PathStep := fun address frame => do
  let instruction ← code.instruction? address
  let (report, after) := machine.executeInstruction code.method instruction frame
  match report.outcome with
  | .ok successors => some (after, successors)
  | .error _ => none

variable {machine}

theorem pathStep_of_ok {code : Graph} {address : Address} {instruction : Instruction}
    {successors : List Address} {scene : Scene}
    (present : code.instruction? address = some instruction)
    (run : instruction.execute machine.toSetup machine.calls code.method
      ⟨frame, machine.world⟩ = .ok successors scene) :
    machine.pathStep code address frame = some (scene.frame, successors) := by
  simp [pathStep, present, executeInstruction, run]

theorem pathStep_of_error {code : Graph} {address : Address} {instruction : Instruction}
    {fault : Fault} {scene : Scene}
    (present : code.instruction? address = some instruction)
    (run : instruction.execute machine.toSetup machine.calls code.method
      ⟨frame, machine.world⟩ = .error fault scene) :
    machine.pathStep code address frame = none := by
  simp [pathStep, present, executeInstruction, run]

theorem pathStep_eq_some {code : Graph} {address : Address} {after : Frame}
    {successors : List Address}
    (executed : machine.pathStep code address frame = some (after, successors)) :
    ∃ instruction scene, code.instruction? address = some instruction ∧
      instruction.execute machine.toSetup machine.calls code.method ⟨frame, machine.world⟩ =
        .ok successors scene ∧ scene.frame = after := by
  cases present : code.instruction? address with
  | none => simp [pathStep, present] at executed
  | some instruction =>
      cases run : instruction.execute machine.toSetup machine.calls code.method
          ⟨frame, machine.world⟩ with
      | error fault scene =>
          rw [pathStep_of_error present run] at executed
          cases executed
      | ok found scene =>
          rw [pathStep_of_ok present run] at executed
          cases executed
          exact ⟨instruction, scene, rfl, run, rfl⟩

theorem follows_pathStep (built : Graph.ofMethod method = .ok template)
    (stays : ∀ instruction ∈ method.instructions, instruction.op.Local machine.statics) :
    Exploration.Follows machine.toSetup machine.calls machine.statics template
      (machine.pathStep template) where
  placed executed := by
    obtain ⟨instruction, _, present, _⟩ := pathStep_eq_some executed
    rw [present]
    rfl
  succeeds executed present events := by
    obtain ⟨instruction, scene, present', run, rfl⟩ := pathStep_eq_some executed
    rw [present] at present'
    cases present'
    have inside := ((Graph.instruction?_iff_mem built _ _).mp present).1
    exact Instruction.execute_of_local (Execution.callsOf_idle _ _) (stays _ inside) run events
  fails := by
    intro address frame instruction failed present events
    cases run : instruction.execute machine.toSetup machine.calls template.method
        ⟨frame, ⟨machine.statics, events⟩⟩ with
    | error fault scene => exact ⟨fault, scene, rfl⟩
    | ok successors scene =>
        have inside := ((Graph.instruction?_iff_mem built _ _).mp present).1
        obtain ⟨later, runFirst⟩ := Instruction.execute_of_local (Execution.callsOf_idle _ _)
          (stays _ inside) run []
        rw [pathStep_of_ok present runFirst] at failed
        cases failed

/-! ## Graphs that were explored from the entry -/

theorem isTree_of_completed (built : Graph.ofMethod method = .ok template) {final : Graph}
    {located : PathTree (NodeId × Frame)}
    (same : final.SameCode template)
    (done : (template.setRootFrame frame).Completed final [(Task.entry frame, located)]) :
    final.IsTree located := by
  have isRoot : located.label.1 = .root := done.root _ List.mem_cons_self
  have isHeld : final.Holds none located := done.held _ List.mem_cons_self
  have nodup := done.nodup
  have other := done.other
  have origin := done.origin
  rw [List.flatMap_singleton] at nodup other origin
  have framed : ∀ id ∈ located.ids, final.OnPath id := by
    intro id inside
    obtain ⟨⟨_, after⟩, isLabel, rfl⟩ := List.mem_map.mp inside
    obtain ⟨node, found, framed⟩ := isHeld.node?_of_mem isLabel
    exact ⟨node, found, by simp [framed]⟩
  refine ⟨isRoot, isHeld, nodup, fun id => ⟨framed id, ?_⟩, ?_⟩
  · rintro ⟨node, found, framed⟩
    by_contra outside
    rw [other id outside, Graph.node?_entered built] at found
    by_cases atEntry : id = .root
    · apply outside
      rw [atEntry, ← isRoot]
      exact List.mem_map.mpr ⟨_, located.label_mem_toList, rfl⟩
    · rw [if_neg atEntry, Graph.node?_template built] at found
      split at found
      · cases found
        simp [Node.blank] at framed
      · cases found
  · intro id inside isFirst
    rcases origin id inside with isTask | absent
    · simpa [Task.entry] using isTask
    · by_contra notRoot
      obtain ⟨node, found, -⟩ := framed id inside
      have placed := Graph.instruction?_isSome_of_node? found
      rw [same.instruction?] at placed
      rw [Graph.node?_entered built, if_neg notRoot, Graph.node?_template built,
        if_pos ⟨isFirst, placed⟩] at absent
      cases absent

/-! ## Ways that a path tree takes -/

theorem entrances_subset (built : Graph.ofMethod method = .ok template) (budget : VisitBudget)
    {graph : Graph} (same : graph.SameCode template) {address : Address} {frame : Frame}
    {tree : PathTree (Address × Frame)}
    (unfolds : PathTree.Unfolds (machine.pathStep template) address frame tree)
    {origin : Option Address}
    (entered : budget.entrance origin address ∈ budget.entrances graph) :
    tree.entrances budget origin ⊆ budget.entrances graph := by
  induction unfolds generalizing origin with
  | @node address frame after successors branches executed count each induction =>
      obtain ⟨instruction, scene, present, run, -⟩ := pathStep_eq_some executed
      have atAddress := ((Graph.instruction?_iff_mem built address instruction).mp present).2
      intro entrance inside
      rw [PathTree.entrances_node] at inside
      rcases List.mem_cons.mp inside with rfl | deeper
      · exact entered
      · obtain ⟨branch, isBranch, deeper⟩ := List.mem_flatMap.mp deeper
        obtain ⟨index, insideBranches, rfl⟩ := List.getElem_of_mem isBranch
        have insideTargets : index < successors.length := count ▸ insideBranches
        have isTarget := List.getElem?_eq_getElem insideTargets
        have isBranch := List.getElem?_eq_getElem insideBranches
        refine induction index _ _ isTarget isBranch ?_ deeper
        obtain ⟨_, _, _, executedThere, _⟩ := (each index _ _ isTarget isBranch).inv
        obtain ⟨_, _, presentThere, _⟩ := pathStep_eq_some executedThere
        rw [← atAddress]
        refine VisitBudget.entrance_mem_of_successor budget ?_ ?_ ?_
        · rw [same.instruction?, atAddress, present]
        · exact Instruction.successors_of_execute run (List.getElem_mem insideTargets)
        · rw [same.instruction?, presentThere]
          rfl

/-- At the start, an allowance admits a tree exactly if no way is taken too often. -/
theorem feasible_full_iff (built : Graph.ofMethod method = .ok template)
    (tree : PathTree (Address × Frame)) :
    Exploration.Feasible machine.config.budget (machine.pathStep template)
        [(Task.entry frame, tree)] (.full machine.config (template.setRootFrame frame)) ↔
      PathTree.Unfolds (machine.pathStep template) 0 frame tree ∧
        ∀ entrance, (tree.entrances machine.config.budget none).count entrance ≤
          machine.config.maxVisits := by
  have taken : Plan.entrances machine.config.budget [(Task.entry frame, tree)] =
      tree.entrances machine.config.budget none := List.flatMap_singleton _ _
  constructor
  · intro feasible
    refine ⟨feasible.unfolds _ List.mem_cons_self, ?_⟩
    intro entrance
    have admitted := feasible.admitted entrance
    rw [taken, Allowance.left_full] at admitted
    split at admitted
    · exact admitted
    · exact Nat.le_trans admitted (Nat.zero_le _)
  · rintro ⟨unfolds, within⟩
    refine ⟨fun plan inside => ?_, fun entrance => ?_⟩
    · cases List.mem_singleton.mp inside
      exact unfolds
    · rw [taken, Allowance.left_full]
      split
      · exact within entrance
      · next unknown =>
          have same := template.sameCode_setRootFrame frame
          have entry : ((template.setRootFrame frame).instruction? 0).isSome := by
            rw [same.instruction?]
            exact Graph.instruction?_entry built
          have known := entrances_subset built machine.config.budget same unfolds
            (VisitBudget.entrance_mem_of_root machine.config.budget entry)
          exact Nat.le_of_eq (List.count_eq_zero.mpr fun inside => unknown (known inside))

/-- An exploration succeeds on a path tree that takes no way too often, and the graph holds
the tree. -/
theorem explore_of_unfolds (built : Graph.ofMethod method = .ok template)
    (stays : ∀ instruction ∈ method.instructions, instruction.op.Local machine.statics)
    {tree : PathTree (Address × Frame)}
    (unfolds : PathTree.Unfolds (machine.pathStep template) 0 frame tree)
    (within : ∀ entrance, (tree.entrances machine.config.budget none).count entrance ≤
      machine.config.maxVisits) :
    (machine.explore (template.setRootFrame frame)).1.outcome = .ok () ∧
      (machine.explore (template.setRootFrame frame)).1.machine = machine ∧
      ∃ located, (machine.explore (template.setRootFrame frame)).2.IsTree located ∧
        located.paths = tree := by
  have waiting : (template.setRootFrame frame).Waiting ([(Task.entry frame, tree)].map (·.1)) :=
    Graph.waiting_entered built frame
  obtain ⟨final, later, explored, run, same, done, planned⟩ :=
    Exploration.exploreFrom_of_feasible (follows_pathStep built stays) []
      (template.sameCode_setRootFrame frame) waiting
      ((feasible_full_iff built tree).mpr ⟨unfolds, within⟩)
  obtain ⟨⟨task, located⟩, isOnly, planned⟩ := List.map_eq_singleton_iff.mp planned
  cases planned
  have explored : Exploration.explore machine.toSetup machine.calls
      ⟨template.setRootFrame frame, machine.world⟩ =
        .ok () ⟨final, ⟨machine.statics, later⟩⟩ := run
  rw [Machine.explore, explored]
  exact ⟨rfl, rfl, located, isTree_of_completed built same (isOnly ▸ done), rfl⟩

/-- An exploration that succeeds has followed a path tree that takes no way too often. -/
theorem unfolds_of_explore (built : Graph.ofMethod method = .ok template)
    (stays : ∀ instruction ∈ method.instructions, instruction.op.Local machine.statics)
    (succeeded : (machine.explore (template.setRootFrame frame)).1.outcome = .ok ()) :
    ∃ tree, PathTree.Unfolds (machine.pathStep template) 0 frame tree ∧
      ∀ entrance, (tree.entrances machine.config.budget none).count entrance ≤
        machine.config.maxVisits := by
  cases run : Exploration.explore machine.toSetup machine.calls
      ⟨template.setRootFrame frame, machine.world⟩ with
  | error fault failed =>
      rw [Machine.explore, run] at succeeded
      cases succeeded
  | ok done final =>
      obtain ⟨plans, planned, feasible⟩ :=
        Exploration.feasible_of_exploreFrom (follows_pathStep built stays) []
          (template.sameCode_setRootFrame frame) (Graph.waiting_entered built frame) run
      obtain ⟨⟨task, tree⟩, rfl, rfl⟩ := List.map_eq_singleton_iff.mp planned
      exact ⟨tree, (feasible_full_iff built tree).mp feasible⟩

/-- The exploration of a method computes its path tree. -/
theorem explore_eq_pathTree (built : Graph.ofMethod method = .ok template)
    (stays : ∀ instruction ∈ method.instructions, instruction.op.Local machine.statics)
    (frame : Frame) :
    ((machine.explore (template.setRootFrame frame)).1.outcome = .ok () ↔
      ∃ tree, PathTree.Unfolds (machine.pathStep template) 0 frame tree ∧
        ∀ entrance, (tree.entrances machine.config.budget none).count entrance ≤
          machine.config.maxVisits) ∧
    ((machine.explore (template.setRootFrame frame)).1.outcome = .ok () →
      (machine.explore (template.setRootFrame frame)).1.machine = machine ∧
      ∃ located, (machine.explore (template.setRootFrame frame)).2.IsTree located ∧
        ∀ tree, PathTree.Unfolds (machine.pathStep template) 0 frame tree ↔
          located.paths = tree) := by
  refine ⟨⟨unfolds_of_explore built stays, ?_⟩, ?_⟩
  · rintro ⟨tree, unfolds, within⟩
    exact (explore_of_unfolds built stays unfolds within).1
  · intro succeeded
    obtain ⟨tree, unfolds, within⟩ := unfolds_of_explore built stays succeeded
    obtain ⟨-, still, located, isTree, rfl⟩ := explore_of_unfolds built stays unfolds within
    refine ⟨still, located, isTree, fun other => ⟨unfolds.unique, ?_⟩⟩
    rintro rfl
    exact unfolds

/-- A method whose two paths part at the entry and join before the end. -/
def forkMethod : MethodDef where
  reference := ⟨⟨"LFork;"⟩, "run", [.int], .void⟩
  flags := 8
  registers := 1
  instructions := [.ofOp 0 (.branch .eq 0 none 3), .ofOp 2 .nop, .ofOp 3 (.giveBack none)]
  tries := []

def forkTemplate : Graph where
  method := forkMethod.descriptor
  piles := .ofList (forkMethod.instructions.map fun instruction =>
    (instruction.address, .ofInstruction instruction))

def forkFrame : Frame := ⟨[.unknown .int], 1, none, .empty⟩

def forkTree : PathTree (Address × Frame) :=
  .node (0, forkFrame)
    [.node (2, forkFrame) [.node (3, forkFrame) []], .node (3, forkFrame) []]

def vacant : Machine := ⟨⟨{}, .empty⟩, .empty, 0⟩

theorem local_forkMethod :
    ∀ instruction ∈ forkMethod.instructions, instruction.op.Local vacant.statics := by
  simp [forkMethod, Instruction.ofOp, Op.Local]

theorem unfolds_forkTree :
    PathTree.Unfolds (vacant.pathStep forkTemplate) 0 forkFrame forkTree := by
  have joins : PathTree.Unfolds (vacant.pathStep forkTemplate) 3 forkFrame
      (.node (3, forkFrame) []) := .of_forall₂ rfl .nil
  exact .of_forall₂ rfl (.cons (.of_forall₂ rfl (.cons joins .nil)) (.cons joins .nil))

theorem within_forkTree (entrance : Entrance) :
    (forkTree.entrances vacant.config.budget none).count entrance ≤ vacant.config.maxVisits := by
  refine Nat.le_trans List.count_le_length ?_
  simp [forkTree, PathTree.entrances_node, vacant]

theorem explore_forkTemplate :
    Graph.ofMethod forkMethod = .ok forkTemplate ∧
      (∀ instruction ∈ forkMethod.instructions, instruction.op.Local vacant.statics) ∧
      (vacant.explore (forkTemplate.setRootFrame forkFrame)).1.outcome = .ok () :=
  ⟨rfl, local_forkMethod,
    (explore_eq_pathTree rfl local_forkMethod forkFrame).1.mpr
      ⟨forkTree, unfolds_forkTree, within_forkTree⟩⟩

end Machine

end Dexplore
