import Dexplore.Proofs.Discipline
import Dexplore.Proofs.Footprints
import Dexplore.Proofs.MethodPaths

/-!
# The tree of an exploration that succeeds

Whatever the code calls, an exploration that succeeds leaves a tree of nodes in its graph.  The
frame of a node is what its instruction made of the frame of its parent, in the world of that
moment, and the branches stand at the successors (`PathTree.Executed`).  So a node without
branches stands where paths end, and what every instruction keeps is kept down to such a node
(`Exploration.exists_end_of_explore`).
-/

set_option autoImplicit false

namespace Dexplore

/-- The nodes of a tree were executed one after another, the root on the given frame. -/
inductive PathTree.Executed (setup : Setup) (calls : Calls) (code : Graph) :
    Frame → PathTree (NodeId × Frame) → Prop
  | node {id : NodeId} {frame : Frame} {world : World} {instruction : Instruction}
      {scene : Scene} {branches : List (PathTree (NodeId × Frame))}
      (present : code.instruction? id.address = some instruction)
      (run : instruction.execute setup calls code.method ⟨frame, world⟩ =
        .ok (branches.map (·.label.1.address)) scene)
      (each : ∀ branch ∈ branches, Executed setup calls code scene.frame branch) :
      Executed setup calls code frame (.node (id, scene.frame) branches)

namespace Exploration

variable {setup : Setup} {calls : Calls} {code graph : Graph} {world : World}
  {allowance : Allowance} {done : Exploration} {tasks : List Task}

theorem exploreFrom_cons_eq_ok {id : NodeId} {rest : List NodeId} {exploration : Exploration}
    (run : exploreFrom setup calls (id :: rest) allowance exploration = .ok () done) :
    ∃ instruction remaining children after,
      exploration.graph.instruction? id.address = some instruction ∧
      allowance.spend? (entranceOf setup.config exploration.graph id) = some remaining ∧
      visit setup calls id instruction exploration = .ok children after ∧
      exploreFrom setup calls (children.reverse ++ rest) remaining after = .ok () done := by
  cases present : exploration.graph.instruction? id.address with
  | none =>
      rw [exploreFrom_of_noInstruction present] at run
      cases run
  | some instruction =>
      cases spent : allowance.spend? (entranceOf setup.config exploration.graph id) with
      | none =>
          rw [exploreFrom_of_rejected present spent] at run
          cases run
      | some remaining =>
          rw [exploreFrom_of_spent present spent] at run
          cases visited : visit setup calls id instruction exploration with
          | error fault failed =>
              rw [visited] at run
              cases run
          | ok children after =>
              rw [visited] at run
              exact ⟨instruction, remaining, children, after, rfl, rfl, visited, run⟩

/-- An exploration that succeeds has executed a tree below every pending node. -/
theorem executed_of_exploreFrom (same : graph.SameCode code) (waiting : graph.Waiting tasks)
    (run : exploreFrom setup calls (tasks.map (·.id)) allowance ⟨graph, world⟩ = .ok () done) :
    ∃ explored : List Explored, explored.map (·.1) = tasks ∧ done.graph.SameCode code ∧
      graph.Completed done.graph explored ∧
      ∀ entry ∈ explored, entry.2.Executed setup calls code entry.1.frame := by
  -- Every visit uses up one of the visits that are left.
  induction visits : allowance.total using Nat.strongRecOn
    generalizing tasks allowance graph world with
  | ind visits induction =>
      cases tasks with
      | nil =>
          rw [List.map_nil, exploreFrom_nil] at run
          cases run
          exact ⟨[], rfl, same, .nil graph, by simp⟩
      | cons task rest =>
          rw [List.map_cons] at run
          obtain ⟨instruction, remaining, children, ⟨grown, later⟩, present, spent, visited,
            others⟩ := exploreFrom_cons_eq_ok run
          obtain ⟨scene, executed, -, branched⟩ := branched_of_visit waiting.head rfl visited
          have fewer := Allowance.total_spend? spent
          rw [← task.map_id_children scene.frame] at others
          obtain ⟨explored, planned, sameDone, completed, each⟩ :=
            induction remaining.total (by omega) (branched.sameCode same)
              (waiting.visited branched) others rfl
          obtain ⟨low, high, rfl, lowTasks, highTasks⟩ := List.map_eq_append_iff.mp planned
          have below : low.reverse.map (·.1) = children.map (task.child scene.frame) := by
            rw [List.map_reverse, lowTasks, List.reverse_reverse]
          have rooted : (low.reverse.map (·.2)).map (·.label.1.address) =
              children.map (·.address) := by
            have roots : low.reverse.map (·.2.label.1.address) =
                (low.reverse.map (·.1)).map (·.id.address) := by
              rw [List.map_map]
              refine List.map_congr_left fun entry inside => ?_
              exact congrArg NodeId.address (completed.root entry (by simp_all))
            rw [List.map_map]
            refine roots.trans ?_
            rw [below, List.map_map]
            rfl
          refine ⟨(task, .node (task.id, scene.frame) (low.reverse.map (·.2))) :: high,
            by rw [List.map_cons, highTasks], sameDone, ?_, ?_⟩
          · refine .visited (highTasks ▸ waiting) branched below ?_
            rw [List.reverse_reverse]
            exact completed
          · intro entry inside
            rcases List.mem_cons.mp inside with rfl | isLater
            · rw [← rooted, same.method] at executed
              refine .node ((same.instruction? _).symm.trans present) executed ?_
              intro branch isBranch
              obtain ⟨child, isChild, rfl⟩ := List.mem_map.mp isBranch
              have isTask : child.1 ∈ children.map (task.child scene.frame) :=
                below ▸ List.mem_map.mpr ⟨child, isChild, rfl⟩
              obtain ⟨_, _, isChildTask⟩ := List.mem_map.mp isTask
              have executedBelow := each child (by simp_all)
              rw [← isChildTask] at executedBelow
              exact executedBelow
            · exact each entry (by simp [isLater])

end Exploration

/-! ## Down to the end of a path -/

inductive Graph.Descends (graph : Graph) : NodeId → NodeId → Prop
  | refl (id : NodeId) : Descends graph id id
  | child {id next last : NodeId} {node : Node} (found : graph.node? id = some node)
      (isChild : next ∈ node.children) (below : Descends graph next last) :
      Descends graph id last

namespace PathTree.Executed

variable {setup : Setup} {calls : Calls} {code : Graph} {frame : Frame} {law : Law}
  {tree : PathTree (NodeId × Frame)}

theorem frames_label (executed : tree.Executed setup calls code frame) (fair : law.Fair)
    (obey : calls.Obey law) : law.frames frame tree.label.2 := by
  cases executed with
  | @node id _ world instruction scene branches present run each =>
      have allowed := instruction.execute_obeys fair setup obey code.method ⟨frame, world⟩
      rw [run] at allowed
      exact allowed.1

/-- Below every node a path ends, and has kept what every instruction keeps. -/
theorem exists_end (executed : tree.Executed setup calls code frame) (fair : law.Fair)
    (obey : calls.Obey law) {graph : Graph} {parent : Option NodeId}
    (holds : graph.Holds parent tree) :
    ∀ label ∈ tree.toList, ∃ last, last ∈ tree.toList ∧ graph.Descends label.1 last.1 ∧
      law.frames label.2 last.2 ∧ ∃ instruction,
        code.instruction? last.1.address = some instruction ∧
        instruction.op.canContinue = false := by
  induction executed generalizing parent with
  | @node id frame world instruction scene branches present run each induction =>
      obtain ⟨found, held⟩ := holds.inv
      intro label inside
      rw [PathTree.toList_node] at inside ⊢
      rcases List.mem_cons.mp inside with rfl | deeper
      · cases branches with
        | nil =>
            exact ⟨_, List.mem_cons_self, .refl id, fair.frame_refl _, instruction, present,
              (Instruction.ways_eq_nil_iff run).mp rfl⟩
        | cons first rest =>
            have isFirst : first ∈ first :: rest := List.mem_cons_self
            obtain ⟨last, among, below, kept, ends⟩ :=
              induction first isFirst (held first isFirst) _ first.label_mem_toList
            refine ⟨last, by simp [among], .child found (by simp) below, ?_, ends⟩
            exact fair.frame_trans ((each first isFirst).frames_label fair obey) kept
      · obtain ⟨branch, isBranch, deeper⟩ := List.mem_flatMap.mp deeper
        obtain ⟨last, among, rest⟩ := induction branch isBranch (held branch isBranch) _ deeper
        exact ⟨last, List.mem_cons_of_mem _ (List.mem_flatMap.mpr ⟨branch, isBranch, among⟩),
          rest⟩

end PathTree.Executed

/-! ## Methods -/

namespace Graph

variable {graph : Graph}

theorem mem_terminating_of_instruction? {address : Address} {instruction : Instruction}
    (present : graph.instruction? address = some instruction)
    (addressed : instruction.address = address) (ends : instruction.op.canContinue = false) :
    address ∈ graph.terminating := by
  refine List.mem_map.mpr ⟨instruction, List.mem_filter.mpr ⟨?_, by simp [ends]⟩, addressed⟩
  exact (graph.mem_instructions_iff instruction).mpr ⟨address, present⟩

theorem isReached_of_node? {id : NodeId} {node : Node} (found : graph.node? id = some node)
    (first : id.index = 0 → id = .root) : graph.isReached id.address = true := by
  obtain ⟨pile, isPile, isNode⟩ := Option.bind_eq_some_iff.mp found
  cases place : id.index with
  | zero => simp [isReached, first place, NodeId.root]
  | succ above =>
      rw [place, Pile.nodes, List.getElem?_cons_succ] at isNode
      have inside := List.mem_of_getElem? isNode
      simp [isReached, isPile, List.ne_nil_of_mem inside]

theorem IsTree.mem_toList_iff {located : PathTree (NodeId × Frame)}
    (isTree : graph.IsTree located) (id : NodeId) (frame : Frame) :
    (id, frame) ∈ located.toList ↔
      ∃ node, graph.node? id = some node ∧ node.frame = some frame := by
  refine ⟨isTree.holds.node?_of_mem, ?_⟩
  rintro ⟨node, found, framed⟩
  have onPath : graph.OnPath id := ⟨node, found, by simp [framed]⟩
  obtain ⟨⟨_, there⟩, inside, rfl⟩ := List.mem_map.mp ((isTree.onPath id).mpr onPath)
  obtain ⟨other, foundOther, framedOther⟩ := isTree.holds.node?_of_mem inside
  cases found.symm.trans foundOther
  cases framed.symm.trans framedOther
  exact inside

end Graph

/-- Exploring a method, if it succeeds, leaves a tree that was executed from the entry. -/
theorem Exploration.isTree_of_explore {setup : Setup} {calls : Calls} {method : MethodDef}
    {template : Graph} (built : Graph.ofMethod method = .ok template) {frame : Frame}
    {world : World} {done : Exploration}
    (run : explore setup calls ⟨template.setRootFrame frame, world⟩ = .ok () done) :
    done.graph.SameCode template ∧ ∃ located, done.graph.IsTree located ∧
      located.Executed setup calls template frame := by
  obtain ⟨explored, planned, same, completed, executed⟩ :=
    executed_of_exploreFrom (template.sameCode_setRootFrame frame)
      (Graph.waiting_entered built frame) run
  obtain ⟨⟨task, located⟩, rfl, isEntry⟩ := List.map_eq_singleton_iff.mp planned
  cases isEntry
  exact ⟨same, located, Machine.isTree_of_completed built same completed,
    executed _ List.mem_cons_self⟩

/-- Below every node of an explored method a path ends, and has kept what every instruction
keeps. -/
theorem Exploration.exists_end_of_explore {setup : Setup} {calls : Calls} {method : MethodDef}
    {template : Graph} (built : Graph.ofMethod method = .ok template) {frame : Frame}
    {world : World} {done : Exploration}
    (run : explore setup calls ⟨template.setRootFrame frame, world⟩ = .ok () done)
    {law : Law} (fair : law.Fair) (obey : calls.Obey law)
    {id : NodeId} {node : Node} {here : Frame} (found : done.graph.node? id = some node)
    (framed : node.frame = some here) :
    ∃ last lastNode there, done.graph.Descends id last ∧
      last.address ∈ done.graph.connectedTerminating ∧
      done.graph.node? last = some lastNode ∧ lastNode.frame = some there ∧
      law.frames here there := by
  obtain ⟨same, located, isTree, executed⟩ := isTree_of_explore built run
  have inside := (isTree.mem_toList_iff id here).mpr ⟨node, found, framed⟩
  obtain ⟨⟨last, there⟩, isLast, below, kept, instruction, present, ends⟩ :=
    executed.exists_end fair obey isTree.holds _ inside
  obtain ⟨lastNode, foundLast, framedLast⟩ := (isTree.mem_toList_iff last there).mp isLast
  refine ⟨last, lastNode, there, below, ?_, foundLast, framedLast, kept⟩
  have addressed := ((Graph.instruction?_iff_mem built _ _).mp present).2
  have first := isTree.first last (List.mem_map.mpr ⟨_, isLast, rfl⟩)
  exact List.mem_filter.mpr
    ⟨Graph.mem_terminating_of_instruction? ((same.instruction? _).trans present) addressed ends,
      Graph.isReached_of_node? foundLast first⟩

end Dexplore
