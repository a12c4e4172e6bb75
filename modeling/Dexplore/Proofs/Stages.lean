import Dexplore.Proofs.ExploredTree
import Dexplore.Proofs.History

/-!
# Stages of an exploration

An exploration can be looked at after any number of visits, and a fault may end it in the
middle of one.  At every such stage the nodes on paths form a tree, in which the nodes that
still wait are leaves (`Exploration.isTree_exploreFor`).  The branches of a node stand at
addresses that its instruction names, and the frames keep whatever every instruction keeps
(`PathTree.Grown`).
-/

set_option autoImplicit false

namespace Dexplore

/-! ## Visits that may fail -/

theorem Step.Obeys.lastFrame {α : Type} {law : Law} {step : Step α} (obeys : step.Obeys law)
    (scene : Scene) : law.frames scene.frame (lastState (step scene)).frame := by
  have allowed := obeys scene
  cases ran : step scene with
  | ok value after =>
      rw [ran] at allowed
      exact allowed.1
  | error fault after =>
      rw [ran] at allowed
      exact allowed.1

namespace Exploration

variable {id : NodeId} {graph : Graph} {node : Node} {frame : Frame}

/-- Successors become children up to the first that is no instruction. -/
theorem branched_addChildren {before : Graph} {parent : NodeId} (world : World)
    (found : before.node? parent = some node) (successors : List Address) {middle : Graph}
    {children : List NodeId} (grown : before.Branched middle parent frame children) :
    ∃ more : List NodeId, (∀ child ∈ more, child.address ∈ successors) ∧
      before.Branched
        (lastState (successors.mapM (addChild parent frame) ⟨middle, world⟩)).graph parent frame
        (children ++ more) := by
  induction successors generalizing middle children with
  | nil =>
      refine ⟨[], by simp, ?_⟩
      rw [List.append_nil]
      exact grown
  | cons address rest induction =>
      cases here : before.instruction? address with
      | none =>
          have missing : middle.instruction? address = none := by rw [grown.instruction?, here]
          have stopped : lastState ((address :: rest).mapM (addChild parent frame)
              ⟨middle, world⟩) = ⟨middle, world⟩ := by
            simp [List.mapM_cons, bind, EStateM.bind,
              addChild_of_missing parent frame world missing, lastState]
          refine ⟨[], by simp, ?_⟩
          rw [stopped, List.append_nil]
          exact grown
      | some instruction =>
          obtain ⟨id, pushed, added, atAddress, longer⟩ :=
            addChild_of_present world found grown (Option.isSome_of_eq_some here)
          obtain ⟨more, named, branched⟩ := induction longer
          have goesOn : lastState ((address :: rest).mapM (addChild parent frame)
              ⟨middle, world⟩) =
                lastState (rest.mapM (addChild parent frame) ⟨pushed, world⟩) := by
            simp only [List.mapM_cons, bind, EStateM.bind, added]
            cases rest.mapM (addChild parent frame) ⟨pushed, world⟩ <;> rfl
          refine ⟨id :: more, ?_, ?_⟩
          · intro child inside
            rcases List.mem_cons.mp inside with rfl | later
            · simp [atAddress]
            · exact List.mem_cons_of_mem _ (named child later)
          · rw [goesOn, List.append_cons]
            exact branched

/-- A visit gives its node a frame and some children, even if it fails. -/
theorem branched_visit (setup : Setup) (calls : Calls) (instruction : Instruction) (world : World)
    (found : graph.node? id = some node) (framed : node.frame = some frame) :
    ∃ children,
      graph.Branched (lastState (visit setup calls id instruction ⟨graph, world⟩)).graph id
        (lastState (instruction.execute setup calls graph.method
          ⟨frame, visiting graph world id instruction⟩)).frame children ∧
      (∀ child ∈ children, child.address ∈ instruction.possibleSuccessors) ∧
      ∀ made done, visit setup calls id instruction ⟨graph, world⟩ = .ok made done →
        made = children := by
  have recorded : (graph.recordVisit id.address).node? id = some node := by
    rw [Graph.node?_recordVisit, found]
  cases executed : instruction.execute setup calls graph.method
      ⟨frame, visiting graph world id instruction⟩ with
  | error fault scene =>
      rw [visit_eq found framed, executed]
      refine ⟨[], (Graph.Branched.setFrame _ id scene.frame).recordVisit id.address, by simp, ?_⟩
      intro made done succeeded
      cases succeeded
  | ok successors scene =>
      have possible := Instruction.successors_of_execute executed
      cases visited : visit setup calls id instruction ⟨graph, world⟩ with
      | ok children done =>
          obtain ⟨other, sameRun, -, branched⟩ := branched_of_visit found framed visited
          rw [executed] at sameRun
          cases sameRun
          refine ⟨children, branched, ?_, by simp⟩
          exact fun child inside => possible (List.mem_map.mpr ⟨child, inside, rfl⟩)
      | error fault done =>
          obtain ⟨children, named, branched⟩ := branched_addChildren scene.world recorded
            successors (Graph.Branched.setFrame _ id scene.frame)
          rw [visit_eq found framed, executed] at visited
          simp only at visited
          rw [visited, List.nil_append] at branched
          refine ⟨children, branched.recordVisit id.address, ?_, by simp⟩
          exact fun child inside => possible (named child inside)

theorem sameCode_visit (setup : Setup) (calls : Calls) (id : NodeId) (instruction : Instruction)
    (exploration : Exploration) :
    (lastState (visit setup calls id instruction exploration)).graph.SameCode
      exploration.graph := by
  obtain ⟨graph, world⟩ := exploration
  cases framed : (graph.node? id).bind (·.frame) with
  | none =>
      rw [visit_of_noFrame framed]
      exact ⟨rfl, graph.instruction?_recordVisit id.address⟩
  | some frame =>
      obtain ⟨node, found, isFrame⟩ := Option.bind_eq_some_iff.mp framed
      obtain ⟨children, branched, -⟩ := branched_visit setup calls instruction world found isFrame
      exact ⟨branched.method, branched.instruction?⟩

theorem allFrames_visit {setup : Setup} {calls : Calls} {instruction : Instruction}
    {property : Frame → Prop} {exploration : Exploration}
    (all : exploration.graph.AllFrames property)
    (executed : ∀ frame world, property frame →
      property (lastState (instruction.execute setup calls exploration.graph.method
        ⟨frame, world⟩)).frame) (id : NodeId) :
    (lastState (visit setup calls id instruction exploration)).graph.AllFrames property := by
  obtain ⟨graph, world⟩ := exploration
  cases framed : (graph.node? id).bind (·.frame) with
  | none =>
      rw [visit_of_noFrame framed]
      exact all.recordVisit id.address
  | some frame =>
      obtain ⟨node, found, isFrame⟩ := Option.bind_eq_some_iff.mp framed
      obtain ⟨children, branched, -⟩ := branched_visit setup calls instruction world found isFrame
      exact all.branched found branched (executed _ _ (all id node frame found isFrame))

/-- What every visit keeps, an exploration keeps, whether or not it fails. -/
theorem exploreFrom_keeps {setup : Setup} {calls : Calls} (holds : Exploration → Prop)
    (visits : ∀ id instruction exploration, holds exploration →
      exploration.graph.instruction? id.address = some instruction →
      holds (lastState (visit setup calls id instruction exploration)))
    (pending : List NodeId) (allowance : Allowance) (exploration : Exploration)
    (held : holds exploration) :
    holds (lastState (exploreFrom setup calls pending allowance exploration)) := by
  fun_induction exploreFrom setup calls pending allowance exploration with
  | case1 allowance exploration => exact held
  | case2 allowance exploration id rest missing => exact held
  | case3 allowance exploration id rest instruction present rejected => exact held
  | case4 allowance exploration id rest instruction present remaining spent fault after failed =>
      have kept := visits id instruction exploration held present
      rwa [failed] at kept
  | case5 allowance exploration id rest instruction present remaining spent children middle
      visited induction =>
      have kept := visits id instruction exploration held present
      rw [visited] at kept
      exact induction kept

end Exploration

/-! ## Stopping after some visits -/

namespace Exploration

def exploreFor (setup : Setup) (calls : Calls) :
    Nat → List NodeId → Allowance → Exploration → Exploration
  | 0, _, _, exploration => exploration
  | _ + 1, [], _, exploration => exploration
  | count + 1, id :: rest, allowance, exploration =>
    match exploration.graph.instruction? id.address with
    | none => exploration
    | some instruction =>
      match allowance.spend? (entranceOf setup.config exploration.graph id) with
      | none => exploration
      | some remaining =>
        match visit setup calls id instruction exploration with
        | .error _ after => after
        | .ok children after =>
          exploreFor setup calls count (children.reverse ++ rest) remaining after

theorem exploreFor_eq_lastState (setup : Setup) (calls : Calls) (pending : List NodeId)
    (allowance : Allowance) (exploration : Exploration) {count : Nat}
    (enough : allowance.total ≤ count) :
    exploreFor setup calls count pending allowance exploration =
      lastState (exploreFrom setup calls pending allowance exploration) := by
  induction count generalizing pending allowance exploration with
  | zero =>
      cases pending with
      | nil => rw [exploreFrom_nil]; rfl
      | cons id rest =>
          cases present : exploration.graph.instruction? id.address with
          | none => rw [exploreFrom_of_noInstruction present]; rfl
          | some instruction =>
              cases spent : allowance.spend? (entranceOf setup.config exploration.graph id) with
              | none => rw [exploreFrom_of_rejected present spent]; rfl
              | some remaining =>
                  have fewer := Allowance.total_spend? spent
                  omega
  | succ count induction =>
      cases pending with
      | nil => rw [exploreFrom_nil]; rfl
      | cons id rest =>
          cases present : exploration.graph.instruction? id.address with
          | none =>
              rw [exploreFrom_of_noInstruction present]
              simp [exploreFor, present, lastState]
          | some instruction =>
              cases spent : allowance.spend? (entranceOf setup.config exploration.graph id) with
              | none =>
                  rw [exploreFrom_of_rejected present spent]
                  simp [exploreFor, present, spent, lastState]
              | some remaining =>
                  have fewer := Allowance.total_spend? spent
                  rw [exploreFrom_of_spent present spent]
                  cases visited : visit setup calls id instruction exploration with
                  | error fault after =>
                      simp [exploreFor, present, spent, visited, lastState]
                  | ok children after =>
                      have later := induction (children.reverse ++ rest) remaining after
                        (by omega)
                      simpa [exploreFor, present, spent, visited] using later

end Exploration

/-! ## Trees that are still growing -/

/-- The nodes of a tree were made one after another: the frame of the root comes from the given
one, and the branches stand at successors that the instruction names. -/
inductive PathTree.Grown (law : Law) (code : Graph) :
    Frame → PathTree (NodeId × Frame) → Prop
  | node {id : NodeId} {frame after : Frame} {instruction : Instruction}
      {branches : List (PathTree (NodeId × Frame))}
      (present : code.instruction? id.address = some instruction)
      (kept : law.frames frame after)
      (named : ∀ branch ∈ branches, branch.label.1.address ∈ instruction.possibleSuccessors)
      (each : ∀ branch ∈ branches, Grown law code after branch) :
      Grown law code frame (.node (id, after) branches)

def Task.leaf (task : Task) : Explored := (task, .node (task.id, task.frame) [])

theorem Graph.Waiting.completed {graph : Graph} {tasks : List Task}
    (waiting : graph.Waiting tasks) : graph.Completed graph (tasks.map Task.leaf) := by
  have ids : (tasks.map Task.leaf).flatMap (·.2.ids) = tasks.map (·.id) := by
    rw [List.flatMap_map, List.map_eq_flatMap]
    refine List.flatMap_congr fun task _ => ?_
    simp [Task.leaf, PathTree.ids_node]
  refine ⟨?_, ?_, ids ▸ waiting.distinct, ?_, fun _ _ => rfl⟩
  · intro entry inside
    obtain ⟨task, -, rfl⟩ := List.mem_map.mp inside
    rfl
  · intro entry inside
    obtain ⟨task, isTask, rfl⟩ := List.mem_map.mp inside
    exact .node (waiting.each task isTask) (by simp)
  · intro id inside
    rw [ids] at inside
    refine .inl ?_
    rw [List.map_map]
    exact inside

namespace Exploration

variable {calls : Calls} {code graph : Graph} {law : Law}

theorem grown_waiting (fair : law.Fair) (same : graph.SameCode code) {tasks : List Task}
    (waiting : graph.Waiting tasks) :
    ∃ explored : List Explored, explored.map (·.1) = tasks ∧
      graph.Completed graph explored ∧
      ∀ entry ∈ explored, entry.2.Grown law code entry.1.frame := by
  refine ⟨tasks.map Task.leaf, by simp [Task.leaf, Function.comp_def], waiting.completed, ?_⟩
  intro entry inside
  obtain ⟨task, isTask, rfl⟩ := List.mem_map.mp inside
  obtain ⟨instruction, present⟩ := Option.isSome_iff_exists.mp
    (Graph.instruction?_isSome_of_node? (waiting.each task isTask))
  exact .node ((same.instruction? _).symm.trans present) (fair.frame_refl _) (by simp) (by simp)

/-- One visit puts a node above the trees of its children. -/
theorem grown_visited {middle final : Graph} {task : Task} {rest : List Task} {frame : Frame}
    {children : List NodeId} {instruction : Instruction}
    (present : code.instruction? task.id.address = some instruction)
    (kept : law.frames task.frame frame) (waiting : graph.Waiting (task :: rest))
    (branched : graph.Branched middle task.id frame children)
    (named : ∀ child ∈ children, child.address ∈ instruction.possibleSuccessors)
    {explored : List Explored}
    (planned : explored.map (·.1) = (children.map (task.child frame)).reverse ++ rest)
    (completed : middle.Completed final explored)
    (grown : ∀ entry ∈ explored, entry.2.Grown law code entry.1.frame) :
    ∃ all : List Explored, all.map (·.1) = task :: rest ∧ graph.Completed final all ∧
      ∀ entry ∈ all, entry.2.Grown law code entry.1.frame := by
  obtain ⟨low, high, rfl, lowTasks, rfl⟩ := List.map_eq_append_iff.mp planned
  have below : low.reverse.map (·.1) = children.map (task.child frame) := by
    rw [List.map_reverse, lowTasks, List.reverse_reverse]
  have isChild : ∀ entry ∈ low, entry.1.id ∈ children ∧ entry.1.frame = frame := by
    intro entry inside
    have among : entry.1 ∈ children.map (task.child frame) :=
      below ▸ List.mem_map.mpr ⟨entry, List.mem_reverse.mpr inside, rfl⟩
    obtain ⟨child, isChild, isEntry⟩ := List.mem_map.mp among
    rw [← isEntry]
    exact ⟨isChild, rfl⟩
  refine ⟨(task, .node (task.id, frame) (low.reverse.map (·.2))) :: high, rfl, ?_, ?_⟩
  · refine .visited waiting branched below ?_
    rw [List.reverse_reverse]
    exact completed
  · intro entry inside
    rcases List.mem_cons.mp inside with rfl | later
    · refine .node present kept ?_ ?_
      · intro branch isBranch
        obtain ⟨entry, inLow, rfl⟩ := List.mem_map.mp isBranch
        rw [List.mem_reverse] at inLow
        rw [completed.root entry (by simp [inLow])]
        exact named _ (isChild entry inLow).1
      · intro branch isBranch
        obtain ⟨entry, inLow, rfl⟩ := List.mem_map.mp isBranch
        rw [List.mem_reverse] at inLow
        have grownBelow := grown entry (by simp [inLow])
        rw [(isChild entry inLow).2] at grownBelow
        exact grownBelow
    · exact grown entry (by simp [later])

/-- At every stage, a tree has grown below every node that was pending. -/
theorem grown_exploreFor (setup : Setup) (fair : law.Fair) (obey : calls.Obey law)
    {tasks : List Task} (same : graph.SameCode code) (waiting : graph.Waiting tasks) (count : Nat)
    (allowance : Allowance) (world : World) :
    ∃ explored : List Explored, explored.map (·.1) = tasks ∧
      (exploreFor setup calls count (tasks.map (·.id)) allowance ⟨graph, world⟩).graph.SameCode
        code ∧
      graph.Completed
        (exploreFor setup calls count (tasks.map (·.id)) allowance ⟨graph, world⟩).graph
        explored ∧
      ∀ entry ∈ explored, entry.2.Grown law code entry.1.frame := by
  induction count generalizing tasks allowance graph world with
  | zero =>
      obtain ⟨explored, planned, rest⟩ := grown_waiting fair same waiting
      exact ⟨explored, planned, same, rest⟩
  | succ count induction =>
      obtain ⟨explored, planned, rest⟩ := grown_waiting fair same waiting
      cases tasks with
      | nil => exact ⟨explored, planned, same, rest⟩
      | cons task tasks =>
          obtain ⟨instruction, present⟩ :=
            Option.isSome_iff_exists.mp (Graph.instruction?_isSome_of_node? waiting.head)
          rw [List.map_cons]
          unfold exploreFor
          simp only [present]
          cases spent : allowance.spend? (entranceOf setup.config graph task.id) with
          | none => exact ⟨explored, planned, same, rest⟩
          | some remaining =>
              have kept := (instruction.execute_obeys fair setup obey graph.method).lastFrame
                ⟨task.frame, visiting graph world task.id instruction⟩
              have here := (same.instruction? _).symm.trans present
              obtain ⟨children, branched, named, made⟩ :=
                branched_visit setup calls instruction world waiting.head rfl
              cases visited : visit setup calls task.id instruction ⟨graph, world⟩ with
              | error fault after =>
                  rw [visited] at branched
                  have sameAfter := branched.sameCode same
                  obtain ⟨below, plannedBelow, completed, grown⟩ :=
                    grown_waiting fair sameAfter (waiting.visited branched)
                  obtain ⟨all, plannedAll, restAll⟩ :=
                    grown_visited here kept waiting branched named plannedBelow completed grown
                  exact ⟨all, plannedAll, sameAfter, restAll⟩
              | ok successors after =>
                  cases made _ _ visited
                  rw [visited] at branched
                  obtain ⟨below, plannedBelow, sameDone, completed, grown⟩ :=
                    induction (branched.sameCode same) (waiting.visited branched) remaining
                      after.world
                  rw [task.map_id_children] at sameDone completed
                  obtain ⟨all, plannedAll, restAll⟩ :=
                    grown_visited here kept waiting branched named plannedBelow completed grown
                  exact ⟨all, plannedAll, sameDone, restAll⟩

/-- At every stage of the exploration of a method, the nodes on paths form a tree. -/
theorem isTree_exploreFor (setup : Setup) (fair : law.Fair) (obey : calls.Obey law)
    {method : MethodDef} {template : Graph} (built : Graph.ofMethod method = .ok template)
    (frame : Frame) (world : World) (count : Nat) (allowance : Allowance) :
    (exploreFor setup calls count [.root] allowance
        ⟨template.setRootFrame frame, world⟩).graph.SameCode template ∧
      ∃ located, located.Grown law template frame ∧
        (template.setRootFrame frame).Completed
          (exploreFor setup calls count [.root] allowance
            ⟨template.setRootFrame frame, world⟩).graph [(Task.entry frame, located)] ∧
        (exploreFor setup calls count [.root] allowance
          ⟨template.setRootFrame frame, world⟩).graph.IsTree located := by
  obtain ⟨explored, planned, same, completed, grown⟩ :=
    grown_exploreFor setup fair obey (template.sameCode_setRootFrame frame)
      (Graph.waiting_entered built frame) count allowance world
  obtain ⟨⟨task, located⟩, rfl, isEntry⟩ := List.map_eq_singleton_iff.mp planned
  cases isEntry
  exact ⟨same, located, grown _ List.mem_cons_self, completed,
    Machine.isTree_of_completed built same completed⟩

end Exploration

end Dexplore
