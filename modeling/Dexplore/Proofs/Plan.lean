import Mathlib.Data.List.Nodup
import Dexplore.Exploration
import Dexplore.Proofs.GraphGrowth
import Dexplore.Proofs.PathTree
import Dexplore.Proofs.Template

/-!
# Pending nodes and their trees

The nodes that an exploration has not visited yet are followed together with the trees they
are the roots of.  One visit replaces a node by its children and their trees, the last child
first: `Graph.Waiting.visited` and `Plan.count_entrances_visited` say what that does to the
pending nodes, `Graph.Completed.visited` what it adds to the finished graph.
-/

set_option autoImplicit false

namespace Dexplore

/-! ## Pending nodes -/

structure Task where
  id : NodeId
  parent : Option NodeId
  frame : Frame

/-- A task with the tree that its visit will lead to. -/
abbrev Plan := Task × PathTree (Address × Frame)

abbrev Explored := Task × PathTree (NodeId × Frame)

def Task.child (task : Task) (frame : Frame) (id : NodeId) : Task := ⟨id, some task.id, frame⟩

theorem Task.map_id_children (task : Task) (frame : Frame) (children : List NodeId)
    (rest : List Task) :
    ((children.map (task.child frame)).reverse ++ rest).map (·.id) =
      children.reverse ++ rest.map (·.id) := by
  simp [Task.child, Function.comp_def]

def Task.entrance (budget : VisitBudget) (task : Task) : Entrance :=
  budget.entrance (task.parent.map (·.address)) task.id.address

/-- Tasks that wait in a graph, each under its own name. -/
structure Graph.Waiting (graph : Graph) (tasks : List Task) : Prop where
  distinct : (tasks.map (·.id)).Nodup
  each : ∀ task ∈ tasks,
    graph.node? task.id = some ⟨task.id.address, some task.frame, task.parent, []⟩

namespace Graph.Waiting

variable {graph after : Graph} {task : Task} {rest : List Task} {frame : Frame}
  {children : List NodeId}

theorem head (waiting : graph.Waiting (task :: rest)) :
    graph.node? task.id = some ⟨task.id.address, some task.frame, task.parent, []⟩ :=
  waiting.each task (by simp)

theorem entranceOf (config : Config) (waiting : graph.Waiting (task :: rest)) :
    Exploration.entranceOf config graph task.id = task.entrance config.budget := by
  rw [Exploration.entranceOf, waiting.head]
  rfl

/-- After the visit of a node its children wait in its place. -/
theorem visited (waiting : graph.Waiting (task :: rest))
    (grown : graph.Branched after task.id frame children) :
    after.Waiting ((children.map (task.child frame)).reverse ++ rest) := by
  have distinct := List.nodup_cons.mp (List.map_cons ▸ waiting.distinct)
  have there : ∀ other ∈ rest, other.id ∉ children := by
    intro other inside isChild
    have unused := grown.fresh other.id isChild
    rw [waiting.each other (by simp [inside])] at unused
    cases unused
  constructor
  · have names : (children.map (task.child frame)).map (·.id) = children := by
      simp [List.map_map, Function.comp_def, Task.child]
    rw [List.map_append, List.map_reverse, names, List.nodup_append]
    refine ⟨List.nodup_reverse.mpr grown.nodup, distinct.2, ?_⟩
    intro child isChild other isOther same
    obtain ⟨pending, inside, rfl⟩ := List.mem_map.mp isOther
    exact there pending inside (same ▸ List.mem_reverse.mp isChild)
  · intro other inside
    rcases List.mem_append.mp inside with isChild | isRest
    · obtain ⟨child, among, rfl⟩ := List.mem_map.mp (List.mem_reverse.mp isChild)
      exact grown.child child among
    · have different : other.id ≠ task.id := by
        intro same
        exact distinct.1 (same ▸ List.mem_map.mpr ⟨other, isRest, rfl⟩)
      rw [grown.other other.id (there other isRest) different]
      exact waiting.each other (by simp [isRest])

end Graph.Waiting

/-! ## The entry of a method -/

def Task.entry (frame : Frame) : Task := ⟨.root, none, frame⟩

namespace Graph

variable {method : MethodDef} {template : Graph}

theorem node?_entered (built : ofMethod method = .ok template) (frame : Frame) (id : NodeId) :
    (template.setRootFrame frame).node? id =
      if id = .root then some ⟨0, some frame, none, []⟩ else template.node? id := by
  rw [setRootFrame, setFrame, node?_modifyNode]
  by_cases isRoot : id = .root
  · subst isRoot
    rw [node?_template built]
    simp [NodeId.root, instruction?_entry built, Node.blank]
  · simp [isRoot]

theorem waiting_entered (built : ofMethod method = .ok template) (frame : Frame) :
    (template.setRootFrame frame).Waiting [.entry frame] := by
  refine ⟨by simp, ?_⟩
  intro task inside
  cases List.mem_singleton.mp inside
  rw [node?_entered built]
  rfl

end Graph

/-! ## Plans -/

def Plan.entrances (budget : VisitBudget) (plans : List Plan) : List Entrance :=
  plans.flatMap fun plan => plan.2.entrances budget (plan.1.parent.map (·.address))

def Plan.offspring (task : Task) (frame : Frame) (children : List NodeId)
    (branches : List (PathTree (Address × Frame))) : List Plan :=
  List.zip (children.map (task.child frame)) branches

namespace Plan

variable {task : Task} {frame : Frame} {children : List NodeId}
  {branches : List (PathTree (Address × Frame))}

theorem map_fst_offspring (task : Task) (frame : Frame)
    (same : children.length = branches.length) :
    (offspring task frame children branches).map (·.1) = children.map (task.child frame) :=
  List.map_fst_zip (by simp [same])

theorem map_id_offspring (task : Task) (frame : Frame)
    (same : children.length = branches.length) :
    (offspring task frame children branches).map (·.1.id) = children := by
  have names := congrArg (List.map (·.id)) (map_fst_offspring task frame same)
  rw [List.map_map, List.map_map] at names
  exact names.trans (List.map_id _)

theorem map_snd_offspring (task : Task) (frame : Frame)
    (same : children.length = branches.length) :
    (offspring task frame children branches).map (·.2) = branches :=
  List.map_snd_zip (by simp [same])

theorem offspring_unfolds_iff (step : PathTree.PathStep) (task : Task) (frame : Frame)
    (same : children.length = branches.length) :
    (∀ plan ∈ offspring task frame children branches,
      PathTree.Unfolds step plan.1.id.address plan.1.frame plan.2) ↔
    List.Forall₂ (fun target branch => PathTree.Unfolds step target frame branch)
      (children.map (·.address)) branches := by
  rw [List.forall₂_map_left_iff]
  have paired : List.Forall₂ (fun (child : Task) branch =>
        PathTree.Unfolds step child.id.address child.frame branch)
      (children.map (task.child frame)) branches ↔
      ∀ {child branch}, (child, branch) ∈ offspring task frame children branches →
        PathTree.Unfolds step child.id.address child.frame branch := by
    rw [List.forall₂_iff_zip]
    exact and_iff_right ((List.length_map _).trans same)
  rw [List.forall₂_map_left_iff] at paired
  constructor
  · intro each
    exact paired.mpr fun {child branch} inside => each (child, branch) inside
  · intro each plan inside
    exact paired.mp each inside

/-- A visit takes one way, and leaves those of the children to be taken. -/
theorem count_entrances_visited (budget : VisitBudget) (task : Task) (frame : Frame)
    (rest : List Plan) (same : children.length = branches.length) (wanted : Entrance) :
    (entrances budget ((task, .node (task.id.address, frame) branches) :: rest)).count wanted =
      (entrances budget ((offspring task frame children branches).reverse ++ rest)).count wanted +
        if task.entrance budget = wanted then 1 else 0 := by
  have ofChildren : entrances budget (offspring task frame children branches) =
      branches.flatMap (PathTree.entrances budget (some task.id.address)) := by
    have fromTask : ∀ plan ∈ offspring task frame children branches,
        plan.2.entrances budget (plan.1.parent.map (·.address)) =
          plan.2.entrances budget (some task.id.address) := by
      intro plan inside
      obtain ⟨child, -, isChild⟩ := List.mem_map.mp (List.of_mem_zip inside).1
      rw [← isChild]
      rfl
    calc entrances budget (offspring task frame children branches)
        = (offspring task frame children branches).flatMap
            (fun plan => plan.2.entrances budget (some task.id.address)) :=
          List.flatMap_congr fromTask
      _ = ((offspring task frame children branches).map (·.2)).flatMap
            (PathTree.entrances budget (some task.id.address)) := by
          rw [List.flatMap_map]
      _ = _ := by rw [map_snd_offspring task frame same]
  have reversed :
      (entrances budget (offspring task frame children branches).reverse).count wanted =
        (entrances budget (offspring task frame children branches)).count wanted :=
    ((List.reverse_perm _).flatMap_right _).count_eq wanted
  have splitRest : entrances budget ((offspring task frame children branches).reverse ++ rest) =
      entrances budget (offspring task frame children branches).reverse ++
        entrances budget rest := List.flatMap_append
  have splitHead :
      entrances budget ((task, .node (task.id.address, frame) branches) :: rest) =
        task.entrance budget ::
          (entrances budget (offspring task frame children branches) ++
            entrances budget rest) := by
    rw [ofChildren, entrances, List.flatMap_cons, PathTree.entrances_node]
    rfl
  rw [splitHead, splitRest, List.count_cons, List.count_append, List.count_append, reversed]
  simp only [beq_iff_eq]

end Plan

/-! ## What an exploration leaves behind -/

/-- A graph after the visits of some tasks: it holds the tree of each, no two trees share a
node, and apart from the nodes of the trees nothing has changed. -/
structure Graph.Completed (before final : Graph) (explored : List Explored) : Prop where
  root : ∀ entry ∈ explored, entry.2.label.1 = entry.1.id
  held : ∀ entry ∈ explored, final.Holds entry.1.parent entry.2
  nodup : (explored.flatMap (·.2.ids)).Nodup
  origin : ∀ id ∈ explored.flatMap (·.2.ids),
    id ∈ explored.map (·.1.id) ∨ before.node? id = none
  other : ∀ id, id ∉ explored.flatMap (·.2.ids) → final.node? id = before.node? id

namespace Graph.Completed

variable {before middle final : Graph} {task : Task} {frame : Frame} {children : List NodeId}
  {below rest : List Explored}

theorem nil (graph : Graph) : graph.Completed graph [] where
  root := by simp
  held := by simp
  nodup := by simp
  origin := by simp
  other _ _ := rfl

theorem visited (waiting : before.Waiting (task :: rest.map (·.1)))
    (grown : before.Branched middle task.id frame children)
    (tasks : below.map (·.1) = children.map (task.child frame))
    (done : middle.Completed final (below.reverse ++ rest)) :
    before.Completed final ((task, .node (task.id, frame) (below.map (·.2))) :: rest) := by
  have distinct := List.nodup_cons.mp (List.map_cons ▸ waiting.distinct)
  have visited := grown.executed _ waiting.head
  have labels : (below.map (·.2)).map (·.label.1) = children := by
    have roots : below.map (·.2.label.1) = below.map (·.1.id) :=
      List.map_congr_left fun entry inside => done.root entry (by simp [inside])
    have names : below.map (·.1.id) = (below.map (·.1)).map (·.id) := by
      rw [List.map_map]
      rfl
    rw [List.map_map]
    refine (roots.trans names).trans ?_
    rw [tasks, List.map_map]
    exact List.map_id _
  -- The nodes below the visited one come in another order than they were visited in.
  have reordered :
      (((task, .node (task.id, frame) (below.map (·.2))) :: rest : List Explored).flatMap
        (·.2.ids)).Perm (task.id :: (below.reverse ++ rest).flatMap (·.2.ids)) := by
    rw [List.flatMap_cons, PathTree.ids_node, List.flatMap_map, List.flatMap_append]
    exact (((List.reverse_perm below).symm.flatMap_right _).append_right _).cons _
  have isChild : ∀ entry ∈ below, entry.1.id ∈ children ∧ entry.1.parent = some task.id := by
    intro entry inside
    have among : entry.1 ∈ children.map (task.child frame) :=
      tasks ▸ List.mem_map.mpr ⟨entry, inside, rfl⟩
    obtain ⟨child, isChild, same⟩ := List.mem_map.mp among
    rw [← same]
    exact ⟨isChild, rfl⟩
  have unvisited : task.id ∉ (below.reverse ++ rest).flatMap (·.2.ids) := by
    intro inside
    rcases done.origin task.id inside with isTask | absent
    · obtain ⟨entry, among, same⟩ := List.mem_map.mp isTask
      rcases List.mem_append.mp among with inBelow | inRest
      · have unused := grown.fresh _ (isChild entry (List.mem_reverse.mp inBelow)).1
        rw [same, waiting.head] at unused
        cases unused
      · have pending : entry.1 ∈ rest.map (·.1) := List.mem_map.mpr ⟨entry, inRest, rfl⟩
        exact distinct.1 (same ▸ List.mem_map.mpr ⟨entry.1, pending, rfl⟩)
    · rw [visited] at absent
      cases absent
  have childrenVisited :
      ∀ child ∈ children, child ∈ (below.reverse ++ rest).flatMap (·.2.ids) := by
    intro child inside
    rw [← labels, List.map_map] at inside
    obtain ⟨entry, inBelow, same⟩ := List.mem_map.mp inside
    refine List.mem_flatMap.mpr ⟨entry, by simp [inBelow], ?_⟩
    exact List.mem_map.mpr ⟨entry.2.label, entry.2.label_mem_toList, same⟩
  refine ⟨?_, ?_, ?_, ?_, ?_⟩
  · intro entry inside
    rcases List.mem_cons.mp inside with rfl | inRest
    · rfl
    · exact done.root entry (by simp [inRest])
  · intro entry inside
    rcases List.mem_cons.mp inside with rfl | inRest
    · refine .node ?_ ?_
      · rw [done.other task.id unvisited, visited, labels, List.nil_append]
      · intro branch isBranch
        obtain ⟨entry, inBelow, rfl⟩ := List.mem_map.mp isBranch
        rw [← (isChild entry inBelow).2]
        exact done.held entry (by simp [inBelow])
    · exact done.held entry (by simp [inRest])
  · rw [reordered.nodup_iff]
    exact List.nodup_cons.mpr ⟨unvisited, done.nodup⟩
  · intro id inside
    rcases List.mem_cons.mp (reordered.mem_iff.mp inside) with rfl | inside
    · exact .inl (by simp)
    · rcases done.origin id inside with isTask | absent
      · obtain ⟨entry, among, rfl⟩ := List.mem_map.mp isTask
        rcases List.mem_append.mp among with inBelow | inRest
        · exact .inr (grown.fresh _ (isChild entry (List.mem_reverse.mp inBelow)).1)
        · exact .inl (List.mem_map.mpr ⟨entry, List.mem_cons_of_mem _ inRest, rfl⟩)
      · exact .inr (grown.absent absent)
  · intro id outside
    rw [reordered.mem_iff, List.mem_cons, not_or] at outside
    rw [done.other id outside.2]
    exact grown.other id (fun inside => outside.2 (childrenVisited id inside)) outside.1

end Graph.Completed

end Dexplore
