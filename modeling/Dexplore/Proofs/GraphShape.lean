import Dexplore.Proofs.Stages

/-!
# The shape of execution graphs

Nodes name each other by address and index.  However far an exploration has come, and however
it ends, these names fit together (`Graph.Shaped`): a node on a pile hangs under one parent,
once, the nodes with a frame are the tree below the entry, and they are as many as the graph
says.  After an exploration that succeeds, the leaves of the tree stand exactly where paths
end (`Exploration.graph_shaped`).
-/

set_option autoImplicit false

namespace Dexplore

/-! ## Subtrees -/

namespace PathTree

variable {α : Type}

/-- The first tree is the second, or stands somewhere below its root. -/
inductive Within (inner : PathTree α) : PathTree α → Prop
  | refl : Within inner inner
  | branch {tree : PathTree α} {label : α} {branches : List (PathTree α)}
      (isBranch : tree ∈ branches) (within : Within inner tree) :
      Within inner (.node label branches)

theorem exists_within {tree : PathTree α} {label : α} (inside : label ∈ tree.toList) :
    ∃ branches, Within (.node label branches) tree := by
  induction tree with
  | node top branches induction =>
      rw [toList_node] at inside
      rcases List.mem_cons.mp inside with rfl | deeper
      · exact ⟨branches, .refl⟩
      · obtain ⟨branch, isBranch, deeper⟩ := List.mem_flatMap.mp deeper
        obtain ⟨below, within⟩ := induction branch isBranch deeper
        exact ⟨below, .branch isBranch within⟩

namespace Within

variable {inner tree : PathTree α}

/-- A subtree is the whole tree, or a branch of a node of the tree. -/
theorem eq_or_branch (within : Within inner tree) :
    inner = tree ∨ ∃ label branches, Within (.node label branches) tree ∧ inner ∈ branches := by
  induction within with
  | refl => exact .inl rfl
  | @branch tree label branches isBranch within induction =>
      refine .inr ?_
      rcases induction with rfl | ⟨above, others, deeper, among⟩
      · exact ⟨label, branches, .refl, isBranch⟩
      · exact ⟨above, others, .branch isBranch deeper, among⟩

theorem toList_sublist (within : Within inner tree) : inner.toList.Sublist tree.toList := by
  induction within with
  | refl => exact .refl _
  | @branch tree label branches isBranch within induction =>
      rw [toList_node]
      refine (induction.trans ?_).cons label
      obtain ⟨front, back, rfl⟩ := List.append_of_mem isBranch
      rw [List.flatMap_append, List.flatMap_cons]
      exact (List.sublist_append_left _ _).trans (List.sublist_append_right _ _)

end Within

theorem nodup_branches {tree : PathTree (NodeId × Frame)} {label : NodeId × Frame}
    {branches : List (PathTree (NodeId × Frame))} (within : Within (.node label branches) tree)
    (nodup : tree.ids.Nodup) : (branches.map (·.label.1)).Nodup := by
  have inner : (label.1 :: branches.flatMap ids).Nodup := by
    rw [← ids_node label.1 label.2]
    exact nodup.sublist (within.toList_sublist.map _)
  refine (List.nodup_cons.mp inner).2.sublist ?_
  clear inner within
  induction branches with
  | nil => exact .refl _
  | cons first rest induction =>
      obtain ⟨⟨id, frame⟩, below⟩ := first
      rw [List.map_cons, List.flatMap_cons, ids_node, List.cons_append]
      exact (induction.trans (List.sublist_append_right _ _)).cons_cons id

end PathTree

open PathTree

theorem Graph.Holds.within {graph : Graph} {parent : Option NodeId}
    {inner tree : PathTree (NodeId × Frame)} (holds : graph.Holds parent tree)
    (within : Within inner tree) : ∃ above, graph.Holds above inner := by
  induction within generalizing parent with
  | refl => exact ⟨parent, holds⟩
  | branch isBranch within induction => exact induction (holds.inv.2 _ isBranch)

theorem PathTree.Grown.within {law : Law} {code : Graph} {frame : Frame}
    {inner tree : PathTree (NodeId × Frame)} (grown : tree.Grown law code frame)
    (within : Within inner tree) (fair : law.Fair) :
    ∃ before, law.frames frame before ∧ inner.Grown law code before := by
  induction within generalizing frame with
  | refl => exact ⟨frame, fair.frame_refl frame, grown⟩
  | branch isBranch within induction =>
      cases grown with
      | node present kept named each =>
          obtain ⟨before, keptBefore, grownThere⟩ := induction (each _ isBranch)
          exact ⟨before, fair.frame_trans kept keptBefore, grownThere⟩

theorem PathTree.Executed.within {setup : Setup} {calls : Calls} {code : Graph} {frame : Frame}
    {inner tree : PathTree (NodeId × Frame)} (executed : tree.Executed setup calls code frame)
    (within : Within inner tree) : ∃ before, inner.Executed setup calls code before := by
  induction within generalizing frame with
  | refl => exact ⟨frame, executed⟩
  | branch isBranch within induction =>
      cases executed with
      | node present run each => exact induction (each _ isBranch)

/-! ## Counting nodes -/

namespace Graph

variable {graph : Graph}

def cloneIds (graph : Graph) : List NodeId :=
  graph.piles.entries.flatMap fun entry =>
    (List.range entry.2.clones.length).map fun index => ⟨entry.1, index + 1⟩

theorem mem_cloneIds_iff (graph : Graph) (id : NodeId) :
    id ∈ graph.cloneIds ↔ 1 ≤ id.index ∧ (graph.node? id).isSome := by
  obtain ⟨address, index⟩ := id
  rw [cloneIds, List.mem_flatMap]
  constructor
  · rintro ⟨⟨place, pile⟩, isPile, inside⟩
    obtain ⟨below, isBelow, same⟩ := List.mem_map.mp inside
    obtain ⟨rfl, rfl⟩ := NodeId.mk.inj same
    have found : graph.piles.find? place = some pile := OrdMap.find?_eq_some_iff.mpr isPile
    have bound : below < pile.clones.length := List.mem_range.mp isBelow
    refine ⟨Nat.le_add_left 1 below, ?_⟩
    simp [node?, found, Pile.nodes, bound]
  · rintro ⟨above, present⟩
    obtain ⟨node, isNode⟩ := Option.isSome_iff_exists.mp present
    obtain ⟨pile, found, isNode⟩ := Option.bind_eq_some_iff.mp isNode
    refine ⟨(address, pile), OrdMap.find?_eq_some_iff.mp found, ?_⟩
    have bound : index < pile.clones.length + 1 := (List.getElem?_eq_some_iff.mp isNode).1
    have positive : 1 ≤ index := above
    have lower : index - 1 < pile.clones.length := by omega
    exact List.mem_map.mpr ⟨index - 1, List.mem_range.mpr lower, by rw [Nat.sub_add_cancel above]⟩

theorem nodup_cloneIds (graph : Graph) : graph.cloneIds.Nodup := by
  rw [cloneIds, List.nodup_flatMap]
  constructor
  · intro entry _
    refine List.nodup_range.map ?_
    intro left right same
    simpa using same
  · refine graph.piles.ascending.imp ?_
    intro left right below id inLeft inRight
    obtain ⟨_, -, rfl⟩ := List.mem_map.mp inLeft
    obtain ⟨_, -, same⟩ := List.mem_map.mp inRight
    exact Entries.ne_of_compare below (by simp) (NodeId.mk.inj same).1.symm

/-- The nodes on paths are the entry, if it has a frame, and those that were put on piles. -/
theorem nodeCount_eq (graph : Graph) :
    graph.nodeCount = graph.cloneIds.length + if graph.rootFrame?.isSome then 1 else 0 := by
  rw [nodeCount, cloneIds, OrdMap.values]
  induction graph.piles.entries with
  | nil => simp
  | cons entry rest induction =>
      simp only [List.map_cons, List.foldr_cons, List.flatMap_cons, List.length_append,
        List.length_map, List.length_range, induction]
      omega

end Graph

/-! ## Frames keep their shape -/

def Frame.SameShape (frame after : Frame) : Prop :=
  after.registerCount = frame.registerCount ∧ after.parameterCount = frame.parameterCount

def Law.shape : Law where
  frames before after := before.SameShape after
  worlds _ _ := True
  faults _ := True

theorem Law.shape_fair : Law.shape.Fair where
  frame_refl _ := ⟨rfl, rfl⟩
  frame_trans first second := ⟨second.1.trans first.1, second.2.trans first.2⟩
  write := by
    intro frame after register value written
    refine ⟨Frame.registerCount_write written, ?_⟩
    rw [Frame.eq_of_write written]
  withResult _ _ := ⟨rfl, rfl⟩
  writeStatic _ _ _ := ⟨rfl, rfl⟩
  widenArrays frame type keep := ⟨frame.registerCount_widenArrays type keep, rfl⟩
  widenStaticArrays _ _ := ⟨rfl, rfl⟩
  world_refl _ := trivial
  world_trans _ _ := trivial
  remark _ _ _ := trivial
  access _ _ := trivial
  invalidRegister _ _ := trivial
  malformed _ := trivial

/-- Whatever is called, it does not touch the frame of the caller. -/
theorem Calls.obey_shape (calls : Calls) : calls.Obey Law.shape := by
  have free : ∀ {α : Type} (run : Run α), run.Obeys Law.shape := by
    intro α run world
    cases run world with
    | ok value after => exact trivial
    | error fault after => exact ⟨trivial, trivial⟩
  exact ⟨fun type => free _, fun descriptor frame => free _⟩

/-! ## Names that fit together -/

/-- What holds of a graph that was entered with a frame, at every stage of its exploration. -/
structure Graph.Shaped (graph : Graph) (entry : Frame) : Prop where
  /-- Only at the entry does the first node of an instruction lie on a path. -/
  blank : ∀ id node, graph.node? id = some node → id.index = 0 → id.address ≠ 0 →
    node.frame = none ∧ node.parent = none ∧ node.children = []
  addressed : ∀ id node, graph.node? id = some node → node.address = id.address
  /-- A node that was put on a pile is a child of one node, once, at an address that the
  instruction of this node names. -/
  clone : ∀ id node, graph.node? id = some node → 1 ≤ id.index →
    node.frame.isSome ∧ ∃ parent above instruction, node.parent = some parent ∧
      graph.node? parent = some above ∧ above.children.count id = 1 ∧
      (∀ other otherNode, graph.node? other = some otherNode → id ∈ otherNode.children →
        other = parent) ∧
      graph.instruction? parent.address = some instruction ∧
      id.address ∈ instruction.possibleSuccessors
  child : ∀ id node, graph.node? id = some node → ∀ next ∈ node.children,
    (graph.node? next).isSome
  /-- The nodes on paths are the tree below the entry, and are counted. -/
  tree : ∃ located, graph.IsTree located ∧ graph.nodeCount = located.ids.length
  frames : ∀ id node frame, graph.node? id = some node → node.frame = some frame →
    entry.SameShape frame

namespace Graph

variable {graph : Graph} {located : PathTree (NodeId × Frame)}

theorem IsTree.subtree (isTree : graph.IsTree located) {id : NodeId} (inside : id ∈ located.ids) :
    ∃ frame parent branches, Within (.node (id, frame) branches) located ∧
      graph.node? id =
        some ⟨id.address, some frame, parent, branches.map (·.label.1)⟩ ∧
      ∀ branch ∈ branches, ∃ next node, branch.label.1 = next ∧ next ∈ located.ids ∧
        graph.node? next = some node ∧ node.parent = some id := by
  obtain ⟨⟨_, frame⟩, isLabel, rfl⟩ := List.mem_map.mp inside
  obtain ⟨branches, within⟩ := exists_within isLabel
  obtain ⟨parent, holds⟩ := isTree.holds.within within
  refine ⟨frame, parent, branches, within, holds.inv.1, ?_⟩
  rintro ⟨⟨next, there⟩, below⟩ isBranch
  have isLabelBelow : (next, there) ∈ located.toList := by
    refine within.toList_sublist.subset ?_
    rw [toList_node]
    refine List.mem_cons_of_mem _ (List.mem_flatMap.mpr ⟨_, isBranch, ?_⟩)
    rw [toList_node]
    exact List.mem_cons_self
  exact ⟨next, _, rfl, List.mem_map.mpr ⟨_, isLabelBelow, rfl⟩,
    (holds.inv.2 _ isBranch).inv.1, rfl⟩

theorem IsTree.root_mem (isTree : graph.IsTree located) : .root ∈ located.ids :=
  List.mem_map.mpr ⟨located.label, located.label_mem_toList, isTree.root⟩

theorem IsTree.exists_parent (isTree : graph.IsTree located) {id : NodeId}
    (inside : id ∈ located.ids) (below : id ≠ .root) :
    ∃ parent frame branches, Within (.node (parent, frame) branches) located ∧
      ∃ branch ∈ branches, branch.label.1 = id := by
  obtain ⟨frame, -, branches, within, -⟩ := isTree.subtree inside
  rcases within.eq_or_branch with isAll | ⟨⟨parent, there⟩, others, above, isBranch⟩
  · refine absurd ?_ below
    rw [← isTree.root, ← isAll]
    rfl
  · exact ⟨parent, there, others, above, _, isBranch, rfl⟩

/-- If every node on a pile lies on a path, the nodes of the tree are counted. -/
theorem IsTree.nodeCount_eq_length (isTree : graph.IsTree located)
    (clones : ∀ id, 1 ≤ id.index → (graph.node? id).isSome → id ∈ located.ids) :
    graph.nodeCount = located.ids.length := by
  have entered : graph.rootFrame?.isSome := by
    obtain ⟨node, found, framed⟩ := (isTree.onPath .root).mp isTree.root_mem
    rw [rootFrame?, found]
    exact framed
  have rootless : NodeId.root ∉ graph.cloneIds := by
    rw [mem_cloneIds_iff]
    exact fun above => absurd above.1 (by decide)
  have reordered : located.ids.Perm (.root :: graph.cloneIds) := by
    refine (List.perm_ext_iff_of_nodup isTree.nodup
      (List.nodup_cons.mpr ⟨rootless, graph.nodup_cloneIds⟩)).mpr fun id => ?_
    rw [List.mem_cons, mem_cloneIds_iff]
    constructor
    · intro inside
      by_cases first : id.index = 0
      · exact .inl (isTree.first id inside first)
      · obtain ⟨node, found, -⟩ := (isTree.onPath id).mp inside
        exact .inr ⟨Nat.one_le_iff_ne_zero.mpr first, by simp [found]⟩
    · rintro (rfl | ⟨above, present⟩)
      · exact isTree.root_mem
      · exact clones id above present
  rw [nodeCount_eq, if_pos entered, reordered.length_eq, List.length_cons]

section Completed

variable {method : MethodDef} {template : Graph} {frame : Frame} {id : NodeId} {node : Node}

/-- Off the tree, a graph is as it was built. -/
theorem blank_of_off (built : ofMethod method = .ok template)
    (completed : (template.setRootFrame frame).Completed graph [(Task.entry frame, located)])
    (isTree : graph.IsTree located) (found : graph.node? id = some node)
    (off : id ∉ located.ids) : id.index = 0 ∧ node = .blank id.address := by
  have notRoot : id ≠ .root := fun isRoot => off (isRoot ▸ isTree.root_mem)
  rw [completed.other id (by rwa [List.flatMap_singleton]), node?_entered built,
    if_neg notRoot, node?_template built] at found
  split at found
  · next first => exact ⟨first.1, (Option.some.inj found).symm⟩
  · cases found

theorem parent_of_child (built : ofMethod method = .ok template)
    (completed : (template.setRootFrame frame).Completed graph [(Task.entry frame, located)])
    (isTree : graph.IsTree located) (found : graph.node? id = some node) {next : NodeId}
    (isNext : next ∈ node.children) :
    ∃ below, graph.node? next = some below ∧ below.parent = some id := by
  by_cases inside : id ∈ located.ids
  · obtain ⟨_, _, branches, -, foundToo, each⟩ := isTree.subtree inside
    cases found.symm.trans foundToo
    obtain ⟨branch, isBranch, isLabel⟩ := List.mem_map.mp isNext
    obtain ⟨_, below, rfl, -, foundBelow, isParent⟩ := each branch isBranch
    exact ⟨below, isLabel ▸ foundBelow, isParent⟩
  · rw [(blank_of_off built completed isTree found inside).2] at isNext
    cases isNext

/-- A node of the tree other than the entry is a child of one node, once. -/
theorem hangs_once (built : ofMethod method = .ok template) (same : graph.SameCode template)
    (completed : (template.setRootFrame frame).Completed graph [(Task.entry frame, located)])
    (isTree : graph.IsTree located) (grown : located.Grown Law.shape template frame)
    (found : graph.node? id = some node) (inside : id ∈ located.ids) (below : id ≠ .root) :
    ∃ parent above instruction, node.parent = some parent ∧
      graph.node? parent = some above ∧ above.children.count id = 1 ∧
      (∀ other otherNode, graph.node? other = some otherNode → id ∈ otherNode.children →
        other = parent) ∧
      graph.instruction? parent.address = some instruction ∧
      id.address ∈ instruction.possibleSuccessors := by
  have parentOf : ∀ other otherNode, graph.node? other = some otherNode →
      id ∈ otherNode.children → node.parent = some other := by
    intro other otherNode foundOther isChild
    obtain ⟨child, foundChild, isParent⟩ :=
      parent_of_child built completed isTree foundOther isChild
    cases found.symm.trans foundChild
    exact isParent
  obtain ⟨parent, there, branches, within, branch, isBranch, rfl⟩ :=
    isTree.exists_parent inside below
  obtain ⟨_, holds⟩ := isTree.holds.within within
  obtain ⟨before, -, grownThere⟩ := grown.within within Law.shape_fair
  have foundParent := holds.inv.1
  have isNext : branch.label.1 ∈ branches.map (·.label.1) :=
    List.mem_map.mpr ⟨branch, isBranch, rfl⟩
  have isParent := parentOf parent _ foundParent isNext
  cases grownThere with
  | @node _ _ _ instruction _ present kept named each =>
      refine ⟨parent, _, instruction, isParent, foundParent, ?_, ?_,
        (same.instruction? _).trans present, named branch isBranch⟩
      · exact List.count_eq_one_of_mem (nodup_branches within isTree.nodup) isNext
      · intro other otherNode foundOther isChild
        have isOther := parentOf other otherNode foundOther isChild
        exact Option.some.inj (isOther.symm.trans isParent)

/-- A graph in which a tree has grown from the entry is in shape. -/
theorem shaped_of_completed (built : ofMethod method = .ok template)
    (same : graph.SameCode template)
    (completed : (template.setRootFrame frame).Completed graph [(Task.entry frame, located)])
    (isTree : graph.IsTree located) (grown : located.Grown Law.shape template frame) :
    graph.Shaped frame := by
  have onTree : ∀ id node, graph.node? id = some node → 1 ≤ id.index → id ∈ located.ids := by
    intro id node found above
    by_contra off
    have first := (blank_of_off built completed isTree found off).1
    omega
  refine ⟨?_, ?_, ?_, ?_, ?_, ?_⟩
  · intro id node found first elsewhere
    have off : id ∉ located.ids := by
      intro inside
      apply elsewhere
      rw [isTree.first id inside first]
      rfl
    rw [(blank_of_off built completed isTree found off).2]
    exact ⟨rfl, rfl, rfl⟩
  · intro id node found
    by_cases inside : id ∈ located.ids
    · obtain ⟨_, _, _, -, foundToo, -⟩ := isTree.subtree inside
      cases found.symm.trans foundToo
      rfl
    · rw [(blank_of_off built completed isTree found inside).2]
      rfl
  · intro id node found above
    have inside := onTree id node found above
    have below : id ≠ .root := by
      rintro rfl
      exact absurd above (by decide)
    obtain ⟨_, foundToo, framed⟩ := (isTree.onPath id).mp inside
    cases found.symm.trans foundToo
    exact ⟨framed, hangs_once built same completed isTree grown found inside below⟩
  · intro id node found next isNext
    obtain ⟨below, foundBelow, -⟩ := parent_of_child built completed isTree found isNext
    simp [foundBelow]
  · refine ⟨located, isTree, isTree.nodeCount_eq_length fun id above present => ?_⟩
    obtain ⟨node, found⟩ := Option.isSome_iff_exists.mp present
    exact onTree id node found above
  · intro id node here found framed
    have inside := (isTree.mem_toList_iff id here).mpr ⟨node, found, framed⟩
    obtain ⟨branches, within⟩ := exists_within inside
    obtain ⟨before, keptBefore, grownThere⟩ := grown.within within Law.shape_fair
    cases grownThere with
    | node present kept named each => exact Law.shape_fair.frame_trans keptBefore kept

end Completed

end Graph

/-! ## Leaves -/

namespace Exploration

variable {setup : Setup} {calls : Calls} {method : MethodDef} {template : Graph} {frame : Frame}
  {world : World} {done : Exploration}

/-- After an exploration that succeeds, paths end where instructions give back or throw. -/
theorem children_eq_nil_iff (built : Graph.ofMethod method = .ok template)
    (run : explore setup calls ⟨template.setRootFrame frame, world⟩ = .ok () done) {id : NodeId}
    {node : Node} (found : done.graph.node? id = some node) (framed : node.frame.isSome) :
    node.children = [] ↔ id.address ∈ done.graph.terminating := by
  obtain ⟨same, located, isTree, executed⟩ := isTree_of_explore built run
  obtain ⟨here, _, branches, within, foundToo, -⟩ :=
    isTree.subtree ((isTree.onPath id).mpr ⟨node, found, framed⟩)
  cases found.symm.trans foundToo
  obtain ⟨before, executedHere⟩ := executed.within within
  cases executedHere with
  | @node _ _ world instruction scene _ present ran each =>
      have addressed := ((Graph.instruction?_iff_mem built _ _).mp present).2
      have presentNow := (same.instruction? _).trans present
      constructor
      · intro leaf
        have noBranch : branches = [] := List.map_eq_nil_iff.mp leaf
        rw [noBranch] at ran
        exact Graph.mem_terminating_of_instruction? presentNow addressed
          ((Instruction.ways_eq_nil_iff ran).mp rfl)
      · intro ends
        obtain ⟨last, isLast, atAddress⟩ := List.mem_map.mp ends
        obtain ⟨isLast, stops⟩ := List.mem_filter.mp isLast
        obtain ⟨address, presentLast⟩ := (done.graph.mem_instructions_iff last).mp isLast
        have addressedLast := ((Graph.instruction?_iff_mem built _ _).mp
          ((same.instruction? _).symm.trans presentLast)).2
        rw [← addressedLast, atAddress, presentNow] at presentLast
        cases presentLast
        have successors := (Instruction.ways_eq_nil_iff ran).mpr (by simpa using stops)
        rw [List.map_eq_nil_iff] at successors
        rw [successors]
        rfl

/-- The graph of a method is in shape after any number of visits, and however its exploration
ends. If it succeeds, the nodes without children are those where paths end, and there is such
a node. -/
theorem graph_shaped (built : Graph.ofMethod method = .ok template) (setup : Setup)
    (calls : Calls) (frame : Frame) (world : World) :
    (∀ count, (exploreFor setup calls count [.root]
      (Allowance.full setup.config (template.setRootFrame frame))
      ⟨template.setRootFrame frame, world⟩).graph.Shaped frame) ∧
    (lastState (explore setup calls ⟨template.setRootFrame frame, world⟩)).graph.Shaped frame ∧
    ∀ done, explore setup calls ⟨template.setRootFrame frame, world⟩ = .ok () done →
      (∀ id node, done.graph.node? id = some node → node.frame.isSome →
        (node.children = [] ↔ id.address ∈ done.graph.terminating)) ∧
      done.graph.connectedTerminating ≠ [] := by
  have shaped : ∀ count, (exploreFor setup calls count [.root]
      (Allowance.full setup.config (template.setRootFrame frame))
      ⟨template.setRootFrame frame, world⟩).graph.Shaped frame := by
    intro count
    obtain ⟨same, located, grown, completed, isTree⟩ := isTree_exploreFor setup Law.shape_fair
      calls.obey_shape built frame world count
      (Allowance.full setup.config (template.setRootFrame frame))
    exact Graph.shaped_of_completed built same completed isTree grown
  refine ⟨shaped, ?_, ?_⟩
  · rw [explore, ← exploreFor_eq_lastState setup calls _ _ _ (Nat.le_refl _)]
    exact shaped _
  · intro done run
    refine ⟨fun id node found framed => children_eq_nil_iff built run found framed, ?_⟩
    obtain ⟨-, located, isTree, -⟩ := isTree_of_explore built run
    obtain ⟨node, found, framed⟩ := (isTree.onPath .root).mp isTree.root_mem
    obtain ⟨here, isHere⟩ := Option.isSome_iff_exists.mp framed
    obtain ⟨last, _, _, -, ends, -⟩ :=
      exists_end_of_explore built run Law.shape_fair calls.obey_shape found isHere
    exact List.ne_nil_of_mem ends

def circleMethod : MethodDef where
  reference := ⟨⟨"LCircle;"⟩, "turn", [.int], .void⟩
  flags := 8
  registers := 1
  instructions := [.ofOp 0 (.branch .eq 0 none 0), .ofOp 2 (.giveBack none)]
  tries := []

/-- The third visit of a jump to itself is refused; five nodes have been made by then. -/
theorem graph_shaped_circle :
    ∃ template, Graph.ofMethod circleMethod = .ok template ∧
      (lastState (explore ⟨{ maxVisits := 2 }, .empty⟩ Answer.nothing.calls
        ⟨template.setRootFrame Machine.forkFrame, ⟨.empty, []⟩⟩)).graph.Shaped
          Machine.forkFrame ∧
      (lastState (explore ⟨{ maxVisits := 2 }, .empty⟩ Answer.nothing.calls
        ⟨template.setRootFrame Machine.forkFrame, ⟨.empty, []⟩⟩)).graph.nodeCount = 5 := by
  cases built : Graph.ofMethod circleMethod with
  | error fault => cases built
  | ok template =>
      refine ⟨template, rfl, ?_, ?_⟩
      · exact (graph_shaped built ⟨{ maxVisits := 2 }, .empty⟩ Answer.nothing.calls
          Machine.forkFrame ⟨.empty, []⟩).2.1
      · cases built
        decide +kernel

end Exploration

end Dexplore
