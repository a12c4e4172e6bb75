import Mathlib.Data.List.Forall2
import Mathlib.Data.List.Perm.Basic
import Dexplore.Exploration

/-!
# Path trees

The paths through a method form a tree: a node is an instruction that was executed, with the
frame it left, and its branches start at the successors, in order.  `Unfolds` says that a
finite tree is the tree of an address and a frame, `Graph.Holds` that a graph holds a tree
node by node, and `PathTree.entrances` lists the ways into instructions that a tree takes.
-/

set_option autoImplicit false

namespace Dexplore

inductive PathTree (α : Type) where
  | node (label : α) (branches : List (PathTree α))

namespace PathTree

variable {α β : Type}

@[induction_eliminator]
theorem induct {motive : PathTree α → Prop}
    (node : ∀ label branches, (∀ branch ∈ branches, motive branch) →
      motive (.node label branches)) (tree : PathTree α) : motive tree := by
  match tree with
  | .node label branches => exact node label branches fun branch _ => induct node branch

def label : PathTree α → α
  | node label _ => label

def toList : PathTree α → List α
  | node label branches => label :: branches.flatMap toList

def map (change : α → β) : PathTree α → PathTree β
  | node label branches => node (change label) (branches.map (map change))

theorem toList_node (label : α) (branches : List (PathTree α)) :
    (node label branches).toList = label :: branches.flatMap toList := by
  rw [toList]

theorem map_node (change : α → β) (label : α) (branches : List (PathTree α)) :
    (node label branches).map change = node (change label) (branches.map (map change)) := by
  rw [map]

theorem label_mem_toList (tree : PathTree α) : tree.label ∈ tree.toList := by
  cases tree
  rw [toList_node]
  exact List.mem_cons_self

/-! ## The tree of an address and a frame -/

/-- A way to execute the instruction at an address on a frame: the frame afterwards and the
addresses where the path goes on, or nothing if there is no instruction or it fails. -/
abbrev PathStep := Address → Frame → Option (Frame × List Address)

/-- The tree of an address and a frame: its root is the address with the frame after the
instruction, and its branches are the trees of the successors with that frame.  There is such
a tree exactly if the paths are finite and finitely many, no instruction fails and every
successor is an instruction. -/
inductive Unfolds (step : PathStep) : Address → Frame → PathTree (Address × Frame) → Prop
  | node {address : Address} {frame after : Frame} {successors : List Address}
      {branches : List (PathTree (Address × Frame))}
      (executed : step address frame = some (after, successors))
      (count : successors.length = branches.length)
      (each : ∀ (index : Nat) target branch, successors[index]? = some target →
        branches[index]? = some branch → Unfolds step target after branch) :
      Unfolds step address frame (.node (address, after) branches)

namespace Unfolds

variable {step : PathStep} {address : Address} {frame after : Frame}
  {successors : List Address} {branches : List (PathTree (Address × Frame))}
  {tree other : PathTree (Address × Frame)}

theorem of_forall₂ (executed : step address frame = some (after, successors))
    (each : List.Forall₂ (fun target branch => Unfolds step target after branch)
      successors branches) :
    Unfolds step address frame (.node (address, after) branches) := by
  refine .node executed each.length_eq ?_
  intro index target branch isTarget isBranch
  obtain ⟨insideTargets, rfl⟩ := List.getElem?_eq_some_iff.mp isTarget
  obtain ⟨insideBranches, rfl⟩ := List.getElem?_eq_some_iff.mp isBranch
  exact each.get insideTargets insideBranches

theorem inv (unfolds : Unfolds step address frame tree) :
    ∃ after successors branches, step address frame = some (after, successors) ∧
      tree = .node (address, after) branches ∧
      List.Forall₂ (fun target branch => Unfolds step target after branch)
        successors branches := by
  cases unfolds with
  | @node _ _ after successors branches executed count each =>
      refine ⟨after, successors, branches, executed, rfl, ?_⟩
      refine List.forall₂_iff_get.mpr ⟨count, ?_⟩
      intro index insideTargets insideBranches
      exact each index _ _ (List.getElem?_eq_getElem insideTargets)
        (List.getElem?_eq_getElem insideBranches)

/-- An address and a frame have at most one tree. -/
theorem unique (unfolds : Unfolds step address frame tree)
    (unfolds' : Unfolds step address frame other) : tree = other := by
  induction unfolds generalizing other with
  | @node address frame after successors branches executed count each induction =>
      obtain ⟨after', successors', branches', executed', rfl, each'⟩ := unfolds'.inv
      rw [executed] at executed'
      cases executed'
      have same : branches = branches' := by
        apply List.ext_getElem (count.symm.trans each'.length_eq)
        intro index inside inside'
        have insideTargets : index < successors.length := count ▸ inside
        exact induction index _ _ (List.getElem?_eq_getElem insideTargets)
          (List.getElem?_eq_getElem inside) (each'.get insideTargets inside')
      rw [same]

end Unfolds

/-! ## Ways into instructions -/

/-- The ways that the nodes of a tree were entered by, when its root was entered from
`origin`. -/
def entrances (budget : VisitBudget) (origin : Option Address) :
    PathTree (Address × Frame) → List Entrance
  | node (address, _) branches =>
    budget.entrance origin address :: branches.flatMap (entrances budget (some address))

theorem entrances_node (budget : VisitBudget) (origin : Option Address) (address : Address)
    (frame : Frame) (branches : List (PathTree (Address × Frame))) :
    entrances budget origin (node (address, frame) branches) =
      budget.entrance origin address :: branches.flatMap (entrances budget (some address)) := by
  rw [entrances]

/-! ## Trees of nodes -/

def paths (tree : PathTree (NodeId × Frame)) : PathTree (Address × Frame) :=
  tree.map fun label => (label.1.address, label.2)

def ids (tree : PathTree (NodeId × Frame)) : List NodeId := tree.toList.map (·.1)

theorem ids_node (id : NodeId) (frame : Frame) (branches : List (PathTree (NodeId × Frame))) :
    ids (node (id, frame) branches) = id :: branches.flatMap ids := by
  rw [ids, toList_node, List.map_cons, List.map_flatMap]
  rfl

theorem paths_node (id : NodeId) (frame : Frame)
    (branches : List (PathTree (NodeId × Frame))) :
    paths (node (id, frame) branches) = node (id.address, frame) (branches.map paths) := by
  rw [paths, map_node]
  rfl

end PathTree

/-- A graph holds a tree: following the children of its nodes, in order, gives the tree. -/
inductive Graph.Holds (graph : Graph) : Option NodeId → PathTree (NodeId × Frame) → Prop
  | node {parent : Option NodeId} {id : NodeId} {frame : Frame}
      {branches : List (PathTree (NodeId × Frame))}
      (found : graph.node? id =
        some ⟨id.address, some frame, parent, branches.map (·.label.1)⟩)
      (each : ∀ branch ∈ branches, Holds graph (some id) branch) :
      Holds graph parent (.node (id, frame) branches)

namespace Graph.Holds

variable {graph : Graph} {parent : Option NodeId} {tree : PathTree (NodeId × Frame)}

theorem inv {id : NodeId} {frame : Frame} {branches : List (PathTree (NodeId × Frame))}
    (holds : graph.Holds parent (.node (id, frame) branches)) :
    graph.node? id = some ⟨id.address, some frame, parent, branches.map (·.label.1)⟩ ∧
      ∀ branch ∈ branches, graph.Holds (some id) branch := by
  cases holds with
  | node found each => exact ⟨found, each⟩

theorem node?_of_mem (holds : graph.Holds parent tree) {id : NodeId} {frame : Frame}
    (inside : (id, frame) ∈ tree.toList) :
    ∃ node, graph.node? id = some node ∧ node.frame = some frame := by
  induction holds with
  | node found each induction =>
      rw [PathTree.toList_node] at inside
      rcases List.mem_cons.mp inside with same | deeper
      · cases same
        exact ⟨_, found, rfl⟩
      · obtain ⟨branch, isBranch, deeper⟩ := List.mem_flatMap.mp deeper
        exact induction branch isBranch deeper

end Graph.Holds

end Dexplore
