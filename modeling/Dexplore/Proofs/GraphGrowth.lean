import Dexplore.Graph

/-!
# How graphs grow

A graph is looked at through its nodes and its code.  Each operation that grows a graph is
described by what it does to both: `node?_modifyNode` and `addClone_of_present` say it for single
nodes, and `Branched` says it for a node that was executed and given children.  The code never
changes.
-/

set_option autoImplicit false

namespace Dexplore

/-! ## Changing one node -/

theorem Pile.nodes_modifyNode (pile : Pile) (index : Nat) (change : Node → Node) :
    (pile.modifyNode index change).nodes = pile.nodes.modify index change := by
  cases index <;> rfl

namespace Graph

theorem instruction?_modifyPile (graph : Graph) (key address : Address) (change : Pile → Pile)
    (same : ∀ pile, (change pile).instruction = pile.instruction) :
    ({ graph with piles := graph.piles.modify key change } : Graph).instruction? address =
      graph.instruction? address := by
  by_cases hit : address = key
  · subst hit
    cases found : graph.piles.find? address <;> simp [instruction?, found, same]
  · simp [instruction?, hit]

@[simp] theorem instruction?_modifyNode (graph : Graph) (id : NodeId) (change : Node → Node)
    (address : Address) :
    (graph.modifyNode id change).instruction? address = graph.instruction? address := by
  apply instruction?_modifyPile
  intro pile
  cases id.index <;> rfl

@[simp] theorem instruction?_recordVisit (graph : Graph) (visited address : Address) :
    (graph.recordVisit visited).instruction? address = graph.instruction? address := by
  apply instruction?_modifyPile
  intro pile
  rfl

@[simp] theorem method_modifyNode (graph : Graph) (id : NodeId) (change : Node → Node) :
    (graph.modifyNode id change).method = graph.method := rfl

@[simp] theorem method_recordVisit (graph : Graph) (visited : Address) :
    (graph.recordVisit visited).method = graph.method := rfl

theorem node?_modifyNode (graph : Graph) (id other : NodeId) (change : Node → Node) :
    (graph.modifyNode id change).node? other =
      if other = id then (graph.node? other).map change else graph.node? other := by
  obtain ⟨address, index⟩ := id
  obtain ⟨otherAddress, otherIndex⟩ := other
  by_cases sameAddress : otherAddress = address
  · subst sameAddress
    cases found : graph.piles.find? otherAddress with
    | none => simp [node?, modifyNode, found]
    | some pile =>
        by_cases sameIndex : otherIndex = index
        · subst sameIndex
          simp [node?, modifyNode, found, Pile.nodes_modifyNode]
        · have untouched : (pile.nodes.modify index change)[otherIndex]? =
              pile.nodes[otherIndex]? := List.getElem?_modify_ne change _ (Ne.symm sameIndex)
          simp [node?, modifyNode, found, Pile.nodes_modifyNode, sameIndex, untouched]
  · simp [node?, modifyNode, sameAddress]

@[simp] theorem node?_recordVisit (graph : Graph) (visited : Address) (id : NodeId) :
    (graph.recordVisit visited).node? id = graph.node? id := by
  by_cases hit : id.address = visited
  · cases found : graph.piles.find? visited <;> simp [node?, recordVisit, hit, found, Pile.nodes]
  · simp [node?, recordVisit, hit]

theorem instruction?_isSome_iff (graph : Graph) (address : Address) :
    (graph.instruction? address).isSome ↔ (graph.piles.find? address).isSome := by
  simp [instruction?]

theorem instruction?_isSome_of_node? {graph : Graph} {id : NodeId} {node : Node}
    (found : graph.node? id = some node) : (graph.instruction? id.address).isSome := by
  cases pile : graph.piles.find? id.address with
  | none => simp [node?, pile] at found
  | some pile' => simp [instruction?, pile]

/-! ## Adding a node -/

theorem addClone_of_missing {graph : Graph} {address : Address} (parent : NodeId) (frame : Frame)
    (missing : graph.instruction? address = none) :
    graph.addClone address parent frame = .error (.invalidAddress graph.method address) := by
  have noPile : graph.piles.find? address = none := by simpa [instruction?] using missing
  simp [addClone, noPile]

/-- Putting a node under an existing one succeeds at every instruction.  The new name was not
in use, and only the parent is changed besides. -/
theorem addClone_of_present {graph : Graph} {address : Address} {parent : NodeId} {node : Node}
    (frame : Frame) (present : (graph.instruction? address).isSome)
    (found : graph.node? parent = some node) :
    ∃ id grown,
      graph.addClone address parent frame = .ok (id, grown) ∧
      id.address = address ∧
      graph.node? id = none ∧
      grown.method = graph.method ∧
      (∀ other, grown.instruction? other = graph.instruction? other) ∧
      grown.node? id = some ⟨address, some frame, some parent, []⟩ ∧
      grown.node? parent = some { node with children := node.children ++ [id] } ∧
      ∀ other, other ≠ id → other ≠ parent → grown.node? other = graph.node? other := by
  obtain ⟨pile, foundPile⟩ :=
    Option.isSome_iff_exists.mp ((instruction?_isSome_iff graph address).mp present)
  let id : NodeId := ⟨address, pile.size⟩
  let clone : Node := ⟨address, some frame, some parent, []⟩
  let pushed : Graph :=
    { graph with
      piles := graph.piles.modify address fun pile =>
        { pile with clones := pile.clones ++ [clone] } }
  have fresh : graph.node? id = none := by
    simp [node?, id, foundPile, Pile.nodes, Pile.size]
  have different : parent ≠ id := by
    intro same
    rw [same, fresh] at found
    cases found
  have pushedNew : pushed.node? id = some clone := by
    simp [node?, pushed, id, foundPile, Pile.nodes, Pile.size]
  have pushedOld : ∀ other, other ≠ id → pushed.node? other = graph.node? other := by
    rintro ⟨otherAddress, index⟩ notNew
    by_cases hit : otherAddress = address
    · subst hit
      have notLast : index ≠ pile.clones.length + 1 := by
        intro last
        exact notNew (by simp [id, Pile.size, last])
      have same : (pile.nodes ++ [clone])[index]? = pile.nodes[index]? := by
        rcases Nat.lt_or_ge index (pile.clones.length + 1) with inside | beyond
        · exact List.getElem?_append_left (by simpa [Pile.nodes] using inside)
        · rw [List.getElem?_eq_none, List.getElem?_eq_none] <;>
            simp only [Pile.nodes, List.length_append, List.length_cons, List.length_nil] <;>
            omega
      simpa [node?, pushed, foundPile, Pile.nodes] using same
    · simp [node?, pushed, hit]
  refine ⟨id, pushed.modifyNode parent fun node =>
      { node with children := node.children ++ [id] }, ?_, rfl, fresh, rfl, ?_, ?_, ?_, ?_⟩
  · simp [addClone, foundPile, id, pushed, clone]
  · intro other
    rw [instruction?_modifyNode]
    exact instruction?_modifyPile graph address other _ fun _ => rfl
  · rw [node?_modifyNode, if_neg (Ne.symm different), pushedNew]
  · rw [node?_modifyNode, if_pos rfl, pushedOld parent different, found]
    rfl
  · intro other notNew notParent
    rw [node?_modifyNode, if_neg notParent, pushedOld other notNew]

/-! ## Executing a node -/

/-- The second graph is the first after a node was executed, which gave it a frame and some
children of its own with that frame. -/
structure Branched (before after : Graph) (parent : NodeId) (frame : Frame)
    (children : List NodeId) : Prop where
  method : after.method = before.method
  instruction? : ∀ address, after.instruction? address = before.instruction? address
  nodup : children.Nodup
  fresh : ∀ child ∈ children, before.node? child = none
  child : ∀ child ∈ children,
    after.node? child = some ⟨child.address, some frame, some parent, []⟩
  executed : ∀ node, before.node? parent = some node →
    after.node? parent =
      some { node with frame := some frame, children := node.children ++ children }
  other : ∀ id, id ∉ children → id ≠ parent → after.node? id = before.node? id

namespace Branched

variable {before middle after : Graph} {parent : NodeId} {frame : Frame}
  {children : List NodeId}

theorem setFrame (before : Graph) (parent : NodeId) (frame : Frame) :
    Branched before (before.setFrame parent frame) parent frame [] where
  method := rfl
  instruction? := instruction?_modifyNode before parent _
  nodup := List.nodup_nil
  fresh := by simp
  child := by simp
  executed node found := by simp [Graph.setFrame, node?_modifyNode, found]
  other id _ notParent := by simp [Graph.setFrame, node?_modifyNode, notParent]

theorem absent (grown : Branched before after parent frame children) {id : NodeId}
    (absent : after.node? id = none) : before.node? id = none := by
  by_cases isChild : id ∈ children
  · exact grown.fresh id isChild
  by_cases isParent : id = parent
  · subst isParent
    cases found : before.node? id with
    | none => rfl
    | some node =>
        rw [grown.executed node found] at absent
        cases absent
  · rw [← grown.other id isChild isParent, absent]

theorem recordVisit (visited : Address)
    (grown : Branched (before.recordVisit visited) after parent frame children) :
    Branched before after parent frame children where
  method := grown.method
  instruction? address := by rw [grown.instruction?, instruction?_recordVisit]
  nodup := grown.nodup
  fresh child inside := by rw [← node?_recordVisit before visited, grown.fresh child inside]
  child := grown.child
  executed node found := grown.executed node (by rw [node?_recordVisit, found])
  other id notChild notParent := by rw [grown.other id notChild notParent, node?_recordVisit]

theorem push {id : NodeId} {node : Node}
    (grown : Branched before middle parent frame children)
    (found : before.node? parent = some node)
    (fresh : middle.node? id = none)
    (method : after.method = middle.method)
    (code : ∀ other, after.instruction? other = middle.instruction? other)
    (new : after.node? id = some ⟨id.address, some frame, some parent, []⟩)
    (linked : ∀ old, middle.node? parent = some old →
      after.node? parent = some { old with children := old.children ++ [id] })
    (rest : ∀ other, other ≠ id → other ≠ parent → after.node? other = middle.node? other) :
    Branched before after parent frame (children ++ [id]) := by
  have parentThere := grown.executed node found
  have notParent : id ≠ parent := by
    intro same
    rw [← same, fresh] at parentThere
    cases parentThere
  have notChild : id ∉ children := by
    intro inside
    have there := grown.child id inside
    rw [fresh] at there
    cases there
  have childNotParent : ∀ child ∈ children, child ≠ parent := by
    intro child inside same
    have unused := grown.fresh child inside
    rw [same, found] at unused
    cases unused
  refine ⟨method.trans grown.method, ?_, ?_, ?_, ?_, ?_, ?_⟩
  · intro address
    rw [code, grown.instruction?]
  · rw [List.nodup_append]
    refine ⟨grown.nodup, by simp, ?_⟩
    intro child inside other isNew same
    rw [List.mem_singleton.mp isNew] at same
    exact notChild (same ▸ inside)
  · intro child inside
    rcases List.mem_append.mp inside with old | isNew
    · exact grown.fresh child old
    · rw [List.mem_singleton.mp isNew]
      rw [grown.other id notChild notParent] at fresh
      exact fresh
  · intro child inside
    rcases List.mem_append.mp inside with old | isNew
    · have different : child ≠ id := fun same => notChild (same ▸ old)
      rw [rest child different (childNotParent child old)]
      exact grown.child child old
    · rw [List.mem_singleton.mp isNew]
      exact new
  · intro other foundOther
    have parentNow := linked _ (grown.executed other foundOther)
    simpa using parentNow
  · intro other notInside otherNotParent
    simp only [List.mem_append, List.mem_singleton, not_or] at notInside
    rw [rest other notInside.2 otherNotParent]
    exact grown.other other notInside.1 otherNotParent

end Branched

structure SameCode (graph code : Graph) : Prop where
  method : graph.method = code.method
  instruction? : ∀ address, graph.instruction? address = code.instruction? address

theorem SameCode.trans {first second third : Graph} (early : first.SameCode second)
    (late : second.SameCode third) : first.SameCode third :=
  ⟨early.method.trans late.method, fun address => (early.instruction? address).trans
    (late.instruction? address)⟩

theorem Branched.sameCode {before after code : Graph} {parent : NodeId} {frame : Frame}
    {children : List NodeId} (grown : before.Branched after parent frame children)
    (same : before.SameCode code) : after.SameCode code :=
  .trans ⟨grown.method, grown.instruction?⟩ same

theorem sameCode_setRootFrame (graph : Graph) (frame : Frame) :
    (graph.setRootFrame frame).SameCode graph :=
  ⟨method_modifyNode graph _ _, instruction?_modifyNode graph _ _⟩

/-! ## What holds of all frames -/

def AllFrames (property : Frame → Prop) (graph : Graph) : Prop :=
  ∀ id node frame, graph.node? id = some node → node.frame = some frame → property frame

namespace AllFrames

variable {property : Frame → Prop} {graph after : Graph}

theorem recordVisit (all : graph.AllFrames property) (address : Address) :
    (graph.recordVisit address).AllFrames property := by
  intro id node frame found framed
  rw [node?_recordVisit] at found
  exact all id node frame found framed

theorem branched (all : graph.AllFrames property) {parent : NodeId} {node : Node} {frame : Frame}
    {children : List NodeId} (found : graph.node? parent = some node)
    (grown : graph.Branched after parent frame children) (meets : property frame) :
    after.AllFrames property := by
  intro id other held foundOther framed
  by_cases isChild : id ∈ children
  · rw [grown.child id isChild] at foundOther
    cases foundOther
    cases framed
    exact meets
  by_cases isParent : id = parent
  · rw [isParent, grown.executed node found] at foundOther
    cases foundOther
    cases framed
    exact meets
  · rw [grown.other id isChild isParent] at foundOther
    exact all id other held foundOther framed

theorem setRootFrame (all : graph.AllFrames property) {frame : Frame} (meets : property frame) :
    (graph.setRootFrame frame).AllFrames property := by
  cases found : graph.node? .root with
  | some node => exact all.branched found (.setFrame graph .root frame) meets
  | none =>
      intro id node held foundNode framed
      rw [Graph.setRootFrame, Graph.setFrame, node?_modifyNode] at foundNode
      split at foundNode
      · next isRoot =>
          rw [isRoot, found] at foundNode
          cases foundNode
      · exact all id node held foundNode framed

end AllFrames

end Graph

end Dexplore
