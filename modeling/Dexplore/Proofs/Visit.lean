import Dexplore.Exploration
import Dexplore.Proofs.GraphGrowth

/-!
# What a visit does

A visit succeeds exactly if the node has a frame, its instruction can be executed on it, and
every successor is an instruction (`visit_of_ok`, `visit_of_error`, `visit_of_missing`).  The
loop over the pending nodes is taken apart in the same way.
-/

set_option autoImplicit false

namespace Dexplore.Exploration

variable {setup : Setup} {calls : Calls} {id : NodeId} {instruction : Instruction}
  {graph : Graph} {world : World} {node : Node} {frame : Frame}

/-! ## Children -/

theorem addChild_of_missing {address : Address} (parent : NodeId) (frame : Frame)
    (world : World) (missing : graph.instruction? address = none) :
    addChild parent frame address ⟨graph, world⟩ =
      .error (.invalidAddress graph.method address) ⟨graph, world⟩ := by
  simp [addChild, Graph.addClone_of_missing parent frame missing]

theorem addChild_of_present {before middle : Graph} {parent : NodeId} {children : List NodeId}
    {address : Address} (world : World) (found : before.node? parent = some node)
    (grown : before.Branched middle parent frame children)
    (present : (before.instruction? address).isSome) :
    ∃ id pushed,
      addChild parent frame address ⟨middle, world⟩ = .ok id ⟨pushed, world⟩ ∧
      id.address = address ∧
      before.Branched pushed parent frame (children ++ [id]) := by
  have here : (middle.instruction? address).isSome := by
    rw [grown.instruction?]
    exact present
  obtain ⟨id, pushed, added, rfl, fresh, method, code, new, linked, others⟩ :=
    Graph.addClone_of_present frame here (grown.executed node found)
  refine ⟨id, pushed, by simp [addChild, added], rfl, ?_⟩
  refine grown.push found fresh method code new ?_ others
  intro old foundOld
  rw [grown.executed node found] at foundOld
  cases foundOld
  exact linked

theorem addChildren_of_present {before : Graph} {parent : NodeId} (world : World)
    (found : before.node? parent = some node) (successors : List Address)
    {middle : Graph} {children : List NodeId}
    (grown : before.Branched middle parent frame children)
    (present : ∀ address ∈ successors, (before.instruction? address).isSome) :
    ∃ more after,
      successors.mapM (addChild parent frame) ⟨middle, world⟩ = .ok more ⟨after, world⟩ ∧
      more.map (·.address) = successors ∧
      before.Branched after parent frame (children ++ more) := by
  induction successors generalizing middle children with
  | nil => exact ⟨[], middle, rfl, rfl, by simpa using grown⟩
  | cons address rest induction =>
      obtain ⟨id, pushed, added, sameAddress, longer⟩ :=
        addChild_of_present world found grown (present address (by simp))
      have restPresent : ∀ address ∈ rest, (before.instruction? address).isSome := by
        intro address inside
        exact present address (by simp [inside])
      obtain ⟨more, after, run, addresses, branched⟩ := induction longer restPresent
      refine ⟨id :: more, after, ?_, by simp [sameAddress, addresses], by simpa using branched⟩
      simp [List.mapM_cons, bind, EStateM.bind, pure, EStateM.pure, added, run]

theorem addChildren_of_missing {before : Graph} {parent : NodeId} (world : World)
    (found : before.node? parent = some node) (successors : List Address)
    {middle : Graph} {children : List NodeId}
    (grown : before.Branched middle parent frame children)
    (missing : ∃ address ∈ successors, before.instruction? address = none) :
    ∃ address after, address ∈ successors ∧ before.instruction? address = none ∧
      successors.mapM (addChild parent frame) ⟨middle, world⟩ =
        .error (.invalidAddress before.method address) ⟨after, world⟩ := by
  induction successors generalizing middle children with
  | nil => simp at missing
  | cons address rest induction =>
      cases here : before.instruction? address with
      | none =>
          refine ⟨address, middle, by simp, here, ?_⟩
          have notThere : middle.instruction? address = none := by rw [grown.instruction?, here]
          simp [List.mapM_cons, bind, EStateM.bind,
            addChild_of_missing parent frame world notThere, grown.method]
      | some instruction =>
          obtain ⟨id, pushed, added, -, longer⟩ :=
            addChild_of_present world found grown (Option.isSome_of_eq_some here)
          have later : ∃ other ∈ rest, before.instruction? other = none := by
            obtain ⟨other, inside, absent⟩ := missing
            rcases List.mem_cons.mp inside with rfl | deeper
            · rw [here] at absent
              cases absent
            · exact ⟨other, deeper, absent⟩
          obtain ⟨other, after, inside, absent, run⟩ := induction longer later
          refine ⟨other, after, by simp [inside], absent, ?_⟩
          simp [List.mapM_cons, bind, EStateM.bind, added, run]

/-! ## One visit -/

def visiting (graph : Graph) (world : World) (id : NodeId) (instruction : Instruction) : World :=
  world.note (.visiting graph.method id instruction)

theorem visit_eq_match (setup : Setup) (calls : Calls) (id : NodeId) (instruction : Instruction)
    (graph : Graph) (world : World) :
    visit setup calls id instruction ⟨graph, world⟩ =
      (match ((graph.recordVisit id.address).node? id).bind (·.frame) with
        | none => throw (.malformed (.noFrame id (graph.recordVisit id.address).method))
        | some frame => executeNode setup calls id instruction frame >>= fun result =>
            result.2.mapM (addChild id result.1) : Explore (List NodeId))
        ⟨graph.recordVisit id.address, visiting graph world id instruction⟩ := rfl

theorem visit_eq (found : graph.node? id = some node) (framed : node.frame = some frame) :
    visit setup calls id instruction ⟨graph, world⟩ =
      match instruction.execute setup calls graph.method
          ⟨frame, visiting graph world id instruction⟩ with
      | .ok successors scene =>
        successors.mapM (addChild id scene.frame)
          ⟨(graph.recordVisit id.address).setFrame id scene.frame, scene.world⟩
      | .error fault scene =>
        .error fault ⟨(graph.recordVisit id.address).setFrame id scene.frame, scene.world⟩ := by
  have here : ((graph.recordVisit id.address).node? id).bind (·.frame) = some frame := by
    rw [Graph.node?_recordVisit, found]
    exact framed
  have entered : visit setup calls id instruction ⟨graph, world⟩ =
      (executeNode setup calls id instruction frame >>= fun result =>
        result.2.mapM (addChild id result.1))
        ⟨graph.recordVisit id.address, visiting graph world id instruction⟩ := by
    rw [visit_eq_match, here]
  rw [entered]
  simp only [bind, EStateM.bind, executeNode, Graph.method_recordVisit]
  cases instruction.execute setup calls graph.method
    ⟨frame, visiting graph world id instruction⟩ <;> rfl

theorem visit_of_noFrame (unframed : (graph.node? id).bind (·.frame) = none) :
    visit setup calls id instruction ⟨graph, world⟩ =
      .error (.malformed (.noFrame id graph.method))
        ⟨graph.recordVisit id.address, visiting graph world id instruction⟩ := by
  have nowhere : ((graph.recordVisit id.address).node? id).bind (·.frame) = none := by
    rw [Graph.node?_recordVisit, unframed]
  rw [visit_eq_match, nowhere]
  rfl

theorem visit_of_ok {successors : List Address} {scene : Scene}
    (found : graph.node? id = some node) (framed : node.frame = some frame)
    (executed : instruction.execute setup calls graph.method
      ⟨frame, visiting graph world id instruction⟩ = .ok successors scene)
    (present : ∀ address ∈ successors, (graph.instruction? address).isSome) :
    ∃ children after,
      visit setup calls id instruction ⟨graph, world⟩ = .ok children ⟨after, scene.world⟩ ∧
      children.map (·.address) = successors ∧
      graph.Branched after id scene.frame children := by
  have recorded : (graph.recordVisit id.address).node? id = some node := by
    rw [Graph.node?_recordVisit, found]
  have stillPresent : ∀ address ∈ successors,
      ((graph.recordVisit id.address).instruction? address).isSome := by
    intro address inside
    rw [Graph.instruction?_recordVisit]
    exact present address inside
  obtain ⟨children, after, run, addresses, grown⟩ :=
    addChildren_of_present scene.world recorded successors
      (Graph.Branched.setFrame _ id scene.frame) stillPresent
  refine ⟨children, after, ?_, addresses, grown.recordVisit id.address⟩
  rw [visit_eq found framed, executed]
  exact run

theorem visit_of_error {fault : Fault} {scene : Scene}
    (found : graph.node? id = some node) (framed : node.frame = some frame)
    (executed : instruction.execute setup calls graph.method
      ⟨frame, visiting graph world id instruction⟩ = .error fault scene) :
    ∃ after, visit setup calls id instruction ⟨graph, world⟩ =
      .error fault ⟨after, scene.world⟩ := by
  rw [visit_eq found framed, executed]
  exact ⟨_, rfl⟩

theorem visit_of_missing {successors : List Address} {scene : Scene}
    (found : graph.node? id = some node) (framed : node.frame = some frame)
    (executed : instruction.execute setup calls graph.method
      ⟨frame, visiting graph world id instruction⟩ = .ok successors scene)
    (missing : ∃ address ∈ successors, graph.instruction? address = none) :
    ∃ address after, address ∈ successors ∧ graph.instruction? address = none ∧
      visit setup calls id instruction ⟨graph, world⟩ =
        .error (.invalidAddress graph.method address) ⟨after, scene.world⟩ := by
  have recorded : (graph.recordVisit id.address).node? id = some node := by
    rw [Graph.node?_recordVisit, found]
  have stillMissing : ∃ address ∈ successors,
      (graph.recordVisit id.address).instruction? address = none := by
    simpa using missing
  obtain ⟨address, after, inside, absent, run⟩ :=
    addChildren_of_missing scene.world recorded successors
      (Graph.Branched.setFrame _ id scene.frame) stillMissing
  refine ⟨address, after, inside, by simpa using absent, ?_⟩
  rw [visit_eq found framed, executed]
  exact run

/-- A visit that succeeds has executed the instruction and put its children into the graph. -/
theorem branched_of_visit {children : List NodeId} {done : Exploration}
    (found : graph.node? id = some node) (framed : node.frame = some frame)
    (visited : visit setup calls id instruction ⟨graph, world⟩ = .ok children done) :
    ∃ scene,
      instruction.execute setup calls graph.method
        ⟨frame, visiting graph world id instruction⟩ = .ok (children.map (·.address)) scene ∧
      (∀ child ∈ children, (graph.instruction? child.address).isSome) ∧
      graph.Branched done.graph id scene.frame children := by
  cases executed : instruction.execute setup calls graph.method
      ⟨frame, visiting graph world id instruction⟩ with
  | error fault scene =>
      obtain ⟨after, failed⟩ := visit_of_error found framed executed
      rw [failed] at visited
      cases visited
  | ok successors scene =>
      by_cases present : ∀ address ∈ successors, (graph.instruction? address).isSome
      · obtain ⟨made, after, run, rfl, branched⟩ := visit_of_ok found framed executed present
        rw [run] at visited
        cases visited
        exact ⟨scene, rfl, fun child inside =>
          present child.address (List.mem_map.mpr ⟨child, inside, rfl⟩), branched⟩
      · simp only [Classical.not_forall] at present
        obtain ⟨target, isTarget, missing⟩ := present
        obtain ⟨address, after, -, -, failed⟩ := visit_of_missing found framed executed
          ⟨target, isTarget, Option.not_isSome_iff_eq_none.mp missing⟩
        rw [failed] at visited
        cases visited

/-! ## The loop -/

variable {rest : List NodeId} {allowance remaining : Allowance} {exploration : Exploration}

theorem exploreFrom_nil (setup : Setup) (calls : Calls) (allowance : Allowance)
    (exploration : Exploration) :
    exploreFrom setup calls [] allowance exploration = .ok () exploration := by
  rw [exploreFrom]

theorem exploreFrom_of_noInstruction
    (missing : exploration.graph.instruction? id.address = none) :
    exploreFrom setup calls (id :: rest) allowance exploration =
      .error (.invalidAddress exploration.graph.method id.address) exploration := by
  rw [exploreFrom, missing]

theorem exploreFrom_of_rejected
    (present : exploration.graph.instruction? id.address = some instruction)
    (rejected : allowance.spend? (entranceOf setup.config exploration.graph id) = none) :
    exploreFrom setup calls (id :: rest) allowance exploration =
      .error
        (.revisitCeiling exploration.graph.method id.address instruction.op.text
          setup.config.maxVisits) exploration := by
  rw [exploreFrom, present]
  simp only
  split
  · rfl
  · next spent => rw [rejected] at spent; cases spent

theorem exploreFrom_of_spent
    (present : exploration.graph.instruction? id.address = some instruction)
    (spent : allowance.spend? (entranceOf setup.config exploration.graph id) = some remaining) :
    exploreFrom setup calls (id :: rest) allowance exploration =
      match visit setup calls id instruction exploration with
      | .error fault exploration => .error fault exploration
      | .ok children exploration =>
        exploreFrom setup calls (children.reverse ++ rest) remaining exploration := by
  rw [exploreFrom, present]
  simp only
  split
  · next rejected => rw [rejected] at spent; cases spent
  · next other spentToo =>
      rw [spent] at spentToo
      cases spentToo
      rfl

end Dexplore.Exploration
