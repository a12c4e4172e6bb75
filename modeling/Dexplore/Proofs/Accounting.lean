import Dexplore.Proofs.Abandonment
import Dexplore.Proofs.Ceilings

/-!
# The accounts of an exploration

An exploration counts three times: an allowance goes down with every visit, the instructions
count their visits, and the piles get new nodes.  The three are kept at different moments, for a
node lies on its pile before anyone knows whether it may be visited.  All of them are compared
here with one list, the nodes whose visit was accepted (`Exploration.acceptedFrom`): `Ledger`
says that the counts fit the list and the nodes that still wait, every visit keeps it, and at
the end it gives what each budget promises (`Machine.visits_accounted`).
-/

set_option autoImplicit false

namespace Dexplore

open Execution Exploration

/-! ## Counts of visits -/

namespace Graph

theorem visitCount_modifyPile (graph : Graph) (key address : Address) (change : Pile → Pile)
    (same : ∀ pile, (change pile).visits = pile.visits) :
    ({ graph with piles := graph.piles.modify key change } : Graph).visitCount address =
      graph.visitCount address := by
  by_cases hit : address = key
  · subst hit
    cases found : graph.piles.find? address <;> simp [visitCount, found, same]
  · simp [visitCount, hit]

@[simp] theorem visitCount_modifyNode (graph : Graph) (id : NodeId) (change : Node → Node)
    (address : Address) :
    (graph.modifyNode id change).visitCount address = graph.visitCount address := by
  apply visitCount_modifyPile
  intro pile
  cases id.index <;> rfl

@[simp] theorem visitCount_setFrame (graph : Graph) (id : NodeId) (frame : Frame)
    (address : Address) : (graph.setFrame id frame).visitCount address = graph.visitCount address :=
  visitCount_modifyNode graph id _ address

theorem visitCount_addClone {graph grown : Graph} {place : Address} {parent id : NodeId}
    {frame : Frame} (added : graph.addClone place parent frame = .ok (id, grown))
    (address : Address) : grown.visitCount address = graph.visitCount address := by
  unfold addClone at added
  split at added
  · cases added
  · cases added
    rw [visitCount_modifyNode]
    apply visitCount_modifyPile
    intro pile
    rfl

theorem visitCount_recordVisit {graph : Graph} {visited : Address}
    (present : (graph.instruction? visited).isSome) (address : Address) :
    (graph.recordVisit visited).visitCount address =
      graph.visitCount address + if address = visited then 1 else 0 := by
  obtain ⟨pile, found⟩ :=
    Option.isSome_iff_exists.mp ((instruction?_isSome_iff graph visited).mp present)
  by_cases hit : address = visited
  · subst hit
    simp [visitCount, recordVisit, found]
  · simp [visitCount, recordVisit, hit]

theorem visitCount_entered {method : MethodDef} {template : Graph}
    (built : ofMethod method = .ok template) (frame : Frame) (address : Address) :
    (template.setRootFrame frame).visitCount address = 0 := by
  rw [setRootFrame, visitCount_setFrame, visitCount]
  cases found : template.piles.find? address with
  | none => rfl
  | some pile =>
      obtain ⟨instruction, -, -, rfl⟩ := (pile_iff_mem built address pile).mp found
      rfl

def origin? (graph : Graph) (id : NodeId) : Option Address :=
  (graph.node? id).bind fun node => node.parent.map (·.address)

end Graph

namespace Exploration

theorem visitCount_addChildren (parent : NodeId) (frame : Frame) (successors : List Address)
    (exploration : Exploration) (address : Address) :
    (lastState (successors.mapM (addChild parent frame) exploration)).graph.visitCount address =
      exploration.graph.visitCount address := by
  induction successors generalizing exploration with
  | nil => rfl
  | cons first rest induction =>
      cases added : exploration.graph.addClone first parent frame with
      | error fault =>
          have stopped : lastState ((first :: rest).mapM (addChild parent frame) exploration) =
              exploration := by
            simp [List.mapM_cons, bind, EStateM.bind, addChild, added, lastState]
          rw [stopped]
      | ok made =>
          obtain ⟨id, grown⟩ := made
          have goesOn : lastState ((first :: rest).mapM (addChild parent frame) exploration) =
              lastState (rest.mapM (addChild parent frame) ⟨grown, exploration.world⟩) := by
            simp only [List.mapM_cons, bind, EStateM.bind, addChild, added]
            cases rest.mapM (addChild parent frame) ⟨grown, exploration.world⟩ <;> rfl
          rw [goesOn, induction, Graph.visitCount_addClone added]

/-- A visit is counted once, at its instruction, even if it fails. -/
theorem visitCount_visit (setup : Setup) (calls : Calls) {id : NodeId} {graph : Graph}
    (instruction : Instruction) (world : World)
    (present : (graph.instruction? id.address).isSome) (address : Address) :
    (lastState (visit setup calls id instruction ⟨graph, world⟩)).graph.visitCount address =
      graph.visitCount address + if address = id.address then 1 else 0 := by
  rw [← Graph.visitCount_recordVisit present]
  cases framed : (graph.node? id).bind (·.frame) with
  | none =>
      rw [visit_of_noFrame framed]
      rfl
  | some frame =>
      obtain ⟨node, found, framed⟩ := Option.bind_eq_some_iff.mp framed
      rw [visit_eq found framed]
      cases instruction.execute setup calls graph.method
          ⟨frame, visiting graph world id instruction⟩ with
      | error fault scene => exact Graph.visitCount_setFrame _ _ _ _
      | ok successors scene =>
          refine (visitCount_addChildren _ _ _ _ _).trans ?_
          exact Graph.visitCount_setFrame _ _ _ _

end Exploration

/-! ## The ledger -/

/-- A graph in the middle of an exploration, with the tasks that were visited, the last one
first, and the nodes that wait.  Every instruction counts its visits, the nodes on paths are
those that were visited and those that wait, and no way was taken more often than is allowed. -/
structure Ledger (config : Config) (graph : Graph) (trail : List Task)
    (pending : List NodeId) : Prop where
  counted : ∀ address, graph.visitCount address = (trail.map (·.id)).countP (·.address = address)
  nodup : (trail.map (·.id) ++ pending).Nodup
  onPath : ∀ id, graph.OnPath id ↔ id ∈ trail.map (·.id) ++ pending
  origin : ∀ task ∈ trail, graph.origin? task.id = task.parent.map (·.address)
  bounded : ∀ entrance, (trail.map (·.entrance config.budget)).count entrance ≤ config.maxVisits

namespace Graph.Branched

variable {before after : Graph} {parent id : NodeId} {frame : Frame} {children : List NodeId}

theorem not_onPath_of_child (grown : before.Branched after parent frame children)
    (isChild : id ∈ children) : ¬before.OnPath id := by
  rintro ⟨node, found, -⟩
  rw [grown.fresh id isChild] at found
  cases found

/-- Executing a node puts its children on paths, and nothing else that was not on one. -/
theorem onPath_iff (grown : before.Branched after parent frame children)
    (there : before.OnPath parent) (id : NodeId) :
    after.OnPath id ↔ id ∈ children ∨ before.OnPath id := by
  by_cases isChild : id ∈ children
  · exact iff_of_true ⟨_, grown.child id isChild, rfl⟩ (.inl isChild)
  · by_cases isParent : id = parent
    · subst isParent
      obtain ⟨node, found, framed⟩ := there
      exact iff_of_true ⟨_, grown.executed node found, rfl⟩ (.inr ⟨node, found, framed⟩)
    · rw [or_iff_right isChild, OnPath, grown.other id isChild isParent]
      rfl

theorem origin?_eq (grown : before.Branched after parent frame children)
    (there : before.OnPath id) : after.origin? id = before.origin? id := by
  by_cases isParent : id = parent
  · subst isParent
    obtain ⟨node, found, -⟩ := there
    rw [origin?, origin?, grown.executed node found, found]
    rfl
  · have old : id ∉ children := fun isChild => grown.not_onPath_of_child isChild there
    rw [origin?, origin?, grown.other id old isParent]

end Graph.Branched

namespace Ledger

variable {config : Config} {graph after : Graph} {task : Task} {trail : List Task}
  {rest children : List NodeId} {frame : Frame}

theorem entered {method : MethodDef} {template : Graph}
    (built : Graph.ofMethod method = .ok template) (frame : Frame) :
    Ledger config (template.setRootFrame frame) [] [.root] where
  counted := Graph.visitCount_entered built frame
  nodup := by simp
  onPath id := by
    rw [Graph.OnPath, Graph.node?_entered built]
    by_cases isRoot : id = .root
    · simp [isRoot]
    · rw [if_neg isRoot, Graph.node?_template built]
      simp only [isRoot, List.map_nil, List.nil_append, List.mem_singleton, iff_false]
      rintro ⟨node, found, framed⟩
      split at found
      · cases found
        cases framed
      · cases found
  origin := by simp
  bounded := by simp

theorem visited (ledger : Ledger config graph trail (task.id :: rest))
    (parent : graph.origin? task.id = task.parent.map (·.address))
    (grown : graph.Branched after task.id frame children)
    (counts : ∀ address, after.visitCount address =
      graph.visitCount address + if address = task.id.address then 1 else 0)
    (room : (trail.map (·.entrance config.budget)).count (task.entrance config.budget) <
      config.maxVisits) :
    Ledger config after (task :: trail) (children.reverse ++ rest) := by
  have there : graph.OnPath task.id := (ledger.onPath task.id).mpr (by simp)
  -- The names in use are the old ones and the children, which were not in use before.
  have names : ((task :: trail).map (·.id) ++ (children.reverse ++ rest)).Perm
      (children ++ (trail.map (·.id) ++ task.id :: rest)) := by
    grind
  constructor
  · intro address
    rw [counts, ledger.counted, List.map_cons, List.countP_cons]
    simp [eq_comm]
  · rw [names.nodup_iff, List.nodup_append]
    refine ⟨grown.nodup, ledger.nodup, ?_⟩
    rintro child isChild other isOther rfl
    exact grown.not_onPath_of_child isChild ((ledger.onPath child).mpr isOther)
  · intro id
    rw [grown.onPath_iff there, ledger.onPath, names.mem_iff]
    exact List.mem_append.symm
  · intro other inside
    rcases List.mem_cons.mp inside with rfl | earlier
    · rw [grown.origin?_eq there, parent]
    · have visited : other.id ∈ trail.map (·.id) ++ task.id :: rest :=
        List.mem_append_left _ (List.mem_map.mpr ⟨other, earlier, rfl⟩)
      rw [grown.origin?_eq ((ledger.onPath _).mpr visited), ledger.origin other earlier]
  · intro entrance
    rw [List.map_cons, List.count_cons]
    have before := ledger.bounded entrance
    by_cases hit : task.entrance config.budget = entrance
    · subst hit
      simp only [beq_self_eq_true, if_true]
      omega
    · simp [hit, before]

/-- How often a way was taken can be read off the graph. -/
theorem count_entrance {pending : List NodeId} (ledger : Ledger config graph trail pending)
    (entrance : Entrance) :
    (trail.map (·.entrance config.budget)).count entrance =
      (trail.map (·.id)).countP fun id =>
        config.budget.entrance (graph.origin? id) id.address = entrance := by
  rw [List.count_eq_countP, List.countP_map, List.countP_map]
  apply List.countP_congr
  intro task inside
  simp [Task.entrance, ledger.origin task inside]

end Ledger

/-! ## Accepted visits -/

namespace Exploration

variable {setup : Setup} {calls : Calls} {id : NodeId} {rest : List NodeId}
  {allowance remaining : Allowance} {exploration : Exploration} {instruction : Instruction}

def acceptedFrom (setup : Setup) (calls : Calls) (pending : List NodeId) (allowance : Allowance)
    (exploration : Exploration) : List NodeId :=
  match pending with
  | [] => []
  | id :: rest =>
    match exploration.graph.instruction? id.address with
    | none => []
    | some instruction =>
      match _spent : allowance.spend? (entranceOf setup.config exploration.graph id) with
      | none => []
      | some remaining =>
        match visit setup calls id instruction exploration with
        | .error _ _ => [id]
        | .ok children exploration =>
          id :: acceptedFrom setup calls (children.reverse ++ rest) remaining exploration
termination_by allowance.total
decreasing_by
  have := Allowance.total_spend? _spent
  omega

theorem acceptedFrom_nil (setup : Setup) (calls : Calls) (allowance : Allowance)
    (exploration : Exploration) : acceptedFrom setup calls [] allowance exploration = [] := by
  rw [acceptedFrom]

theorem acceptedFrom_of_rejected
    (present : exploration.graph.instruction? id.address = some instruction)
    (rejected : allowance.spend? (entranceOf setup.config exploration.graph id) = none) :
    acceptedFrom setup calls (id :: rest) allowance exploration = [] := by
  rw [acceptedFrom, present]
  simp only
  split
  · rfl
  · next spent =>
      rw [rejected] at spent
      cases spent

theorem acceptedFrom_of_spent
    (present : exploration.graph.instruction? id.address = some instruction)
    (spent : allowance.spend? (entranceOf setup.config exploration.graph id) = some remaining) :
    acceptedFrom setup calls (id :: rest) allowance exploration =
      match visit setup calls id instruction exploration with
      | .error _ _ => [id]
      | .ok children exploration =>
        id :: acceptedFrom setup calls (children.reverse ++ rest) remaining exploration := by
  rw [acceptedFrom, present]
  simp only
  split
  · next rejected =>
      rw [rejected] at spent
      cases spent
  · next spent' =>
      cases spent'.symm.trans spent
      rfl

/-- How an exploration ends, with the tasks that it visited and those that are left: none if it
succeeds, and if it is to be given up, the first of them may not be visited once more. -/
structure Closes (setup : Setup) (code : Graph) (result : EStateM.Result Fault Exploration Unit)
    (trail left : List Task) : Prop where
  ledger : Ledger setup.config (lastState result).graph trail (left.map (·.id))
  waiting : (lastState result).graph.Waiting left
  finished : ∀ done, result = .ok () done → left = []
  refused : ∀ fault done, result = .error fault done → fault.isRecoverable = true →
    ∃ task rest text, left = task :: rest ∧
      fault = .revisitCeiling code.method task.id.address text setup.config.maxVisits ∧
      setup.config.maxVisits ≤
        (trail.map (·.entrance setup.config.budget)).count (task.entrance setup.config.budget)

/-- Every visit is accounted for, however the exploration ends. -/
theorem closes_exploreFrom {code graph : Graph} (obey : calls.Obey Law.preservation)
    (addressed : ∀ {address instruction}, code.instruction? address = some instruction →
      instruction.address = address)
    {tasks trail : List Task} (world : World)
    (same : graph.SameCode code) (waiting : graph.Waiting tasks)
    (tracks : Tracks setup.config code tasks allowance
      (trail.map (·.entrance setup.config.budget)))
    (ledger : Ledger setup.config graph trail (tasks.map (·.id))) :
    ∃ visited left,
      (acceptedFrom setup calls (tasks.map (·.id)) allowance ⟨graph, world⟩).reverse =
        visited.map (·.id) ∧
      Closes setup code (exploreFrom setup calls (tasks.map (·.id)) allowance ⟨graph, world⟩)
        (visited ++ trail) left := by
  -- Every visit uses up one of the visits that are left.
  induction visits : allowance.total using Nat.strongRecOn
    generalizing tasks allowance trail world graph with
  | ind visits induction =>
      cases tasks with
      | nil =>
          rw [List.map_nil, acceptedFrom_nil, exploreFrom_nil]
          exact ⟨[], [], rfl, ledger, waiting, fun _ _ => rfl, by simp⟩
      | cons task rest =>
          have way := waiting.entranceOf setup.config
          obtain ⟨instruction, here⟩ :=
            Option.isSome_iff_exists.mp (Graph.instruction?_isSome_of_node? waiting.head)
          rw [List.map_cons]
          cases spent : allowance.spend? (entranceOf setup.config graph task.id) with
          | none =>
              have full := tracks.spend?_eq_none_iff.mp (way ▸ spent)
              rw [acceptedFrom_of_rejected here spent, exploreFrom_of_rejected here spent]
              refine ⟨[], task :: rest, rfl, ledger, waiting, by simp, ?_⟩
              intro fault done refused _
              cases refused
              exact ⟨task, rest, instruction.op.text, rfl, by rw [same.method], full⟩
          | some remaining =>
              have fewer := Allowance.total_spend? spent
              have room := tracks.count_lt (way ▸ spent)
              have parent : graph.origin? task.id = task.parent.map (·.address) := by
                rw [Graph.origin?, waiting.head]
                rfl
              have counts := visitCount_visit setup calls instruction world
                (Option.isSome_of_eq_some here)
              obtain ⟨children, branched, -, made⟩ :=
                branched_visit setup calls instruction world waiting.head rfl
              rw [List.map_cons] at ledger
              have ledgerAfter := ledger.visited parent branched counts room
              rw [acceptedFrom_of_spent here spent, exploreFrom_of_spent here spent]
              cases visited : visit setup calls task.id instruction ⟨graph, world⟩ with
              | error fault after =>
                  have allowed := visit_obeys setup Law.preservation_upheld obey task.id
                    instruction ⟨graph, world⟩
                  rw [visited] at allowed branched ledgerAfter
                  refine ⟨[task], _, rfl, ?_, waiting.visited branched, by simp, ?_⟩
                  · rw [task.map_id_children]
                    exact ledgerAfter
                  · intro absorbed done failed recoverable
                    cases failed
                    cases allowed.2.symm.trans recoverable
              | ok made' after =>
                  cases made _ _ visited
                  obtain ⟨tasks, ids, sameAfter, waitingAfter, tracked⟩ :=
                    tracks_of_visit addressed same waiting here visited
                  rw [visited, ← ids] at ledgerAfter
                  obtain ⟨later, left, accepted, closes⟩ := induction remaining.total
                    (by omega) after.world sameAfter waitingAfter
                    (tracked tracks (way ▸ spent)) ledgerAfter rfl
                  rw [ids] at accepted closes
                  refine ⟨later ++ [task], left, ?_, ?_⟩
                  · rw [List.reverse_cons, accepted, List.map_append]
                    rfl
                  · rw [List.append_assoc]
                    exact closes

end Exploration

/-! ## The record of visits -/

/-- The node that an event tells the visit of, if it is a node of the method. -/
def Event.visitOf? (method : String) : Event → Option NodeId
  | visiting owner node _ => if owner = method then some node else none
  | _ => none

namespace Exploration

variable {calls : Calls}

theorem recorded_visit (setup : Setup) (obey : calls.Obey Law.recording) (id : NodeId)
    (instruction : Instruction) (exploration : Exploration) :
    .visiting exploration.graph.method id instruction :: exploration.world.events <:+
      (lastState (visit setup calls id instruction exploration)).world.events := by
  obtain ⟨graph, world⟩ := exploration
  cases framed : (graph.node? id).bind (·.frame) with
  | none =>
      rewrite [visit_of_noFrame framed]
      exact List.suffix_rfl
  | some frame =>
      obtain ⟨node, found, framed⟩ := Option.bind_eq_some_iff.mp framed
      have recorded := (instruction.execute_obeys Law.recording_upheld.toFair setup obey
        graph.method).lastWorld ⟨frame, visiting graph world id instruction⟩
      rw [visit_eq found framed]
      cases ran : instruction.execute setup calls graph.method
          ⟨frame, visiting graph world id instruction⟩ with
      | error fault scene =>
          rw [ran] at recorded
          exact recorded
      | ok successors scene =>
          rw [ran] at recorded
          rewrite [world_addChildren]
          exact recorded

theorem recorded_acceptedFrom (setup : Setup) (obey : calls.Obey Law.recording)
    (pending : List NodeId) (allowance : Allowance) (exploration : Exploration) :
    ∃ newer,
      (lastState (exploreFrom setup calls pending allowance exploration)).world.events =
        newer ++ exploration.world.events ∧
      (acceptedFrom setup calls pending allowance exploration).Sublist
        (newer.reverse.filterMap (Event.visitOf? exploration.graph.method)) := by
  fun_induction acceptedFrom setup calls pending allowance exploration with
  | case1 allowance exploration =>
      rewrite [exploreFrom_nil]
      exact ⟨[], rfl, List.nil_sublist _⟩
  | case2 allowance exploration id rest missing =>
      rewrite [exploreFrom_of_noInstruction missing]
      exact ⟨[], rfl, List.nil_sublist _⟩
  | case3 allowance exploration id rest instruction present rejected =>
      rewrite [exploreFrom_of_rejected present rejected]
      exact ⟨[], rfl, List.nil_sublist _⟩
  | case4 allowance exploration id rest instruction present remaining spent fault after failed =>
      obtain ⟨inner, events⟩ := recorded_visit setup obey id instruction exploration
      rewrite [failed] at events
      rewrite [exploreFrom_of_spent present spent, failed]
      refine ⟨inner ++ [.visiting exploration.graph.method id instruction], ?_, ?_⟩
      · rw [List.append_assoc]
        exact events.symm
      · simp [Event.visitOf?]
  | case5 allowance exploration id rest instruction present remaining spent children after
      visited induction =>
      obtain ⟨inner, events⟩ := recorded_visit setup obey id instruction exploration
      have sameMethod := (sameCode_visit setup calls id instruction exploration).method
      obtain ⟨newer, later, sublist⟩ := induction
      rewrite [visited] at events sameMethod
      rewrite [exploreFrom_of_spent present spent, visited]
      refine ⟨newer ++ (inner ++ [.visiting exploration.graph.method id instruction]), ?_, ?_⟩
      · rw [List.append_assoc, List.append_assoc]
        exact later.trans (congrArg (newer ++ ·) events.symm)
      · rw [show after.graph.method = exploration.graph.method from sameMethod] at sublist
        simp only [List.reverse_append, List.reverse_cons, List.reverse_nil, List.nil_append,
          List.cons_append, List.filterMap_cons, List.filterMap_append, Event.visitOf?, if_true]
        exact (sublist.trans (List.sublist_append_right _ _)).cons_cons id

end Exploration

/-! ## Nodes and instructions -/

theorem countP_eq_countP_range {α : Type} (p : α → Bool) (items : List α) :
    items.countP p = (List.range items.length).countP fun index => items[index]?.any p := by
  induction items with
  | nil => rfl
  | cons first rest induction =>
      rw [List.length_cons, List.range_succ_eq_map, List.countP_cons, List.countP_cons,
        List.countP_map, induction]
      rfl

namespace Graph

variable {graph : Graph} {ids : List NodeId}

theorem countP_nodesAt {entry : Frame} (shaped : graph.Shaped entry) (nodup : ids.Nodup)
    (onPath : ∀ id, graph.OnPath id ↔ id ∈ ids) (address : Address) :
    (graph.nodesAt address).countP (·.frame.isSome) = ids.countP (·.address = address) := by
  cases found : graph.piles.find? address with
  | none =>
      have nowhere : ∀ id ∈ ids, id.address ≠ address := by
        rintro id inside rfl
        obtain ⟨node, isNode, -⟩ := (onPath id).mpr inside
        simp [node?, found] at isNode
      rw [nodesAt, found, List.countP_nil, eq_comm, List.countP_eq_zero]
      simpa using nowhere
  | some pile =>
      have node?_eq : ∀ index, graph.node? ⟨address, index⟩ = pile.nodes[index]? := by
        intro index
        rw [node?, found]
        rfl
      -- Away from the entry the first node has no frame, so it makes no difference.
      have whole : (graph.nodesAt address).countP (·.frame.isSome) =
          pile.nodes.countP (·.frame.isSome) := by
        rw [nodesAt, found]
        by_cases isEntry : address = 0
        · simp [isEntry]
        · have unframed := (shaped.blank ⟨address, 0⟩ pile.base (node?_eq 0) rfl isEntry).1
          simp [isEntry, Pile.nodes, unframed]
      have names : (ids.filter (·.address = address)).Perm
          (((List.range pile.nodes.length).filter fun index =>
            pile.nodes[index]?.any (·.frame.isSome)).map (NodeId.mk address)) := by
        refine (List.perm_ext_iff_of_nodup (nodup.filter _)
          ((List.nodup_range.filter _).map ?_)).mpr ?_
        · intro left right same
          exact (NodeId.mk.inj same).2
        · rintro ⟨place, index⟩
          simp only [List.mem_filter, ← onPath, OnPath, List.mem_map, List.mem_range,
            Option.any_eq_true, NodeId.mk.injEq, decide_eq_true_eq]
          constructor
          · rintro ⟨⟨node, isNode, framed⟩, rfl⟩
            rw [node?_eq] at isNode
            exact ⟨index, ⟨(List.getElem?_eq_some_iff.mp isNode).1, node, isNode, framed⟩,
              rfl, rfl⟩
          · rintro ⟨_, ⟨-, node, isNode, framed⟩, rfl, rfl⟩
            rw [← node?_eq] at isNode
            exact ⟨⟨node, isNode, framed⟩, rfl⟩
      rw [whole, countP_eq_countP_range, List.countP_eq_length_filter,
        List.countP_eq_length_filter, names.length_eq, List.length_map]

theorem foldr_countP_address {addresses : List Address} (distinct : addresses.Nodup)
    (inside : ∀ id ∈ ids, id.address ∈ addresses) :
    addresses.foldr (fun address total => ids.countP (·.address = address) + total) 0 =
      ids.length := by
  induction addresses generalizing ids with
  | nil =>
      cases ids with
      | nil => rfl
      | cons id rest => cases inside id List.mem_cons_self
  | cons first rest induction =>
      obtain ⟨notLater, distinctRest⟩ := List.nodup_cons.mp distinct
      have later : ∀ address ∈ rest, ids.countP (·.address = address) =
          (ids.filter (·.address ≠ first)).countP (·.address = address) := by
        intro address among
        rw [List.countP_filter]
        apply List.countP_congr
        intro id _
        have different : address ≠ first := fun same => notLater (same ▸ among)
        grind
      have folded := @induction (ids.filter (·.address ≠ first)) distinctRest (by grind)
      rw [List.foldr_cons, List.foldr_ext _ _ _ fun address among total => by
        rw [later address among], folded, ← List.countP_eq_length_filter,
        List.length_eq_countP_add_countP (·.address = first)]
      simp

end Graph

/-! ## The account -/

/-- How many of some nodes stand at an address and were got to from another one. The entry of the
method was got to from nowhere. -/
def Graph.taken (graph : Graph) (ids : List NodeId) (origin : Option Address)
    (address : Address) : Nat :=
  ids.countP fun id => graph.origin? id = origin ∧ id.address = address

namespace Ledger

variable {config : Config} {graph : Graph} {trail : List Task} {pending : List NodeId}

theorem visitCount_eq_count (ledger : Ledger config graph trail pending)
    (budget : config.budget = .perAddress) (address : Address) :
    graph.visitCount address = (trail.map (·.entrance config.budget)).count ⟨none, address⟩ := by
  rw [ledger.count_entrance, ledger.counted]
  apply List.countP_congr
  intro id _
  simp [budget, VisitBudget.entrance]

theorem taken_eq_count (ledger : Ledger config graph trail pending)
    (budget : config.budget = .perEdge) (origin : Option Address) (address : Address) :
    graph.taken (trail.map (·.id)) origin address =
      (trail.map (·.entrance config.budget)).count ⟨origin, address⟩ := by
  rw [ledger.count_entrance]
  apply List.countP_congr
  intro id _
  simp [budget, VisitBudget.entrance]

/-- When no node waits any more, the visits of an instruction are its nodes, and all visits are
all nodes. -/
theorem balanced {entry : Frame} (ledger : Ledger config graph trail [])
    (shaped : graph.Shaped entry) :
    (∀ address, graph.visitCount address = (graph.nodesAt address).countP (·.frame.isSome)) ∧
      graph.addresses.foldr (fun address total => graph.visitCount address + total) 0 =
        graph.nodeCount := by
  have nodup : (trail.map (·.id)).Nodup := by simpa using ledger.nodup
  have onPath : ∀ id, graph.OnPath id ↔ id ∈ trail.map (·.id) := by simpa using ledger.onPath
  constructor
  · intro address
    rw [ledger.counted, Graph.countP_nodesAt shaped nodup onPath]
  · obtain ⟨located, isTree, total⟩ := shaped.tree
    have names : located.ids.Perm (trail.map (·.id)) :=
      (List.perm_ext_iff_of_nodup isTree.nodup nodup).mpr fun id =>
        (isTree.onPath id).trans (onPath id)
    have inside : ∀ id ∈ trail.map (·.id), id.address ∈ graph.addresses := by
      intro id among
      obtain ⟨node, found, -⟩ := (onPath id).mpr among
      exact (graph.mem_addresses_iff _).mpr (Graph.instruction?_isSome_of_node? found)
    have distinct : graph.addresses.Nodup := graph.piles.nodup_keys
    simp only [ledger.counted]
    rw [Graph.foldr_countP_address distinct inside, total, names.length_eq]

end Ledger

structure Account (config : Config) (method : String) (report : Report Unit)
    (accepted : List NodeId) (graph : Graph) : Prop where
  recorded : accepted.Sublist (report.events.filterMap (Event.visitOf? method))
  distinct : accepted.Nodup
  onPath : ∀ id ∈ accepted, graph.OnPath id
  counted : ∀ address, graph.visitCount address = accepted.countP (·.address = address)
  /-- An exploration that succeeds leaves no node out. -/
  finished : report.outcome = .ok () →
    (∀ id, graph.OnPath id → id ∈ accepted) ∧
    (∀ address, graph.visitCount address = (graph.nodesAt address).countP (·.frame.isSome)) ∧
    graph.addresses.foldr (fun address total => graph.visitCount address + total) 0 =
      graph.nodeCount
  perAddress : config.budget = .perAddress →
    ∀ address, graph.visitCount address ≤ config.maxVisits
  perEdge : config.budget = .perEdge →
    ∀ origin address, graph.taken accepted origin address ≤ config.maxVisits
  /-- A node is refused only when the visits that its budget counts with it are used up. -/
  refused : ∀ owner address text limit,
    report.outcome = .error (.revisitCeiling owner address text limit) →
    owner = method ∧ limit = config.maxVisits ∧
    ∃ id, id.address = address ∧ graph.OnPath id ∧ id ∉ accepted ∧
      (config.budget = .perAddress → graph.visitCount address = config.maxVisits) ∧
      (config.budget = .perEdge →
        graph.taken accepted (graph.origin? id) address = config.maxVisits)

namespace Exploration

variable {setup : Setup} {code : Graph} {result : EStateM.Result Fault Exploration Unit}
  {trail left : List Task}

/-- A task that was refused is one whose way was taken as often as is allowed. -/
theorem Closes.refused_eq (closes : Closes setup code result trail left) {owner text : String}
    {address : Address} {limit : Nat} {done : Exploration}
    (failed : result = .error (.revisitCeiling owner address text limit) done) :
    owner = code.method ∧ limit = setup.config.maxVisits ∧
    ∃ id, id.address = address ∧ done.graph.OnPath id ∧ id ∉ trail.map (·.id) ∧
      (setup.config.budget = .perAddress →
        done.graph.visitCount address = setup.config.maxVisits) ∧
      (setup.config.budget = .perEdge →
        done.graph.taken (trail.map (·.id)) (done.graph.origin? id) address =
          setup.config.maxVisits) := by
  obtain ⟨task, rest, node, rfl, ceiling, full⟩ := closes.refused _ _ failed rfl
  cases ceiling
  have ledger := closes.ledger
  have waiting := closes.waiting
  rw [failed] at ledger waiting
  simp only [lastState] at ledger waiting
  have exact : (trail.map (·.entrance setup.config.budget)).count
      (task.entrance setup.config.budget) = setup.config.maxVisits :=
    Nat.le_antisymm (ledger.bounded _) full
  refine ⟨rfl, rfl, task.id, rfl, (ledger.onPath _).mpr (by simp), ?_, ?_, ?_⟩
  · intro visited
    exact (List.nodup_append.mp ledger.nodup).2.2 _ visited _ (by simp) rfl
  · intro budget
    rw [ledger.visitCount_eq_count budget, ← exact]
    simp only [Task.entrance, budget, VisitBudget.entrance]
  · intro budget
    rw [ledger.taken_eq_count budget, ← exact, Graph.origin?, waiting.head]
    simp only [Task.entrance, budget, VisitBudget.entrance, Option.bind_some]

theorem Closes.account {entry : Frame} (closes : Closes setup code result trail left)
    (shaped : (lastState result).graph.Shaped entry) {report : Report Unit}
    {accepted : List NodeId} (ids : accepted.reverse = trail.map (·.id))
    (recorded : accepted.Sublist (report.events.filterMap (Event.visitOf? code.method)))
    (succeeds : report.outcome = .ok () → ∃ done, result = .ok () done)
    (fails : ∀ fault, report.outcome = .error fault → ∃ done, result = .error fault done) :
    Account setup.config code.method report accepted (lastState result).graph := by
  have ledger := closes.ledger
  have visited : ∀ id, id ∈ accepted ↔ id ∈ trail.map (·.id) := by simp [← ids]
  have taken : ∀ origin address, (lastState result).graph.taken accepted origin address =
      (lastState result).graph.taken (trail.map (·.id)) origin address := by
    intro origin address
    rw [← ids, Graph.taken, Graph.taken, List.countP_reverse]
  constructor
  · exact recorded
  · rw [← List.nodup_reverse, ids]
    exact (List.nodup_append.mp ledger.nodup).1
  · intro id inside
    exact (ledger.onPath id).mpr (List.mem_append_left _ ((visited id).mp inside))
  · intro address
    rw [ledger.counted, ← ids, List.countP_reverse]
  · intro isOk
    obtain ⟨done, succeeded⟩ := succeeds isOk
    rw [closes.finished done succeeded] at ledger
    refine ⟨?_, ledger.balanced shaped⟩
    intro id onPath
    rw [visited]
    simpa using (ledger.onPath id).mp onPath
  · intro budget address
    rw [ledger.visitCount_eq_count budget]
    exact ledger.bounded _
  · intro budget origin address
    rw [taken, ledger.taken_eq_count budget]
    exact ledger.bounded _
  · intro owner address text limit isError
    obtain ⟨done, failed⟩ := fails _ isError
    obtain ⟨sameOwner, sameLimit, id, here, onPath, fresh, exactAddress, exactEdge⟩ :=
      closes.refused_eq failed
    have final : lastState result = done := by rw [failed, lastState]
    refine ⟨sameOwner, sameLimit, id, here, final ▸ onPath, ?_, final ▸ exactAddress, ?_⟩
    · rwa [visited]
    · rw [taken, final]
      exact exactEdge

theorem shaped_explore {method : MethodDef} {template : Graph}
    (built : Graph.ofMethod method = .ok template) (setup : Setup) (calls : Calls)
    (frame : Frame) (world : World) :
    (lastState (explore setup calls ⟨template.setRootFrame frame, world⟩)).graph.Shaped
      frame := by
  rw [explore, ← exploreFor_eq_lastState setup calls _ _ _ (Nat.le_refl _)]
  obtain ⟨same, located, grown, completed, isTree⟩ := isTree_exploreFor setup Law.shape_fair
    calls.obey_shape built frame world _ (Allowance.full setup.config (template.setRootFrame frame))
  exact Graph.shaped_of_completed built same completed isTree grown

end Exploration

namespace Machine

def accepted (machine : Machine) (graph : Graph) : List NodeId :=
  acceptedFrom machine.toSetup machine.calls [.root] (.full machine.config graph)
    ⟨graph, machine.world⟩

theorem explore_reports (machine : Machine) (graph : Graph)
    {result : EStateM.Result Fault Exploration Unit}
    (run : Exploration.explore machine.toSetup machine.calls ⟨graph, machine.world⟩ = result) :
    (machine.explore graph).2 = (lastState result).graph ∧
    (machine.explore graph).1.events = (lastState result).world.events.reverse ∧
    ((machine.explore graph).1.outcome = .ok () → ∃ done, result = .ok () done) ∧
    ∀ fault, (machine.explore graph).1.outcome = .error fault →
      ∃ done, result = .error fault done := by
  unfold explore
  rw [run]
  cases result with
  | ok value done => exact ⟨rfl, rfl, fun _ => ⟨done, rfl⟩, by simp⟩
  | error fault done => exact ⟨rfl, rfl, by simp, by simp⟩

/-- When a machine explores a method, all that it counts fits the visits that it accepts, and
what it accepts fits its budget. -/
theorem visits_accounted {method : MethodDef} {template : Graph}
    (built : Graph.ofMethod method = .ok template) (machine : Machine) (frame : Frame) :
    Account machine.config method.descriptor
      (machine.explore (template.setRootFrame frame)).1
      (machine.accepted (template.setRootFrame frame))
      (machine.explore (template.setRootFrame frame)).2 := by
  obtain ⟨addressed, tracks⟩ := tracks_entry machine.config built frame
  obtain ⟨trail, left, ids, closes⟩ := closes_exploreFrom
    (callsAt_preserve machine.toSetup machine.callDepth) (addressed _ _) machine.world
    ⟨rfl, fun _ => rfl⟩ (Graph.waiting_entered built frame) tracks (.entered built frame)
  obtain ⟨newer, told, sublist⟩ := recorded_acceptedFrom machine.toSetup
    (callsAt_obey Law.recording_upheld machine.toSetup machine.callDepth) [.root]
    (.full machine.config (template.setRootFrame frame))
    ⟨template.setRootFrame frame, machine.world⟩
  obtain ⟨graph_eq, events_eq, succeeds, fails⟩ :=
    machine.explore_reports (template.setRootFrame frame) rfl
  have shaped := shaped_explore built machine.toSetup machine.calls frame machine.world
  have named : (template.setRootFrame frame).method = method.descriptor := by
    obtain ⟨-, -, rfl⟩ := Graph.ofMethod_eq_ok built
    rfl
  rw [List.append_nil] at closes
  rw [graph_eq, ← named]
  refine closes.account shaped ids ?_ succeeds fails
  rw [events_eq]
  rewrite [show (lastState (Exploration.explore machine.toSetup machine.calls
    ⟨template.setRootFrame frame, machine.world⟩)).world.events = newer ++ [] from told]
  rw [List.append_nil]
  exact sublist

def twoByEdge : Machine := ⟨⟨{ maxVisits := 2, budget := .perEdge }, .empty⟩, .empty, 0⟩

/-- The entry of a method is counted apart from the jump back to it, so that the jump is refused
in the fourth node only. -/
theorem visits_accounted_circle :
    ∃ template, Graph.ofMethod Exploration.circleMethod = .ok template ∧
      Account twoByEdge.config Exploration.circleMethod.descriptor
        (twoByEdge.explore (template.setRootFrame forkFrame)).1
        (twoByEdge.accepted (template.setRootFrame forkFrame))
        (twoByEdge.explore (template.setRootFrame forkFrame)).2 ∧
      (twoByEdge.explore (template.setRootFrame forkFrame)).2.visitCount 0 = 3 ∧
      (twoByEdge.explore (template.setRootFrame forkFrame)).1.outcome =
        .error (.revisitCeiling "LCircle;->turn(I)V" 0 "if-eqz v0, #0" 2) := by
  cases built : Graph.ofMethod Exploration.circleMethod with
  | error fault => cases built
  | ok template =>
      refine ⟨template, rfl, visits_accounted built twoByEdge forkFrame, ?_⟩
      cases built
      exact ⟨by decide +kernel, by decide +kernel⟩

end Machine

end Dexplore
