import Dexplore.Allowance
import Dexplore.Step

/-!
# Exploring a method

All paths through a method are followed, node by node, from its entry.  A visit executes the
instruction of a node on the frame of the node and puts a node with the changed frame on the
pile of every successor.  The newest node is visited first.  The exploration ends when no node
is left, or at the first fault, which includes a visit beyond the allowance.
-/

set_option autoImplicit false

namespace Dexplore

structure Exploration where
  graph : Graph
  world : World

abbrev Explore := EStateM Fault Exploration

namespace Exploration

/-- Executes an instruction on the frame of its node, which is changed even by a fault. -/
def executeNode (setup : Setup) (calls : Calls) (id : NodeId) (instruction : Instruction)
    (frame : Frame) : Explore (Frame × List Address) := fun exploration =>
  match instruction.execute setup calls exploration.graph.method ⟨frame, exploration.world⟩ with
  | .ok successors scene =>
    .ok (scene.frame, successors) ⟨exploration.graph.setFrame id scene.frame, scene.world⟩
  | .error fault scene =>
    .error fault ⟨exploration.graph.setFrame id scene.frame, scene.world⟩

def addChild (parent : NodeId) (frame : Frame) (address : Address) : Explore NodeId :=
  fun exploration =>
    match exploration.graph.addClone address parent frame with
    | .ok (id, graph) => .ok id { exploration with graph }
    | .error fault => .error fault exploration

def visit (setup : Setup) (calls : Calls) (id : NodeId) (instruction : Instruction) :
    Explore (List NodeId) := do
  modify fun exploration =>
    { graph := exploration.graph.recordVisit id.address
      world := exploration.world.note (.visiting exploration.graph.method id instruction) }
  let graph := (← get).graph
  match (graph.node? id).bind (·.frame) with
  | none => throw (.malformed (.noFrame id graph.method))
  | some frame =>
    let (frame, successors) ← executeNode setup calls id instruction frame
    successors.mapM (addChild id frame)

def entranceOf (config : Config) (graph : Graph) (id : NodeId) : Entrance :=
  let origin := (graph.node? id).bind fun node => node.parent.map (·.address)
  config.budget.entrance origin id.address

def exploreFrom (setup : Setup) (calls : Calls) (pending : List NodeId) (allowance : Allowance)
    (exploration : Exploration) : EStateM.Result Fault Exploration Unit :=
  match pending with
  | [] => .ok () exploration
  | id :: rest =>
    match exploration.graph.instruction? id.address with
    | none => .error (.invalidAddress exploration.graph.method id.address) exploration
    | some instruction =>
      match _spent : allowance.spend? (entranceOf setup.config exploration.graph id) with
      | none =>
        .error
          (.revisitCeiling exploration.graph.method id.address instruction.op.text
            setup.config.maxVisits)
          exploration
      | some remaining =>
        match visit setup calls id instruction exploration with
        | .error fault exploration => .error fault exploration
        | .ok children exploration =>
          exploreFrom setup calls (children.reverse ++ rest) remaining exploration
termination_by allowance.total
decreasing_by
  have := Allowance.total_spend? _spent
  omega

def explore (setup : Setup) (calls : Calls) : Explore Unit := fun exploration =>
  exploreFrom setup calls [.root] (Allowance.full setup.config exploration.graph) exploration

end Exploration

end Dexplore
