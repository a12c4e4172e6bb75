import Dexplore.Definition
import Dexplore.Frame

/-!
# Execution graphs

The graph of a method has a pile of nodes for every instruction.  The first node of a pile
stands for the instruction itself; every time a path enters the instruction, a node with a
frame of its own is put on the pile.  Following parents gives the path that led to a node,
and the entry of the method is the first node of address zero.
-/

set_option autoImplicit false

namespace Dexplore

/-! ## Nodes and piles -/

structure Node where
  address : Address
  /-- The state of the path, after the instruction once it was executed. -/
  frame : Option Frame
  parent : Option NodeId
  children : List NodeId
  deriving DecidableEq

def Node.blank (address : Address) : Node := ⟨address, none, none, []⟩

structure Pile where
  instruction : Instruction
  /-- How often the instruction was executed. -/
  visits : Nat
  /-- The first node. -/
  base : Node
  /-- The nodes put on it, in order. -/
  clones : List Node
  deriving DecidableEq

namespace Pile

def ofInstruction (instruction : Instruction) : Pile :=
  ⟨instruction, 0, .blank instruction.address, []⟩

def nodes (pile : Pile) : List Node := pile.base :: pile.clones

def size (pile : Pile) : Nat := pile.clones.length + 1

def modifyNode (pile : Pile) (index : Nat) (change : Node → Node) : Pile :=
  match index with
  | 0 => { pile with base := change pile.base }
  | above + 1 => { pile with clones := pile.clones.modify above change }

end Pile

/-! ## Graphs -/

structure Graph where
  /-- The descriptor of the method. -/
  method : String
  piles : OrdMap Address Pile
  deriving DecidableEq

namespace Graph

/-- The first address that does not lie above the one before it. -/
def unordered? : List Instruction → Option Address
  | first :: second :: rest =>
    if second.address ≤ first.address then some second.address else unordered? (second :: rest)
  | _ => none

/-- The graph of a method before any execution. The code has to start at address zero and
go upwards. -/
def ofMethod (method : MethodDef) : Except Fault Graph :=
  match method.instructions with
  | [] => .error (.malformed (.noInstructions method.descriptor))
  | first :: rest =>
    if first.address ≠ 0 then
      .error (.malformed (.lateStart method.descriptor first.address))
    else
      match unordered? (first :: rest) with
      | some address => .error (.malformed (.unorderedAddress method.descriptor address))
      | none =>
        .ok {
          method := method.descriptor
          piles := .ofList ((first :: rest).map fun instruction =>
            (instruction.address, .ofInstruction instruction)) }

/-! ## What the code can do -/

def addresses (graph : Graph) : List Address := graph.piles.keys

def instructions (graph : Graph) : List Instruction := graph.piles.values.map (·.instruction)

def instruction? (graph : Graph) (address : Address) : Option Instruction :=
  (graph.piles.find? address).map (·.instruction)

def terminating (graph : Graph) : List Address :=
  (graph.instructions.filter fun instruction => !instruction.op.canContinue).map (·.address)

def returns (graph : Graph) : List Address :=
  (graph.instructions.filter fun instruction => instruction.op.isReturn).map (·.address)

def inFieldOrder (fields : List FieldRef) : List FieldRef :=
  (OrdMap.ofList (fields.map fun field => (field, ()))).keys

def staticPuts (graph : Graph) : List FieldRef :=
  inFieldOrder (graph.instructions.filterMap fun instruction => instruction.op.staticPut?)

/-- Whether the code, or a method it calls, may store into an array. -/
def mayStore (graph : Graph) : Bool :=
  graph.instructions.any fun instruction => instruction.op.mayStore

/-! ## Nodes on paths -/

def node? (graph : Graph) (id : NodeId) : Option Node := do
  let pile ← graph.piles.find? id.address
  pile.nodes[id.index]?

/-- The nodes of an address that lie on paths. Only the entry has its first node on a path. -/
def nodesAt (graph : Graph) (address : Address) : List Node :=
  match graph.piles.find? address with
  | some pile => if address = 0 then pile.nodes else pile.clones
  | none => []

def isReached (graph : Graph) (address : Address) : Bool :=
  address = 0 || (graph.piles.find? address).any fun pile => !pile.clones.isEmpty

def connectedTerminating (graph : Graph) : List Address := graph.terminating.filter graph.isReached

def connectedReturns (graph : Graph) : List Address := graph.returns.filter graph.isReached

def rootFrame? (graph : Graph) : Option Frame := (graph.node? .root).bind (·.frame)

def visitCount (graph : Graph) (address : Address) : Nat :=
  ((graph.piles.find? address).map (·.visits)).getD 0

def nodeCount (graph : Graph) : Nat :=
  graph.piles.values.foldr (fun pile count => pile.clones.length + count)
    (if graph.rootFrame?.isSome then 1 else 0)

/-! ## Growing -/

def modifyNode (graph : Graph) (id : NodeId) (change : Node → Node) : Graph :=
  { graph with
    piles := graph.piles.modify id.address fun pile => pile.modifyNode id.index change }

def setFrame (graph : Graph) (id : NodeId) (frame : Frame) : Graph :=
  graph.modifyNode id fun node => { node with frame := some frame }

def setRootFrame (graph : Graph) (frame : Frame) : Graph := graph.setFrame .root frame

def recordVisit (graph : Graph) (address : Address) : Graph :=
  { graph with
    piles := graph.piles.modify address fun pile => { pile with visits := pile.visits + 1 } }

/-- Puts a node with a frame on the pile of an address, as the last child of another node. -/
def addClone (graph : Graph) (address : Address) (parent : NodeId) (frame : Frame) :
    Except Fault (NodeId × Graph) :=
  match graph.piles.find? address with
  | none => .error (.invalidAddress graph.method address)
  | some pile =>
    let id : NodeId := ⟨address, pile.size⟩
    let clone : Node := ⟨address, some frame, some parent, []⟩
    let grown : Graph :=
      { graph with
        piles := graph.piles.modify address fun pile =>
          { pile with clones := pile.clones ++ [clone] } }
    .ok (id, grown.modifyNode parent fun node => { node with children := node.children ++ [id] })

end Graph

end Dexplore
