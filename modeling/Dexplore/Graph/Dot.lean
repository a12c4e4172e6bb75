import Dexplore.Graph
import Dexplore.Instruction.Text

/-!
# Execution graphs as drawings

A graph in the DOT language: a box for every node that has a frame, with a double border
where paths end, and an arrow from each node to its children.
-/

set_option autoImplicit false

namespace Dexplore

namespace Dot

def escapeChar : Char → List Char
  | '\\' => ['\\', '\\']
  | '"' => ['\\', '"']
  | '\n' => ['\\', 'n']
  | '<' => ['\\', '<']
  | '>' => ['\\', '>']
  | c => [c]

def escape (text : String) : String := String.ofList (text.toList.flatMap escapeChar)

def nodeName (id : NodeId) : String :=
  "n" ++ toString id.address.toNat ++ "_" ++ toString id.index

def nodeLine (id : NodeId) (instruction : Instruction) : String :=
  let borders := if instruction.op.canContinue then "1" else "2"
  "    " ++ nodeName id ++ " [label=\"" ++ id.text ++ ": " ++ escape instruction.text ++
    "\", peripheries=" ++ borders ++ "];\n"

def edgeLine (edge : NodeId × NodeId) : String :=
  "    " ++ nodeName edge.1 ++ " -> " ++ nodeName edge.2 ++ ";\n"

end Dot

namespace Graph

/-- The nodes of a pile with their names, of those that have a frame and lie on a path. -/
def drawnNodes (address : Address) (pile : Pile) : List (NodeId × Node) :=
  let first := if address = 0 then 0 else 1
  let nodes := if address = 0 then pile.nodes else pile.clones
  (nodes.mapIdx fun offset node => ((⟨address, first + offset⟩ : NodeId), node)).filter
    fun entry => entry.2.frame.isSome

def toDot (graph : Graph) : String :=
  let drawn := graph.piles.entries.map fun entry => (entry.2, drawnNodes entry.1 entry.2)
  let lines := drawn.flatMap fun entry =>
    entry.2.map fun node => Dot.nodeLine node.1 entry.1.instruction
  let edges := drawn.flatMap fun entry =>
    entry.2.filterMap fun node => node.2.parent.map fun parent => (parent, node.1)
  "digraph ContextGraph \x7b\n" ++
    "    label=\"" ++ Dot.escape graph.method ++ "\";\n" ++
    "    labelloc=t;\n" ++
    "    node [shape=box, fontname=\"Courier\", fontsize=10];\n\n" ++
    String.join lines ++
    (if edges.isEmpty then "" else "\n") ++
    String.join (edges.map Dot.edgeLine) ++
    "\x7d\n"

end Graph

end Dexplore
