import Dexplore.Instruction

/-!
# Names of graph nodes

A node is named by its instruction and its place among the nodes of that instruction.
-/

set_option autoImplicit false

namespace Dexplore

structure NodeId where
  address : Address
  index : Nat
  deriving DecidableEq, Repr

namespace NodeId

def root : NodeId := ⟨0, 0⟩

def text (id : NodeId) : String :=
  "#" ++ toString id.address.toNat ++ "[" ++ toString id.index ++ "]"

end NodeId

end Dexplore
