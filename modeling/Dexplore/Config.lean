/-!
# Limits of an analysis

Ceilings make every analysis end: on how often an instruction is entered in one execution of
a method, on how deep calls nest, and on how long an array is tracked.
-/

set_option autoImplicit false

namespace Dexplore

inductive VisitBudget where
  /-- Visits of an instruction, wherever they come from. -/
  | perAddress
  /-- Visits of an instruction from the same predecessor. -/
  | perEdge
  deriving DecidableEq, Repr

def VisitBudget.name : VisitBudget → String
  | perAddress => "per-address"
  | perEdge => "per-edge"

def VisitBudget.all : List VisitBudget := [.perAddress, .perEdge]

structure Config where
  maxVisits : Nat := 100
  maxDepth : Nat := 50
  maxArrayLength : Nat := 4096
  budget : VisitBudget := .perAddress
  deriving DecidableEq, Repr

end Dexplore
