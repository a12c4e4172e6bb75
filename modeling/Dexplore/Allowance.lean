import Dexplore.Config
import Dexplore.Graph

/-!
# Allowances of visits

In one execution of a method, every way into an instruction may be taken a limited number of
times.  The allowance says how often each way may still be taken.  Taking a way uses up one
visit, so the total goes down with every step and an execution comes to its end.
-/

set_option autoImplicit false

namespace Dexplore

/-- A way into an instruction: the address it comes from, if that counts, and the address of
the instruction. -/
structure Entrance where
  origin : Option Address
  address : Address
  deriving DecidableEq, Repr

/-- How often each way may still be taken. Ways that are not listed may not be taken. -/
abbrev Allowance := List (Entrance × Nat)

def VisitBudget.entrance (budget : VisitBudget) (origin : Option Address) (address : Address) :
    Entrance :=
  match budget with
  | .perAddress => ⟨none, address⟩
  | .perEdge => ⟨origin, address⟩

def VisitBudget.entrances (budget : VisitBudget) (graph : Graph) : List Entrance :=
  match budget with
  | .perAddress => graph.addresses.map fun address => ⟨none, address⟩
  | .perEdge =>
    ⟨none, NodeId.root.address⟩ ::
      graph.instructions.flatMap fun instruction =>
        instruction.possibleSuccessors.map fun target => ⟨some instruction.address, target⟩

namespace Allowance

def full (config : Config) (graph : Graph) : Allowance :=
  (config.budget.entrances graph).map fun entrance => (entrance, config.maxVisits)

def spend? (entrance : Entrance) : Allowance → Option Allowance
  | [] => none
  | (other, left) :: rest =>
    if other = entrance then
      match left with
      | 0 => none
      | remaining + 1 => some ((other, remaining) :: rest)
    else (spend? entrance rest).map ((other, left) :: ·)

def total : Allowance → Nat
  | [] => 0
  | (_, left) :: rest => left + total rest

theorem total_spend? {entrance : Entrance} {allowance remaining : Allowance}
    (spent : spend? entrance allowance = some remaining) :
    total remaining + 1 = total allowance := by
  induction allowance generalizing remaining with
  | nil => simp [spend?] at spent
  | cons head rest induction =>
      obtain ⟨other, left⟩ := head
      by_cases hit : other = entrance
      · cases left with
        | zero => simp [spend?, hit] at spent
        | succ left =>
            simp only [spend?, hit, if_true, Option.some.injEq] at spent
            subst spent
            simp only [total]
            omega
      · simp only [spend?, hit, if_false, Option.map_eq_some_iff] at spent
        obtain ⟨shorter, spentRest, isShorter⟩ := spent
        subst isShorter
        have fromRest := induction spentRest
        simp only [total]
        omega

end Allowance

end Dexplore
