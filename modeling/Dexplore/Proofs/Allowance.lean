import Dexplore.Allowance
import Dexplore.Step

/-!
# Visits that are left

An allowance is looked at through the number of visits that it leaves for a way.  Spending
takes one visit from one way and fails exactly if none is left; before an execution every way
that a path can take has the full number (`left_full`, `entrance_mem_of_root`,
`entrance_mem_of_successor`).
-/

set_option autoImplicit false

namespace Dexplore

namespace Allowance

def left (allowance : Allowance) (entrance : Entrance) : Nat :=
  match allowance with
  | [] => 0
  | (other, count) :: rest => if other = entrance then count else left rest entrance

theorem spend?_eq_none_iff (entrance : Entrance) (allowance : Allowance) :
    spend? entrance allowance = none ↔ allowance.left entrance = 0 := by
  induction allowance with
  | nil => simp [spend?, left]
  | cons head rest induction =>
      obtain ⟨other, count⟩ := head
      by_cases hit : other = entrance
      · cases count <;> simp [spend?, left, hit]
      · simp [spend?, left, hit, induction]

theorem left_of_spend? {entrance : Entrance} {allowance remaining : Allowance}
    (spent : spend? entrance allowance = some remaining) (wanted : Entrance) :
    allowance.left wanted = remaining.left wanted + if entrance = wanted then 1 else 0 := by
  induction allowance generalizing remaining with
  | nil => simp [spend?] at spent
  | cons head rest induction =>
      obtain ⟨other, count⟩ := head
      by_cases hit : other = entrance
      · subst hit
        cases count with
        | zero => simp [spend?] at spent
        | succ count =>
            simp only [spend?, if_true, Option.some.injEq] at spent
            subst spent
            by_cases same : other = wanted
            · simp [left, same]
            · simp [left, same]
      · simp only [spend?, hit, if_false, Option.map_eq_some_iff] at spent
        obtain ⟨shorter, spentRest, rfl⟩ := spent
        have fromRest := induction spentRest
        by_cases same : other = wanted
        · subst same
          simp [left, Ne.symm hit]
        · simp [left, same, fromRest]

theorem left_map_const (entrances : List Entrance) (count : Nat) (wanted : Entrance) :
    left (entrances.map fun entrance => (entrance, count)) wanted =
      if wanted ∈ entrances then count else 0 := by
  induction entrances with
  | nil => simp [left]
  | cons head rest induction =>
      by_cases hit : head = wanted
      · simp [left, hit]
      · simp [left, hit, Ne.symm hit, induction]

/-- Before an execution the ways of the graph have the full number of visits, and no other
way has any. -/
theorem left_full (config : Config) (graph : Graph) (entrance : Entrance) :
    (full config graph).left entrance =
      if entrance ∈ config.budget.entrances graph then config.maxVisits else 0 :=
  left_map_const _ _ _

end Allowance

/-! ## Ways that a path can take -/

theorem OrdMap.mem_keys_iff {κ α : Type} [Ord κ] [Std.TransOrd κ] [DecidableEq κ]
    (map : OrdMap κ α) (key : κ) : key ∈ map.keys ↔ (map.find? key).isSome := by
  rw [OrdMap.keys, List.mem_map, Option.isSome_iff_exists]
  constructor
  · rintro ⟨⟨other, value⟩, inside, rfl⟩
    exact ⟨value, OrdMap.find?_eq_some_iff.mpr inside⟩
  · rintro ⟨value, found⟩
    exact ⟨(key, value), OrdMap.find?_eq_some_iff.mp found, rfl⟩

theorem OrdMap.mem_values_iff {κ α : Type} [Ord κ] [Std.TransOrd κ] [DecidableEq κ]
    (map : OrdMap κ α) (value : α) : value ∈ map.values ↔ ∃ key, map.find? key = some value := by
  rw [OrdMap.values, List.mem_map]
  constructor
  · rintro ⟨⟨key, stored⟩, inside, rfl⟩
    exact ⟨key, OrdMap.find?_eq_some_iff.mpr inside⟩
  · rintro ⟨key, found⟩
    exact ⟨(key, value), OrdMap.find?_eq_some_iff.mp found, rfl⟩

theorem Graph.mem_addresses_iff (graph : Graph) (address : Address) :
    address ∈ graph.addresses ↔ (graph.instruction? address).isSome := by
  rw [Graph.addresses, OrdMap.mem_keys_iff, Graph.instruction?, Option.isSome_map]

theorem Graph.mem_instructions_iff (graph : Graph) (instruction : Instruction) :
    instruction ∈ graph.instructions ↔
      ∃ address, graph.instruction? address = some instruction := by
  simp only [Graph.instructions, List.mem_map, OrdMap.mem_values_iff, Graph.instruction?,
    Option.map_eq_some_iff]
  constructor
  · rintro ⟨pile, ⟨address, found⟩, same⟩
    exact ⟨address, pile, found, same⟩
  · rintro ⟨address, pile, found, same⟩
    exact ⟨pile, ⟨address, found⟩, same⟩

namespace VisitBudget

theorem entrance_mem_of_root (budget : VisitBudget) {graph : Graph}
    (entered : (graph.instruction? 0).isSome) :
    budget.entrance none 0 ∈ budget.entrances graph := by
  cases budget with
  | perAddress =>
      have inside := (graph.mem_addresses_iff 0).mpr entered
      simp [entrance, entrances, inside]
  | perEdge => simp [entrance, entrances, NodeId.root]

theorem entrance_mem_of_successor (budget : VisitBudget) {graph : Graph}
    {instruction : Instruction} {target : Address}
    (present : graph.instruction? instruction.address = some instruction)
    (possible : target ∈ instruction.possibleSuccessors)
    (placed : (graph.instruction? target).isSome) :
    budget.entrance (some instruction.address) target ∈ budget.entrances graph := by
  cases budget with
  | perAddress =>
      have inside := (graph.mem_addresses_iff target).mpr placed
      simp [entrance, entrances, inside]
  | perEdge =>
      have inside := (graph.mem_instructions_iff instruction).mpr ⟨_, present⟩
      simp only [entrance, entrances, List.mem_cons, List.mem_flatMap, List.mem_map]
      exact .inr ⟨instruction, inside, target, possible, rfl⟩

end VisitBudget

end Dexplore
