import Mathlib.Data.List.Nodup
import Dexplore.Graph

/-!
# Graphs before any execution

The graph that is built from a method holds its instructions, each under its own address, and
one blank node for each (`instruction?_iff_mem`, `node?_template`).
-/

set_option autoImplicit false

namespace Dexplore

/-! ## Maps of entry lists -/

theorem OrdMap.find?_foldl_insert {κ α : Type} [Ord κ] [Std.TransOrd κ] [Std.LawfulEqOrd κ]
    [DecidableEq κ] (entries : List (κ × α)) (map : OrdMap κ α) (key : κ) :
    (entries.foldl (fun map entry => map.insert entry.1 entry.2) map).find? key =
      ((entries.reverse.find? fun entry => entry.1 = key).map (·.2)).or (map.find? key) := by
  induction entries generalizing map with
  | nil => simp
  | cons head rest induction =>
      rw [List.foldl_cons, induction, OrdMap.find?_insert, List.reverse_cons, List.find?_append]
      cases rest.reverse.find? fun entry => entry.1 = key with
      | some entry => simp
      | none => by_cases hit : head.1 = key <;> simp [hit]

/-- Of the entries of one key the last one counts. -/
theorem OrdMap.find?_ofList {κ α : Type} [Ord κ] [Std.TransOrd κ] [Std.LawfulEqOrd κ]
    [DecidableEq κ] (entries : List (κ × α)) (key : κ) :
    (OrdMap.ofList entries).find? key =
      (entries.reverse.find? fun entry => entry.1 = key).map (·.2) := by
  rw [OrdMap.ofList, OrdMap.find?_foldl_insert, OrdMap.find?_empty, Option.or_none]

theorem OrdMap.mem_of_find?_ofList {κ α : Type} [Ord κ] [Std.TransOrd κ] [Std.LawfulEqOrd κ]
    [DecidableEq κ] {entries : List (κ × α)} {key : κ} {value : α}
    (found : (OrdMap.ofList entries).find? key = some value) : (key, value) ∈ entries := by
  rw [OrdMap.find?_ofList, Option.map_eq_some_iff] at found
  obtain ⟨⟨other, stored⟩, hit, rfl⟩ := found
  have same : other = key := by simpa using List.find?_some hit
  subst same
  exact List.mem_reverse.mp (List.mem_of_find?_eq_some hit)

theorem OrdMap.find?_ofList_of_mem {κ α : Type} [Ord κ] [Std.TransOrd κ] [Std.LawfulEqOrd κ]
    [DecidableEq κ] {entries : List (κ × α)} {key : κ} {value : α}
    (distinct : (entries.map Prod.fst).Nodup)
    (member : (key, value) ∈ entries) : (OrdMap.ofList entries).find? key = some value := by
  rw [OrdMap.find?_ofList]
  cases hit : entries.reverse.find? fun entry => entry.1 = key with
  | none =>
      have absent := List.find?_eq_none.mp hit (key, value) (List.mem_reverse.mpr member)
      simp at absent
  | some entry =>
      have inside := List.mem_reverse.mp (List.mem_of_find?_eq_some hit)
      have sameKey : entry.1 = key := by simpa using List.find?_some hit
      have same : entry = (key, value) :=
        List.inj_on_of_nodup_map distinct inside member sameKey
      rw [same]
      rfl

/-! ## Code in ascending order -/

namespace Graph

theorem pairwise_of_unordered? (instructions : List Instruction)
    (ordered : unordered? instructions = none) :
    instructions.Pairwise fun left right => left.address < right.address := by
  induction instructions with
  | nil => exact List.Pairwise.nil
  | cons first rest induction =>
      cases rest with
      | nil => simp
      | cons second rest =>
          by_cases below : second.address ≤ first.address
          · simp [unordered?, below] at ordered
          · have restOrdered : unordered? (second :: rest) = none := by
              simpa [unordered?, below] using ordered
            have sorted := induction restOrdered
            have first_lt : first.address < second.address := UInt32.not_le.mp below
            refine List.pairwise_cons.mpr ⟨?_, sorted⟩
            intro later inside
            rcases List.mem_cons.mp inside with rfl | deeper
            · exact first_lt
            · exact UInt32.lt_trans first_lt ((List.pairwise_cons.mp sorted).1 later deeper)

variable {method : MethodDef} {template : Graph}

theorem ofMethod_eq_ok (built : ofMethod method = .ok template) :
    (∃ first rest, method.instructions = first :: rest ∧ first.address = 0) ∧
      method.instructions.Pairwise (fun left right => left.address < right.address) ∧
      template =
        { method := method.descriptor
          piles := .ofList (method.instructions.map fun instruction =>
            (instruction.address, .ofInstruction instruction)) } := by
  cases code : method.instructions with
  | nil => simp [ofMethod, code] at built
  | cons first rest =>
      by_cases start : first.address = 0
      · cases order : unordered? (first :: rest) with
        | some address => simp [ofMethod, code, start, order] at built
        | none =>
            simp only [ofMethod, code, start, order, ne_eq, not_true_eq_false, if_false,
              Except.ok.injEq] at built
            exact ⟨⟨first, rest, rfl, start⟩, pairwise_of_unordered? _ order, built.symm⟩
      · simp [ofMethod, code, start] at built

theorem isImplemented_of_ofMethod (built : ofMethod method = .ok template) :
    method.isImplemented = true := by
  obtain ⟨⟨first, rest, code, -⟩, -, -⟩ := ofMethod_eq_ok built
  simp [MethodDef.isImplemented, code]

/-- The piles of a new graph are the instructions of the method, each under its address. -/
theorem pile_iff_mem (built : ofMethod method = .ok template) (address : Address) (pile : Pile) :
    template.piles.find? address = some pile ↔
      ∃ instruction ∈ method.instructions,
        instruction.address = address ∧ pile = .ofInstruction instruction := by
  obtain ⟨-, ordered, rfl⟩ := ofMethod_eq_ok built
  constructor
  · intro found
    have member := OrdMap.mem_of_find?_ofList found
    obtain ⟨instruction, inside, same⟩ := List.mem_map.mp member
    obtain ⟨sameAddress, samePile⟩ := Prod.mk.inj same
    exact ⟨instruction, inside, sameAddress, samePile.symm⟩
  · rintro ⟨instruction, inside, rfl, rfl⟩
    apply OrdMap.find?_ofList_of_mem
    · rw [List.map_map, List.Nodup, List.pairwise_map]
      refine ordered.imp ?_
      intro left right below same
      have irreflexive : left.address < left.address := by
        rw [show left.address = right.address from same] at below ⊢
        exact below
      exact UInt32.lt_irrefl _ irreflexive
    · exact List.mem_map.mpr ⟨instruction, inside, rfl⟩

theorem instruction?_iff_mem (built : ofMethod method = .ok template) (address : Address)
    (instruction : Instruction) :
    template.instruction? address = some instruction ↔
      instruction ∈ method.instructions ∧ instruction.address = address := by
  rw [instruction?, Option.map_eq_some_iff]
  constructor
  · rintro ⟨pile, found, rfl⟩
    obtain ⟨instruction, inside, sameAddress, rfl⟩ := (pile_iff_mem built address pile).mp found
    exact ⟨inside, sameAddress⟩
  · rintro ⟨inside, sameAddress⟩
    exact ⟨.ofInstruction instruction,
      (pile_iff_mem built address _).mpr ⟨instruction, inside, sameAddress, rfl⟩, rfl⟩

theorem instruction?_isSome_iff_mem (built : ofMethod method = .ok template)
    (address : Address) :
    (template.instruction? address).isSome ↔
      address ∈ method.instructions.map (·.address) := by
  rw [Option.isSome_iff_exists, List.mem_map]
  exact exists_congr fun instruction => instruction?_iff_mem built address instruction

theorem instruction?_entry (built : ofMethod method = .ok template) :
    (template.instruction? 0).isSome := by
  obtain ⟨⟨first, rest, code, start⟩, -, -⟩ := ofMethod_eq_ok built
  rw [instruction?_isSome_iff_mem built, code]
  simp [start]

theorem node?_template (built : ofMethod method = .ok template) (id : NodeId) :
    template.node? id =
      if id.index = 0 ∧ (template.instruction? id.address).isSome then some (.blank id.address)
      else none := by
  cases found : template.piles.find? id.address with
  | none => simp [node?, instruction?, found]
  | some pile =>
      obtain ⟨instruction, -, sameAddress, rfl⟩ := (pile_iff_mem built id.address pile).mp found
      cases index : id.index with
      | zero =>
          simp [node?, instruction?, found, index, Pile.nodes, Pile.ofInstruction, sameAddress]
      | succ above =>
          simp [node?, found, index, Pile.nodes, Pile.ofInstruction]

end Graph

end Dexplore
