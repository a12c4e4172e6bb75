import Mathlib.Data.List.Basic
import Dexplore.Step

/-!
# Taking steps apart

A successful execution of an instruction is taken apart into the steps it is made of.  It goes
on at addresses that can be told from the instruction alone (`successors_of_execute`).  Writing
static fields, and forgetting the arrays in them, touches nothing else of a path.
-/

set_option autoImplicit false

namespace Dexplore

theorem Instruction.case_mem_switchSuccessors (next : Address) (cases : List (Int32 × Address))
    (key : Int32) :
    ((cases.find? fun case => case.1 = key).map (·.2)).getD next ∈
      switchSuccessors next cases := by
  rw [switchSuccessors, List.mem_eraseDups, List.mem_cons]
  cases found : cases.find? fun case => case.1 = key with
  | none => exact .inl rfl
  | some case => exact .inr (List.mem_map.mpr ⟨case, List.mem_of_find?_eq_some found, rfl⟩)

theorem Value.index?_eq_some_iff {value : Value} {length index : Nat} :
    value.index? length = some index ↔
      ∃ view, value.int? = some view ∧ view.toInt = index ∧ index < length := by
  unfold index?
  cases value.int? with
  | none => simp
  | some view =>
      simp only [Option.bind_eq_bind, Option.bind_some, Option.ite_none_right_eq_some,
        Option.some.injEq, exists_eq_left']
      omega

namespace Step

variable {α β : Type}

theorem bind_eq_ok {step : Step α} {next : α → Step β} {scene after : Scene} {value : β} :
    (step >>= next) scene = .ok value after ↔
      ∃ first middle, step scene = .ok first middle ∧ next first middle = .ok value after := by
  simp only [bind, EStateM.bind]
  cases step scene <;> simp

theorem read_eq_ok {register : Register} {scene after : Scene} {value : Value} :
    read register scene = .ok value after ↔
      scene.frame.read register = .ok value ∧ after = scene := by
  unfold read
  cases scene.frame.read register <;> simp [eq_comm]

theorem write_eq_ok {register : Register} {value : Value} {scene after : Scene} {done : Unit} :
    write register value scene = .ok done after ↔
      ∃ frame, scene.frame.write register value = .ok frame ∧ after = { scene with frame } := by
  unfold write
  cases scene.frame.write register value <;> simp [eq_comm]

theorem outside_eq_ok {run : Run α} {scene after : Scene} {value : α} :
    outside run scene = .ok value after ↔
      ∃ world, run scene.world = .ok value world ∧ after = { scene with world } := by
  unfold outside
  cases run scene.world <;> simp [eq_comm]

theorem branch_subset {condition : Condition} {left right : Value} {next target : Address}
    {scene after : Scene} {successors : List Address}
    (run : branch condition left right next target scene = .ok successors after) :
    successors ⊆ [next, target] := by
  unfold branch at run
  cases decided : condition.decide? left right with
  | none =>
      rw [decided] at run
      cases run
      exact List.Subset.refl _
  | some taken =>
      cases taken <;> rw [decided] at run <;> cases run <;> simp

theorem switch_subset {selector : Value} {next : Address} {cases : List (Int32 × Address)}
    {scene after : Scene} {successors : List Address}
    (run : switch selector next cases scene = .ok successors after) :
    successors ⊆ Instruction.switchSuccessors next cases := by
  unfold switch at run
  cases known : selector.int? with
  | none =>
      rw [known] at run
      cases run
      exact List.Subset.refl _
  | some key =>
      rw [known] at run
      cases run
      rw [List.cons_subset]
      exact ⟨Instruction.case_mem_switchSuccessors next cases key, List.nil_subset _⟩

end Step

/-! ## Static writes alone -/

theorem Frame.foldl_statics {α : Type} {change : Frame → α → Frame}
    (each : ∀ frame item, ∃ statics, change frame item = { frame with statics })
    (items : List α) (frame : Frame) :
    ∃ statics, items.foldl change frame = { frame with statics } := by
  induction items generalizing frame with
  | nil => exact ⟨frame.statics, rfl⟩
  | cons head rest induction =>
      obtain ⟨_, first⟩ := each frame head
      rw [List.foldl_cons, first]
      exact induction _

theorem Frame.foldl_writeStatic (writes : List (FieldRef × Value)) (frame : Frame) :
    ∃ statics, writes.foldl (fun frame write => frame.writeStatic write.1 write.2) frame =
      { frame with statics } :=
  foldl_statics (fun _ _ => ⟨_, rfl⟩) writes frame

theorem Statics.forgetArrays_statics (statics : Statics) (frame : Frame)
    (type : TypeDescriptor) :
    ∃ writes, statics.forgetArrays frame type = { frame with statics := writes } := by
  have hidden : ∀ owner (frame : Frame) entry,
      ∃ writes, hideArray type owner frame entry = { frame with statics := writes } := by
    intro owner frame entry
    simp only [hideArray]
    split
    · exact ⟨_, rfl⟩
    · exact ⟨frame.statics, rfl⟩
  have hiddenAll : ∀ (frame : Frame) (state : TypeDescriptor × ClassState), ∃ writes,
      state.2.fields.entries.foldl (hideArray type state.1) frame =
        { frame with statics := writes } :=
    fun frame state => Frame.foldl_statics (hidden state.1) _ frame
  exact Frame.foldl_statics hiddenAll _ (frame.widenStaticArrays type)

namespace Instruction

variable {setup : Setup} {calls : Calls} {method : String} {instruction : Instruction}
  {scene after : Scene} {ways : List Address}

theorem ways_of_other (noBranch : instruction.op.flow ≠ .conditionalBranch)
    (noSwitch : instruction.op.flow ≠ .switch)
    (run : instruction.execute setup calls method scene = .ok ways after) :
    ways = instruction.possibleSuccessors := by
  have straight : ∀ {step : Step Unit} {given : List Address},
      (do step; return given : Step (List Address)) scene = .ok ways after → ways = given := by
    intro step given goesOn
    obtain ⟨_, _, _, last⟩ := Step.bind_eq_ok.mp goesOn
    cases last
    rfl
  unfold execute at run
  unfold possibleSuccessors
  cases shape : instruction.op with
  | branch =>
      rw [shape] at noBranch
      exact absurd rfl noBranch
  | switch =>
      rw [shape] at noSwitch
      exact absurd rfl noSwitch
  | _ =>
      rw [shape] at run
      exact straight run

/-- Wherever a path goes on, the instruction names the address. -/
theorem successors_of_execute
    (run : instruction.execute setup calls method scene = .ok ways after) :
    ways ⊆ instruction.possibleSuccessors := by
  cases shape : instruction.op with
  | branch condition lhs rhs target =>
      unfold execute at run
      rw [shape] at run
      obtain ⟨left, _, _, run⟩ := Step.bind_eq_ok.mp run
      have either : ways ⊆ [instruction.next, target] := by
        cases rhs with
        | none => exact Step.branch_subset run
        | some register =>
            obtain ⟨right, _, _, run⟩ := Step.bind_eq_ok.mp run
            exact Step.branch_subset run
      simpa [possibleSuccessors, shape] using either
  | switch src cases =>
      unfold execute at run
      rw [shape] at run
      obtain ⟨selector, _, _, run⟩ := Step.bind_eq_ok.mp run
      simpa [possibleSuccessors, shape] using Step.switch_subset run
  | _ =>
      rw [ways_of_other (by simp [shape, Op.flow]) (by simp [shape, Op.flow]) run]
      exact List.Subset.refl _

end Instruction

end Dexplore
