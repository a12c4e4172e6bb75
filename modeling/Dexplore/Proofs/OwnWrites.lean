import Dexplore.Proofs.Abandonment
import Dexplore.Proofs.Footprints
import Dexplore.Proofs.Junctures

/-!
# Static writes that code makes itself

Code that makes no calls and stores into no array writes static fields by its own puts only.  So
what holds of the static writes of a path before an exploration holds of every path during it,
once a put of the code cannot make it fail (`Exploration.statics_explore`).  The classes are
changed by class starts at most, and not at all if every class has been started
(`Exploration.statics_explore_of_settled`).
-/

set_option autoImplicit false

namespace Dexplore

/-- An instruction keeps what its put cannot make fail of the static writes of its path. -/
theorem Instruction.execute_keepsWrites {property : OrdMap FieldRef Value → Prop} {setup : Setup}
    {calls : Calls} (method : String) {instruction : Instruction}
    (plain : instruction.op.mayStore = false)
    (puts : ∀ field, instruction.op.staticPut? = some field → ∀ writes value, property writes →
      property (writes.insert field value)) :
    Step.KeepsFrame (fun frame => property frame.statics)
      (instruction.execute setup calls method) := by
  refine execute_keepsFrame method plain ⟨?_, ?_, ?_⟩
  · intro register _ frame after value written held
    rw [← Frame.statics_write written] at held
    exact held
  · intro _ frame result held
    exact held
  · intro field isPut frame value held
    exact puts field isPut frame.statics value held

theorem Graph.op_mayStore (graph : Graph) (plain : graph.mayStore = false) {address : Address}
    {instruction : Instruction} (present : graph.instruction? address = some instruction) :
    instruction.op.mayStore = false := by
  rw [← Bool.not_eq_true] at plain ⊢
  exact fun stores => plain (graph.mayStore_iff.mpr ⟨address, instruction, present, stores⟩)

theorem Exploration.statics_explore {property : OrdMap FieldRef Value → Prop} (setup : Setup)
    (calls : Calls) (exploration : Exploration) (plain : exploration.graph.mayStore = false)
    (puts : ∀ field ∈ exploration.graph.staticPuts, ∀ writes value, property writes →
      property (writes.insert field value))
    (all : exploration.graph.AllFrames fun frame => property frame.statics) :
    (lastState (explore setup calls exploration)).graph.AllFrames
      fun frame => property frame.statics := by
  let code := exploration.graph
  suffices kept : (lastState (explore setup calls exploration)).graph.SameCode code ∧
      (lastState (explore setup calls exploration)).graph.AllFrames
        fun frame => property frame.statics from kept.2
  refine exploreFrom_keeps (fun stage =>
    stage.graph.SameCode code ∧ stage.graph.AllFrames fun frame => property frame.statics) ?_ _ _ _
    ⟨⟨rfl, fun _ => rfl⟩, all⟩
  rintro id instruction stage ⟨same, all⟩ present
  rw [same.instruction?] at present
  refine ⟨(sameCode_visit setup calls id instruction stage).trans same, allFrames_visit all ?_ id⟩
  intro frame world before
  refine (Instruction.execute_keepsWrites stage.graph.method ?_ ?_ ⟨frame, world⟩
    before).lastState
  · exact code.op_mayStore plain present
  · intro field isPut
    exact puts field ((code.mem_staticPuts_iff field).mpr ⟨_, instruction, present, isPut⟩)

/-! ## The classes -/

theorem Instruction.start_of_request? {program : Program} {instruction : Instruction}
    {frame : Frame} {wanted : Request} (plain : instruction.op.mayStore = false)
    (asked : instruction.request? program frame = some wanted) :
    ∃ type, wanted = .start type := by
  unfold request? at asked
  split at asked
  · next isCall =>
      rw [isCall] at plain
      cases plain
  · cases asked
    exact ⟨_, rfl⟩
  · cases asked
    exact ⟨_, rfl⟩
  · cases asked

namespace Exploration

variable {calls : Calls} {exploration : Exploration}

theorem statics_visit_of_settled (setup : Setup) (idle : calls.Idle) (id : NodeId)
    {instruction : Instruction} (plain : instruction.op.mayStore = false)
    (settled : ∀ type, exploration.world.statics.Settled type) :
    (lastState (visit setup calls id instruction exploration)).world.statics =
      exploration.world.statics := by
  rw [statics_visit]
  cases asked : exploration.request? setup id instruction with
  | none => rfl
  | some wanted =>
      obtain ⟨frame, -, fromFrame⟩ := Option.bind_eq_some_iff.mp asked
      obtain ⟨type, rfl⟩ := Instruction.start_of_request? plain fromFrame
      have still := idle type (visiting exploration.graph exploration.world id instruction)
        (settled type)
      rw [Calls.lastState_ask_start, still]
      rfl

/-- Once all classes have been started, code without calls leaves them alone. -/
theorem statics_explore_of_settled (setup : Setup) (idle : calls.Idle)
    (exploration : Exploration) (plain : exploration.graph.mayStore = false)
    (settled : ∀ type, exploration.world.statics.Settled type) :
    (lastState (explore setup calls exploration)).world.statics =
      exploration.world.statics := by
  let code := exploration.graph
  let statics := exploration.world.statics
  refine (exploreFrom_keeps (fun stage =>
    stage.graph.SameCode code ∧ stage.world.statics = statics) ?_ _ _ _
    ⟨⟨rfl, fun _ => rfl⟩, rfl⟩).2
  rintro id instruction stage ⟨same, unchanged⟩ present
  rw [same.instruction?] at present
  refine ⟨(sameCode_visit setup calls id instruction stage).trans same, ?_⟩
  rw [statics_visit_of_settled setup idle id (code.op_mayStore plain present)
    (unchanged ▸ settled)]
  exact unchanged

end Exploration

/-! ## Fields that are written -/

def Frame.WritesOnly (allowed : FieldRef → Prop) (frame : Frame) : Prop :=
  ∀ field, (frame.static? field).isSome → allowed field

/-- An exploration writes the static fields that its code puts, and no others. -/
theorem Exploration.writesOnly_explore {allowed : FieldRef → Prop} (setup : Setup) (calls : Calls)
    (exploration : Exploration) (plain : exploration.graph.mayStore = false)
    (puts : ∀ field ∈ exploration.graph.staticPuts, allowed field)
    (only : exploration.graph.AllFrames (Frame.WritesOnly allowed)) :
    (lastState (explore setup calls exploration)).graph.AllFrames (Frame.WritesOnly allowed) := by
  let confined (writes : OrdMap FieldRef Value) : Prop :=
    ∀ field, (writes.find? field).isSome → allowed field
  refine @statics_explore confined setup calls exploration plain ?_ only
  intro put isPut writes value held field isWritten
  rw [OrdMap.find?_insert] at isWritten
  split at isWritten
  · next same => exact same ▸ puts put isPut
  · exact held field isWritten

/-! ## Methods -/

theorem Graph.mayStore_of_ofMethod {method : MethodDef} {template : Graph}
    (built : ofMethod method = .ok template)
    (plain : ∀ instruction ∈ method.instructions, instruction.op.mayStore = false) :
    template.mayStore = false := by
  rw [← Bool.not_eq_true, mayStore_iff]
  rintro ⟨address, instruction, present, stores⟩
  have inside := ((instruction?_iff_mem built address instruction).mp present).1
  cases (plain instruction inside).symm.trans stores

theorem Graph.put_of_ofMethod {method : MethodDef} {template : Graph}
    (built : ofMethod method = .ok template) {field : FieldRef}
    (isPut : field ∈ template.staticPuts) :
    ∃ instruction ∈ method.instructions, instruction.op.staticPut? = some field := by
  obtain ⟨address, instruction, present, puts⟩ := (template.mem_staticPuts_iff field).mp isPut
  exact ⟨instruction, ((instruction?_iff_mem built address instruction).mp present).1, puts⟩

theorem Graph.allFrames_template {method : MethodDef} {template : Graph}
    (built : ofMethod method = .ok template) (property : Frame → Prop) :
    template.AllFrames property := by
  intro id node held found framed
  rw [node?_template built] at found
  split at found
  · cases found
    cases framed
  · cases found

end Dexplore
