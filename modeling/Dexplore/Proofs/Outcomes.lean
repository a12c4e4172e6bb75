import Dexplore.Proofs.Precision
import Dexplore.Proofs.Preservation
import Dexplore.Proofs.Termination

/-!
# What an execution comes to

The execution of a method starts its class, and then gives a graph, gives the method up, or
fails.  It is given up exactly if no call level is left for it or one of its own visits is
refused (`Execution.GivesUp`); nothing that happens in the methods it calls, or in the
initializers it triggers, has that effect.  To a caller, a callee that is given up is a call
that goes on, and an initializer that is given up is a class that has been started
(`Machine.ceilings_contained`).
-/

set_option autoImplicit false

namespace Dexplore

open Execution Exploration

/-! ## Visits that are refused -/

/-- The exploration comes to a node by a way that it has taken as often as it may. -/
inductive Exploration.Overruns (setup : Setup) (calls : Calls) :
    List NodeId → List Entrance → Exploration → Prop
  | refused {id : NodeId} {rest : List NodeId} {accepted : List Entrance}
      {exploration : Exploration} {instruction : Instruction}
      (present : exploration.graph.instruction? id.address = some instruction)
      (spent : setup.config.maxVisits ≤
        accepted.count (entranceOf setup.config exploration.graph id)) :
      Overruns setup calls (id :: rest) accepted exploration
  | later {id : NodeId} {rest children : List NodeId} {accepted : List Entrance}
      {exploration after : Exploration} {instruction : Instruction}
      (present : exploration.graph.instruction? id.address = some instruction)
      (taken : accepted.count (entranceOf setup.config exploration.graph id) <
        setup.config.maxVisits)
      (visited : visit setup calls id instruction exploration = .ok children after)
      (overruns : Overruns setup calls (children.reverse ++ rest)
        (entranceOf setup.config exploration.graph id :: accepted) after) :
      Overruns setup calls (id :: rest) accepted exploration

section Visits

variable {setup : Setup} {calls : Calls} {code graph : Graph}

theorem overruns_of_taken {id : NodeId} {rest : List NodeId} {accepted : List Entrance}
    {exploration : Exploration} {instruction : Instruction}
    (present : exploration.graph.instruction? id.address = some instruction)
    (taken : accepted.count (entranceOf setup.config exploration.graph id) <
      setup.config.maxVisits) :
    Overruns setup calls (id :: rest) accepted exploration ↔
      ∃ children after, visit setup calls id instruction exploration = .ok children after ∧
        Overruns setup calls (children.reverse ++ rest)
          (entranceOf setup.config exploration.graph id :: accepted) after := by
  constructor
  · intro overruns
    cases overruns with
    | refused _ spent => omega
    | later present' _ visited later =>
        cases present.symm.trans present'
        exact ⟨_, _, visited, later⟩
  · rintro ⟨children, after, visited, later⟩
    exact .later present taken visited later

/-- Nothing but a refused visit ends an exploration with a fault that its method absorbs. -/
theorem overruns_iff (obey : calls.Obey Law.preservation)
    (addressed : ∀ {address instruction}, code.instruction? address = some instruction →
      instruction.address = address)
    {allowance : Allowance} {tasks : List Task} {accepted : List Entrance} (world : World)
    (same : graph.SameCode code) (waiting : graph.Waiting tasks)
    (tracks : Tracks setup.config code tasks allowance accepted) :
    Overruns setup calls (tasks.map (·.id)) accepted ⟨graph, world⟩ ↔
      ∃ fault done, fault.isRecoverable = true ∧
        exploreFrom setup calls (tasks.map (·.id)) allowance ⟨graph, world⟩ =
          .error fault done := by
  induction visits : allowance.total using Nat.strongRecOn
    generalizing tasks allowance accepted world graph with
  | ind visits induction =>
      cases tasks with
      | nil =>
          rw [List.map_nil, exploreFrom_nil]
          constructor
          · intro overruns
            cases overruns
          · rintro ⟨fault, done, -, run⟩
            cases run
      | cons task rest =>
          have way := waiting.entranceOf setup.config
          obtain ⟨instruction, here⟩ :=
            Option.isSome_iff_exists.mp (Graph.instruction?_isSome_of_node? waiting.head)
          rw [List.map_cons]
          cases spent : allowance.spend? (entranceOf setup.config graph task.id) with
          | none =>
              have refused := tracks.spend?_eq_none_iff.mp (way ▸ spent)
              rw [exploreFrom_of_rejected here spent]
              exact ⟨fun _ => ⟨_, _, rfl, rfl⟩, fun _ => .refused here (way.symm ▸ refused)⟩
          | some remaining =>
              have fewer := Allowance.total_spend? spent
              have taken : accepted.count (entranceOf setup.config graph task.id) <
                  setup.config.maxVisits := way ▸ tracks.count_lt (way ▸ spent)
              have allowed := visit_obeys setup Law.preservation_upheld obey task.id
                instruction ⟨graph, world⟩
              rw [exploreFrom_of_spent here spent, overruns_of_taken here taken]
              cases visited : visit setup calls task.id instruction ⟨graph, world⟩ with
              | error fault after =>
                  rw [visited] at allowed
                  constructor
                  · rintro ⟨_, _, succeeded, -⟩
                    cases succeeded
                  · rintro ⟨_, _, recoverable, run⟩
                    cases run
                    cases allowed.2.symm.trans recoverable
              | ok children after =>
                  obtain ⟨tasks, ids, sameAfter, waitingAfter, tracked⟩ :=
                    tracks_of_visit addressed same waiting here visited
                  have others := induction remaining.total (by omega) after.world sameAfter
                    waitingAfter (tracked tracks (way ▸ spent)) rfl
                  rw [ids, ← way] at others
                  refine Iff.trans ?_ others
                  constructor
                  · rintro ⟨_, _, succeeded, later⟩
                    cases succeeded
                    exact later
                  · exact fun later => ⟨children, after, rfl, later⟩

theorem overruns_entry_iff (obey : calls.Obey Law.preservation) {method : MethodDef}
    {template : Graph} (built : Graph.ofMethod method = .ok template) (frame : Frame)
    (world : World) :
    Overruns setup calls [.root] [] ⟨template.setRootFrame frame, world⟩ ↔
      ∃ fault done, fault.isRecoverable = true ∧
        explore setup calls ⟨template.setRootFrame frame, world⟩ = .error fault done := by
  obtain ⟨addressed, tracks⟩ := tracks_entry setup.config built frame
  exact overruns_iff obey (addressed _ _) world ⟨rfl, fun _ => rfl⟩
    (Graph.waiting_entered built frame) tracks

end Visits

/-! ## Executions that are given up -/

namespace Execution

variable {setup : Setup} {depth : Nat} {descriptor : String} {template : Graph} {frame : Frame}
  {world started after : World}

def entering (template : Graph) (depth : Nat) (world : World) : World :=
  world.note (.executing template.method (depth + 1))

theorem execute_of_failed {fault : Fault}
    (code : setup.program.templates.find? descriptor = some template)
    (failed : (callsAt setup depth).start (classOfDescriptor descriptor) world =
      .error fault after) :
    (callsAt setup depth).execute descriptor frame world = .error fault after := by
  rw [execute_callsAt depth code]
  simp only [callsAt, callsOf] at failed
  rw [failed]

theorem execute_of_deep (code : setup.program.templates.find? descriptor = some template)
    (start : (callsAt setup depth).start (classOfDescriptor descriptor) world = .ok () started)
    (deep : setup.config.maxDepth ≤ depth) :
    (callsAt setup depth).execute descriptor frame world =
      abandon template (.callDepth (depth + 1) setup.config.maxDepth) started := by
  rw [execute_callsAt depth code]
  simp only [callsAt, callsOf] at start
  rw [start]
  simp only [bodyAt_of_deep deep]

theorem execute_of_room (code : setup.program.templates.find? descriptor = some template)
    (start : (callsAt setup depth).start (classOfDescriptor descriptor) world = .ok () started)
    (room : depth < setup.config.maxDepth) :
    (callsAt setup depth).execute descriptor frame world =
      conclude setup (explore setup (callsAt setup (depth + 1))
        ⟨template.setRootFrame frame, entering template depth started⟩) := by
  rw [execute_callsAt depth code]
  simp only [callsAt, callsOf] at start
  rw [start]
  simp only [bodyAt_of_room room, runBody_eq]
  rfl

/-- The class of a method can be started, but no call level is left for the method, or one of
its own visits is refused. -/
def GivesUp (setup : Setup) (depth : Nat) (descriptor : String) (frame : Frame) (world : World) :
    Prop :=
  ∃ template started, setup.program.templates.find? descriptor = some template ∧
    (callsAt setup depth).start (classOfDescriptor descriptor) world = .ok () started ∧
    (setup.config.maxDepth ≤ depth ∨
      Overruns setup (callsAt setup (depth + 1)) [.root] []
        ⟨template.setRootFrame frame, entering template depth started⟩)

/-- An exploration is given up exactly if it ends with a fault that its method absorbs. -/
theorem conclude_eq_none_iff (result : EStateM.Result Fault Exploration Unit) :
    (∃ after, conclude setup result = .ok none after) ↔
      ∃ fault done, fault.isRecoverable = true ∧ result = .error fault done := by
  cases result with
  | ok value done =>
      constructor
      · rintro ⟨after, finished⟩
        cases finished
      · rintro ⟨_, _, -, failed⟩
        cases failed
  | error fault done =>
      rw [conclude]
      by_cases recoverable : fault.isRecoverable = true
      · rw [if_pos recoverable]
        exact ⟨fun _ => ⟨fault, done, recoverable, rfl⟩, fun _ => ⟨_, rfl⟩⟩
      · rw [if_neg recoverable]
        constructor
        · rintro ⟨after, finished⟩
          cases finished
        · rintro ⟨_, _, isRecoverable, failed⟩
          cases failed
          exact absurd isRecoverable recoverable

theorem givesUp_iff (consistent : setup.program.Consistent) (depth : Nat) (descriptor : String)
    (frame : Frame) (world : World) :
    GivesUp setup depth descriptor frame world ↔
      ∃ after, (callsAt setup depth).execute descriptor frame world = .ok none after := by
  cases code : setup.program.templates.find? descriptor with
  | none =>
      have missing : (callsAt setup depth).execute descriptor frame world =
          .error (.methodNotFound descriptor) world := by
        simp only [callsAt, callsOf, executeWith, code]
        rfl
      rw [missing]
      constructor
      · rintro ⟨template, _, found, -⟩
        cases code.symm.trans found
      · rintro ⟨_, succeeded⟩
        cases succeeded
  | some template =>
      cases start : (callsAt setup depth).start (classOfDescriptor descriptor) world with
      | error fault after =>
          rw [execute_of_failed code start]
          constructor
          · rintro ⟨_, started, -, isStarted, -⟩
            cases start.symm.trans isStarted
          · rintro ⟨_, succeeded⟩
            cases succeeded
      | ok done started =>
          by_cases room : depth < setup.config.maxDepth
          · obtain ⟨method, -, built⟩ := consistent.template code
            rw [execute_of_room code start room, conclude_eq_none_iff,
              ← overruns_entry_iff (callsAt_preserve setup (depth + 1)) built]
            constructor
            · rintro ⟨_, _, found, isStarted, gaveUp⟩
              cases code.symm.trans found
              cases start.symm.trans isStarted
              exact gaveUp.resolve_left (by omega)
            · exact fun overruns => ⟨template, started, code, start, .inr overruns⟩
          · have deep := Nat.le_of_not_lt room
            rw [execute_of_deep code start deep]
            exact ⟨fun _ => ⟨_, rfl⟩, fun _ => ⟨template, started, code, start, .inl deep⟩⟩

end Execution

/-! ## Callers go on -/

theorem Invocation.readable_of_bindArguments {caller frame entry : Frame} {index : Nat}
    {args : List Register} (bound : bindArguments caller frame index args = .ok entry) :
    ∀ register ∈ args, register < caller.registerCount := by
  induction args generalizing frame index with
  | nil => simp
  | cons first rest induction =>
      cases read : caller.read first with
      | error fault => simp [bindArguments, read, bind, Except.bind] at bound
      | ok value =>
          cases placed : frame.bindParameter index value with
          | error fault => simp [bindArguments, read, placed, bind, Except.bind] at bound
          | ok middle =>
              simp only [bindArguments, read, placed, bind, Except.bind] at bound
              intro register inside
              rcases List.mem_cons.mp inside with rfl | later
              · exact (caller.read_isOk_iff register).mp ⟨value, read⟩
              · exact induction bound register later

theorem Invocation.readable_of_entryFrame {callee : MethodDef} {method : MethodRef}
    {isStatic : Bool} {caller entry : Frame} {args : List Register}
    (entered : entryFrame callee method isStatic caller args = .ok entry) :
    ∀ register ∈ args, register < caller.registerCount := by
  -- Arguments without a receiver are bound from the first one on.
  have straight : ∀ {frame : Frame} {given : List Register},
      (do let bound ← bindArguments caller frame 0 given
          return bound.inheritStatics caller : Except Fault Frame) = .ok entry →
        ∀ register ∈ given, register < caller.registerCount := by
    intro frame given bound
    cases passed : bindArguments caller frame 0 given with
    | error fault => simp [passed, bind, Except.bind] at bound
    | ok middle => exact readable_of_bindArguments passed
  unfold entryFrame at entered
  cases isStatic with
  | true => exact straight entered
  | false =>
      cases args with
      | nil => simp
      | cons receiver rest =>
          cases read : caller.read receiver with
          | error fault => simp [read, bind, Except.bind] at entered
          | ok value =>
              cases received : (Frame.new callee.registers
                  method.parameters.length).bindReceiver value with
              | error fault => simp [read, received, bind, Except.bind] at entered
              | ok frame =>
                  simp only [read, received, bind, Except.bind] at entered
                  intro register inside
                  rcases List.mem_cons.mp inside with rfl | later
                  · exact (caller.read_isOk_iff register).mp ⟨value, read⟩
                  · exact straight entered register later

section Callers

variable {program : Program} {setup : Setup} {calls : Calls} {kind : InvokeKind}
  {reference : MethodRef} {args : List Register} {caller entry : Frame} {callee : String}
  {world after : World}

/-- A call takes over what has become of its callee, and its arguments can be read. -/
theorem Program.invoke_of_executed {result : Option Graph}
    (asked : program.callRequest? kind reference caller args = some (.execute callee entry))
    (executed : calls.execute callee entry world = .ok result after) :
    (∀ register ∈ args, register < caller.registerCount) ∧
      ∃ definition template, program.callee? callee = some (definition, template) ∧
        program.invoke calls kind reference caller args world =
          Invocation.takeOver reference caller template result after := by
  unfold Program.callRequest? at asked
  unfold Program.invoke
  by_cases fits : args.length = reference.parameters.length +
      (if (decide (kind = .static) : Bool) then 0 else 1)
  · simp only [fits, ne_eq, not_true_eq_false, if_false] at asked ⊢
    cases found : program.callee? reference.descriptor with
    | none =>
        simp only [found] at asked
        cases asked
    | some pair =>
        obtain ⟨definition, template⟩ := pair
        by_cases agrees : definition.isStatic = decide (kind = .static)
        · simp only [found, agrees, not_true_eq_false, if_false] at asked ⊢
          cases entered : Invocation.entryFrame definition reference (decide (kind = .static))
              caller args with
          | error fault =>
              simp only [entered] at asked
              cases asked
          | ok frame =>
              simp only [entered] at asked
              cases asked
              refine ⟨Invocation.readable_of_entryFrame entered, definition, template, found, ?_⟩
              have goesOn : ∀ next : Option Graph → Run CallOutcome,
                  (calls.execute reference.descriptor entry >>= next) world =
                    next result after := by
                intro next
                simp only [bind, EStateM.bind, executed]
              exact goesOn _
        · simp only [found, agrees, not_false_eq_true, if_true] at asked
          cases asked
  · simp only [fits, ne_eq, not_false_eq_true, if_true] at asked
    cases asked

theorem Instruction.execute_of_executed {instruction : Instruction} {result : Option Graph}
    (asked : instruction.request? setup.program caller = some (.execute callee entry))
    (executed : calls.execute callee entry world = .ok result after) (method : String) :
    ∃ scene, instruction.execute setup calls method ⟨caller, world⟩ =
      .ok [instruction.next] scene := by
  obtain ⟨kind, reference, args, shape, asked⟩ := Instruction.call_of_request? asked
  obtain ⟨readable, _, template, -, invoked⟩ := Program.invoke_of_executed asked executed
  obtain ⟨outcome, isOutcome⟩ : ∃ outcome,
      Invocation.takeOver reference caller template result after = .ok outcome after := by
    cases result <;> exact ⟨_, rfl⟩
  have called : Step.outside (setup.program.invoke calls kind reference caller args)
      ⟨caller, world⟩ = .ok outcome ⟨caller, after⟩ :=
    Step.outside_eq_ok.mpr ⟨after, invoked.trans isOutcome, rfl⟩
  have sized : ∀ frame : Frame, (outcome.writes.foldl
      (fun frame write => frame.writeStatic write.1 write.2) frame).registerCount =
        frame.registerCount := by
    intro frame
    obtain ⟨_, written⟩ := Frame.foldl_writeStatic outcome.writes frame
    rw [written]
    rfl
  have takenOver : Step.Succeeds caller.registerCount (do
      Step.modifyFrame fun frame => frame.withResult outcome.result
      Step.modifyFrame fun frame =>
        outcome.writes.foldl (fun frame write => frame.writeStatic write.1 write.2) frame
      args.forM (Step.forgetArgument setup.program)) :=
    .bind (.modifyFrame fun _ => rfl) fun _ =>
      .bind (.modifyFrame sized) fun _ =>
        .forM fun register inside => .forgetArgument setup.program (readable register inside)
  obtain ⟨value, scene, finished, -⟩ := takenOver ⟨caller, after⟩ rfl
  refine ⟨scene, ?_⟩
  unfold Instruction.execute
  rw [shape]
  refine Step.bind_eq_ok.mpr ⟨value, scene, ?_, rfl⟩
  rw [Op.perform, Step.invoke, Step.get_bind]
  exact Step.bind_eq_ok.mpr ⟨outcome, ⟨caller, after⟩, called, finished⟩

theorem Program.invoke_of_none
    (asked : program.callRequest? kind reference caller args = some (.execute callee entry))
    (gaveUp : calls.execute callee entry world = .ok none after) :
    (∀ register ∈ args, register < caller.registerCount) ∧
      ∃ definition template, program.callee? callee = some (definition, template) ∧
        program.invoke calls kind reference caller args world =
          .ok (Invocation.abandoned reference caller template) after :=
  Program.invoke_of_executed asked gaveUp

theorem Instruction.execute_of_none {instruction : Instruction}
    (asked : instruction.request? setup.program caller = some (.execute callee entry))
    (gaveUp : calls.execute callee entry world = .ok none after) (method : String) :
    ∃ scene, instruction.execute setup calls method ⟨caller, world⟩ =
      .ok [instruction.next] scene :=
  Instruction.execute_of_executed asked gaveUp method

end Callers

/-! ## Classes count as started -/

namespace Execution

variable {setup : Setup} {depth : Nat} {type : TypeDescriptor} {state : ClassState}
  {world after : World} {frame : Frame} {template : Graph}

theorem start_of_code (found : world.statics.find? type = some state)
    (fresh : state.initialized = false)
    (code : setup.program.templates.find? (initializerOf type) = some template)
    (isFrame : setup.program.rootFrame (initializerOf type) = .ok frame) :
    (callsAt setup depth).start type world =
      match (callsAt setup depth).execute (initializerOf type) frame (world.marked type) with
      | .ok _ after => .ok () after
      | .error fault after => .error fault after := by
  have started := startClass_of_fresh setup
    (bodyAt setup (setup.config.maxDepth - depth) depth) found fresh
  rw [code, isFrame] at started
  exact started

theorem settled_of_isInitialized {statics : Statics}
    (started : statics.isInitialized type = true) : statics.Settled type := by
  intro state found
  simpa [Statics.isInitialized, found] using started

/-- Whatever becomes of the initializer of a class, the class has been started. -/
theorem isInitialized_of_execute {descriptor : String} {result : Option Graph}
    (found : world.statics.find? type = some state)
    (executed : (callsAt setup depth).execute descriptor frame (world.marked type) =
      .ok result after) : after.statics.isInitialized type = true := by
  have advances := (callsAt_preserve setup depth).execute descriptor frame (world.marked type)
  rw [executed] at advances
  exact Statics.Advances.isInitialized advances (Statics.isInitialized_markInitialized found)

theorem start_of_settled (setup : Setup) (depth : Nat) (settled : world.statics.Settled type) :
    (callsAt setup depth).start type world = .ok () world :=
  startClass_of_settled _ _ settled

/-- An instruction that needs a class is executed as if the class had been started before. -/
theorem execute_of_start {instruction : Instruction}
    (asked : instruction.request? setup.program frame = some (.start type))
    (start : (callsAt setup depth).start type world = .ok () after)
    (settled : after.statics.Settled type) (method : String) :
    instruction.execute setup (callsAt setup depth) method ⟨frame, world⟩ =
      instruction.execute setup (callsAt setup depth) method ⟨frame, after⟩ := by
  obtain ⟨rest, -, split⟩ := instruction.execute_eq_ask setup method frame
  have reached : ∀ {before : World}, (callsAt setup depth).start type before = .ok () after →
      (Step.outside ((callsAt setup depth).ask (some (.start type))) >>= rest) ⟨frame, before⟩ =
        rest none ⟨frame, after⟩ := by
    intro before started
    have done : Step.outside ((callsAt setup depth).ask (some (.start type))) ⟨frame, before⟩ =
        .ok none ⟨frame, after⟩ := by
      refine Step.outside_eq_ok.mpr ⟨after, ?_, rfl⟩
      simp only [Calls.ask, bind, EStateM.bind, started]
      rfl
    simp only [bind, EStateM.bind, done]
  rw [split, split, asked, reached start, reached (start_of_settled setup depth settled)]

theorem executeMethod_of_start {descriptor : String}
    (start : (callsAt setup depth).start (classOfDescriptor descriptor) world = .ok () after)
    (settled : after.statics.Settled (classOfDescriptor descriptor))
    (code : setup.program.templates.find? descriptor = some template) (frame : Frame) :
    (callsAt setup depth).execute descriptor frame world =
      (callsAt setup depth).execute descriptor frame after := by
  have again := start_of_settled setup depth settled
  simp only [callsAt, callsOf] at start again
  rw [execute_callsAt depth code, execute_callsAt depth code, start, again]

end Execution

/-! ## Machines -/

namespace Machine

variable {machine : Machine}

/-- A program that was loaded and updated, with any static state and at any call depth. -/
def Loaded (machine : Machine) : Prop :=
  ∃ outer : Machine, outer.Reachable (fun _ => True) ∧ outer.toSetup = machine.toSetup

theorem Loaded.consistent (loaded : machine.Loaded) : machine.program.Consistent := by
  obtain ⟨outer, reachable, same⟩ := loaded
  rw [← same]
  exact reachable.invariant.1

theorem executeFrom_outcome (machine : Machine) (descriptor : String) (frame : Frame) :
    (machine.executeFrom descriptor frame).outcome =
      match machine.calls.execute descriptor frame machine.world with
      | .ok result _ => .ok result
      | .error fault _ => .error fault := by
  unfold executeFrom perform
  cases machine.calls.execute descriptor frame machine.world <;> rfl

theorem executeFrom_eq_ok_iff {descriptor : String} {frame : Frame} {result : Option Graph} :
    (machine.executeFrom descriptor frame).outcome = .ok result ↔
      ∃ after, machine.calls.execute descriptor frame machine.world = .ok result after := by
  rw [executeFrom_outcome]
  cases machine.calls.execute descriptor frame machine.world <;> simp

theorem fault_of_executeFrom {descriptor : String} {frame : Frame} {fault : Fault}
    (failed : (machine.executeFrom descriptor frame).outcome = .error fault) :
    fault.isRecoverable = false := by
  have allowed := (callsAt_preserve machine.toSetup machine.callDepth).execute descriptor frame
    machine.world
  rw [executeFrom_outcome, calls] at failed
  cases executed : (callsAt machine.toSetup machine.callDepth).execute descriptor frame
      machine.world with
  | ok result after =>
      rw [executed] at failed
      cases failed
  | error other after =>
      rw [executed] at failed allowed
      cases failed
      exact allowed.2

/-- A ceiling stops the method that hits it and no other. No execution ends with the fault of a
ceiling. A method is given up exactly if its class could be started and either no call level
was left for it or a visit of its own was refused. At any depth, a call of a method that is
given up goes on at the next instruction, and a class whose initializer is given up has been
started, for the instruction or method that needed it as for all later ones. -/
theorem ceilings_contained (loaded : machine.Loaded) :
    (∀ descriptor frame,
      (∀ method address node limit, (machine.executeFrom descriptor frame).outcome ≠
        .error (.revisitCeiling method address node limit)) ∧
      (∀ depth limit, (machine.executeFrom descriptor frame).outcome ≠
        .error (.callDepth depth limit)) ∧
      ((machine.executeFrom descriptor frame).outcome = .ok none ↔
        GivesUp machine.toSetup machine.callDepth descriptor frame machine.world)) ∧
    (∀ descriptor method, machine.method? descriptor = some method → method.reference.Parsed →
      classOfDescriptor descriptor = method.reference.owner) ∧
    (∀ depth callee entry world, GivesUp machine.toSetup depth callee entry world →
      ∀ (instruction : Instruction) frame method,
        instruction.request? machine.program frame = some (.execute callee entry) →
        ∃ scene, instruction.execute machine.toSetup (callsAt machine.toSetup depth) method
          ⟨frame, world⟩ = .ok [instruction.next] scene) ∧
    (∀ depth type state entry (world : World), world.statics.find? type = some state →
      state.initialized = false → machine.rootFrame (initializerOf type) = .ok entry →
      GivesUp machine.toSetup depth (initializerOf type) entry (world.marked type) →
      ∃ after, (callsAt machine.toSetup depth).start type world = .ok () after ∧
        after.statics.isInitialized type = true ∧
        (∀ (instruction : Instruction) frame method,
          instruction.request? machine.program frame = some (.start type) →
          instruction.execute machine.toSetup (callsAt machine.toSetup depth) method
              ⟨frame, world⟩ =
            instruction.execute machine.toSetup (callsAt machine.toSetup depth) method
              ⟨frame, after⟩) ∧
        ∀ descriptor frame, (machine.template? descriptor).isSome →
          classOfDescriptor descriptor = type →
          (callsAt machine.toSetup depth).execute descriptor frame world =
            (callsAt machine.toSetup depth).execute descriptor frame after) := by
  have consistent := loaded.consistent
  refine ⟨?_, ?_, ?_, ?_⟩
  · intro descriptor frame
    have contained : ∀ fault, (machine.executeFrom descriptor frame).outcome = .error fault →
        fault.isRecoverable = false := fun _ => fault_of_executeFrom
    refine ⟨?_, ?_, ?_⟩
    · intro method address node limit failed
      cases contained _ failed
    · intro depth limit failed
      cases contained _ failed
    · rw [executeFrom_eq_ok_iff, givesUp_iff consistent]
      rfl
  · intro descriptor method found parsed
    rw [← consistent.named found]
    exact parsed.classOfDescriptor
  · intro depth callee entry world gaveUp instruction frame method asked
    obtain ⟨after, executed⟩ := (givesUp_iff consistent _ _ _ _).mp gaveUp
    exact Instruction.execute_of_none asked executed method
  · intro depth type state entry world found fresh isFrame gaveUp
    have ⟨template, _, code, _⟩ := gaveUp
    obtain ⟨after, executed⟩ := (givesUp_iff consistent _ _ _ _).mp gaveUp
    have started := isInitialized_of_execute found executed
    have settled := settled_of_isInitialized started
    have start : (callsAt machine.toSetup depth).start type world = .ok () after := by
      rw [start_of_code found fresh code isFrame, executed]
    refine ⟨after, start, started, ?_, ?_⟩
    · intro instruction frame method asked
      exact execute_of_start asked start settled method
    · rintro descriptor frame implemented rfl
      obtain ⟨template, code⟩ := Option.isSome_iff_exists.mp implemented
      exact executeMethod_of_start start settled code frame

/-- Without a single call level, an initializer and the method behind it are given up one after
the other. -/
theorem ceilings_contained_ring :
    ∃ machine, load [ringClass "LRing;" "LKnot;", ringClass "LKnot;" "LRing;"]
        { maxDepth := 0 } = .ok machine ∧ machine.Loaded ∧
      (∀ frame, (machine.executeFrom "LRing;->run()V" frame).outcome = .ok none) := by
  cases loaded : load [ringClass "LRing;" "LKnot;", ringClass "LKnot;" "LRing;"]
      { maxDepth := 0 } with
  | error fault => cases loaded
  | ok machine =>
      have isLoaded : machine.Loaded := ⟨machine, .load loaded trivial, rfl⟩
      refine ⟨machine, rfl, isLoaded, fun frame => ?_⟩
      obtain ⟨outcomes, -, -, starts⟩ := ceilings_contained isLoaded
      have ⟨state, found, fresh⟩ : ∃ state, machine.statics.find? ⟨"LRing;"⟩ = some state ∧
          state.initialized = false := by
        cases loaded
        exact ⟨_, rfl, rfl⟩
      have ⟨initializer, initializerCode⟩ : ∃ template,
          machine.program.templates.find? (initializerOf ⟨"LRing;"⟩) = some template := by
        cases loaded
        exact ⟨_, rfl⟩
      have ⟨entry, isEntry⟩ : ∃ entry, machine.rootFrame (initializerOf ⟨"LRing;"⟩) =
          .ok entry := by
        cases loaded
        exact ⟨_, rfl⟩
      have ⟨template, code⟩ : ∃ template,
          machine.program.templates.find? "LRing;->run()V" = some template := by
        cases loaded
        exact ⟨_, rfl⟩
      have deep : machine.config.maxDepth ≤ machine.callDepth := by
        cases loaded
        exact Nat.le_refl 0
      have marked : (machine.world.marked ⟨"LRing;"⟩).statics.isInitialized ⟨"LRing;"⟩ =
          true := Statics.isInitialized_markInitialized found
      obtain ⟨after, start, -⟩ := starts machine.callDepth ⟨"LRing;"⟩ state entry machine.world
        found fresh isEntry ⟨initializer, _, initializerCode,
          start_of_settled _ _ (settled_of_isInitialized marked), .inl deep⟩
      exact (outcomes "LRing;->run()V" frame).2.2.mpr ⟨template, after, code, start, .inl deep⟩

end Machine

end Dexplore
