import Dexplore.Proofs.OwnWrites
import Dexplore.Proofs.Revisions
import Dexplore.Proofs.Unnoticed

/-!
# Executions that do not depend on one another

Code that makes no calls and looks at no static field or array is explored in the same way
whatever the classes hold, as long as all of them have been started
(`Exploration.Blind.explore`).  It leaves the classes to what becomes of the exploration, which
revises fields that the code puts.  So methods with such code can be executed in any order
(`Machine.executions_commute`).
-/

set_option autoImplicit false

namespace Dexplore

open Execution Exploration

/-! ## Explorations that look at no class -/

def World.holding (statics : Statics) (world : World) : World := { world with statics }

theorem World.holding_overlooked (statics : Statics) : Overlooked (holding statics) :=
  fun _ _ => rfl

theorem Op.mayStore_of_readsStatics {op : Op} (blind : op.readsStatics = false) :
    op.mayStore = false := by
  cases op with
  | invoke | arrayPut => cases blind
  | _ => rfl

/-- All classes have been started, and the code looks at none of them. -/
structure Exploration.Blind (exploration : Exploration) : Prop where
  settled : ∀ type, exploration.world.statics.Settled type
  code : ∀ address instruction, exploration.graph.instruction? address = some instruction →
    instruction.op.readsStatics = false

namespace Exploration.Blind

variable (setup : Setup) {calls : Calls} {exploration : Exploration} {instruction : Instruction}
  {id : NodeId}

/-- Where no class has to be started, nothing has to be called. -/
theorem visit_eq_idle (blind : exploration.Blind) (idle : calls.Idle)
    (present : exploration.graph.instruction? id.address = some instruction) :
    visit setup calls id instruction exploration =
      visit setup Answer.nothing.calls id instruction exploration := by
  obtain ⟨graph, world⟩ := exploration
  rw [← visit_answer setup calls, ← visit_answer setup Answer.nothing.calls]
  cases asked : request? ⟨graph, world⟩ setup id instruction with
  | none => rfl
  | some wanted =>
      obtain ⟨frame, -, fromFrame⟩ := Option.bind_eq_some_iff.mp asked
      have plain := Op.mayStore_of_readsStatics (blind.code id.address instruction present)
      obtain ⟨type, rfl⟩ := Instruction.start_of_request? plain fromFrame
      have still := idle type (visiting graph world id instruction) (blind.settled type)
      simp only [Calls.answer, still]
      rfl

theorem visit_holding (blind : exploration.Blind) (idle : calls.Idle)
    (present : exploration.graph.instruction? id.address = some instruction) {statics : Statics}
    (settled : ∀ type, statics.Settled type) :
    visit setup calls id instruction (exploration.changed (.holding statics)) =
      mapState (changed (.holding statics)) (visit setup calls id instruction exploration) := by
  have changed : (exploration.changed (.holding statics)).Blind := ⟨settled, blind.code⟩
  have commute : Answer.nothing.calls.Commute (World.holding statics) :=
    ⟨fun _ _ => rfl, fun _ _ _ => rfl⟩
  rw [changed.visit_eq_idle setup idle present, blind.visit_eq_idle setup idle present]
  refine visit_commutes (World.holding_overlooked statics) commute id instruction ?_ exploration
  intro looks
  rw [blind.code id.address instruction present] at looks
  cases looks

theorem visit (blind : exploration.Blind) (idle : calls.Idle)
    (present : exploration.graph.instruction? id.address = some instruction) :
    (lastState (visit setup calls id instruction exploration)).Blind where
  settled := by
    have plain := Op.mayStore_of_readsStatics (blind.code id.address instruction present)
    rw [statics_visit_of_settled setup idle id plain blind.settled]
    exact blind.settled
  code address other found := by
    rw [(sameCode_visit setup calls id instruction exploration).instruction?] at found
    exact blind.code address other found

/-- An exploration does the same whatever the classes hold. -/
theorem explore (blind : exploration.Blind) (idle : calls.Idle) {statics : Statics}
    (settled : ∀ type, statics.Settled type) :
    explore setup calls (exploration.changed (.holding statics)) =
      mapState (changed (.holding statics)) (explore setup calls exploration) := by
  refine exploreFrom_commutes Blind ?_ ?_ _ _ exploration blind
  · intro id instruction exploration blind present
    exact blind.visit_holding setup idle present settled
  · intro id instruction exploration children after blind present visited
    have kept := blind.visit setup idle present
    rwa [visited] at kept

end Exploration.Blind

/-! ## Methods that can be executed in any order -/

/-- Code that makes no calls, looks at no static field, stores into no array, and puts declared
static fields only. -/
def Graph.Independent (classes : OrdMap TypeDescriptor ClassDef) (graph : Graph) : Prop :=
  ∀ address instruction, graph.instruction? address = some instruction →
    instruction.op.readsStatics = false ∧
      ∀ field, instruction.op.staticPut? = some field → field.IsDeclared classes

namespace Graph.Independent

variable {classes : OrdMap TypeDescriptor ClassDef} {graph code : Graph}

theorem of_sameCode (independent : code.Independent classes) (same : graph.SameCode code) :
    graph.Independent classes := by
  intro address instruction present
  rw [same.instruction?] at present
  exact independent address instruction present

theorem declared (independent : graph.Independent classes) :
    ∀ field ∈ graph.staticPuts, field.IsDeclared classes := by
  intro field isPut
  obtain ⟨address, instruction, present, puts⟩ := (graph.mem_staticPuts_iff field).mp isPut
  exact (independent address instruction present).2 field puts

theorem mayStore (independent : graph.Independent classes) : graph.mayStore = false := by
  rw [Bool.eq_false_iff]
  intro stores
  obtain ⟨address, instruction, present, stores⟩ := graph.mayStore_iff.mp stores
  cases stores.symm.trans
    (Op.mayStore_of_readsStatics (independent address instruction present).1)

end Graph.Independent

namespace Machine

variable {machine : Machine} {descriptor : String} {frame : Frame}

/-- An execution that has nothing to do with others: it begins without static writes, and its
method is no initializer and has code that stays on its own. -/
structure Independent (machine : Machine) (descriptor : String) (frame : Frame) : Prop where
  ordinary : machine.program.isInitializer descriptor = false
  blank : frame.statics = .empty
  code : ∀ method, machine.method? descriptor = some method →
    ∀ instruction ∈ method.instructions, instruction.op.readsStatics = false ∧
      ∀ field, instruction.op.staticPut? = some field →
        field.IsDeclared machine.program.classes

theorem Independent.template (independent : machine.Independent descriptor frame)
    (consistent : machine.program.Consistent) {template : Graph}
    (found : machine.program.templates.find? descriptor = some template) :
    template.Independent machine.program.classes := by
  obtain ⟨method, isMethod, built⟩ := consistent.template found
  intro address instruction present
  have inside := ((Graph.instruction?_iff_mem built address instruction).mp present).1
  exact independent.code method isMethod instruction inside

theorem Independent.explored (independent : machine.Independent descriptor frame)
    (consistent : machine.program.Consistent) {template : Graph}
    (found : machine.program.templates.find? descriptor = some template) (calls : Calls)
    (world : World) {done : Exploration}
    (ended : lastState (Exploration.explore machine.toSetup calls
      ⟨template.setRootFrame frame, world⟩) = done) :
    done.graph.Independent machine.program.classes ∧
      machine.program.isInitializer done.graph.method = false ∧
      ∀ field ∈ done.graph.writtenStatics, field.IsDeclared machine.program.classes := by
  obtain ⟨method, isMethod, built⟩ := consistent.template found
  have same := sameCode_explore machine.toSetup calls built frame world
  have code := independent.template consistent found
  have entered : (template.setRootFrame frame).Independent machine.program.classes :=
    code.of_sameCode (template.sameCode_setRootFrame frame)
  have blank := Graph.allFrames_template built
    (Frame.WritesOnly (·.IsDeclared machine.program.classes))
  have nothing : frame.WritesOnly (·.IsDeclared machine.program.classes) := by
    intro field isWritten
    rw [Frame.static?, independent.blank] at isWritten
    cases isWritten
  have written := writesOnly_explore machine.toSetup calls ⟨template.setRootFrame frame, world⟩
    entered.mayStore entered.declared (blank.setRootFrame nothing)
  rw [ended] at same written
  refine ⟨code.of_sameCode same, ?_, ?_⟩
  · rw [same.method, consistent.method_of_template found]
    exact independent.ordinary
  · intro field isWritten
    obtain ⟨last, isLast, carries⟩ := (Graph.mem_writtenStatics_iff _ field).mp isWritten
    exact written.of_mem_frames isLast field carries

theorem Independent.conclude (independent : machine.Independent descriptor frame)
    (consistent : machine.program.Consistent) {template : Graph}
    (found : machine.program.templates.find? descriptor = some template) (calls : Calls)
    (world : World) :
    ∃ revisions : List Revision, ∀ statics : Statics, statics.Started machine.program.classes →
      Execution.conclude machine.toSetup (mapState (changed (.holding statics))
        (Exploration.explore machine.toSetup calls ⟨template.setRootFrame frame, world⟩)) =
      mapState (.holding (revisions.foldl Statics.revise statics))
        (Execution.conclude machine.toSetup
          (Exploration.explore machine.toSetup calls ⟨template.setRootFrame frame, world⟩)) := by
  cases ended : Exploration.explore machine.toSetup calls
      ⟨template.setRootFrame frame, world⟩ with
  | ok value done =>
      have isDone : lastState _ = done := congrArg lastState ended
      obtain ⟨-, ordinary, declared⟩ := independent.explored consistent found calls world isDone
      refine ⟨done.graph.writtenStatics.map (.merge done.graph), fun statics started => ?_⟩
      rw [← started.commit declared, ← ordinary]
      rfl
  | error fault done =>
      have isDone : lastState _ = done := congrArg lastState ended
      obtain ⟨code, -, -⟩ := independent.explored consistent found calls world isDone
      rw [Execution.conclude]
      by_cases recoverable : fault.isRecoverable = true
      · refine ⟨done.graph.staticPuts.map .forget, fun statics started => ?_⟩
        rw [if_pos recoverable, ← started.giveUp code.mayStore code.declared]
        exact if_pos recoverable
      · refine ⟨[], fun statics _ => ?_⟩
        rw [if_neg recoverable]
        exact if_neg recoverable

/-- An execution comes to the same whatever the classes hold, and leaves the same revisions. -/
theorem Independent.execute_eq (independent : machine.Independent descriptor frame)
    (consistent : machine.program.Consistent)
    (started : machine.statics.Started machine.program.classes) :
    ∃ revisions : List Revision, ∀ statics : Statics, statics.Started machine.program.classes →
      machine.calls.execute descriptor frame ⟨statics, []⟩ =
        mapState (.holding (revisions.foldl Statics.revise statics))
          (machine.calls.execute descriptor frame machine.world) := by
  have start : ∀ statics : Statics, statics.Started machine.program.classes →
      (callsAt machine.toSetup machine.callDepth).start (classOfDescriptor descriptor)
        ⟨statics, []⟩ = .ok () ⟨statics, []⟩ :=
    fun statics started => start_of_settled _ _ (started.settled _)
  have startHere := start machine.statics started
  rw [calls, world]
  cases code : machine.program.templates.find? descriptor with
  | none =>
      refine ⟨[], fun statics _ => ?_⟩
      simp only [callsAt, callsOf, executeWith, code]
      rfl
  | some template =>
      by_cases room : machine.callDepth < machine.config.maxDepth
      · rw [execute_of_room code startHere room]
        obtain ⟨revisions, concluded⟩ := independent.conclude consistent code
          (callsAt machine.toSetup (machine.callDepth + 1))
          (entering template machine.callDepth machine.world)
        refine ⟨revisions, fun statics started' => ?_⟩
        rw [execute_of_room code (start statics started') room]
        have blind : Exploration.Blind
            ⟨template.setRootFrame frame, entering template machine.callDepth machine.world⟩ := by
          refine ⟨started.settled, fun address instruction present => ?_⟩
          rw [(template.sameCode_setRootFrame frame).instruction?] at present
          exact (independent.template consistent code address instruction present).1
        have explored := blind.explore machine.toSetup
          (callsOf_idle machine.toSetup (bodyAt machine.toSetup
            (machine.config.maxDepth - (machine.callDepth + 1)) (machine.callDepth + 1)))
          started'.settled
        exact (congrArg (Execution.conclude machine.toSetup) explored).trans
          (concluded statics started')
      · have deep := Nat.le_of_not_lt room
        have stays := independent.template consistent code
        refine ⟨template.staticPuts.map .forget, fun statics started' => ?_⟩
        rw [execute_of_deep code startHere deep,
          execute_of_deep code (start statics started') deep,
          ← started'.giveUp stays.mayStore stays.declared]
        rfl

theorem Independent.executeFrom_eq (independent : machine.Independent descriptor frame)
    (consistent : machine.program.Consistent)
    (started : machine.statics.Started machine.program.classes) :
    ∃ revisions : List Revision, ∀ statics : Statics, statics.Started machine.program.classes →
      ({ machine with statics } : Machine).executeFrom descriptor frame =
        { machine.executeFrom descriptor frame with
          machine := { machine with statics := revisions.foldl Statics.revise statics } } := by
  obtain ⟨revisions, executed⟩ := independent.execute_eq consistent started
  refine ⟨revisions, fun statics started => ?_⟩
  have same : ({ machine with statics } : Machine).calls.execute descriptor frame ⟨statics, []⟩ =
    _ := executed statics started
  unfold executeFrom perform
  rw [world, same]
  cases machine.calls.execute descriptor frame machine.world <;> rfl

/-! ## Machines and their classes -/

def Fits (machine : Machine) : Prop :=
  ∀ type, Option.Rel (fun definition state =>
    ∀ name, state.declared? name = (ClassState.ofDefinition definition).declared? name)
      (machine.program.classes.find? type) (machine.statics.find? type)

theorem fits_of_reset (fresh : machine.statics = .ofDefinitions machine.program.classes) :
    machine.Fits := by
  intro type
  rw [fresh, Statics.ofDefinitions, OrdMap.find?_mapValues]
  cases machine.program.classes.find? type with
  | none => exact .none
  | some definition => exact .some fun _ => rfl

theorem Fits.onlyStatics {after : Machine} (fits : machine.Fits)
    (same : machine.OnlyStatics after) : after.Fits := by
  intro type
  have here := fits type
  have defined : (after.statics.find? type).isSome ↔ (machine.statics.find? type).isSome := by
    rw [← OrdMap.mem_keys_iff, ← OrdMap.mem_keys_iff, same.keys]
  rw [same.classes]
  cases found : machine.program.classes.find? type with
  | none =>
      rw [found] at here
      rw [rel_none here] at defined
      have missing : after.statics.find? type = none := by
        rw [← Option.not_isSome_iff_eq_none, defined]
        simp
      rw [missing]
      exact .none
  | some definition =>
      rw [found] at here
      obtain ⟨state, isState, sameFields⟩ := rel_some here
      rw [isState] at defined
      obtain ⟨later, isLater⟩ := Option.isSome_iff_exists.mp (defined.mpr rfl)
      rw [isLater]
      refine .some fun name => ?_
      rw [(same.states type state later isState isLater).2 name, sameFields name]

theorem Fits.update (fits : machine.Fits) (method : MethodDef) :
    (machine.update method).machine.Fits := by
  have amended : Fits { machine with program := machine.program.amendClass method } := by
    intro type
    have here := fits type
    simp only [Program.amendClass, OrdMap.find?_modify]
    split
    · cases found : machine.program.classes.find? type with
      | none =>
          rw [found] at here
          rw [rel_none here]
          exact .none
      | some definition =>
          rw [found] at here
          obtain ⟨state, isState, sameFields⟩ := rel_some here
          rw [isState]
          exact .some sameFields
    · exact here
  obtain same | ⟨-, program, same, rfl | registered⟩ := machine.update_cases method
  · rw [same]
    exact fits
  · rw [same]
    exact amended
  · rw [same]
    obtain ⟨-, rfl⟩ := Program.register_eq_ok_iff.mp registered
    exact amended

theorem Reachable.fits {admitted : Program → Prop} (reachable : machine.Reachable admitted) :
    machine.Fits := by
  induction reachable with
  | load loaded admits =>
      obtain ⟨-, -, -, same⟩ := load_eq_ok_iff.mp loaded
      exact fits_of_reset (congrArg Machine.statics same).symm
  | execute _ descriptor induction => exact induction.onlyStatics (onlyStatics_execute descriptor)
  | executeFrom _ descriptor frame induction =>
      exact induction.onlyStatics (onlyStatics_executeFrom descriptor frame)
  | startClass _ type induction => exact induction.onlyStatics (onlyStatics_startClass type)
  | explore _ graph induction => exact induction.onlyStatics (onlyStatics_explore graph)
  | executeInstruction _ method instruction frame induction =>
      exact induction.onlyStatics (onlyStatics_executeInstruction method instruction frame)
  | update _ method _ induction => exact induction.update method
  | reset _ induction => exact fits_of_reset rfl

theorem Fits.started (fits : machine.Fits)
    (initialized : ∀ type, machine.program.classes.contains type = true →
      machine.isInitialized type = true) :
    machine.statics.Started machine.program.classes := by
  intro type
  have here := fits type
  have ready := initialized type
  rw [OrdMap.contains] at ready
  cases found : machine.program.classes.find? type with
  | none =>
      rw [found] at here
      rw [rel_none here]
      exact .none
  | some definition =>
      rw [found] at here ready
      obtain ⟨state, isState, sameFields⟩ := rel_some here
      rw [isInitialized, Statics.isInitialized, isState] at ready
      rw [isState]
      exact .some ⟨ready rfl, sameFields⟩

/-! ## Any order -/

/-- What comes of executing methods one after another, each from a frame of its own, and what is
recorded meanwhile. -/
def executions (machine : Machine) :
    List (String × Frame) → List (Except Fault (Option Graph) × List Event)
  | [] => []
  | (descriptor, frame) :: rest =>
    let report := machine.executeFrom descriptor frame
    (report.outcome, report.events) :: report.machine.executions rest

def afterExecutions (machine : Machine) (calls : List (String × Frame)) : Machine :=
  calls.foldl (fun machine call => (machine.executeFrom call.1 call.2).machine) machine

theorem executions_of_revisions {revisions : String × Frame → List Revision}
    {calls : List (String × Frame)}
    (each : ∀ call ∈ calls, ∀ statics : Statics, statics.Started machine.program.classes →
      ({ machine with statics } : Machine).executeFrom call.1 call.2 =
        { machine.executeFrom call.1 call.2 with
          machine := { machine with statics := (revisions call).foldl Statics.revise statics } })
    {statics : Statics} (started : statics.Started machine.program.classes) :
    ({ machine with statics } : Machine).executions calls =
        calls.map (fun call => ((machine.executeFrom call.1 call.2).outcome,
          (machine.executeFrom call.1 call.2).events)) ∧
      ({ machine with statics } : Machine).afterExecutions calls =
        { machine with statics := (calls.flatMap revisions).foldl Statics.revise statics } := by
  induction calls generalizing statics with
  | nil => exact ⟨rfl, rfl⟩
  | cons call rest induction =>
      obtain ⟨here, later⟩ := List.forall_mem_cons.mp each
      obtain ⟨answers, last⟩ := induction later (started.foldl (revisions call))
      have first := here statics started
      constructor
      · rw [executions, first, List.map_cons, ← answers]
      · rw [List.flatMap_cons, List.foldl_append, ← last, afterExecutions, List.foldl_cons, first]
        rfl

/-- Executions that have nothing to do with one another can be made in any order once all classes
have been started, whether they come to their ends, are given up or fail. Each gives the outcome,
the graph and the events that it gives on its own, and the machine is the same afterwards. -/
theorem executions_commute (reachable : machine.Reachable fun _ => True)
    (initialized : ∀ type, machine.program.classes.contains type = true →
      machine.isInitialized type = true)
    {calls order : List (String × Frame)}
    (independent : ∀ call ∈ calls, machine.Independent call.1 call.2)
    (reordered : order.Perm calls) :
    machine.executions order =
        order.map (fun call => ((machine.executeFrom call.1 call.2).outcome,
          (machine.executeFrom call.1 call.2).events)) ∧
      machine.afterExecutions order = machine.afterExecutions calls := by
  have started := reachable.fits.started initialized
  have exists_revisions : ∀ call : String × Frame, ∃ revisions : List Revision,
      machine.Independent call.1 call.2 →
        ∀ statics : Statics, statics.Started machine.program.classes →
          ({ machine with statics } : Machine).executeFrom call.1 call.2 =
            { machine.executeFrom call.1 call.2 with
              machine := { machine with statics := revisions.foldl Statics.revise statics } } := by
    intro call
    by_cases stays : machine.Independent call.1 call.2
    · obtain ⟨revisions, executed⟩ := stays.executeFrom_eq reachable.invariant.1 started
      exact ⟨revisions, fun _ => executed⟩
    · exact ⟨[], fun stays' => absurd stays' stays⟩
  obtain ⟨revisions, executed⟩ := Classical.axiomOfChoice exists_revisions
  have inCalls := executions_of_revisions (fun call inside =>
    executed call (independent call inside)) started
  have inOrder := executions_of_revisions (fun call inside =>
    executed call (independent call (reordered.mem_iff.mp inside))) started
  refine ⟨inOrder.1, inOrder.2.trans (Eq.trans ?_ inCalls.2.symm)⟩
  rw [Statics.foldl_revise_perm (reordered.flatMap_right revisions)]

def spinMethod : MethodDef where
  reference := ⟨⟨"LTally;"⟩, "spin", [], .void⟩
  flags := 8
  registers := 1
  instructions := [.ofOp 0 (.staticPut 0 tallyField), .ofOp 2 (.jump 0)]
  tries := []

def busyClass : ClassDef := { tallyClass with methods := [tallyMethod, spinMethod] }

def busyCalls : List (String × Frame) :=
  [(tallyMethod.descriptor, tallyFrame), (spinMethod.descriptor, ⟨[.int 7], 0, none, .empty⟩),
    ("LTally;->none()V", tallyFrame)]

theorem executions_commute_busy :
    ∃ machine : Machine, machine.Reachable (fun _ => True) ∧
      (∀ type, machine.program.classes.contains type = true →
        machine.isInitialized type = true) ∧
      (∀ call ∈ busyCalls, machine.Independent call.1 call.2) ∧
      ((machine.executions busyCalls).map fun answer => answer.1.toOption.map (·.isSome)) =
        [some true, some false, none] ∧
      machine.afterExecutions busyCalls ≠ machine ∧
      machine.afterExecutions busyCalls.reverse = machine.afterExecutions busyCalls := by
  cases loaded : load [busyClass] { maxVisits := 2 } with
  | error fault => cases loaded
  | ok machine =>
      obtain ⟨-, holds, -, -⟩ := load_eq_ok_iff.mp loaded
      have same : (machine.startClass ⟨"LTally;"⟩).machine.toSetup = machine.toSetup :=
        (onlyStatics_startClass _).toSetup
      have ready : (machine.startClass ⟨"LTally;"⟩).machine.isInitialized ⟨"LTally;"⟩ = true := by
        cases loaded
        decide +kernel
      have ran : (((machine.startClass ⟨"LTally;"⟩).machine.executions busyCalls).map
          fun answer => answer.1.toOption.map (·.isSome)) = [some true, some false, none] := by
        cases loaded
        decide +kernel
      have moved : (machine.startClass ⟨"LTally;"⟩).machine.afterExecutions busyCalls ≠
          (machine.startClass ⟨"LTally;"⟩).machine := by
        cases loaded
        decide +kernel
      have reachable : (machine.startClass ⟨"LTally;"⟩).machine.Reachable fun _ => True :=
        .startClass (.load loaded trivial) _
      have initialized : ∀ type,
          (machine.startClass ⟨"LTally;"⟩).machine.program.classes.contains type = true →
            (machine.startClass ⟨"LTally;"⟩).machine.isInitialized type = true := by
        intro type defined
        rw [same, holds.contains_iff] at defined
        obtain ⟨definition, inside, rfl⟩ := defined
        cases List.mem_singleton.mp inside
        exact ready
      have code : ∀ method ∈ busyClass.methods, ∀ instruction ∈ method.instructions,
          instruction.op.readsStatics = false ∧
            ∀ field ∈ instruction.op.staticPut?, field = tallyField := by
        decide
      have independent : ∀ call ∈ busyCalls,
          (machine.startClass ⟨"LTally;"⟩).machine.Independent call.1 call.2 := by
        intro call inside
        refine ⟨?_, ?_, ?_⟩
        · cases loaded
          revert call
          decide +kernel
        · revert call
          decide
        · intro method found instruction isInstruction
          rw [method?, same, holds.methods] at found
          obtain ⟨blind, puts⟩ := code method (by simpa using found.1) instruction isInstruction
          refine ⟨blind, fun field isPut definition defined => ?_⟩
          rw [same, holds.classes] at defined
          cases List.mem_singleton.mp defined.1
          cases puts field isPut
          exact ⟨⟨"last", .int, 8, none⟩, by decide, rfl⟩
      have commute := executions_commute reachable initialized independent
        (List.reverse_perm busyCalls)
      exact ⟨_, reachable, initialized, independent, ran, moved, commute.2⟩

end Machine

end Dexplore
