import Dexplore.Proofs.Precision
import Dexplore.Proofs.Preservation
import Dexplore.Proofs.Runs
import Dexplore.Proofs.Termination

/-!
# The whole machine as the state

A run is told the limits, the program and the number of methods that have been entered, and
changes static fields and the record only.  Here the state of a run is the whole machine: calls,
uses of static fields, explorations, executions and class starts look up in it what they need and
may change any part of it.  The call depth is one of its fields, which an execution raises and
lowers again however the exploration of its method ends.  Executions and class starts call one
another, as is said by equations (`Live.Calls.Tied`).  The equations have just one solution
(`Live.Calls.tied_iff`), and with it every operation comes to the report that the machine gives
(`Live.Calls.Tied.report_execute`).
-/

set_option autoImplicit false

namespace Dexplore

structure Live where
  machine : Machine
  /-- What happened, latest first. -/
  events : List Event

namespace Live

abbrev Run := EStateM Fault Live

abbrev Step := EStateM Fault (Frame × Live)

abbrev Explore := EStateM Fault (Graph × Live)

structure Calls where
  start : TypeDescriptor → Live.Run Unit
  execute : String → Frame → Live.Run (Option Graph)

def note (live : Live) (event : Event) : Live := { live with events := event :: live.events }

def withStatics (live : Live) (statics : Statics) : Live :=
  { live with machine := { live.machine with statics } }

def withDepth (live : Live) (callDepth : Nat) : Live :=
  { live with machine := { live.machine with callDepth } }

def ofExcept {α : Type} : Except Fault α → Live.Run α
  | .ok value => pure value
  | .error fault => throw fault

/-! ## Instructions -/

def invoke (calls : Live.Calls) (kind : InvokeKind) (method : MethodRef) (caller : Frame)
    (args : List Register) : Live.Run CallOutcome := do
  let isStatic : Bool := kind = .static
  let expected := method.parameters.length + if isStatic then 0 else 1
  if args.length ≠ expected then
    throw (.malformed (.argumentCount kind method.descriptor args.length expected))
  match (← get).machine.program.callee? method.descriptor with
  | none =>
    calls.start method.owner
    return { result := method.unknownResult, writes := [] }
  | some (callee, template) =>
    if callee.isStatic ≠ isStatic then
      throw (.malformed (.staticMismatch kind method.descriptor callee.isStatic))
    let frame ← ofExcept (Invocation.entryFrame callee method isStatic caller args)
    match ← calls.execute method.descriptor frame with
    | some graph => return Invocation.summarise method caller (← get).machine.statics graph
    | none => return Invocation.abandoned method caller template

def outside {α : Type} (run : Live.Run α) : Live.Step α := fun (frame, live) =>
  match run live with
  | .ok value live => .ok value (frame, live)
  | .error fault live => .error fault (frame, live)

def afterwards (live : Live) (world : World) : Live :=
  ⟨live.machine.afterwards world, world.events⟩

def onPath {α : Type} (step : Setup → Dexplore.Step α) : Live.Step α := fun (frame, live) =>
  match step live.machine.toSetup ⟨frame, ⟨live.machine.statics, live.events⟩⟩ with
  | .ok value scene => .ok value (scene.frame, live.afterwards scene.world)
  | .error fault scene => .error fault (scene.frame, live.afterwards scene.world)

/-- Executes an instruction. Only calls and uses of static fields get hold of the machine. -/
def executeInstruction (calls : Live.Calls) (method : String) (instruction : Instruction) :
    Live.Step (List Address) :=
  match instruction.op with
  | .invoke kind callee args => do
    let caller := (← get).1
    let outcome ← outside (invoke calls kind callee caller args)
    onPath fun setup => do
      Step.modifyFrame fun frame => frame.withResult outcome.result
      Step.modifyFrame fun frame =>
        outcome.writes.foldl (fun frame write => frame.writeStatic write.1 write.2) frame
      args.forM (Step.forgetArgument setup.program)
    return [instruction.next]
  | .staticGet dest field => do
    outside (calls.start field.owner)
    onPath fun _ => do Step.write dest (← Step.getStatic field)
    return [instruction.next]
  | .staticPut src field => do
    outside (calls.start field.owner)
    onPath fun _ => do Step.putStatic field (← Step.read src)
    return [instruction.next]
  | _ => onPath fun setup => instruction.execute setup Answer.nothing.calls method

/-! ## Explorations -/

def executeNode (calls : Live.Calls) (id : NodeId) (instruction : Instruction) (frame : Frame) :
    Explore (Frame × List Address) := fun (graph, live) =>
  match executeInstruction calls graph.method instruction (frame, live) with
  | .ok successors (frame, live) => .ok (frame, successors) (graph.setFrame id frame, live)
  | .error fault (frame, live) => .error fault (graph.setFrame id frame, live)

def addChild (parent : NodeId) (frame : Frame) (address : Address) : Explore NodeId :=
  fun (graph, live) =>
    match graph.addClone address parent frame with
    | .ok (id, graph) => .ok id (graph, live)
    | .error fault => .error fault (graph, live)

def visit (calls : Live.Calls) (id : NodeId) (instruction : Instruction) :
    Explore (List NodeId) := do
  modify fun (graph, live) =>
    (graph.recordVisit id.address, live.note (.visiting graph.method id instruction))
  let graph := (← get).1
  match (graph.node? id).bind (·.frame) with
  | none => throw (.malformed (.noFrame id graph.method))
  | some frame =>
    let (frame, successors) ← executeNode calls id instruction frame
    successors.mapM (addChild id frame)

/-- The limits are those of the machine when its exploration begins. -/
def exploreFrom (config : Config) (calls : Live.Calls) (pending : List NodeId)
    (allowance : Allowance) (state : Graph × Live) : EStateM.Result Fault (Graph × Live) Unit :=
  match pending with
  | [] => .ok () state
  | id :: rest =>
    match state.1.instruction? id.address with
    | none => .error (.invalidAddress state.1.method id.address) state
    | some instruction =>
      match _spent : allowance.spend? (Exploration.entranceOf config state.1 id) with
      | none =>
        .error (.revisitCeiling state.1.method id.address instruction.op.text config.maxVisits)
          state
      | some remaining =>
        match visit calls id instruction state with
        | .error fault state => .error fault state
        | .ok children state =>
          exploreFrom config calls (children.reverse ++ rest) remaining state
termination_by allowance.total
decreasing_by
  have := Allowance.total_spend? _spent
  omega

def explore (calls : Live.Calls) (graph : Graph) : Live.Run (Graph × Except Fault Unit) :=
  fun live =>
    let config := live.machine.config
    match exploreFrom config calls [.root] (.full config graph) (graph, live) with
    | .ok _ (graph, live) => .ok (graph, .ok ()) live
    | .error fault (graph, live) => .ok (graph, .error fault) live

/-! ## Executions -/

def abandon (graph : Graph) (cause : Fault) : Live.Run (Option Graph) := do
  modify fun live =>
    (live.note (.abandoning graph.method cause)).withStatics (live.machine.statics.giveUp graph)
  return none

def finish (graph : Graph) : Live.Run (Option Graph) := do
  modify fun live => live.note (.finished graph.method graph.nodeCount)
  modify fun live => live.withStatics
    (live.machine.statics.commit graph (live.machine.program.isInitializer graph.method))
  return some graph

def conclude (graph : Graph) : Except Fault Unit → Live.Run (Option Graph)
  | .ok _ => finish graph
  | .error fault => if fault.isRecoverable then abandon graph fault else throw fault

def runInitializer (calls : Live.Calls) (type : TypeDescriptor) : Live.Run Unit := do
  let machine := (← get).machine
  match machine.template? (initializerOf type) with
  | none => return
  | some _ =>
    let frame ← ofExcept (machine.rootFrame (initializerOf type))
    let _ ← calls.execute (initializerOf type) frame

def startClass (calls : Live.Calls) (type : TypeDescriptor) : Live.Run Unit := do
  match (← get).machine.statics.find? type with
  | none => return
  | some state =>
    if state.initialized then return
    modify fun live => (live.note (.initializing type)).withStatics
      (live.machine.statics.markInitialized type)
    runInitializer calls type

/-- Executes the code of a method. The call depth goes up for the exploration, and down again
before anything is made of how the exploration has ended. -/
def enter (calls : Live.Calls) (template : Graph) (frame : Frame) : Live.Run (Option Graph) := do
  modify fun live => live.withDepth (live.machine.callDepth + 1)
  modify fun live => live.note (.executing template.method live.machine.callDepth)
  let (graph, ended) ← explore calls (template.setRootFrame frame)
  modify fun live => live.withDepth (live.machine.callDepth - 1)
  conclude graph ended

def executeFrom (calls : Live.Calls) (descriptor : String) (frame : Frame) :
    Live.Run (Option Graph) := do
  match (← get).machine.template? descriptor with
  | none => throw (.methodNotFound descriptor)
  | some template =>
    calls.start (classOfDescriptor descriptor)
    let machine := (← get).machine
    if machine.config.maxDepth ≤ machine.callDepth then
      abandon template (.callDepth (machine.callDepth + 1) machine.config.maxDepth)
    else enter calls template frame

def execute (calls : Live.Calls) (descriptor : String) : Live.Run (Option Graph) := do
  let frame ← ofExcept ((← get).machine.rootFrame descriptor)
  executeFrom calls descriptor frame

/-- Calls that execute methods and start classes, and are what these call in turn. -/
structure Calls.Tied (calls : Live.Calls) : Prop where
  start : calls.start = startClass calls
  execute : calls.execute = executeFrom calls

def report {α : Type} (run : Live.Run α) (machine : Machine) : Report α :=
  match run ⟨machine, []⟩ with
  | .ok value live => ⟨.ok value, live.machine, live.events.reverse⟩
  | .error fault live => ⟨.error fault, live.machine, live.events.reverse⟩

/-! ## Carrying worlds over -/

def carry (setup : Setup) (depth : Nat) (world : World) : Live :=
  ⟨⟨setup, world.statics, depth⟩, world.events⟩

def carryScene (setup : Setup) (depth : Nat) (scene : Scene) : Frame × Live :=
  (scene.frame, carry setup depth scene.world)

def carryExploration (setup : Setup) (depth : Nat) (exploration : Exploration) : Graph × Live :=
  (exploration.graph, carry setup depth exploration.world)

/-- A property of the static state that is not lost when classes advance. -/
def Stable (fits : Statics → Prop) : Prop :=
  ∀ {before after : Statics}, before.Advances after → fits before → fits after

section

variable {α : Type} {setup : Setup} {depth : Nat} {fits : Statics → Prop}

abbrev RunMirrors (setup : Setup) (depth : Nat) (fits : Statics → Prop) (upper : Live.Run α)
    (run : Dexplore.Run α) : Prop :=
  Mirrors (carry setup depth) (fun world => fits world.statics) upper run

abbrev StepMirrors (setup : Setup) (depth : Nat) (fits : Statics → Prop) (upper : Live.Step α)
    (step : Dexplore.Step α) : Prop :=
  Mirrors (carryScene setup depth) (fun scene => fits scene.world.statics) upper step

abbrev ExploreMirrors (setup : Setup) (depth : Nat) (fits : Statics → Prop)
    (upper : Live.Explore α) (run : Dexplore.Explore α) : Prop :=
  Mirrors (carryExploration setup depth) (fun exploration => fits exploration.world.statics)
    upper run

structure Calls.Mirror (calls : Live.Calls) (setup : Setup) (depth : Nat)
    (fits : Statics → Prop) : Prop where
  start : ∀ type, RunMirrors setup depth fits (calls.start type)
    ((Execution.callsAt setup depth).start type)
  execute : ∀ descriptor frame, RunMirrors setup depth fits (calls.execute descriptor frame)
    ((Execution.callsAt setup depth).execute descriptor frame)

theorem ofExcept_mirrors (result : Except Fault α) :
    RunMirrors setup depth fits (ofExcept result) (Run.ofExcept result) := by
  cases result with
  | ok value => exact .pure value
  | error fault => exact .throw fault

theorem outside_mirrors {upper : Live.Run α} {run : Dexplore.Run α}
    (mirrors : RunMirrors setup depth fits upper run) :
    StepMirrors setup depth fits (outside upper) (Step.outside run) := by
  intro scene fitting
  obtain ⟨same, fitsAfter⟩ := mirrors scene.world fitting
  unfold outside Step.outside
  simp only [carryScene, same]
  cases ran : run scene.world with
  | ok value world =>
      rw [ran] at fitsAfter
      exact ⟨rfl, fitsAfter⟩
  | error fault world =>
      rw [ran] at fitsAfter
      exact ⟨rfl, fitsAfter⟩

theorem onPath_mirrors {step : Setup → Dexplore.Step α}
    (obeys : (step setup).Obeys Law.staticsKept) :
    StepMirrors setup depth fits (onPath step) (step setup) := by
  intro scene fitting
  have kept := obeys scene
  have unfolded : onPath step (carryScene setup depth scene) =
      match step setup scene with
      | .ok value after => .ok value (carryScene setup depth after)
      | .error fault after => .error fault (carryScene setup depth after) := rfl
  rw [unfolded]
  cases ran : step setup scene with
  | ok value after =>
      rw [ran] at kept
      exact ⟨rfl, (congrArg fits kept.2).mpr fitting⟩
  | error fault after =>
      rw [ran] at kept
      exact ⟨rfl, (congrArg fits kept.2.1).mpr fitting⟩

/-! ## Instructions and explorations -/

variable {calls : Live.Calls}

theorem invoke_mirrors (mirror : calls.Mirror setup depth fits) (kind : InvokeKind)
    (method : MethodRef) (caller : Frame) (args : List Register) :
    RunMirrors setup depth fits (invoke calls kind method caller args)
      (setup.program.invoke (Execution.callsAt setup depth) kind method caller args) := by
  unfold invoke Program.invoke
  by_cases count : args.length = method.parameters.length +
      (if (decide (kind = .static) : Bool) then 0 else 1)
  · simp only [count, ne_eq, not_true_eq_false, if_false]
    refine .lookAbove fun world _ => ?_
    simp only [carry]
    cases setup.program.callee? method.descriptor with
    | none => exact .bind (mirror.start method.owner) fun _ => .pure _
    | some pair =>
        obtain ⟨callee, template⟩ := pair
        by_cases agrees : callee.isStatic = decide (kind = .static)
        · simp only [agrees, not_true_eq_false, if_false]
          refine .bind (ofExcept_mirrors _) fun frame =>
            .bind (mirror.execute method.descriptor frame) fun result => ?_
          cases result with
          | none => exact .pure _
          | some graph => exact .look fun world _ => .pure _
        · simp only [agrees, not_false_eq_true, if_true]
          exact .throw _
  · simp only [count, ne_eq, not_false_eq_true, if_true]
    exact .throw _

theorem executeInstruction_mirrors (mirror : calls.Mirror setup depth fits) (method : String)
    (instruction : Instruction) :
    StepMirrors setup depth fits (executeInstruction calls method instruction)
      (instruction.execute setup (Execution.callsAt setup depth) method) := by
  have mild := Law.staticsKept_fair.toMild
  have permits : ∀ field, Law.staticsKept.Permits field := Law.staticsKept_fair.access
  cases quiet : instruction.op.asks with
  | false =>
      have shown : executeInstruction calls method instruction =
          onPath fun setup => instruction.execute setup Answer.nothing.calls method := by
        unfold executeInstruction
        cases shape : instruction.op <;> rw [shape] at quiet <;> first | rfl | cases quiet
      rw [shown, instruction.execute_of_quiet setup _ method quiet]
      exact onPath_mirrors (instruction.execute_obeys_of_quiet mild setup _ method quiet)
  | true =>
      unfold executeInstruction Instruction.execute
      cases shape : instruction.op with
      | invoke kind callee args =>
          simp only [Op.perform, Step.invoke]
          rw [bind_assoc]
          refine .look fun scene _ => ?_
          rw [bind_assoc]
          refine .bind (outside_mirrors (invoke_mirrors mirror kind callee scene.frame args))
            fun outcome => .bind (onPath_mirrors ?_) fun _ => .pure _
          exact .bind mild (.modifyFrame mild fun _ => trivial) fun _ =>
            .bind mild (.modifyFrame mild fun _ => trivial) fun _ =>
              .forM mild args fun register => .forgetArgument mild setup.program register
      | staticGet dest field =>
          simp only [Op.perform]
          rw [bind_assoc]
          exact .bind (outside_mirrors (mirror.start field.owner)) fun _ =>
            .bind (onPath_mirrors (.bind mild (.getStatic mild (permits field)) fun _ =>
              .write mild dest _)) fun _ => .pure _
      | staticPut src field =>
          simp only [Op.perform]
          rw [bind_assoc]
          exact .bind (outside_mirrors (mirror.start field.owner)) fun _ =>
            .bind (onPath_mirrors (.bind mild (.read mild src) fun _ =>
              .putStatic mild (permits field) _)) fun _ => .pure _
      | _ =>
          rw [shape] at quiet
          cases quiet

theorem executeNode_mirrors (mirror : calls.Mirror setup depth fits) (id : NodeId)
    (instruction : Instruction) (frame : Frame) :
    ExploreMirrors setup depth fits (executeNode calls id instruction frame)
      (Exploration.executeNode setup (Execution.callsAt setup depth) id instruction frame) := by
  rintro ⟨graph, world⟩ fitting
  obtain ⟨same, fitsAfter⟩ := executeInstruction_mirrors mirror graph.method instruction
    ⟨frame, world⟩ fitting
  unfold executeNode Exploration.executeNode
  simp only [carryScene] at same
  simp only [carryExploration, same]
  cases ran : instruction.execute setup (Execution.callsAt setup depth) graph.method
      ⟨frame, world⟩ with
  | ok successors scene =>
      rw [ran] at fitsAfter
      exact ⟨rfl, fitsAfter⟩
  | error fault scene =>
      rw [ran] at fitsAfter
      exact ⟨rfl, fitsAfter⟩

theorem addChild_mirrors (parent : NodeId) (frame : Frame) (address : Address) :
    ExploreMirrors setup depth fits (addChild parent frame address)
      (Exploration.addChild parent frame address) := by
  rintro ⟨graph, world⟩ fitting
  unfold addChild Exploration.addChild
  simp only [carryExploration]
  cases graph.addClone address parent frame <;> exact ⟨rfl, fitting⟩

theorem visit_mirrors (mirror : calls.Mirror setup depth fits) (id : NodeId)
    (instruction : Instruction) :
    ExploreMirrors setup depth fits (visit calls id instruction)
      (Exploration.visit setup (Execution.callsAt setup depth) id instruction) := by
  refine .bind (.modify (fun _ => rfl) fun _ fitting => fitting) fun _ =>
    .look fun exploration _ => ?_
  simp only [carryExploration]
  cases (exploration.graph.node? id).bind (·.frame) with
  | none => exact .throw _
  | some frame =>
      exact .bind (executeNode_mirrors mirror id instruction frame) fun result =>
        .mapM _ (addChild_mirrors id result.1)

theorem exploreFrom_of_spent {config : Config} {state : Graph × Live} {id : NodeId}
    {rest : List NodeId} {instruction : Instruction} {allowance remaining : Allowance}
    (present : state.1.instruction? id.address = some instruction)
    (spent : allowance.spend? (Exploration.entranceOf config state.1 id) = some remaining) :
    exploreFrom config calls (id :: rest) allowance state =
      match visit calls id instruction state with
      | .error fault state => .error fault state
      | .ok children state =>
        exploreFrom config calls (children.reverse ++ rest) remaining state := by
  rw [exploreFrom, present]
  simp only
  split
  · next rejected => cases rejected.symm.trans spent
  · next other spentToo =>
      cases spent.symm.trans spentToo
      rfl

theorem exploreFrom_mirrors (mirror : calls.Mirror setup depth fits) (pending : List NodeId)
    (allowance : Allowance) :
    ExploreMirrors setup depth fits (exploreFrom setup.config calls pending allowance)
      (Exploration.exploreFrom setup (Execution.callsAt setup depth) pending allowance) := by
  intro exploration fitting
  fun_induction Exploration.exploreFrom setup (Execution.callsAt setup depth) pending allowance
    exploration with
  | case1 allowance exploration =>
      rw [exploreFrom]
      exact ⟨rfl, fitting⟩
  | case2 allowance exploration id rest missing =>
      rw [exploreFrom]
      simp only [carryExploration, missing]
      exact ⟨rfl, fitting⟩
  | case3 allowance exploration id rest instruction present rejected =>
      rw [exploreFrom]
      simp only [carryExploration, present]
      split
      · exact ⟨rfl, fitting⟩
      · next spent => cases rejected.symm.trans spent
  | case4 allowance exploration id rest instruction present remaining spent fault after failed =>
      obtain ⟨same, fitsAfter⟩ := visit_mirrors mirror id instruction exploration fitting
      rw [failed] at same fitsAfter
      rw [exploreFrom_of_spent present spent, same]
      exact ⟨rfl, fitsAfter⟩
  | case5 allowance exploration id rest instruction present remaining spent children middle
      visited induction =>
      obtain ⟨same, fitsAfter⟩ := visit_mirrors mirror id instruction exploration fitting
      rw [visited] at same fitsAfter
      rw [exploreFrom_of_spent present spent, same]
      exact induction fitsAfter

/-! ## Executions and class starts -/

theorem get_bind {β : Type} (next : Live → Live.Run β) (live : Live) :
    (get >>= next) live = next live live := rfl

theorem abandon_mirrors (stable : Stable fits) (graph : Graph) (cause : Fault) :
    RunMirrors setup depth fits (abandon graph cause) (Execution.abandon graph cause) :=
  .bind (.modify (fun _ => rfl) fun world => stable (.giveUp world.statics graph)) fun _ =>
    .pure none

theorem finish_mirrors (stable : Stable fits) (graph : Graph) :
    RunMirrors setup depth fits (finish graph) (Execution.finish setup graph) :=
  .bind (.modify (fun _ => rfl) fun _ fitting => fitting) fun _ =>
    .bind (.modify (fun _ => rfl) fun world => stable (.commit world.statics graph _)) fun _ =>
      .pure (some graph)

theorem conclude_mirrors (setup : Setup) (depth : Nat) (stable : Stable fits) (fault : Fault)
    (done : Exploration) (fitting : fits done.world.statics) :
    conclude done.graph (.error fault) (carry setup depth done.world) =
        mapState (carry setup depth) (Execution.conclude setup (.error fault done)) ∧
      fits (lastState (Execution.conclude setup (.error fault done))).statics := by
  rw [conclude, Execution.conclude]
  cases fault.isRecoverable with
  | true => exact abandon_mirrors stable done.graph fault done.world fitting
  | false => exact ⟨rfl, fitting⟩

/-- The call depth is the same after the exploration of a method as before. -/
theorem enter_mirrors (stable : Stable fits) (mirror : calls.Mirror setup (depth + 1) fits)
    (template : Graph) (frame : Frame) :
    RunMirrors setup depth fits (enter calls template frame)
      (Execution.runBody setup (Execution.callsAt setup (depth + 1)) (depth + 1) template
        frame) := by
  intro world fitting
  obtain ⟨same, fitsAfter⟩ := exploreFrom_mirrors mirror [.root]
    (.full setup.config (template.setRootFrame frame))
    ⟨template.setRootFrame frame, world.note (.executing template.method (depth + 1))⟩ fitting
  have entered : enter calls template frame (carry setup depth world) =
      (explore calls (template.setRootFrame frame) >>= fun (graph, ended) => do
        modify fun live => live.withDepth (live.machine.callDepth - 1)
        conclude graph ended)
        (carry setup (depth + 1) (world.note (.executing template.method (depth + 1)))) := rfl
  have explored : explore calls (template.setRootFrame frame)
      (carry setup (depth + 1) (world.note (.executing template.method (depth + 1)))) =
      match exploreFrom setup.config calls [.root]
          (.full setup.config (template.setRootFrame frame)) (carryExploration setup (depth + 1)
            ⟨template.setRootFrame frame, world.note (.executing template.method (depth + 1))⟩) with
      | .ok _ (graph, live) => .ok (graph, .ok ()) live
      | .error fault (graph, live) => .ok (graph, .error fault) live := rfl
  rw [entered, Execution.runBody_eq, Exploration.explore]
  simp only [bind, EStateM.bind, explored, same]
  cases ended : Exploration.exploreFrom setup (Execution.callsAt setup (depth + 1)) [.root]
      (.full setup.config (template.setRootFrame frame))
      ⟨template.setRootFrame frame, world.note (.executing template.method (depth + 1))⟩ with
  | ok value done =>
      rw [ended] at fitsAfter
      exact finish_mirrors stable done.graph done.world fitsAfter
  | error fault done =>
      rw [ended] at fitsAfter
      exact conclude_mirrors setup depth stable fault done fitsAfter

theorem executeFrom_mirrors (stable : Stable fits)
    (start : ∀ type, RunMirrors setup depth fits (calls.start type)
      ((Execution.callsAt setup depth).start type))
    (deeper : depth < setup.config.maxDepth → calls.Mirror setup (depth + 1) fits)
    (descriptor : String) (frame : Frame) :
    RunMirrors setup depth fits (executeFrom calls descriptor frame)
      ((Execution.callsAt setup depth).execute descriptor frame) := by
  refine .lookAbove fun world _ => ?_
  have looked : (carry setup depth world).machine.template? descriptor =
      setup.program.templates.find? descriptor := rfl
  have called : (Execution.callsAt setup depth).execute descriptor frame =
      Execution.executeWith setup
        (Execution.bodyAt setup (setup.config.maxDepth - depth) depth) descriptor frame := rfl
  rw [looked, called, Execution.executeWith]
  cases setup.program.templates.find? descriptor with
  | none => exact .throw _
  | some template =>
      refine .bind (start (classOfDescriptor descriptor)) fun _ => .lookAbove fun started _ => ?_
      dsimp only
      split
      · next reached =>
          have deep : setup.config.maxDepth ≤ depth := reached
          rw [Execution.bodyAt_of_deep deep]
          exact abandon_mirrors stable template _
      · next shallow =>
          have room : depth < setup.config.maxDepth := Nat.lt_of_not_le shallow
          rw [Execution.bodyAt_of_room room]
          exact enter_mirrors stable (deeper room) template frame

theorem startClass_of_settled {type : TypeDescriptor} {live : Live}
    (settled : live.machine.statics.Settled type) : startClass calls type live = .ok () live := by
  rw [startClass, get_bind]
  cases found : live.machine.statics.find? type with
  | none => rfl
  | some state =>
      simp only [settled state found]
      rfl

theorem runInitializer_eq (type : TypeDescriptor) (live : Live) :
    runInitializer calls type live =
      match live.machine.template? (initializerOf type),
        live.machine.rootFrame (initializerOf type) with
      | none, _ => .ok () live
      | some _, .error fault => .error fault live
      | some _, .ok frame =>
        match calls.execute (initializerOf type) frame live with
        | .ok _ after => .ok () after
        | .error fault after => .error fault after := by
  rw [runInitializer, get_bind]
  cases live.machine.template? (initializerOf type) with
  | none => rfl
  | some template =>
      cases live.machine.rootFrame (initializerOf type) with
      | error fault => rfl
      | ok frame =>
          simp only [ofExcept, bind, EStateM.bind, pure, EStateM.pure]
          cases calls.execute (initializerOf type) frame live <;> rfl

theorem startClass_of_fresh {type : TypeDescriptor} {world : World} {state : ClassState}
    (found : world.statics.find? type = some state) (fresh : state.initialized = false) :
    startClass calls type (carry setup depth world) =
      runInitializer calls type (carry setup depth (world.marked type)) := by
  have defined : (carry setup depth world).machine.statics.find? type = some state := found
  rw [startClass, get_bind, defined]
  simp only [fresh]
  rfl

/-- A class is started as the machine starts it, if its initializer is executed as the machine
executes it once the class is marked. -/
theorem startClass_mirrors (inner : Statics → Prop)
    (outer : ∀ {statics}, inner statics → fits statics)
    (marks : ∀ {statics : Statics} {type state}, fits statics → statics.find? type = some state →
      state.initialized = false → inner (statics.markInitialized type))
    (execute : ∀ descriptor frame, RunMirrors setup depth inner (calls.execute descriptor frame)
      ((Execution.callsAt setup depth).execute descriptor frame)) (type : TypeDescriptor) :
    RunMirrors setup depth fits (startClass calls type)
      ((Execution.callsAt setup depth).start type) := by
  intro world fitting
  have called : (Execution.callsAt setup depth).start type = Execution.startClass setup
      (Execution.bodyAt setup (setup.config.maxDepth - depth) depth) type := rfl
  rw [called]
  by_cases settled : world.statics.Settled type
  · have below := Execution.startClass_of_settled setup
      (Execution.bodyAt setup (setup.config.maxDepth - depth) depth) settled
    rw [below]
    exact ⟨startClass_of_settled settled, fitting⟩
  · obtain ⟨state, found, fresh⟩ : ∃ state, world.statics.find? type = some state ∧
        state.initialized = false := by
      simpa [Statics.Settled] using settled
    have fitsMarked : inner (world.marked type).statics := marks fitting found fresh
    have coded : (carry setup depth (world.marked type)).machine.template?
      (initializerOf type) = setup.program.templates.find? (initializerOf type) := rfl
    have framed : (carry setup depth (world.marked type)).machine.rootFrame
      (initializerOf type) = setup.program.rootFrame (initializerOf type) := rfl
    rw [Execution.startClass_of_fresh setup _ found fresh, startClass_of_fresh found fresh,
      runInitializer_eq, coded, framed]
    cases setup.program.templates.find? (initializerOf type) with
    | none => exact ⟨rfl, outer fitsMarked⟩
    | some template =>
        cases setup.program.rootFrame (initializerOf type) with
        | error fault => exact ⟨rfl, outer fitsMarked⟩
        | ok frame =>
            obtain ⟨same, fitsAfter⟩ :=
              execute (initializerOf type) frame (world.marked type) fitsMarked
            have executed : (Execution.callsAt setup depth).execute (initializerOf type) frame =
              Execution.executeWith setup
                (Execution.bodyAt setup (setup.config.maxDepth - depth) depth)
                (initializerOf type) frame := rfl
            rw [executed] at same fitsAfter
            dsimp only
            rw [same]
            cases ended : Execution.executeWith setup
                (Execution.bodyAt setup (setup.config.maxDepth - depth) depth)
                (initializerOf type) frame (world.marked type) with
            | ok graph after =>
                rw [ended] at fitsAfter
                exact ⟨rfl, outer fitsAfter⟩
            | error fault after =>
                rw [ended] at fitsAfter
                exact ⟨rfl, outer fitsAfter⟩

end

/-! ## The equations of a machine -/

/-- What the machine calls at each depth, as calls that have the machine as their state. -/
def ownCalls : Live.Calls where
  start type live := mapState (carry live.machine.toSetup live.machine.callDepth)
    ((Execution.callsAt live.machine.toSetup live.machine.callDepth).start type
      ⟨live.machine.statics, live.events⟩)
  execute descriptor frame live := mapState (carry live.machine.toSetup live.machine.callDepth)
    ((Execution.callsAt live.machine.toSetup live.machine.callDepth).execute descriptor frame
      ⟨live.machine.statics, live.events⟩)

theorem mirror_ownCalls (setup : Setup) (depth : Nat) :
    ownCalls.Mirror setup depth fun _ => True :=
  ⟨fun _ _ _ => ⟨rfl, trivial⟩, fun _ _ _ _ => ⟨rfl, trivial⟩⟩

theorem tied_ownCalls : ownCalls.Tied where
  start := by
    funext type live
    have same := startClass_mirrors (fun _ => True) (fun _ => trivial) (fun _ _ _ => trivial)
      (mirror_ownCalls live.machine.toSetup live.machine.callDepth).execute type
      ⟨live.machine.statics, live.events⟩ trivial
    exact same.1.symm
  execute := by
    funext descriptor frame live
    have mirror := mirror_ownCalls live.machine.toSetup
    have same := executeFrom_mirrors (fun _ _ => trivial) (mirror live.machine.callDepth).start
      (fun _ => mirror (live.machine.callDepth + 1)) descriptor frame
      ⟨live.machine.statics, live.events⟩ trivial
    exact same.1.symm

def Unstarted (bound : Nat) (statics : Statics) : Prop := statics.pendingCount < bound

theorem stable_unstarted (bound : Nat) : Stable (Unstarted bound) :=
  fun advances pending => Nat.lt_of_le_of_lt advances.pendingCount_le pending

/-- Tied calls do what the machine calls, at every depth. -/
theorem Calls.Tied.mirror {calls : Live.Calls} (tied : calls.Tied) (setup : Setup)
    (depth bound : Nat) : calls.Mirror setup depth (Unstarted bound) := by
  -- A method that is entered has one level fewer left; a class that is started leaves one class
  -- fewer to start at the same level.
  induction levels : setup.config.maxDepth - depth using Nat.strongRecOn
    generalizing depth bound with
  | ind levels deeper =>
  induction bound with
  | zero => exact ⟨fun _ _ none => absurd none (Nat.not_lt_zero _),
      fun _ _ _ none => absurd none (Nat.not_lt_zero _)⟩
  | succ bound fewer =>
      have start : ∀ type, RunMirrors setup depth (Unstarted (bound + 1)) (calls.start type)
          ((Execution.callsAt setup depth).start type) := by
        intro type
        rw [tied.start]
        refine startClass_mirrors (Unstarted bound) Nat.lt_succ_of_lt ?_ fewer.execute type
        intro statics type state pending found fresh
        have one := Statics.pendingCount_markInitialized found fresh
        unfold Unstarted at pending ⊢
        omega
      refine ⟨start, ?_⟩
      rw [tied.execute]
      refine executeFrom_mirrors (stable_unstarted _) start fun room => ?_
      exact deeper (setup.config.maxDepth - (depth + 1)) (by omega) (depth + 1) (bound + 1) rfl

/-- The equations have one solution. -/
theorem Calls.tied_iff (calls : Live.Calls) : calls.Tied ↔ calls = ownCalls := by
  constructor
  · intro tied
    have mirror := fun live : Live => tied.mirror live.machine.toSetup live.machine.callDepth
      (live.machine.statics.pendingCount + 1)
    have start : calls.start = ownCalls.start := by
      funext type live
      exact ((mirror live).start type ⟨live.machine.statics, live.events⟩ (Nat.lt_succ_self _)).1
    have execute : calls.execute = ownCalls.execute := by
      funext descriptor frame live
      exact ((mirror live).execute descriptor frame ⟨live.machine.statics, live.events⟩
        (Nat.lt_succ_self _)).1
    obtain ⟨_, _⟩ := calls
    cases start
    cases execute
    rfl
  · rintro rfl
    exact tied_ownCalls

/-! ## Reports -/

theorem report_mapState {α : Type} {machine : Machine} {upper : Live.Run α}
    {run : Dexplore.Run α} (same : upper ⟨machine, []⟩ =
      mapState (carry machine.toSetup machine.callDepth) (run machine.world)) :
    report upper machine = machine.perform run := by
  unfold report Machine.perform
  rw [same]
  cases run machine.world <;> rfl

variable {calls : Live.Calls}

theorem Calls.Tied.report_executeFrom (tied : calls.Tied) (machine : Machine)
    (descriptor : String) (frame : Frame) :
    report (executeFrom calls descriptor frame) machine =
      machine.executeFrom descriptor frame := by
  rw [← tied.execute, (calls.tied_iff).mp tied]
  exact report_mapState rfl

theorem Calls.Tied.report_startClass (tied : calls.Tied) (machine : Machine)
    (type : TypeDescriptor) :
    report (startClass calls type) machine = machine.startClass type := by
  rw [← tied.start, (calls.tied_iff).mp tied]
  exact report_mapState rfl

theorem Calls.Tied.report_execute (tied : calls.Tied) (machine : Machine) (descriptor : String) :
    report (Live.execute calls descriptor) machine = machine.execute descriptor := by
  have looked : Live.execute calls descriptor ⟨machine, []⟩ =
      (ofExcept (machine.rootFrame descriptor) >>= executeFrom calls descriptor)
        ⟨machine, []⟩ := rfl
  rw [report, looked, Machine.execute]
  cases machine.rootFrame descriptor with
  | error fault => rfl
  | ok frame => exact tied.report_executeFrom machine descriptor frame

end Live

end Dexplore
