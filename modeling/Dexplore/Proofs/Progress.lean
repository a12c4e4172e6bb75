import Dexplore.Proofs.Passing
import Dexplore.Proofs.Plan
import Dexplore.Proofs.Stepping
import Dexplore.Proofs.Visit

/-!
# Well-formed programs do not go wrong

Executing code of a well-formed program never ends in a fault.  A step keeps the number of
registers and succeeds on every path that has as many (`Step.Succeeds`); an exploration ends
well or has used up its visits, and then the method is given up; and so, level by level, every
call and every class start succeeds (`Calls.Safe`).
-/

set_option autoImplicit false

namespace Dexplore

/-! ## Steps that succeed -/

def Run.Succeeds {α : Type} (run : Run α) : Prop :=
  ∀ world, ∃ value after, run world = .ok value after

namespace Step

/-- A step that succeeds on every path with some number of registers, and keeps the number. -/
def Succeeds {α : Type} (count : Nat) (step : Step α) : Prop :=
  ∀ scene : Scene, scene.frame.registerCount = count → ∃ value after,
    step scene = .ok value after ∧ after.frame.registerCount = count

namespace Succeeds

variable {α β : Type} {count : Nat}

theorem pure (value : α) : Succeeds count (Pure.pure value : Step α) :=
  fun scene sized => ⟨value, scene, rfl, sized⟩

theorem bind {step : Step α} {next : α → Step β} (first : Succeeds count step)
    (second : ∀ value, Succeeds count (next value)) : Succeeds count (step >>= next) := by
  intro scene sized
  obtain ⟨value, middle, run, sizedMiddle⟩ := first scene sized
  obtain ⟨result, after, runNext, sizedAfter⟩ := second value middle sizedMiddle
  exact ⟨result, after, bind_eq_ok.mpr ⟨value, middle, run, runNext⟩, sizedAfter⟩

theorem read {register : Register} (inside : register < count) :
    Succeeds count (Step.read register) := by
  intro scene sized
  obtain ⟨value, found⟩ := (scene.frame.read_isOk_iff register).mpr (sized ▸ inside)
  exact ⟨value, scene, read_eq_ok.mpr ⟨found, rfl⟩, sized⟩

theorem write {register : Register} (inside : register < count) (value : Value) :
    Succeeds count (Step.write register value) := by
  intro scene sized
  have written : scene.frame.write register value =
      .ok { scene.frame with registers := scene.frame.registers.set register value } := by
    rw [Frame.write, if_pos (sized ▸ inside)]
  refine ⟨(), _, write_eq_ok.mpr ⟨_, written, rfl⟩, ?_⟩
  rw [Frame.registerCount_write written, sized]

theorem modifyFrame {change : Frame → Frame}
    (kept : ∀ frame, (change frame).registerCount = frame.registerCount) :
    Succeeds count (Step.modifyFrame change) :=
  fun scene sized => ⟨(), _, rfl, (kept scene.frame).trans sized⟩

theorem note (event : Event) : Succeeds count (Step.note event) :=
  fun _ sized => ⟨(), _, rfl, sized⟩

theorem getStatic (field : FieldRef) : Succeeds count (Step.getStatic field) :=
  fun _ sized => ⟨_, _, rfl, sized⟩

theorem putStatic (field : FieldRef) (value : Value) :
    Succeeds count (Step.putStatic field value) :=
  fun _ sized => ⟨(), _, rfl, sized⟩

theorem look {next : Scene → Step α}
    (rest : ∀ scene, scene.frame.registerCount = count → Succeeds count (next scene)) :
    Succeeds count (get >>= next) :=
  fun scene sized => rest scene sized scene sized

theorem outside {run : Run α} (succeeds : run.Succeeds) : Succeeds count (Step.outside run) := by
  intro scene sized
  obtain ⟨value, world, done⟩ := succeeds scene.world
  exact ⟨value, _, outside_eq_ok.mpr ⟨world, done, rfl⟩, sized⟩

theorem forM {ι : Type} {items : List ι} {action : ι → Step Unit}
    (each : ∀ item ∈ items, Succeeds count (action item)) :
    Succeeds count (items.forM action) := by
  induction items with
  | nil => exact pure ()
  | cons head rest induction =>
      exact bind (each head List.mem_cons_self) fun _ =>
        induction fun item inside => each item (List.mem_cons_of_mem _ inside)

theorem forgetStaticArrays (type : TypeDescriptor) :
    Succeeds count (Step.forgetStaticArrays type) := by
  intro scene sized
  obtain ⟨_, forgotten⟩ := scene.world.statics.forgetArrays_statics scene.frame type
  exact ⟨(), _, rfl, (congrArg Frame.registerCount forgotten).trans sized⟩

theorem arrayPut {src array index : Register} (insideSrc : src < count)
    (insideArray : array < count) (insideIndex : index < count) :
    Succeeds count (Step.arrayPut src array index) :=
  .bind (.read insideSrc) fun _ => .bind (.read insideArray) fun target =>
    .bind (.read insideIndex) fun _ => .bind (.write insideArray _) fun _ =>
      .bind (.modifyFrame fun frame => frame.registerCount_widenArrays target.type (some array))
        fun _ => .forgetStaticArrays target.type

theorem branch (condition : Condition) (left right : Value) (next target : Address) :
    Succeeds count (Step.branch condition left right next target) := by
  unfold Step.branch
  split
  · exact pure _
  · exact pure _
  · exact bind (note _) fun _ => pure _

theorem switch (selector : Value) (next : Address) (cases : List (Int32 × Address)) :
    Succeeds count (Step.switch selector next cases) := by
  unfold Step.switch
  split
  · exact pure _
  · exact bind (note _) fun _ => pure _

theorem forgetArgument (program : Program) {register : Register} (inside : register < count) :
    Succeeds count (Step.forgetArgument program register) := by
  refine bind (read inside) fun value => ?_
  split
  · exact bind (write inside _) fun _ => forgetStaticArrays _
  · exact pure ()

end Succeeds

end Step

/-! ## Calls that succeed -/

/-- Calls that never fault: classes can be started, and methods with code executed from every
frame of their size. -/
structure Calls.Safe (program : Program) (calls : Calls) : Prop where
  start : ∀ type, (calls.start type).Succeeds
  execute : ∀ {descriptor method}, program.methods.find? descriptor = some method →
    method.isImplemented = true → ∀ {frame : Frame}, frame.registerCount = method.registers →
      (calls.execute descriptor frame).Succeeds

/-! ## Frames that are entered -/

theorem Program.rootFrame_ok {program : Program} (consistent : program.Consistent)
    {descriptor : String} {method : MethodDef}
    (found : program.methods.find? descriptor = some method) :
    ∃ frame, program.rootFrame descriptor = .ok frame ∧
      frame.registerCount = method.registers := by
  have room := consistent.roomy found
  exact ⟨_, rootFrame_eq found room,
    Frame.registerCount_passing (method.length_unknownArguments ▸ room)⟩

/-! ## Instructions of well-formed code -/

section Execute

variable {program : Program} {setup : Setup} {calls : Calls} {count : Nat}

theorem Run.Succeeds.bind {α β : Type} {run : Run α} {next : α → Run β} (first : run.Succeeds)
    (second : ∀ value, (next value).Succeeds) : (run >>= next).Succeeds := by
  intro world
  obtain ⟨value, middle, isMiddle⟩ := first world
  obtain ⟨result, after, isAfter⟩ := second value middle
  refine ⟨result, after, ?_⟩
  simp only [Bind.bind, EStateM.bind, isMiddle, isAfter]

theorem Run.Succeeds.pure {α : Type} (value : α) : (Pure.pure value : Run α).Succeeds :=
  fun world => ⟨value, world, rfl⟩

theorem Program.invoke_succeeds (consistent : program.Consistent) (safe : calls.Safe program)
    {kind : InvokeKind} {reference : MethodRef} {args : List Register}
    (accepts : program.Accepts kind reference args) {caller : Frame}
    (readable : ∀ register ∈ args, register < caller.registerCount) :
    (program.invoke calls kind reference caller args).Succeeds := by
  cases found : program.callee? reference.descriptor with
  | none =>
      have expected : args.length =
          reference.parameters.length + if decide (kind = .static) then 0 else 1 := by
        simpa using accepts.1
      simp only [invoke, expected, ne_eq, not_true_eq_false, if_false, found]
      exact .bind (safe.start _) fun _ => .pure _
  | some callee =>
      obtain ⟨callee, template⟩ := callee
      obtain ⟨foundCallee, foundTemplate⟩ := callee?_eq_some found
      have code := Graph.isImplemented_of_ofMethod
        (consistent.ofMethod_of_template foundCallee foundTemplate)
      obtain ⟨sameKind, sameCount⟩ := accepts.2 callee foundCallee code
      have room : args.length ≤ callee.registers := sameCount ▸ consistent.roomy foundCallee
      obtain ⟨values, are⟩ := Invocation.exists_values readable
      have sameLength : args.length = values.length := by
        simpa using congrArg List.length are
      rw [invoke_eq calls found are accepts.1 room sameKind]
      refine .bind (safe.execute foundCallee code ?_) fun graph => ?_
      · rw [Frame.registerCount_inheritStatics]
        exact Frame.registerCount_passing (sameLength ▸ room)
      · cases graph with
        | none => exact .pure _
        | some graph => exact fun world => ⟨_, _, rfl⟩

/-- An operation that names registers there are, and calls only what accepts the call. -/
theorem Op.perform_succeeds (consistent : setup.program.Consistent)
    (safe : calls.Safe setup.program) (site : Site) (op : Op)
    (registers : ∀ register ∈ op.registers, register < count)
    (call : ∀ kind reference args, op = .invoke kind reference args →
      setup.program.Accepts kind reference args) :
    Step.Succeeds count (op.perform setup calls site) := by
  cases op with
  | nop | branch | jump | switch => exact .pure ()
  | const dest value | newInstance dest value =>
      exact .write (registers dest List.mem_cons_self) _
  | moveResult dest => exact .look fun _ _ => .write (registers dest List.mem_cons_self) _
  | move dest src | unary _ dest src | newArray dest src _ | arrayLength dest src
  | instanceGet dest src _ =>
      simp only [Op.registers, List.forall_mem_cons] at registers
      obtain ⟨insideDest, insideSrc, -⟩ := registers
      exact .bind (.read insideSrc) fun _ => .write insideDest _
  | binary op kind dest lhs rhs =>
      cases rhs with
      | register index =>
          simp only [Op.registers, List.forall_mem_cons] at registers
          obtain ⟨insideDest, insideLeft, insideRight, -⟩ := registers
          exact .bind (.read insideLeft) fun _ => .bind (.read insideRight) fun _ =>
            .write insideDest _
      | literal value =>
          simp only [Op.registers, List.forall_mem_cons] at registers
          obtain ⟨insideDest, insideLeft, -⟩ := registers
          exact .bind (.read insideLeft) fun _ => .bind (.pure _) fun _ => .write insideDest _
  | compare _ dest lhs rhs | arrayGet dest lhs rhs =>
      simp only [Op.registers, List.forall_mem_cons] at registers
      obtain ⟨insideDest, insideLeft, insideRight, -⟩ := registers
      exact .bind (.read insideLeft) fun _ => .bind (.read insideRight) fun _ =>
        .write insideDest _
  | invoke kind reference args =>
      refine .look fun scene sized => .bind (.outside ?_) fun outcome =>
        .bind (.modifyFrame fun _ => rfl) fun _ => .bind (.modifyFrame ?_) fun _ =>
          .forM fun register inside => .forgetArgument _ (registers register inside)
      · exact Program.invoke_succeeds consistent safe (call kind reference args rfl)
          fun register inside => sized ▸ registers register inside
      · intro frame
        obtain ⟨_, written⟩ := Frame.foldl_writeStatic outcome.writes frame
        rw [written]
        rfl
  | arrayPut src array index =>
      simp only [Op.registers, List.forall_mem_cons] at registers
      obtain ⟨insideSrc, insideArray, insideIndex, -⟩ := registers
      exact .arrayPut insideSrc insideArray insideIndex
  | instancePut src object field =>
      simp only [Op.registers, List.forall_mem_cons] at registers
      obtain ⟨insideSrc, insideObject, -⟩ := registers
      exact .bind (.read insideSrc) fun _ => .bind (.read insideObject) fun _ => .pure ()
  | staticGet dest field =>
      exact .bind (.outside (safe.start _)) fun _ => .bind (.getStatic field) fun _ =>
        .write (registers dest List.mem_cons_self) _
  | staticPut src field =>
      exact .bind (.outside (safe.start _)) fun _ =>
        .bind (.read (registers src List.mem_cons_self)) fun _ => .putStatic field _
  | unhandled mnemonic clobbers =>
      exact .bind (.note _) fun _ => .forM fun register inside =>
        .write (registers register inside) _
  | giveBack src =>
      cases src with
      | none =>
          have cleared : ∀ frame : Frame,
              (frame.withResult none).registerCount = frame.registerCount := fun _ => rfl
          exact .modifyFrame cleared
      | some src =>
          exact .bind (.read (registers src List.mem_cons_self)) fun _ =>
            .modifyFrame fun _ => rfl
  | throw src => exact .bind (.read (registers src List.mem_cons_self)) fun _ => .pure ()

theorem Instruction.execute_succeeds (consistent : setup.program.Consistent)
    (safe : calls.Safe setup.program) (code : String) {method : MethodDef}
    {instruction : Instruction} (allowed : setup.program.Allows method instruction) :
    Step.Succeeds method.registers (instruction.execute setup calls code) := by
  have registers := allowed.registers
  have performs := Op.perform_succeeds consistent safe ⟨code, instruction.address⟩
    instruction.op registers allowed.call
  have goesOn : ∀ ways, Step.Succeeds method.registers
      (do instruction.op.perform setup calls ⟨code, instruction.address⟩
          return ways : Step (List Address)) :=
    fun _ => .bind performs fun _ => .pure _
  unfold Instruction.execute
  cases shape : instruction.op with
  | branch condition lhs rhs target =>
      rw [shape] at registers
      refine .bind (.read (registers lhs List.mem_cons_self)) fun _ => ?_
      cases rhs with
      | none => exact .bind (.pure _) fun _ => .branch condition _ _ _ _
      | some rhs =>
          have inside : rhs < method.registers := registers rhs (by simp [Op.registers])
          exact .bind (.read inside) fun _ => .branch condition _ _ _ _
  | switch src cases =>
      rw [shape] at registers
      exact .bind (.read (registers src List.mem_cons_self)) fun _ => .switch _ _ _
  | _ =>
      rw [shape] at goesOn
      exact goesOn _

end Execute

/-! ## Explorations -/

namespace Exploration

/-- Code whose instructions succeed on frames of one size and lead to instructions. -/
structure Executable (setup : Setup) (calls : Calls) (code : Graph) (count : Nat) : Prop where
  succeeds : ∀ {address instruction}, code.instruction? address = some instruction →
    Step.Succeeds count (instruction.execute setup calls code.method)
  closed : ∀ {address instruction}, code.instruction? address = some instruction →
    ∀ target ∈ instruction.possibleSuccessors, (code.instruction? target).isSome

def Ends : EStateM.Result Fault Exploration Unit → Prop
  | .ok _ _ => True
  | .error fault _ => fault.isRecoverable = true

variable {setup : Setup} {calls : Calls} {code graph : Graph} {count : Nat}

def Ready (code : Graph) (count : Nat) (task : Task) : Prop :=
  task.frame.registerCount = count ∧ (code.instruction? task.id.address).isSome

theorem exploreFrom_ends (executable : Executable setup calls code count)
    {allowance : Allowance} {tasks : List Task} (world : World) (same : graph.SameCode code)
    (waiting : graph.Waiting tasks) (ready : ∀ task ∈ tasks, Ready code count task) :
    Ends (exploreFrom setup calls (tasks.map (·.id)) allowance ⟨graph, world⟩) := by
  induction visits : allowance.total using Nat.strongRecOn
    generalizing tasks allowance world graph with
  | ind visits induction =>
      cases tasks with
      | nil =>
          rw [List.map_nil, exploreFrom_nil]
          trivial
      | cons task rest =>
          obtain ⟨sized, placed⟩ := ready task List.mem_cons_self
          obtain ⟨instruction, present⟩ := Option.isSome_iff_exists.mp placed
          have presentHere := (same.instruction? _).trans present
          rw [List.map_cons]
          cases spent : allowance.spend? (entranceOf setup.config graph task.id) with
          | none =>
              rw [exploreFrom_of_rejected presentHere spent]
              rfl
          | some remaining =>
              have fewer := Allowance.total_spend? spent
              obtain ⟨successors, scene, run, sizedAfter⟩ :=
                executable.succeeds present
                  ⟨task.frame, visiting graph world task.id instruction⟩ sized
              have possible := Instruction.successors_of_execute run
              have placedAll : ∀ target ∈ successors, (code.instruction? target).isSome :=
                fun target inside => executable.closed present target (possible inside)
              rw [← same.method] at run
              obtain ⟨children, grown, visited, rfl, branched⟩ :=
                visit_of_ok waiting.head rfl run
                  (fun target inside => same.instruction? target ▸ placedAll target inside)
              rw [exploreFrom_of_spent presentHere spent, visited]
              simp only
              rw [← task.map_id_children scene.frame]
              refine induction remaining.total (by omega) scene.world (branched.sameCode same)
                (waiting.visited branched) ?_ rfl
              intro other inside
              rcases List.mem_append.mp inside with isChild | isRest
              · obtain ⟨child, among, rfl⟩ := List.mem_map.mp (List.mem_reverse.mp isChild)
                exact ⟨sizedAfter, placedAll _ (List.mem_map.mpr ⟨child, among, rfl⟩)⟩
              · exact ready other (List.mem_cons_of_mem _ isRest)

end Exploration

/-! ## Executions -/

def Body.Safe (program : Program) (body : Body) : Prop :=
  ∀ {descriptor method template}, program.methods.find? descriptor = some method →
    program.templates.find? descriptor = some template →
    ∀ {frame : Frame}, frame.registerCount = method.registers → (body template frame).Succeeds

namespace Execution

variable {setup : Setup} {body : Body}

theorem startClass_succeeds (consistent : setup.program.Consistent)
    (safe : body.Safe setup.program) (type : TypeDescriptor) :
    Run.Succeeds (startClass setup body type) := by
  intro world
  fun_induction startClass setup body type world with
  | case1 | case2 | case6 | case7 => exact ⟨_, _, rfl⟩
  | case3 type world state found fresh marked descriptor template isTemplate fault noFrame =>
      obtain ⟨method, isMethod, -⟩ := consistent.template isTemplate
      obtain ⟨frame, isFrame, -⟩ := Program.rootFrame_ok consistent isMethod
      rw [isFrame] at noFrame
      cases noFrame
  | case4 type world state found fresh marked descriptor template isTemplate frame isFrame fault
      after failed started =>
      obtain ⟨value, done, succeeded⟩ := started
      rw [succeeded] at failed
      cases failed
  | case5 type world state found fresh marked descriptor template isTemplate frame isFrame value
      started isStarted fault after failed =>
      obtain ⟨method, isMethod, -⟩ := consistent.template isTemplate
      obtain ⟨frame', isFrame', sized⟩ := Program.rootFrame_ok consistent isMethod
      rw [isFrame] at isFrame'
      cases isFrame'
      obtain ⟨value, done, succeeded⟩ := safe isMethod isTemplate sized started
      rw [succeeded] at failed
      cases failed

theorem callsOf_safe (consistent : setup.program.Consistent) (safe : body.Safe setup.program) :
    (callsOf setup body).Safe setup.program where
  start := startClass_succeeds consistent safe
  execute := by
    intro descriptor method found code frame sized
    obtain ⟨template, isTemplate⟩ :=
      Option.isSome_iff_exists.mp (consistent.implemented found code)
    have started : Run.Succeeds (startClass setup body (classOfDescriptor descriptor)) :=
      startClass_succeeds consistent safe _
    have executed := Run.Succeeds.bind started fun _ => safe found isTemplate sized
    simp only [callsOf, executeWith, isTemplate]
    exact executed

theorem executable_of_allows {calls : Calls} (consistent : setup.program.Consistent)
    (wellFormed : setup.program.WellFormed) (safe : calls.Safe setup.program)
    {descriptor : String} {method : MethodDef} {template : Graph}
    (found : setup.program.methods.find? descriptor = some method)
    (built : Graph.ofMethod method = .ok template) :
    Exploration.Executable setup calls template method.registers := by
  have allowed : ∀ {address instruction}, template.instruction? address = some instruction →
      setup.program.Allows method instruction := fun present =>
    wellFormed found (Graph.isImplemented_of_ofMethod built) _
      ((Graph.instruction?_iff_mem built _ _).mp present).1
  refine ⟨fun present => Instruction.execute_succeeds consistent safe _ (allowed present), ?_⟩
  intro address instruction present target possible
  rw [Graph.instruction?_isSome_iff_mem built]
  obtain ⟨other, inside, same⟩ := (allowed present).successors target possible
  exact List.mem_map.mpr ⟨other, inside, same⟩

def conclude (setup : Setup) : EStateM.Result Fault Exploration Unit →
    EStateM.Result Fault World (Option Graph)
  | .ok _ done => finish setup done.graph done.world
  | .error fault done =>
    if fault.isRecoverable then abandon done.graph fault done.world else .error fault done.world

theorem runBody_eq (setup : Setup) (calls : Calls) (depth : Nat) (template : Graph)
    (frame : Frame) (world : World) :
    runBody setup calls depth template frame world =
      conclude setup (Exploration.explore setup calls
        ⟨template.setRootFrame frame, world.note (.executing template.method depth)⟩) := by
  have unfolded : runBody setup calls depth template frame world =
      (match Exploration.explore setup calls
          ⟨template.setRootFrame frame, world.note (.executing template.method depth)⟩ with
        | .ok _ done => (do set done.world; finish setup done.graph : Run (Option Graph))
        | .error fault done => do
          set done.world
          if fault.isRecoverable then abandon done.graph fault else throw fault)
        (world.note (.executing template.method depth)) := rfl
  rw [unfolded]
  cases Exploration.explore setup calls
      ⟨template.setRootFrame frame, world.note (.executing template.method depth)⟩ with
  | ok => rfl
  | error fault done =>
      cases recoverable : fault.isRecoverable <;> simp only [conclude, recoverable] <;> rfl

theorem runBody_safe {calls : Calls} (consistent : setup.program.Consistent)
    (wellFormed : setup.program.WellFormed) (safe : calls.Safe setup.program) (depth : Nat) :
    (runBody setup calls depth).Safe setup.program := by
  intro descriptor method template found isTemplate frame sized world
  have built := consistent.ofMethod_of_template found isTemplate
  have executable := executable_of_allows consistent wellFormed safe found built
  have ends : Exploration.Ends (Exploration.explore setup calls
      ⟨template.setRootFrame frame, world.note (.executing template.method depth)⟩) := by
    refine Exploration.exploreFrom_ends executable _ (template.sameCode_setRootFrame frame)
      (Graph.waiting_entered built frame) ?_
    intro task inside
    cases List.mem_singleton.mp inside
    exact ⟨sized, Graph.instruction?_entry built⟩
  rw [runBody_eq]
  cases explored : Exploration.explore setup calls
      ⟨template.setRootFrame frame, world.note (.executing template.method depth)⟩ with
  | ok value done => exact ⟨_, _, rfl⟩
  | error fault done =>
      have recoverable : fault.isRecoverable = true := by
        rw [explored] at ends
        exact ends
      rw [conclude, if_pos recoverable]
      exact ⟨_, _, rfl⟩

/-- However many levels are left, code can be executed. -/
theorem bodyAt_safe (consistent : setup.program.Consistent)
    (wellFormed : setup.program.WellFormed) (levels depth : Nat) :
    (bodyAt setup levels depth).Safe setup.program := by
  induction levels generalizing depth with
  | zero =>
      intro descriptor method template found isTemplate frame sized world
      exact ⟨_, _, rfl⟩
  | succ levels induction =>
      exact runBody_safe consistent wellFormed
        (callsOf_safe consistent (induction (depth + 1))) (depth + 1)

end Execution

namespace Machine

theorem perform_ok (machine : Machine) {α : Type} {run : Run α} (succeeds : run.Succeeds) :
    ∃ value, (machine.perform run).outcome = .ok value := by
  obtain ⟨value, after, done⟩ := succeeds machine.world
  exact ⟨value, by rw [perform, done]⟩

variable {machine : Machine}

theorem Reachable.calls_safe (reachable : machine.Reachable Program.WellFormed) :
    machine.calls.Safe machine.program := by
  obtain ⟨consistent, wellFormed, -⟩ := reachable.invariant
  exact Execution.callsOf_safe consistent (Execution.bodyAt_safe consistent wellFormed _ _)

/-- Well-formed programs do not go wrong, whatever was done to the machine before. -/
theorem execute_ok (reachable : machine.Reachable Program.WellFormed) {descriptor : String}
    {method : MethodDef} (found : machine.method? descriptor = some method)
    (code : method.isImplemented = true) :
    (∃ graph, (machine.execute descriptor).outcome = .ok graph) ∧
    (∀ frame : Frame, frame.registerCount = method.registers →
      ∃ graph, (machine.executeFrom descriptor frame).outcome = .ok graph) ∧
    ∀ type, (machine.startClass type).outcome = .ok () := by
  have safe := reachable.calls_safe
  have executed : ∀ frame : Frame, frame.registerCount = method.registers →
      ∃ graph, (machine.executeFrom descriptor frame).outcome = .ok graph :=
    fun frame sized => machine.perform_ok (safe.execute found code sized)
  refine ⟨?_, executed, fun type => ?_⟩
  · obtain ⟨frame, isFrame, sized⟩ := Program.rootFrame_ok reachable.invariant.1 found
    have isRoot : machine.rootFrame descriptor = .ok frame := isFrame
    rw [execute, isRoot]
    exact executed frame sized
  · obtain ⟨value, done⟩ := machine.perform_ok (safe.start type)
    exact done

def loopMethod : MethodDef where
  reference := ⟨⟨"LLoop;"⟩, "run", [], .void⟩
  flags := 8
  registers := 0
  instructions :=
    [.ofOp 0 (.invoke .static ⟨⟨"LLoop;"⟩, "run", [], .void⟩ []), .ofOp 3 (.jump 0)]
  tries := []

def loopClass : ClassDef := ⟨⟨"LLoop;"⟩, 0, [], [loopMethod]⟩

def loopProgram : Program where
  classes := OrdMap.empty.insert ⟨"LLoop;"⟩ loopClass
  methods := OrdMap.empty.insert loopMethod.descriptor loopMethod
  templates := OrdMap.empty.insert loopMethod.descriptor
    { method := loopMethod.descriptor
      piles := .ofList (loopMethod.instructions.map fun instruction =>
        (instruction.address, .ofInstruction instruction)) }

def loopMachine : Machine := ⟨⟨{}, loopProgram⟩, .ofDefinitions loopProgram.classes, 0⟩

theorem wellFormed_loopProgram : loopProgram.WellFormed := by
  have only : ∀ {descriptor method}, loopProgram.methods.find? descriptor = some method →
      method = loopMethod := by
    intro descriptor method found
    simp only [loopProgram, OrdMap.find?_insert, OrdMap.find?_empty] at found
    split at found
    · cases found
      rfl
    · cases found
  intro descriptor method found code instruction inside
  cases only found
  have places : instruction = .ofOp 0 (.invoke .static ⟨⟨"LLoop;"⟩, "run", [], .void⟩ []) ∨
      instruction = .ofOp 3 (.jump 0) := by
    simpa [loopMethod] using inside
  have closed : ∀ target ∈ [0, 3], ∃ other ∈ loopMethod.instructions, other.address = target := by
    simp [loopMethod, Instruction.ofOp]
  rcases places with rfl | rfl
  · refine ⟨by simp [Instruction.ofOp, Op.registers],
      fun target inside => closed target (List.mem_cons_of_mem _ inside), ?_⟩
    intro kind reference args isCall
    cases isCall
    refine ⟨rfl, fun callee foundCallee _ => ?_⟩
    cases only foundCallee
    exact ⟨rfl, rfl⟩
  · refine ⟨by simp [Instruction.ofOp, Op.registers], ?_, by simp [Instruction.ofOp]⟩
    intro target inside
    cases List.mem_singleton.mp inside
    exact closed 0 List.mem_cons_self

theorem execute_loopMethod :
    load [loopClass] {} = .ok loopMachine ∧ loopMachine.program.WellFormed ∧
      loopMachine.method? loopMethod.descriptor = some loopMethod ∧
      loopMethod.isImplemented = true ∧
      ∃ graph, (loopMachine.execute loopMethod.descriptor).outcome = .ok graph := by
  have loaded : load [loopClass] {} = .ok loopMachine := rfl
  have found : loopMachine.method? loopMethod.descriptor = some loopMethod := by
    simp [method?, loopMachine, loopProgram]
  exact ⟨loaded, wellFormed_loopProgram, found, rfl,
    (execute_ok (.load loaded wellFormed_loopProgram) found rfl).1⟩

end Machine

end Dexplore
