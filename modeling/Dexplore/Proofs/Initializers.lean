import Dexplore.Proofs.Ceilings
import Dexplore.Proofs.Record
import Dexplore.Proofs.Widening

/-!
# Initializers

An initializer is executed from a frame of its own, in the middle of an instruction of the path
that needs its class.  The two know of each other only through the classes: the path keeps its
own static writes, and the initializer begins without any (`Machine.initializers_run_apart`).
Executing an initializer by its descriptor first starts its class, so that the code runs once for
the start and once more for the execution (`Machine.execute_initializer`).
-/

set_option autoImplicit false

namespace Dexplore

open Execution Exploration

/-! ## Needing a class -/

/-- The class that has to be started before a request is met. -/
def Request.type : Request → TypeDescriptor
  | start type => type
  | execute descriptor _ => classOfDescriptor descriptor

section

variable {setup : Setup} {depth : Nat} {frame entry : Frame} {world after : World}

/-- An instruction does what it would do had the class that it needs been started before. -/
theorem Execution.execute_of_needed {instruction : Instruction} {wanted : Request}
    (asked : instruction.request? setup.program frame = some wanted)
    (start : (callsAt setup depth).start wanted.type world = .ok () after)
    (settled : after.statics.Settled wanted.type) (method : String) :
    instruction.execute setup (callsAt setup depth) method ⟨frame, world⟩ =
      instruction.execute setup (callsAt setup depth) method ⟨frame, after⟩ := by
  cases wanted with
  | start type => exact execute_of_start asked start settled method
  | execute descriptor entry =>
      obtain ⟨kind, reference, args, -, called⟩ := Instruction.call_of_request? asked
      obtain ⟨definition, template, callee, -⟩ := Program.callee_of_callRequest? called
      have same := executeMethod_of_start start settled (Program.callee?_eq_some callee).2 entry
      obtain ⟨rest, -, split⟩ := instruction.execute_eq_ask setup method frame
      rw [split, split, asked]
      simp only [bind, EStateM.bind, Step.outside, Calls.ask, same]

theorem Program.statics_bindParameters {values : List Value} {index : Nat} {before bound : Frame}
    (isBound : bindParameters before index values = .ok bound) :
    bound.statics = before.statics := by
  induction values generalizing index before with
  | nil =>
      cases isBound
      rfl
  | cons value rest induction =>
      obtain ⟨middle, first, later⟩ := Except.bind_eq_ok_iff.mp isBound
      rw [induction later]
      unfold Frame.bindParameter at first
      split at first
      · exact Frame.statics_write first
      · cases first

theorem Program.statics_rootFrame {program : Program} {descriptor : String}
    (isFrame : program.rootFrame descriptor = .ok frame) : frame.statics = .empty := by
  unfold Program.rootFrame at isFrame
  split at isFrame
  · cases isFrame
  · next method found =>
      simp only at isFrame
      split at isFrame
      · exact statics_bindParameters isFrame
      · obtain ⟨bound, received, isFrame⟩ := Except.bind_eq_ok_iff.mp isFrame
        rw [statics_bindParameters isFrame]
        unfold Frame.bindReceiver at received
        split at received
        · cases received
        · exact Frame.statics_write received

/-! ## Reading static fields -/

/-- The visit of a node reads a static field: `written` is what the path has written to the field
before, if it has, and `value` is what it reads. -/
def Exploration.Reads (setup : Setup) (depth : Nat) (exploration : Exploration) (id : NodeId)
    (field : FieldRef) (written : Option Value) (value : Value) : Prop :=
  ∃ instruction dest node before children done, ∃ later : Node, ∃ after : Frame,
    exploration.graph.instruction? id.address = some instruction ∧
    instruction.op = .staticGet dest field ∧
    exploration.graph.node? id = some node ∧ node.frame = some before ∧
    before.static? field = written ∧
    visit setup (callsAt setup depth) id instruction exploration = .ok children done ∧
    done.graph.node? id = some later ∧ later.frame = some after ∧ after.read dest = .ok value

/-- A path reads its own write, or else what the class holds once it is started. -/
theorem Exploration.value_of_reads {exploration : Exploration} {id : NodeId} {field : FieldRef}
    {written : Option Value} {value : Value}
    (reads : exploration.Reads setup depth id field written value) :
    ∃ instruction middle, exploration.graph.instruction? id.address = some instruction ∧
      (callsAt setup depth).start field.owner
        (visiting exploration.graph exploration.world id instruction) = .ok () middle ∧
      value = written.getD (middle.statics.stored field) := by
  obtain ⟨instruction, dest, node, before, children, done, later, after, present, shape, found,
    framed, rfl, visited, foundLater, framedLater, read⟩ := reads
  obtain ⟨graph, world⟩ := exploration
  obtain ⟨scene, executed, -, branched⟩ := branched_of_visit found framed visited
  have isScene : after = scene.frame := by
    rw [branched.executed node found] at foundLater
    cases foundLater
    cases framedLater
    rfl
  subst isScene
  unfold Instruction.execute at executed
  simp only [shape, Op.perform] at executed
  obtain ⟨_, performed, reading, goesOn⟩ := Step.bind_eq_ok.mp executed
  have ended : EStateM.Result.ok [instruction.next] performed =
    .ok (children.map (·.address)) scene := goesOn
  injection ended with _ isScene
  subst isScene
  obtain ⟨_, _, starting, writing⟩ := Step.bind_eq_ok.mp reading
  obtain ⟨middle, start, rfl⟩ := Step.outside_eq_ok.mp starting
  obtain ⟨_, _, getting, writing⟩ := Step.bind_eq_ok.mp writing
  cases getting
  obtain ⟨last, wrote, rfl⟩ := Step.write_eq_ok.mp writing
  refine ⟨instruction, middle, present, start, ?_⟩
  rw [Frame.read_write wrote dest, if_pos rfl] at read
  cases read
  rfl

end

/-! ## What an initializer leaves behind -/

/-- A class holds what all paths of an initializer carry, or is not defined. -/
theorem Statics.stored_of_carried {graph : Graph} {field : FieldRef} {value : Value}
    (statics : Statics) (written : field ∈ graph.writtenStatics)
    (sole : ∀ other ∈ graph.writtenStatics, other.owner = field.owner → other.name = field.name →
      other = field)
    (carried : ∀ last ∈ graph.frames graph.connectedTerminating,
      last.static? field = some value) :
    (statics.commit graph true).stored field = value ∨
      (statics.commit graph true).stored field = .unknown field.type := by
  cases found : statics.find? field.owner with
  | none =>
      have undefined := (Statics.Advances.commit statics graph true).undefined found
      refine .inr ?_
      rw [stored, undefined]
      rfl
  | some state =>
      have held := held?_commit_of_strong statics (Option.isSome_of_eq_some found) written sole
      rw [Graph.staticConsensus_of_carried written carried, held?] at held
      refine .inl ?_
      rw [stored, held]
      rfl

theorem Execution.method_of_execute {setup : Setup} (consistent : setup.program.Consistent)
    {depth : Nat} {descriptor : String} {frame : Frame} {world after : World} {graph : Graph}
    (executed : (callsAt setup depth).execute descriptor frame world = .ok (some graph) after) :
    graph.method = descriptor := by
  obtain ⟨template, started, done, code, -, -, explored, rfl, -⟩ := explored_of_execute executed
  obtain ⟨method, -, built⟩ := consistent.template code
  have same := sameCode_explore setup (callsAt setup (depth + 1)) built frame
    (entering template depth started)
  rw [explored] at same
  exact same.method.trans (consistent.method_of_template code)

/-! ## What is recorded stays recorded -/

theorem Execution.executing_mem {setup : Setup} {depth : Nat} {descriptor : String}
    {template : Graph} {world started : World}
    (code : setup.program.templates.find? descriptor = some template)
    (start : (callsAt setup depth).start (classOfDescriptor descriptor) world = .ok () started)
    (room : depth < setup.config.maxDepth) (frame : Frame) :
    .executing template.method (depth + 1) ∈
      (lastState ((callsAt setup depth).execute descriptor frame world)).events := by
  have explored := recorded_exploreFrom setup
    (callsAt_obey Law.recording_upheld setup (depth + 1)) [.root]
    (.full setup.config (template.setRootFrame frame))
    ⟨template.setRootFrame frame, entering template depth started⟩
  rw [execute_of_room code start room]
  exact (explored.trans (recorded_conclude setup _)).subset List.mem_cons_self

namespace Machine

variable {machine : Machine}

/-- A path whose instruction starts a class goes on in the classes as the initializer has left
them, and with its own static writes as they were. The initializer begins without static writes,
so until it writes a field itself it reads what the class of the field holds, whatever the path
has written. Of a field that it leaves with one known value on all its paths, the path afterwards
reads that value, or nothing known, exactly if the path had not written another known value. -/
theorem initializers_run_apart (loaded : machine.Loaded) {depth : Nat} {instruction : Instruction}
    {frame entry : Frame} {wanted : Request} {type : TypeDescriptor} {world after : World}
    {state : ClassState} {method : MethodDef} {graph : Graph}
    (asked : instruction.request? machine.program frame = some wanted)
    (needed : wanted.type = type)
    (found : world.statics.find? type = some state) (fresh : state.initialized = false)
    (isMethod : machine.method? (initializerOf type) = some method)
    (implemented : method.isImplemented = true)
    (isInitializer : method.reference.isStaticInitializer = true)
    (isEntry : machine.rootFrame (initializerOf type) = .ok entry)
    (completed : (callsAt machine.toSetup depth).execute (initializerOf type) entry
      (world.marked type) = .ok (some graph) after) :
    (callsAt machine.toSetup depth).start type world = .ok () after ∧
    (∀ name, instruction.execute machine.toSetup (callsAt machine.toSetup depth) name
        ⟨frame, world⟩ =
      instruction.execute machine.toSetup (callsAt machine.toSetup depth) name
        ⟨frame, after⟩) ∧
    (∀ field, entry.static? field = none) ∧
    (∀ level id rest allowance exploration field value,
      Juncture.Reaches machine.toSetup
        (.request depth (.execute (initializerOf type) entry) (world.marked type))
        (.explore level (id :: rest) allowance exploration) →
      exploration.Reads machine.toSetup level id field none value →
      ∃ instruction middle, exploration.graph.instruction? id.address = some instruction ∧
        (callsAt machine.toSetup level).start field.owner
          (visiting exploration.graph exploration.world id instruction) = .ok () middle ∧
        value = middle.statics.stored field) ∧
    ∀ field ∈ graph.writtenStatics,
      (∀ other ∈ graph.writtenStatics, other.owner = field.owner → other.name = field.name →
        other = field) →
      ∀ value : Value, (∀ last ∈ graph.frames graph.connectedTerminating,
        last.static? field = some value) →
      ((machine.afterwards after).staticValue frame field = value ∨
          ((machine.afterwards after).staticValue frame field).isKnown = false ↔
        ∀ written, frame.static? field = some written →
          written = value ∨ written.isKnown = false) := by
  subst needed
  obtain ⟨template, code⟩ :=
    Option.isSome_iff_exists.mp (loaded.consistent.implemented isMethod implemented)
  have start : (callsAt machine.toSetup depth).start wanted.type world = .ok () after := by
    rw [start_of_code found fresh code isEntry, completed]
  have settled := settled_of_isInitialized (isInitialized_of_execute found completed)
  refine ⟨start, execute_of_needed asked start settled, ?_, ?_, ?_⟩
  · intro field
    rw [Frame.static?, Program.statics_rootFrame isEntry, OrdMap.find?_empty]
  · intro level id rest allowance exploration field value _ reads
    exact value_of_reads reads
  · intro field written sole value carried
    have strong : machine.program.isInitializer graph.method = true := by
      rw [method_of_execute loaded.consistent completed, Program.isInitializer]
      unfold Machine.method? at isMethod
      rw [isMethod]
      exact isInitializer
    obtain ⟨before, committed⟩ := committed_of_execute completed
    rw [strong] at committed
    have left := Statics.stored_of_carried before written sole carried
    rw [← committed] at left
    rw [staticValue, afterwards, Statics.valueOn]
    cases overlaid : frame.static? field with
    | some own => simp
    | none =>
        refine ⟨fun _ written isWritten => (by cases isWritten), fun _ => ?_⟩
        rcases left with isValue | unknown
        · exact .inl isValue
        · exact .inr (by rw [Option.getD_none, unknown]; rfl)

def through? : EStateM.Result Fault World (Option Graph) → Option Graph
  | .ok result _ => result
  | .error _ _ => none

def modeField : FieldRef := ⟨⟨"LApp;"⟩, "mode", .int⟩

def seenField : FieldRef := ⟨⟨"LBoot;"⟩, "seen", .int⟩

/-- A class whose initializer notes what another class holds, and changes it. -/
def bootClass : ClassDef where
  name := ⟨"LBoot;"⟩
  flags := 0
  fields := [⟨"seen", .int, 8, none⟩]
  methods :=
    [{ reference := ⟨⟨"LBoot;"⟩, "<clinit>", [], .void⟩
       flags := 8
       registers := 1
       instructions :=
        [.ofOp 0 (.staticGet 0 modeField), .ofOp 2 (.staticPut 0 seenField),
         .ofOp 4 (.const 0 (.int 7)), .ofOp 7 (.staticPut 0 modeField), .ofOp 9 (.giveBack none)]
       tries := [] }]

/-- A class with a method that writes a static field and then starts `bootClass`. -/
def appClass : ClassDef where
  name := ⟨"LApp;"⟩
  flags := 0
  fields := [⟨"mode", .int, 8, none⟩]
  methods :=
    [{ reference := ⟨⟨"LApp;"⟩, "main", [], .int⟩
       flags := 8
       registers := 3
       instructions :=
        [.ofOp 0 (.const 0 (.int 5)), .ofOp 3 (.staticPut 0 modeField),
         .ofOp 5 (.staticGet 1 seenField), .ofOp 7 (.staticGet 2 modeField),
         .ofOp 9 (.giveBack (some 2))]
       tries := [] }]

def appFrame : Frame :=
  ⟨[.int 5, .uninitialized, .uninitialized], 0, none, .ofList [(modeField, .int 5)]⟩

theorem initializers_run_apart_boot :
    ∃ machine graph after, load [appClass, bootClass] {} = .ok machine ∧
      (callsAt machine.toSetup 1).execute "LBoot;-><clinit>()V" (.new 1 0)
        (machine.world.marked ⟨"LBoot;"⟩) = .ok (some graph) after ∧
      (callsAt machine.toSetup 1).start ⟨"LBoot;"⟩ machine.world = .ok () after ∧
      modeField ∈ graph.writtenStatics ∧
      (∀ last ∈ graph.frames graph.connectedTerminating,
        last.static? modeField = some (.int 7)) ∧
      ¬((machine.afterwards after).staticValue appFrame modeField = .int 7 ∨
        ((machine.afterwards after).staticValue appFrame modeField).isKnown = false) := by
  cases loaded : load [appClass, bootClass] {} with
  | error fault => cases loaded
  | ok machine =>
      have computed : (through? ((callsAt machine.toSetup 1).execute "LBoot;-><clinit>()V"
          (.new 1 0) (machine.world.marked ⟨"LBoot;"⟩))).map (fun graph =>
            (graph.writtenStatics, (graph.frames graph.connectedTerminating).map
              (·.static? modeField))) = some ([modeField, seenField], [some (.int 7)]) := by
        cases loaded
        decide +kernel
      cases executed : (callsAt machine.toSetup 1).execute "LBoot;-><clinit>()V" (.new 1 0)
          (machine.world.marked ⟨"LBoot;"⟩) with
      | error fault after =>
          rw [executed] at computed
          cases computed
      | ok result after =>
          rw [executed] at computed
          obtain ⟨graph, rfl, facts⟩ := Option.map_eq_some_iff.mp computed
          have written : graph.writtenStatics = [modeField, seenField] := congrArg Prod.fst facts
          have ends : (graph.frames graph.connectedTerminating).map (·.static? modeField) =
            [some (.int 7)] := congrArg Prod.snd facts
          have mode : modeField ∈ graph.writtenStatics := by
            rw [written]
            exact List.mem_cons_self
          have sole : ∀ other ∈ graph.writtenStatics, other.owner = modeField.owner →
              other.name = modeField.name → other = modeField := by
            rw [written]
            decide
          have carried : ∀ last ∈ graph.frames graph.connectedTerminating,
              last.static? modeField = some (.int 7) := by
            intro last inside
            have among : last.static? modeField ∈ [some (.int 7)] :=
              ends ▸ List.mem_map.mpr ⟨last, inside, rfl⟩
            exact List.mem_singleton.mp among
          have isLoaded : machine.Loaded := ⟨machine, .load loaded trivial, rfl⟩
          have asked : (Instruction.ofOp 5 (.staticGet 1 seenField)).request? machine.program
            appFrame = some (.start ⟨"LBoot;"⟩) := rfl
          cases loaded
          obtain ⟨start, -, -, -, reading⟩ :=
            initializers_run_apart isLoaded asked rfl rfl rfl rfl rfl rfl rfl executed
          refine ⟨_, graph, after, rfl, executed, start, mode, carried, ?_⟩
          rw [reading modeField mode sole (.int 7) carried]
          decide

/-- A path writes 5 to a field and starts a class. The initializer of the class reads 0 there and
leaves 7, but the path still reads 5. -/
theorem writes_not_exchanged :
    ∃ machine, load [appClass, bootClass] {} = .ok machine ∧
      (machine.startClass ⟨"LBoot;"⟩).machine.statics.held? ⟨"LApp;"⟩ "mode" = some (.int 7) ∧
      ((machine.execute "LApp;->main()I").outcome.toOption.bind id).map (fun graph =>
          (graph.frames graph.connectedReturns).map (·.registers)) =
        some [[.int 5, .int 0, .int 5]] ∧
      (machine.execute "LApp;->main()I").machine.statics.held? ⟨"LBoot;"⟩ "seen" =
        some (.int 0) := by
  cases loaded : load [appClass, bootClass] {} with
  | error fault => cases loaded
  | ok machine =>
      refine ⟨machine, rfl, ?_⟩
      cases loaded
      decide +kernel

/-! ## Executing an initializer by its descriptor -/

theorem start_of_startClass {type : TypeDescriptor} {started : Machine} {events : List Event}
    (start : machine.startClass type = ⟨.ok (), started, events⟩) :
    ∃ after, machine.calls.start type machine.world = .ok () after ∧
      started = machine.afterwards after ∧ events = after.events.reverse := by
  unfold startClass perform at start
  cases ran : machine.calls.start type machine.world with
  | error fault after =>
      rw [ran] at start
      cases start
  | ok value after =>
      rw [ran] at start
      cases start
      exact ⟨after, rfl, rfl, rfl⟩

/-- After the start of its class, an initializer is executed as in the machine that has just been
started, but for what is on the record. -/
theorem executed_again {type : TypeDescriptor} {template : Graph} {after : World}
    (code : machine.program.templates.find? (initializerOf type) = some template)
    (home : classOfDescriptor (initializerOf type) = type)
    (ran : machine.calls.start type machine.world = .ok () after)
    (settled : after.statics.Settled type) (frame : Frame) :
    machine.calls.execute (initializerOf type) frame machine.world =
      mapState (World.recalling after.events)
        ((machine.afterwards after).calls.execute (initializerOf type) frame
          (machine.afterwards after).world) := by
  rw [← home] at ran settled
  have same := executeMethod_of_start ran settled code frame
  have recalled := (callsAt_recall machine.toSetup machine.callDepth after.events).execute
    (initializerOf type) frame ⟨after.statics, []⟩
  exact same.trans recalled

theorem executing_mem_of_start {type : TypeDescriptor} {state : ClassState} {template : Graph}
    {frame : Frame} {world after : World} {setup : Setup} {depth : Nat}
    (found : world.statics.find? type = some state) (fresh : state.initialized = false)
    (code : setup.program.templates.find? (initializerOf type) = some template)
    (isFrame : setup.program.rootFrame (initializerOf type) = .ok frame)
    (home : classOfDescriptor (initializerOf type) = type)
    (ran : (callsAt setup depth).start type world = .ok () after)
    (room : depth < setup.config.maxDepth) :
    .executing template.method (depth + 1) ∈ after.events := by
  have settled : (world.marked type).statics.Settled (classOfDescriptor (initializerOf type)) := by
    rw [home]
    exact Statics.settled_markInitialized world.statics type
  have recorded := executing_mem code (start_of_settled setup depth settled) room frame
  rw [start_of_code found fresh code isFrame] at ran
  cases executed : (callsAt setup depth).execute (initializerOf type) frame (world.marked type) with
  | error fault failed =>
      rw [executed] at ran
      cases ran
  | ok graph done =>
      rw [executed] at ran recorded
      cases ran
      exact recorded

theorem events_perform {α : Type} (machine : Machine) (run : Run α) :
    (machine.perform run).events = (lastState (run machine.world)).events.reverse := by
  unfold perform
  cases run machine.world <;> rfl

theorem execute_eq {descriptor : String} {frame : Frame}
    (isFrame : machine.rootFrame descriptor = .ok frame) :
    machine.execute descriptor = machine.executeFrom descriptor frame := by
  rw [execute, isFrame]

/-- To execute an initializer by its descriptor is to start its class and to execute it then. -/
theorem execute_of_started {type : TypeDescriptor} {template : Graph} {frame : Frame}
    {after : World}
    (code : machine.program.templates.find? (initializerOf type) = some template)
    (isFrame : machine.rootFrame (initializerOf type) = .ok frame)
    (home : classOfDescriptor (initializerOf type) = type)
    (ran : machine.calls.start type machine.world = .ok () after)
    (settled : after.statics.Settled type) :
    machine.execute (initializerOf type) =
      { (machine.afterwards after).execute (initializerOf type) with
        events := after.events.reverse ++
          ((machine.afterwards after).execute (initializerOf type)).events } := by
  have isFrameToo : (machine.afterwards after).rootFrame (initializerOf type) = .ok frame :=
    isFrame
  rw [execute_eq isFrame, execute_eq isFrameToo]
  simp only [executeFrom, perform]
  rw [executed_again code home ran settled frame]
  cases (machine.afterwards after).calls.execute (initializerOf type) frame
      (machine.afterwards after).world with
  | ok graph done => simp [mapState, World.recalling, afterwards]
  | error fault done => simp [mapState, World.recalling, afterwards]

theorem executing_mem_execute {descriptor : String} {template : Graph} {frame : Frame}
    (settled : machine.statics.Settled (classOfDescriptor descriptor))
    (code : machine.program.templates.find? descriptor = some template)
    (isFrame : machine.rootFrame descriptor = .ok frame)
    (room : machine.callDepth < machine.config.maxDepth) :
    .executing template.method (machine.callDepth + 1) ∈ (machine.execute descriptor).events := by
  have started : machine.calls.start (classOfDescriptor descriptor) machine.world =
      .ok () machine.world := start_of_settled machine.toSetup machine.callDepth settled
  rw [execute_eq isFrame, executeFrom, events_perform, List.mem_reverse]
  exact executing_mem code started room frame

/-- To execute an initializer by its descriptor, when its class can be started, is to start the
class and then to execute the initializer in the classes as the start has left them. So its code
is run twice, and the classes are left as the start alone leaves them exactly if another
execution of the initializer changes nothing. -/
theorem execute_initializer (loaded : machine.Loaded) {type : TypeDescriptor}
    {state : ClassState} {method : MethodDef} {started : Machine} {events : List Event}
    (found : machine.classState? type = some state) (fresh : state.initialized = false)
    (isMethod : machine.method? (initializerOf type) = some method)
    (parsed : method.reference.Parsed) (owned : method.reference.owner = type)
    (implemented : method.isImplemented = true)
    (start : machine.startClass type = ⟨.ok (), started, events⟩) :
    machine.execute (initializerOf type) =
      { started.execute (initializerOf type) with
        events := events ++ (started.execute (initializerOf type)).events } ∧
    ((machine.execute (initializerOf type)).machine.statics = started.statics ↔
      (started.execute (initializerOf type)).machine.statics = started.statics) ∧
    (machine.callDepth < machine.config.maxDepth →
      .executing (initializerOf type) (machine.callDepth + 1) ∈ events ∧
      .executing (initializerOf type) (machine.callDepth + 1) ∈
        (started.execute (initializerOf type)).events ∧
      2 ≤ (machine.execute (initializerOf type)).events.count
        (.executing (initializerOf type) (machine.callDepth + 1))) := by
  obtain ⟨after, ran, rfl, rfl⟩ := start_of_startClass start
  obtain ⟨template, code⟩ :=
    Option.isSome_iff_exists.mp (loaded.consistent.implemented isMethod implemented)
  obtain ⟨frame, isFrame, -⟩ := Program.rootFrame_ok loaded.consistent isMethod
  have home : classOfDescriptor (initializerOf type) = type := by
    rw [← loaded.consistent.named isMethod]
    exact parsed.classOfDescriptor.trans owned
  have isTemplate : template.method = initializerOf type :=
    loaded.consistent.method_of_template code
  have settled : after.statics.Settled type := by
    have told := (callsAt_told loaded.consistent machine.callDepth).settled type machine.world
    unfold calls at ran
    rw [ran] at told
    exact told
  have same := execute_of_started code isFrame home ran settled
  refine ⟨same, by rw [same], fun room => ?_⟩
  have first : .executing (initializerOf type) (machine.callDepth + 1) ∈ after.events := by
    have isFound : machine.world.statics.find? type = some state := found
    rw [← isTemplate]
    exact executing_mem_of_start isFound fresh code isFrame home ran room
  have second : .executing (initializerOf type) (machine.callDepth + 1) ∈
      ((machine.afterwards after).execute (initializerOf type)).events := by
    have settledThere : (machine.afterwards after).statics.Settled
      (classOfDescriptor (initializerOf type)) := home.symm ▸ settled
    have recorded := executing_mem_execute settledThere code isFrame room
    rw [isTemplate] at recorded
    exact recorded
  rw [same]
  simp only
  rw [List.count_append]
  have once := List.count_pos_iff.mpr (List.mem_reverse.mpr first)
  have twice := List.count_pos_iff.mpr second
  exact ⟨List.mem_reverse.mpr first, second, by omega⟩

def counterField : FieldRef := ⟨⟨"LCounter;"⟩, "n", .int⟩

/-- A class whose initializer counts how often it is executed. -/
def counterClass : ClassDef where
  name := ⟨"LCounter;"⟩
  flags := 0
  fields := [⟨"n", .int, 8, none⟩]
  methods :=
    [{ reference := ⟨⟨"LCounter;"⟩, "<clinit>", [], .void⟩
       flags := 8
       registers := 1
       instructions :=
        [.ofOp 0 (.staticGet 0 counterField), .ofOp 2 (.binary .add .int 0 0 (.literal 1)),
         .ofOp 4 (.staticPut 0 counterField), .ofOp 6 (.giveBack none)]
       tries := [] }]

/-- An initializer that is executed by its descriptor counts to two, and to one if its class is
started. -/
theorem counter_executed_twice :
    ∃ machine, load [counterClass] {} = .ok machine ∧
      (machine.startClass ⟨"LCounter;"⟩).outcome.toOption = some () ∧
      (machine.startClass ⟨"LCounter;"⟩).machine.statics.held? ⟨"LCounter;"⟩ "n" =
        some (.int 1) ∧
      (machine.execute "LCounter;-><clinit>()V").machine.statics.held? ⟨"LCounter;"⟩ "n" =
        some (.int 2) := by
  cases loaded : load [counterClass] {} with
  | error fault => cases loaded
  | ok machine =>
      refine ⟨machine, rfl, ?_⟩
      cases loaded
      decide +kernel

theorem execute_initializer_counter :
    ∃ machine started events, load [counterClass] {} = .ok machine ∧
      machine.startClass ⟨"LCounter;"⟩ = ⟨.ok (), started, events⟩ ∧
      machine.execute "LCounter;-><clinit>()V" =
        { started.execute "LCounter;-><clinit>()V" with
          events := events ++ (started.execute "LCounter;-><clinit>()V").events } ∧
      2 ≤ (machine.execute "LCounter;-><clinit>()V").events.count
        (.executing "LCounter;-><clinit>()V" 1) := by
  cases loaded : load [counterClass] {} with
  | error fault => cases loaded
  | ok machine =>
      have succeeds : (machine.startClass ⟨"LCounter;"⟩).outcome.toOption = some () := by
        cases loaded
        decide +kernel
      cases start : machine.startClass ⟨"LCounter;"⟩ with
      | mk outcome started events =>
          rw [start] at succeeds
          cases outcome with
          | error fault => cases succeeds
          | ok value =>
              have isLoaded : machine.Loaded := ⟨machine, .load loaded trivial, rfl⟩
              have parsed : (⟨⟨"LCounter;"⟩, "<clinit>", [], .void⟩ : MethodRef).Parsed :=
                ⟨"LCounter;-><clinit>()V", by decide⟩
              have found : ∃ state, machine.classState? ⟨"LCounter;"⟩ = some state ∧
                  state.initialized = false := by
                cases loaded
                exact ⟨_, rfl, rfl⟩
              have known : ∃ method, machine.method? (initializerOf ⟨"LCounter;"⟩) = some method ∧
                  method.reference = ⟨⟨"LCounter;"⟩, "<clinit>", [], .void⟩ ∧
                  method.isImplemented = true := by
                cases loaded
                exact ⟨_, rfl, rfl, rfl⟩
              obtain ⟨state, found, fresh⟩ := found
              obtain ⟨method, known, reference, implemented⟩ := known
              obtain ⟨same, -, twice⟩ := execute_initializer isLoaded found fresh known
                (reference ▸ parsed) (by rw [reference]) implemented start
              have depth : machine.callDepth = 0 ∧ 0 < machine.config.maxDepth := by
                cases loaded
                decide
              have counted := (twice (depth.1.symm ▸ depth.2)).2.2
              rw [depth.1] at counted
              exact ⟨machine, started, events, rfl, start, same, counted⟩

end Machine

end Dexplore
