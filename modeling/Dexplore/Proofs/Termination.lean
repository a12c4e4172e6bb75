import Dexplore.Proofs.Allowance
import Dexplore.Proofs.Evaluation

/-!
# Every analysis ends

The functions that carry out an analysis recurse on what is left: call levels, classes that
have not been started, visits.  Here they are shown to compute the runs of `Evaluates`, which
know nothing of what is left.  So every job has a run, whatever the program does, and the run
keeps to the limits (`Machine.execution_terminates`).
-/

set_option autoImplicit false

namespace Dexplore

open Execution Exploration

/-! ## Counting visits down and up -/

/-- An allowance and the visits that have been accepted: every way of the code has been taken
as often as visits are missing, and the pending nodes are entered by ways of the code. -/
structure Tracks (config : Config) (code : Graph) (tasks : List Task) (allowance : Allowance)
    (accepted : List Entrance) : Prop where
  listed : ∀ task ∈ tasks, task.entrance config.budget ∈ config.budget.entrances code
  counted : ∀ entrance ∈ config.budget.entrances code,
    allowance.left entrance + accepted.count entrance = config.maxVisits

namespace Tracks

variable {config : Config} {code : Graph} {task : Task} {tasks rest : List Task}
  {allowance remaining : Allowance} {accepted : List Entrance}

theorem entry (frame : Frame) (entered : (code.instruction? 0).isSome) :
    Tracks config code [.entry frame] (.full config code) [] where
  listed := by
    intro task inside
    cases List.mem_singleton.mp inside
    exact config.budget.entrance_mem_of_root entered
  counted := by
    intro entrance inside
    rw [Allowance.left_full, if_pos inside]
    rfl

theorem spend?_eq_none_iff (tracks : Tracks config code (task :: rest) allowance accepted) :
    allowance.spend? (task.entrance config.budget) = none ↔
      config.maxVisits ≤ accepted.count (task.entrance config.budget) := by
  have counted := tracks.counted _ (tracks.listed task List.mem_cons_self)
  rw [Allowance.spend?_eq_none_iff]
  omega

theorem count_lt (tracks : Tracks config code (task :: rest) allowance accepted)
    (spent : allowance.spend? (task.entrance config.budget) = some remaining) :
    accepted.count (task.entrance config.budget) < config.maxVisits := by
  rw [← Nat.not_le, ← tracks.spend?_eq_none_iff, spent]
  simp

theorem visited (tracks : Tracks config code (task :: rest) allowance accepted)
    (spent : allowance.spend? (task.entrance config.budget) = some remaining)
    {instruction : Instruction} (present : code.instruction? task.id.address = some instruction)
    (addressed : instruction.address = task.id.address) {children : List NodeId} (frame : Frame)
    (possible : ∀ child ∈ children, child.address ∈ instruction.possibleSuccessors)
    (placed : ∀ child ∈ children, (code.instruction? child.address).isSome) :
    Tracks config code ((children.map (task.child frame)).reverse ++ rest) remaining
      (task.entrance config.budget :: accepted) where
  listed := by
    intro other inside
    rcases List.mem_append.mp inside with isChild | isRest
    · obtain ⟨child, among, rfl⟩ := List.mem_map.mp (List.mem_reverse.mp isChild)
      rw [← addressed] at present
      have listed := config.budget.entrance_mem_of_successor present (possible child among)
        (placed child among)
      rw [addressed] at listed
      exact listed
    · exact tracks.listed other (List.mem_cons_of_mem _ isRest)
  counted := by
    intro entrance inside
    have before := tracks.counted entrance inside
    rw [Allowance.left_of_spend? spent] at before
    rw [List.count_cons]
    simp only [beq_iff_eq]
    omega

end Tracks

/-! ## Explorations -/

def Answered (setup : Setup) (depth : Nat) (calls : Calls) : Prop :=
  ∀ (wanted : Option Request) (world : World), ∃ runs,
    Evaluates setup (.ofRequest depth world wanted) (.answer (calls.answer world wanted)) runs

section Explorations

variable {setup : Setup} {calls : Calls} {code graph : Graph} {depth : Nat}

/-- After a visit the nodes that wait and the visits that are left fit the code again, however
visits are counted. -/
theorem tracks_of_visit
    (addressed : ∀ {address instruction}, code.instruction? address = some instruction →
      instruction.address = address)
    {task : Task} {rest : List Task} {instruction : Instruction} {world : World}
    {children : List NodeId} {after : Exploration}
    (same : graph.SameCode code) (waiting : graph.Waiting (task :: rest))
    (here : graph.instruction? task.id.address = some instruction)
    (visited : visit setup calls task.id instruction ⟨graph, world⟩ = .ok children after) :
    ∃ tasks, tasks.map (·.id) = children.reverse ++ rest.map (·.id) ∧
      after.graph.SameCode code ∧ after.graph.Waiting tasks ∧
      ∀ {config : Config} {allowance remaining : Allowance} {accepted : List Entrance},
        Tracks config code (task :: rest) allowance accepted →
        allowance.spend? (task.entrance config.budget) = some remaining →
        Tracks config code tasks remaining (task.entrance config.budget :: accepted) := by
  have present := (same.instruction? _).symm.trans here
  obtain ⟨scene, executed, placed, branched⟩ := branched_of_visit waiting.head rfl visited
  have possible := Instruction.successors_of_execute executed
  refine ⟨_, task.map_id_children scene.frame children rest, branched.sameCode same,
    waiting.visited branched, fun tracks spent => ?_⟩
  refine tracks.visited spent present (addressed present) scene.frame ?_ ?_
  · exact fun child inside => possible (List.mem_map.mpr ⟨child, inside, rfl⟩)
  · exact fun child inside => same.instruction? _ ▸ placed child inside

theorem tracks_entry (config : Config) {method : MethodDef} {template : Graph}
    (built : Graph.ofMethod method = .ok template) (frame : Frame) :
    (∀ address instruction,
      (template.setRootFrame frame).instruction? address = some instruction →
      instruction.address = address) ∧
    Tracks config (template.setRootFrame frame) [.entry frame]
      (.full config (template.setRootFrame frame)) [] := by
  have same := template.sameCode_setRootFrame frame
  constructor
  · intro address instruction present
    rw [same.instruction?, Graph.instruction?_iff_mem built] at present
    exact present.2
  · refine .entry frame ?_
    rw [same.instruction?]
    exact Graph.instruction?_entry built

theorem evaluates_exploreFrom (answered : Answered setup depth calls)
    (addressed : ∀ {address instruction}, code.instruction? address = some instruction →
      instruction.address = address)
    {allowance : Allowance} {tasks : List Task} {accepted : List Entrance} (world : World)
    (same : graph.SameCode code) (waiting : graph.Waiting tasks)
    (tracks : Tracks setup.config code tasks allowance accepted) :
    ∃ total runs, Evaluates setup
      (.explore depth (tasks.map (·.id)) accepted ⟨graph, world⟩)
      (.explored total
        (exploreFrom setup calls (tasks.map (·.id)) allowance ⟨graph, world⟩)) runs := by
  induction visits : allowance.total using Nat.strongRecOn
    generalizing tasks allowance accepted world graph with
  | ind visits induction =>
      cases tasks with
      | nil =>
          rw [List.map_nil, exploreFrom_nil]
          exact ⟨_, _, .exploreDone⟩
      | cons task rest =>
          have way := waiting.entranceOf setup.config
          obtain ⟨instruction, here⟩ :=
            Option.isSome_iff_exists.mp (Graph.instruction?_isSome_of_node? waiting.head)
          rw [List.map_cons]
          cases spent : allowance.spend? (entranceOf setup.config graph task.id) with
          | none =>
              have refused := tracks.spend?_eq_none_iff.mp (way ▸ spent)
              rw [exploreFrom_of_rejected here spent]
              exact ⟨_, _, .exploreRefused here (way.symm ▸ refused)⟩
          | some remaining =>
              have fewer := Allowance.total_spend? spent
              have taken : accepted.count (entranceOf setup.config graph task.id) <
                  setup.config.maxVisits := way ▸ tracks.count_lt (way ▸ spent)
              obtain ⟨runs, asked⟩ := answered
                (Exploration.request? ⟨graph, world⟩ setup task.id instruction)
                (visiting graph world task.id instruction)
              have answer := visit_answer setup calls task.id instruction graph world
              rw [exploreFrom_of_spent here spent]
              cases visited : visit setup calls task.id instruction ⟨graph, world⟩ with
              | error fault after =>
                  exact ⟨_, _, .exploreFault here taken asked (answer.trans visited)⟩
              | ok children after =>
                  obtain ⟨tasks, ids, sameAfter, waitingAfter, tracked⟩ :=
                    tracks_of_visit addressed same waiting here visited
                  obtain ⟨total, later, others⟩ := induction remaining.total (by omega)
                    after.world sameAfter waitingAfter (tracked tracks (way ▸ spent)) rfl
                  rw [ids, ← way] at others
                  exact ⟨total, _,
                    .exploreVisit here taken asked (answer.trans visited) others⟩

theorem evaluates_explore (answered : Answered setup depth calls) {method : MethodDef}
    {template : Graph} (built : Graph.ofMethod method = .ok template) (frame : Frame)
    (world : World) :
    ∃ total runs, Evaluates setup
      (.explore depth [.root] [] ⟨template.setRootFrame frame, world⟩)
      (.explored total (explore setup calls ⟨template.setRootFrame frame, world⟩)) runs := by
  obtain ⟨addressed, tracks⟩ := tracks_entry setup.config built frame
  exact evaluates_exploreFrom answered (addressed _ _) world ⟨rfl, fun _ => rfl⟩
    (Graph.waiting_entered built frame) tracks

end Explorations

/-! ## Executions -/

namespace Execution

variable {setup : Setup} {depth : Nat}

theorem bodyAt_of_deep (deep : setup.config.maxDepth ≤ depth) (template : Graph)
    (frame : Frame) :
    bodyAt setup (setup.config.maxDepth - depth) depth template frame =
      abandon template (.callDepth (depth + 1) setup.config.maxDepth) := by
  rw [Nat.sub_eq_zero_of_le deep]
  rfl

theorem bodyAt_of_room (room : depth < setup.config.maxDepth) (template : Graph)
    (frame : Frame) :
    bodyAt setup (setup.config.maxDepth - depth) depth template frame =
      runBody setup (callsAt setup (depth + 1)) (depth + 1) template frame := by
  have levels : setup.config.maxDepth - depth = setup.config.maxDepth - (depth + 1) + 1 := by
    omega
  rw [levels]
  rfl

theorem execute_callsAt (depth : Nat) {descriptor : String} {template : Graph}
    (code : setup.program.templates.find? descriptor = some template) (frame : Frame)
    (world : World) :
    (callsAt setup depth).execute descriptor frame world =
      match startClass setup (bodyAt setup (setup.config.maxDepth - depth) depth)
          (classOfDescriptor descriptor) world with
      | .ok _ after => bodyAt setup (setup.config.maxDepth - depth) depth template frame after
      | .error fault after => .error fault after := by
  simp only [callsAt, callsOf, executeWith, code, bind, EStateM.bind]
  cases startClass setup (bodyAt setup (setup.config.maxDepth - depth) depth)
    (classOfDescriptor descriptor) world <;> rfl

theorem evaluates_execute (consistent : setup.program.Consistent)
    (deeper : depth < setup.config.maxDepth →
      Answered setup (depth + 1) (callsAt setup (depth + 1)))
    (descriptor : String) (frame : Frame) (world : World)
    (startable : ∃ runs, Evaluates setup
      (.request depth (.start (classOfDescriptor descriptor)) world)
      (.answer (.started
        ((callsAt setup depth).start (classOfDescriptor descriptor) world))) runs) :
    ∃ runs, Evaluates setup (.request depth (.execute descriptor frame) world)
      (.answer (.executed ((callsAt setup depth).execute descriptor frame world))) runs := by
  cases code : setup.program.templates.find? descriptor with
  | none =>
      have missing : (callsAt setup depth).execute descriptor frame world =
          .error (.methodNotFound descriptor) world := by
        simp only [callsAt, callsOf, executeWith, code]
        rfl
      rw [missing]
      exact ⟨_, .executeMissing code⟩
  | some template =>
      obtain ⟨runs, started⟩ := startable
      rw [execute_callsAt depth code]
      simp only [callsAt, callsOf] at started
      cases start : startClass setup (bodyAt setup (setup.config.maxDepth - depth) depth)
          (classOfDescriptor descriptor) world with
      | error fault after =>
          rw [start] at started
          exact ⟨_, .executeFault code started⟩
      | ok value after =>
          rw [start] at started
          by_cases room : depth < setup.config.maxDepth
          · obtain ⟨method, -, built⟩ := consistent.template code
            obtain ⟨total, inside, explored⟩ := evaluates_explore (deeper room) built frame
              (after.note (.executing template.method (depth + 1)))
            simp only [bodyAt_of_room room, runBody_eq]
            exact ⟨_, .executeRun code started room explored⟩
          · have deep := Nat.le_of_not_lt room
            simp only [bodyAt_of_deep deep]
            exact ⟨_, .executeDeep code started deep⟩

theorem evaluates_initializer (consistent : setup.program.Consistent)
    (deeper : depth < setup.config.maxDepth →
      Answered setup (depth + 1) (callsAt setup (depth + 1)))
    {type : TypeDescriptor} {world : World} {state : ClassState} {template : Graph}
    {frame : Frame} (found : world.statics.find? type = some state)
    (fresh : state.initialized = false)
    (code : setup.program.templates.find? (initializerOf type) = some template)
    (isFrame : setup.program.rootFrame (initializerOf type) = .ok frame)
    (startable : ∃ runs, Evaluates setup
      (.request depth (.start (classOfDescriptor (initializerOf type))) (world.marked type))
      (.answer (.started ((callsAt setup depth).start
        (classOfDescriptor (initializerOf type)) (world.marked type)))) runs)
    {result : EStateM.Result Fault World (Option Graph)}
    (comesTo : (callsAt setup depth).execute (initializerOf type) frame (world.marked type) =
      result) :
    ∃ runs, Evaluates setup (.request depth (.start type) world)
      (.answer (.startedBy result)) runs := by
  obtain ⟨runs, executed⟩ :=
    evaluates_execute consistent deeper (initializerOf type) frame (world.marked type) startable
  rw [comesTo] at executed
  exact ⟨runs, .startRun found fresh code isFrame executed⟩

theorem evaluates_start (consistent : setup.program.Consistent)
    (deeper : depth < setup.config.maxDepth →
      Answered setup (depth + 1) (callsAt setup (depth + 1)))
    (type : TypeDescriptor) (world : World) :
    ∃ runs, Evaluates setup (.request depth (.start type) world)
      (.answer (.started ((callsAt setup depth).start type world))) runs := by
  simp only [callsAt, callsOf]
  fun_induction startClass setup (bodyAt setup (setup.config.maxDepth - depth) depth) type world
    with
  | case1 type world undefined => exact ⟨_, .startUndefined undefined⟩
  | case2 type world state found fresh marked descriptor bare =>
      exact ⟨_, .startBare found fresh bare⟩
  | case3 type world state found fresh marked descriptor template code fault noFrame =>
      exact ⟨_, .startFault found fresh code noFrame⟩
  | case4 type world state found fresh marked descriptor template code frame isFrame fault
      after failed startable =>
      have comesTo := execute_callsAt depth code frame marked
      rw [failed] at comesTo
      exact evaluates_initializer consistent deeper found fresh code isFrame startable comesTo
  | case5 type world state found fresh marked descriptor template code frame isFrame value
      middle started fault after failed startable =>
      have comesTo := execute_callsAt depth code frame marked
      rw [started] at comesTo
      exact evaluates_initializer consistent deeper found fresh code isFrame startable
        (comesTo.trans failed)
  | case6 type world state found fresh marked descriptor template code frame isFrame value
      middle started graph after finished startable =>
      have comesTo := execute_callsAt depth code frame marked
      rw [started] at comesTo
      exact evaluates_initializer consistent deeper found fresh code isFrame startable
        (comesTo.trans finished)
  | case7 type world state found marked => exact ⟨_, .startAgain found (by simpa using marked)⟩

/-- What holds one call deeper holds at this depth. -/
theorem answered_of_deeper (consistent : setup.program.Consistent)
    (deeper : depth < setup.config.maxDepth →
      Answered setup (depth + 1) (callsAt setup (depth + 1))) :
    Answered setup depth (callsAt setup depth) := by
  intro wanted world
  cases wanted with
  | none => exact ⟨_, .idle⟩
  | some request =>
      cases request with
      | start type => exact evaluates_start consistent deeper type world
      | execute descriptor frame =>
          exact evaluates_execute consistent deeper descriptor frame world
            (evaluates_start consistent deeper _ world)

theorem answered_callsAt (consistent : setup.program.Consistent) (depth : Nat) :
    Answered setup depth (callsAt setup depth) := by
  induction levels : setup.config.maxDepth - depth generalizing depth with
  | zero => exact answered_of_deeper consistent fun room => absurd room (by omega)
  | succ levels induction =>
      exact answered_of_deeper consistent fun _ => induction (depth + 1) (by omega)

end Execution

/-! ## Machines -/

/-- A job has one run, the run ends with the result, and it keeps to the limits. -/
def Terminates (setup : Setup) (job : Job) (result : JobResult) : Prop :=
  ∃ runs,
    (∀ other otherRuns, Evaluates setup job other otherRuns ↔
      other = result ∧ otherRuns = runs) ∧
    ∀ run ∈ runs, run.Within setup.config

theorem Evaluates.terminates {setup : Setup} {job : Job} {result : JobResult}
    {runs : List MethodRun} (evaluates : Evaluates setup job result runs)
    (fresh : job.accepted = []) : Terminates setup job result := by
  refine ⟨runs, fun other otherRuns => ⟨fun again => again.unique evaluates, ?_⟩, ?_⟩
  · rintro ⟨rfl, rfl⟩
    exact evaluates
  · exact (evaluates.within (fresh ▸ WithinVisits.nil _)).2

namespace Machine

variable {machine : Machine}

/-- Whatever the classes of a machine contain, executing a method, starting a class, exploring
a method and executing an instruction come to an end, and keep to the limits until then. -/
theorem execution_terminates (reachable : machine.Reachable fun _ => True) :
    (∀ descriptor frame, Terminates machine.toSetup
      (.request machine.callDepth (.execute descriptor frame) machine.world)
      (.answer (.executed (machine.calls.execute descriptor frame machine.world)))) ∧
    (∀ type, Terminates machine.toSetup
      (.request machine.callDepth (.start type) machine.world)
      (.answer (.started (machine.calls.start type machine.world)))) ∧
    (∀ method template frame, Graph.ofMethod method = .ok template →
      machine.callDepth ≤ machine.config.maxDepth ∧
      ∃ accepted, WithinVisits machine.config accepted ∧
        Terminates machine.toSetup
          (.explore machine.callDepth [.root] [] ⟨template.setRootFrame frame, machine.world⟩)
          (.explored accepted (Exploration.explore machine.toSetup machine.calls
            ⟨template.setRootFrame frame, machine.world⟩))) ∧
    ∀ (method : String) (instruction : Instruction) (frame : Frame), ∃ answer,
      Terminates machine.toSetup
        (.ofRequest machine.callDepth machine.world
          (instruction.request? machine.program frame)) (.answer answer) ∧
      instruction.execute machine.toSetup machine.calls method ⟨frame, machine.world⟩ =
        instruction.execute machine.toSetup answer.calls method ⟨frame, machine.world⟩ := by
  obtain ⟨consistent, -, outermost⟩ := reachable.invariant
  have answered : Answered machine.toSetup machine.callDepth machine.calls :=
    answered_callsAt consistent machine.callDepth
  refine ⟨?_, ?_, ?_, ?_⟩
  · intro descriptor frame
    obtain ⟨runs, executed⟩ := answered (some (.execute descriptor frame)) machine.world
    exact executed.terminates rfl
  · intro type
    obtain ⟨runs, started⟩ := answered (some (.start type)) machine.world
    exact started.terminates rfl
  · intro method template frame built
    obtain ⟨accepted, runs, explored⟩ :=
      evaluates_explore answered built frame machine.world
    refine ⟨outermost ▸ Nat.zero_le _, accepted, ?_, explored.terminates rfl⟩
    exact (explored.within (WithinVisits.nil _)).1
  · intro method instruction frame
    obtain ⟨runs, asked⟩ :=
      answered (instruction.request? machine.program frame) machine.world
    refine ⟨_, asked.terminates ?_, ?_⟩
    · cases instruction.request? machine.program frame <;> rfl
    · exact (instruction.execute_answer machine.toSetup machine.calls method
        ⟨frame, machine.world⟩).symm

/-- A class whose initializer and whose method call the method of another class. The
initializer then stays where it is, the method begins again. -/
def ringClass (name other : String) : ClassDef where
  name := ⟨name⟩
  flags := 0
  fields := []
  methods :=
    [{ reference := ⟨⟨name⟩, "<clinit>", [], .void⟩
       flags := 8
       registers := 0
       instructions :=
        [.ofOp 0 (.invoke .static ⟨⟨other⟩, "run", [], .void⟩ []), .ofOp 3 (.jump 3)]
       tries := [] },
     { reference := ⟨⟨name⟩, "run", [], .void⟩
       flags := 8
       registers := 0
       instructions :=
        [.ofOp 0 (.invoke .static ⟨⟨other⟩, "run", [], .void⟩ []), .ofOp 3 (.jump 0)]
       tries := [] }]

theorem execution_terminates_ring :
    ∃ machine, load [ringClass "LRing;" "LKnot;", ringClass "LKnot;" "LRing;"] {} = .ok machine ∧
      (machine.template? "LRing;->run()V").isSome ∧
      ∀ frame, Terminates machine.toSetup
        (.request machine.callDepth (.execute "LRing;->run()V" frame) machine.world)
        (.answer (.executed (machine.calls.execute "LRing;->run()V" frame machine.world))) := by
  cases loaded : load [ringClass "LRing;" "LKnot;", ringClass "LKnot;" "LRing;"] {} with
  | error fault => cases loaded
  | ok machine =>
      have present : (machine.template? "LRing;->run()V").isSome := by
        cases loaded
        rfl
      refine ⟨machine, rfl, present, ?_⟩
      exact (execution_terminates (.load loaded trivial)).1 "LRing;->run()V"

end Machine

end Dexplore
