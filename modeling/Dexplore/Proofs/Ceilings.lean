import Dexplore.Proofs.History
import Dexplore.Proofs.StaticWrites

/-!
# Raising the ceilings

A ceiling that is never hit might as well be higher.  If an execution gives up nothing, neither
the method nor anything that it calls or starts, then it does step by step the same with higher
ceilings on visits and call depth, and with visits counted by edge where they were counted by
address (`Machine.executeFrom_raised`).

The two executions are compared run by run: `Run.ExtendedBy` says that one run does what another
does whenever the other gives nothing up.  In an exploration the visits so far are kept as one
list, and each budget counts them in its own way.
-/

set_option autoImplicit false

namespace Dexplore

/-! ## Records without a breach -/

def Event.isBreach : Event → Bool
  | abandoning .. => true
  | _ => false

def World.Calm (world : World) : Prop := ∀ event ∈ world.events, event.isBreach = false

def Law.recording : Law where
  frames _ _ := True
  worlds before after := before.events <:+ after.events
  faults _ := True

theorem Law.recording_upheld : Law.recording.Upheld where
  frame_refl _ := trivial
  frame_trans _ _ := trivial
  write _ := trivial
  withResult _ _ := trivial
  writeStatic _ _ _ := trivial
  widenArrays _ _ _ := trivial
  widenStaticArrays _ _ := trivial
  world_refl _ := List.suffix_rfl
  world_trans first second := first.trans second
  remark _ _ _ := List.suffix_cons _ _
  access _ _ := List.suffix_cons _ _
  invalidRegister _ _ := trivial
  malformed _ := trivial
  visiting _ _ _ _ := List.suffix_cons _ _
  marked _ _ := List.suffix_cons _ _
  executing _ _ _ := List.suffix_cons _ _
  finished _ _ _ := List.suffix_cons _ _
  abandoned _ _ _ := List.suffix_cons _ _
  invalidAddress _ _ := trivial
  methodNotFound _ := trivial

theorem World.Calm.before {before after : World} (calm : after.Calm)
    (recorded : Law.recording.worlds before after) : before.Calm :=
  fun event inside => calm event (recorded.subset inside)

theorem Run.Obeys.lastWorld {α : Type} {law : Law} {run : Run α} (obeys : run.Obeys law)
    (world : World) : law.worlds world (lastState (run world)) := by
  have allowed := obeys world
  cases ran : run world with
  | ok value after =>
      rw [ran] at allowed
      exact allowed
  | error fault after =>
      rw [ran] at allowed
      exact allowed.1

theorem Step.Obeys.lastWorld {α : Type} {law : Law} {step : Step α} (obeys : step.Obeys law)
    (scene : Scene) : law.worlds scene.world (lastState (step scene)).world := by
  have allowed := obeys scene
  cases ran : step scene with
  | ok value after =>
      rw [ran] at allowed
      exact allowed.2
  | error fault after =>
      rw [ran] at allowed
      exact allowed.2.1

/-! ## Limits that are raised -/

/-- The second limits allow all that the first allow: more visits and more call levels, with
visits counted as before or, instead of by address, by edge. Arrays are tracked to the same
length. -/
structure Config.RaisedTo (low high : Config) : Prop where
  visits : low.maxVisits ≤ high.maxVisits
  depth : low.maxDepth ≤ high.maxDepth
  arrays : high.maxArrayLength = low.maxArrayLength
  budget : high.budget = low.budget ∨ (low.budget = .perAddress ∧ high.budget = .perEdge)

structure Setup.RaisedTo (low high : Setup) : Prop where
  program : high.program = low.program
  config : low.config.RaisedTo high.config

/-- A higher budget has counted a way at most as often as a lower one. -/
theorem Config.RaisedTo.count_le {low high : Config} (raised : low.RaisedTo high) (task : Task)
    (trail : List Task) :
    (trail.map (·.entrance high.budget)).count (task.entrance high.budget) ≤
      (trail.map (·.entrance low.budget)).count (task.entrance low.budget) := by
  have coarser : ∀ other : Task, other.entrance high.budget = task.entrance high.budget →
      other.entrance low.budget = task.entrance low.budget := by
    intro other same
    rcases raised.budget with isSame | ⟨isLow, isHigh⟩
    · rw [isSame] at same
      exact same
    · rw [isHigh] at same
      rw [isLow]
      exact congrArg (fun entrance => (⟨none, entrance.address⟩ : Entrance)) same
  rw [List.count_eq_countP, List.count_eq_countP, List.countP_map, List.countP_map]
  refine List.countP_mono_left fun other _ same => ?_
  simp only [Function.comp_apply, beq_iff_eq] at same ⊢
  exact coarser other same

/-! ## Runs that do the same -/

/-- The second run does what the first does, whenever the first gives nothing up. -/
def Run.ExtendedBy {α : Type} (run larger : Run α) : Prop :=
  ∀ world, (lastState (run world)).Calm → larger world = run world

structure Calls.ExtendedBy (calls larger : Calls) : Prop where
  start : ∀ type, (calls.start type).ExtendedBy (larger.start type)
  execute : ∀ descriptor frame,
    (calls.execute descriptor frame).ExtendedBy (larger.execute descriptor frame)

theorem Calls.ExtendedBy.ask {calls larger : Calls} (extended : calls.ExtendedBy larger)
    (wanted : Option Request) : (calls.ask wanted).ExtendedBy (larger.ask wanted) := by
  cases wanted with
  | none => exact fun _ _ => rfl
  | some request =>
      cases request with
      | execute descriptor frame => exact extended.execute descriptor frame
      | start type =>
          intro world calm
          rw [Calls.lastState_ask_start] at calm
          simp only [Calls.ask, bind, EStateM.bind, extended.start type world calm]

section Instructions

variable {low high : Setup} {calls larger : Calls}

theorem Op.perform_raised (raised : low.RaisedTo high) (calls : Calls) (site : Site) (op : Op) :
    op.perform high calls site = op.perform low calls site := by
  cases op with
  | invoke kind method args => simp only [Op.perform, raised.program]
  | newArray dest size type => simp only [Op.perform, raised.config.arrays]
  | giveBack src => cases src <;> rfl
  | _ => rfl

theorem Instruction.execute_raised (raised : low.RaisedTo high) (calls : Calls) (method : String)
    (instruction : Instruction) :
    instruction.execute high calls method = instruction.execute low calls method := by
  unfold Instruction.execute
  cases instruction.op <;> first | rfl | simp only [Op.perform_raised raised]

/-- An instruction does the same under raised limits if what it asks for does. -/
theorem Instruction.execute_extended (raised : low.RaisedTo high)
    (extended : calls.ExtendedBy larger) (method : String) (instruction : Instruction)
    {frame : Frame} {world : World}
    (calm : (lastState (instruction.execute low calls method ⟨frame, world⟩)).world.Calm) :
    instruction.execute high larger method ⟨frame, world⟩ =
      instruction.execute low calls method ⟨frame, world⟩ := by
  obtain ⟨rest, obeys, split⟩ := instruction.execute_eq_ask low method frame
  rw [Instruction.execute_raised raised, split larger, split calls]
  rw [split calls] at calm
  have asked : (lastState
      (calls.ask (instruction.request? low.program frame) world)).Calm := by
    simp only [bind, EStateM.bind, Step.outside] at calm
    cases ran : calls.ask (instruction.request? low.program frame) world with
    | error fault after =>
        rw [ran] at calm
        exact calm
    | ok graph after =>
        rw [ran] at calm
        have fair := Law.recording_upheld.toFair
        have recorded := (obeys fair.toMild (fun field _ => fair.access field) graph).lastWorld
          ⟨frame, after⟩
        exact World.Calm.before calm recorded
  refine Step.bind_congr ?_
  simp only [Step.outside, extended.ask _ world asked]

end Instructions

/-! ## Explorations -/

namespace Exploration

variable {low high : Setup} {calls larger : Calls} {code graph : Graph}

theorem visit_extended (raised : low.RaisedTo high) (extended : calls.ExtendedBy larger)
    (id : NodeId) (instruction : Instruction) (exploration : Exploration)
    (calm : (lastState (visit low calls id instruction exploration)).world.Calm) :
    visit high larger id instruction exploration = visit low calls id instruction exploration := by
  obtain ⟨graph, world⟩ := exploration
  cases framed : (graph.node? id).bind (·.frame) with
  | none => rw [visit_of_noFrame framed, visit_of_noFrame framed]
  | some frame =>
      obtain ⟨node, found, framed⟩ := Option.bind_eq_some_iff.mp framed
      rw [visit_eq found framed] at calm ⊢
      rw [visit_eq found framed]
      have executed : (lastState (instruction.execute low calls graph.method
          ⟨frame, visiting graph world id instruction⟩)).world.Calm := by
        cases ran : instruction.execute low calls graph.method
            ⟨frame, visiting graph world id instruction⟩ with
        | error fault scene =>
            rw [ran] at calm
            exact calm
        | ok successors scene =>
            rw [ran] at calm
            simp only at calm
            rw [world_addChildren] at calm
            exact calm
      rw [instruction.execute_extended raised extended graph.method executed]

/-- An exploration that neither gave anything up nor is itself to be given up. -/
def Calm (result : EStateM.Result Fault Exploration Unit) : Prop :=
  (lastState result).world.Calm ∧
    ∀ fault done, result = .error fault done → fault.isRecoverable = false

theorem recorded_exploreFrom (setup : Setup) (obey : calls.Obey Law.recording)
    (pending : List NodeId) (allowance : Allowance) (exploration : Exploration) :
    Law.recording.worlds exploration.world
      (lastState (exploreFrom setup calls pending allowance exploration)).world := by
  have allowed := exploreFrom_obeys setup Law.recording_upheld obey pending allowance exploration
  cases ended : exploreFrom setup calls pending allowance exploration with
  | ok value after =>
      rw [ended] at allowed
      exact allowed
  | error fault after =>
      rw [ended] at allowed
      exact allowed.1

theorem spend?_extended (raised : low.config.RaisedTo high.config) {task : Task}
    {rest trail : List Task} {allowance more remaining : Allowance}
    (tracks : Tracks low.config code (task :: rest) allowance
      (trail.map (·.entrance low.config.budget)))
    (tracksMore : Tracks high.config code (task :: rest) more
      (trail.map (·.entrance high.config.budget)))
    (spent : allowance.spend? (task.entrance low.config.budget) = some remaining) :
    ∃ left, more.spend? (task.entrance high.config.budget) = some left := by
  have below := tracks.count_lt spent
  have fewer := raised.count_le task trail
  have enough := raised.visits
  refine Option.ne_none_iff_exists'.mp fun refused => ?_
  have reached := tracksMore.spend?_eq_none_iff.mp refused
  omega

theorem exploreFrom_extended (raised : low.RaisedTo high) (extended : calls.ExtendedBy larger)
    (obey : calls.Obey Law.recording)
    (addressed : ∀ {address instruction}, code.instruction? address = some instruction →
      instruction.address = address)
    {tasks : List Task} (trail : List Task) {allowance more : Allowance} (world : World)
    (same : graph.SameCode code) (waiting : graph.Waiting tasks)
    (tracks : Tracks low.config code tasks allowance (trail.map (·.entrance low.config.budget)))
    (tracksMore : Tracks high.config code tasks more
      (trail.map (·.entrance high.config.budget)))
    (calm : Calm (exploreFrom low calls (tasks.map (·.id)) allowance ⟨graph, world⟩)) :
    exploreFrom high larger (tasks.map (·.id)) more ⟨graph, world⟩ =
      exploreFrom low calls (tasks.map (·.id)) allowance ⟨graph, world⟩ := by
  -- Both explorations have made the visits of the trail, and go on visit by visit.
  induction visits : allowance.total using Nat.strongRecOn
    generalizing tasks trail allowance more world graph with
  | ind visits induction =>
      cases tasks with
      | nil => rw [List.map_nil, exploreFrom_nil, exploreFrom_nil]
      | cons task rest =>
          have way := waiting.entranceOf low.config
          have wayMore := waiting.entranceOf high.config
          obtain ⟨instruction, here⟩ :=
            Option.isSome_iff_exists.mp (Graph.instruction?_isSome_of_node? waiting.head)
          rw [List.map_cons] at calm ⊢
          cases spent : allowance.spend? (entranceOf low.config graph task.id) with
          | none =>
              rw [exploreFrom_of_rejected here spent] at calm
              cases calm.2 _ _ rfl
          | some remaining =>
              have fewer := Allowance.total_spend? spent
              have taken := way ▸ spent
              obtain ⟨left, takenMore⟩ := spend?_extended raised.config tracks tracksMore taken
              rw [exploreFrom_of_spent here spent] at calm
              rw [exploreFrom_of_spent here (wayMore.symm ▸ takenMore),
                exploreFrom_of_spent here spent]
              cases visited : visit low calls task.id instruction ⟨graph, world⟩ with
              | error fault after =>
                  rw [visited] at calm
                  rw [visit_extended raised extended _ _ _ (visited ▸ calm.1), visited]
              | ok children after =>
                  rw [visited] at calm
                  have before := calm.1.before
                    (recorded_exploreFrom low obey (children.reverse ++ rest.map (·.id)) remaining
                      after)
                  rw [visit_extended raised extended _ _ _ (visited ▸ before), visited]
                  obtain ⟨tasks, ids, sameAfter, waitingAfter, tracked⟩ :=
                    tracks_of_visit addressed same waiting here visited
                  have onward := induction remaining.total (by omega) (task :: trail)
                    after.world sameAfter waitingAfter (tracked tracks taken)
                    (tracked tracksMore takenMore)
                  rw [ids] at onward
                  exact onward calm rfl

end Exploration

/-! ## Executions -/

/-- The second way to execute code does what the first does with the code of a program, whenever
the first gives nothing up. -/
def Body.ExtendedBy (program : Program) (body larger : Body) : Prop :=
  ∀ descriptor template, program.templates.find? descriptor = some template →
    ∀ frame, Run.ExtendedBy (body template frame) (larger template frame)

namespace Execution

variable {low high : Setup} {body larger : Body}

theorem executeWith_extended (raised : low.RaisedTo high)
    (extended : body.ExtendedBy low.program larger) (obeys : body.Obeys Law.recording)
    {descriptor : String} (frame : Frame) {world : World}
    (started : (lastState (startClass low body (classOfDescriptor descriptor) world)).Calm →
      startClass high larger (classOfDescriptor descriptor) world =
        startClass low body (classOfDescriptor descriptor) world)
    (calm : (lastState (executeWith low body descriptor frame world)).Calm) :
    executeWith high larger descriptor frame world =
      executeWith low body descriptor frame world := by
  unfold executeWith at calm ⊢
  rw [raised.program]
  cases code : low.program.templates.find? descriptor with
  | none => rfl
  | some template =>
      rw [code] at calm
      simp only [bind, EStateM.bind] at calm ⊢
      cases ended : startClass low body (classOfDescriptor descriptor) world with
      | error fault after =>
          rw [ended] at calm started
          rw [started calm]
      | ok value after =>
          rw [ended] at calm started
          rw [started (calm.before ((obeys template frame).lastWorld after))]
          exact extended descriptor template code frame after calm

theorem startClass_extended (raised : low.RaisedTo high)
    (extended : body.ExtendedBy low.program larger) (obeys : body.Obeys Law.recording)
    (type : TypeDescriptor) :
    Run.ExtendedBy (startClass low body type) (startClass high larger type) := by
  intro world calm
  -- An initializer may lead to further starts, but each of them leaves one class fewer.
  induction pending : world.statics.pendingCount using Nat.strongRecOn
    generalizing type world with
  | ind pending induction =>
      by_cases settled : world.statics.Settled type
      · rw [startClass_of_settled low body settled, startClass_of_settled high larger settled]
      · obtain ⟨state, found, fresh⟩ : ∃ state, world.statics.find? type = some state ∧
            state.initialized = false := by
          simpa [Statics.Settled] using settled
        have fewer : (world.marked type).statics.pendingCount + 1 = world.statics.pendingCount :=
          Statics.pendingCount_markInitialized found fresh
        have started := fun calm => induction (world.marked type).statics.pendingCount (by omega)
          (classOfDescriptor (initializerOf type)) (world.marked type) calm rfl
        rw [lastState_startClass found fresh] at calm
        rw [startClass_of_fresh low body found fresh, startClass_of_fresh high larger found fresh,
          raised.program]
        cases code : low.program.templates.find? (initializerOf type) with
        | none => rfl
        | some template =>
            cases framed : low.program.rootFrame (initializerOf type) with
            | error fault => rfl
            | ok frame =>
                rw [code, framed] at calm
                simp only
                rw [executeWith_extended raised extended obeys frame started calm]

theorem callsOf_extended (raised : low.RaisedTo high)
    (extended : body.ExtendedBy low.program larger) (obeys : body.Obeys Law.recording) :
    (callsOf low body).ExtendedBy (callsOf high larger) where
  start := startClass_extended raised extended obeys
  execute _ frame world :=
    executeWith_extended raised extended obeys frame
      (startClass_extended raised extended obeys _ world)

theorem recorded_conclude (setup : Setup)
    (result : EStateM.Result Fault Exploration Unit) :
    (lastState result).world.events <:+ (lastState (conclude setup result)).events := by
  cases result with
  | ok value done => exact List.suffix_cons _ _
  | error fault done =>
      rw [conclude]
      split
      · exact List.suffix_cons _ _
      · exact List.suffix_rfl

theorem not_calm_abandon (graph : Graph) (cause : Fault) (world : World) :
    ¬ (lastState (abandon graph cause world)).Calm := by
  intro calm
  cases calm (.abandoning graph.method cause) List.mem_cons_self

/-- A method that gave nothing up was not given up either. -/
theorem calm_of_conclude {setup : Setup} {result : EStateM.Result Fault Exploration Unit}
    (calm : (lastState (conclude setup result)).Calm) : Exploration.Calm result := by
  cases result with
  | ok value done =>
      exact ⟨calm.before (recorded_conclude setup (.ok value done)),
        fun _ _ failed => by cases failed⟩
  | error fault done =>
      rw [conclude] at calm
      by_cases recoverable : fault.isRecoverable = true
      · rw [if_pos recoverable] at calm
        exact absurd calm (not_calm_abandon _ _ _)
      · rw [if_neg recoverable] at calm
        refine ⟨calm, fun other after failed => ?_⟩
        cases failed
        exact Bool.eq_false_iff.mpr recoverable

theorem conclude_raised (raised : low.RaisedTo high)
    (result : EStateM.Result Fault Exploration Unit) :
    conclude high result = conclude low result := by
  cases result with
  | ok value done => simp only [conclude, finish, raised.program]
  | error fault done => rfl

theorem runBody_extended {calls more : Calls} (raised : low.RaisedTo high)
    (extended : calls.ExtendedBy more) (obey : calls.Obey Law.recording) (depth : Nat)
    (consistent : low.program.Consistent) :
    (runBody low calls depth).ExtendedBy low.program (runBody high more depth) := by
  intro descriptor template code frame world calm
  obtain ⟨method, -, built⟩ := consistent.template code
  obtain ⟨addressed, tracks⟩ := tracks_entry low.config built frame
  have tracksMore := (tracks_entry high.config built frame).2
  rw [runBody_eq] at calm ⊢
  have explored := Exploration.exploreFrom_extended raised extended obey (addressed _ _) []
    (world.note (.executing template.method depth)) ⟨rfl, fun _ => rfl⟩
    (Graph.waiting_entered built frame) tracks tracksMore (calm_of_conclude calm)
  rw [runBody_eq, conclude_raised raised]
  exact congrArg (conclude low) explored

theorem bodyAt_extended (raised : low.RaisedTo high) (consistent : low.program.Consistent)
    {levels more : Nat} (deeper : levels ≤ more) (depth : Nat) :
    (bodyAt low levels depth).ExtendedBy low.program (bodyAt high more depth) := by
  induction levels generalizing more depth with
  | zero => exact fun _ _ _ _ world calm => absurd calm (not_calm_abandon _ _ world)
  | succ levels induction =>
      obtain ⟨rest, rfl⟩ : ∃ rest, more = rest + 1 := ⟨more - 1, by omega⟩
      have extended := induction (Nat.le_of_succ_le_succ deeper) (depth + 1)
      have obeys : (bodyAt low levels (depth + 1)).Obeys Law.recording :=
        bodyAt_obeys Law.recording_upheld levels (depth + 1)
      exact runBody_extended raised (callsOf_extended raised extended obeys)
        (callsOf_obey Law.recording_upheld obeys) (depth + 1) consistent

theorem callsAt_extended (raised : low.RaisedTo high) (consistent : low.program.Consistent)
    (depth : Nat) : (callsAt low depth).ExtendedBy (callsAt high depth) :=
  callsOf_extended raised
    (bodyAt_extended raised consistent (Nat.sub_le_sub_right raised.config.depth depth) depth)
    (bodyAt_obeys Law.recording_upheld _ _)

end Execution

/-! ## Machines -/

namespace Machine

/-- Higher ceilings do not change what was within the lower ones. If the execution of a method
gives up nothing, be it the method, one that is called or an initializer, then it comes to the
same graph or the same fault under raised limits, through the same events, and the classes hold
the same afterwards. -/
theorem executeFrom_raised {machine : Machine} (loaded : machine.Loaded) {config : Config}
    (raised : machine.config.RaisedTo config) (descriptor : String) (frame : Frame)
    (within : ∀ event ∈ (machine.executeFrom descriptor frame).events, event.isBreach = false) :
    let higher : Machine := { machine with config }
    (higher.executeFrom descriptor frame).outcome =
        (machine.executeFrom descriptor frame).outcome ∧
      (higher.executeFrom descriptor frame).machine.statics =
        (machine.executeFrom descriptor frame).machine.statics ∧
      (higher.executeFrom descriptor frame).events =
        (machine.executeFrom descriptor frame).events := by
  intro higher
  have raisedSetup : machine.toSetup.RaisedTo higher.toSetup := ⟨rfl, raised⟩
  have extended : machine.calls.ExtendedBy higher.calls :=
    Execution.callsAt_extended raisedSetup loaded.consistent machine.callDepth
  have calm : (lastState (machine.calls.execute descriptor frame machine.world)).Calm := by
    intro event inside
    apply within
    unfold executeFrom perform
    cases ran : machine.calls.execute descriptor frame machine.world <;>
      · rw [ran] at inside
        exact List.mem_reverse.mpr inside
  have same : higher.calls.execute descriptor frame higher.world =
      machine.calls.execute descriptor frame machine.world :=
    extended.execute descriptor frame machine.world calm
  unfold executeFrom perform
  rw [same]
  cases machine.calls.execute descriptor frame machine.world <;> exact ⟨rfl, rfl, rfl⟩

/-- Two visits of the last instruction of the tally, one by each edge, use up the lower limit. -/
theorem executeFrom_raised_tally :
    ∃ machine higher : Machine,
      load [tallyClass] { maxVisits := 2, maxDepth := 1 } = .ok machine ∧
      load [tallyClass] { maxVisits := 5, maxDepth := 9, budget := .perEdge } = .ok higher ∧
      (∀ event ∈ (machine.executeFrom tallyMethod.descriptor tallyFrame).events,
        event.isBreach = false) ∧
      (higher.executeFrom tallyMethod.descriptor tallyFrame).outcome =
        (machine.executeFrom tallyMethod.descriptor tallyFrame).outcome := by
  cases loaded : load [tallyClass] { maxVisits := 2, maxDepth := 1 } with
  | error fault => cases loaded
  | ok machine =>
      have isLoaded : machine.Loaded := ⟨machine, .load loaded trivial, rfl⟩
      have raised : machine.config.RaisedTo
          { maxVisits := 5, maxDepth := 9, budget := .perEdge } := by
        cases loaded
        exact ⟨by decide, by decide, rfl, .inr ⟨rfl, rfl⟩⟩
      have within : ∀ event ∈ (machine.executeFrom tallyMethod.descriptor tallyFrame).events,
          event.isBreach = false := by
        cases loaded
        decide +kernel
      have same := executeFrom_raised isLoaded raised tallyMethod.descriptor tallyFrame within
      refine ⟨machine, _, rfl, ?_, within, same.1⟩
      cases loaded
      rfl

end Machine

end Dexplore
