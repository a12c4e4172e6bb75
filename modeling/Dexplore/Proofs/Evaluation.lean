import Dexplore.Proofs.Progress
import Dexplore.Proofs.Requests

/-!
# Evaluation without a measure

`Evaluates` says what starting a class, executing a method and exploring a graph come to, rule
by rule and with no bound on the number of steps: a derivation is a finite run.  A class is
marked before its initializer runs, a method checks the call depth after its class is started,
and an exploration counts the visits that it has accepted.  A run also lists the methods that
were entered (`MethodRun`).  No two runs of a job differ (`Evaluates.unique`), and all of them
keep to the limits (`Evaluates.within`).
-/

set_option autoImplicit false

namespace Dexplore

/-! ## Jobs -/

/-- Something that is to be done when `depth` methods have been entered. -/
inductive Job where
  | idle
  | request (depth : Nat) (wanted : Request) (world : World)
  | explore (depth : Nat) (pending : List NodeId) (accepted : List Entrance)
      (exploration : Exploration)

inductive JobResult where
  | answer (answer : Answer)
  | explored (accepted : List Entrance) (result : EStateM.Result Fault Exploration Unit)

/-- A method that was entered: how deep, and by which ways its instructions were visited. -/
structure MethodRun where
  method : String
  depth : Nat
  accepted : List Entrance

def Job.ofRequest (depth : Nat) (world : World) : Option Request → Job
  | none => .idle
  | some wanted => .request depth wanted world

def World.marked (world : World) (type : TypeDescriptor) : World :=
  ⟨world.statics.markInitialized type, .initializing type :: world.events⟩

def Answer.startedBy : EStateM.Result Fault World (Option Graph) → Answer
  | .ok _ world => .started (.ok () world)
  | .error fault world => .started (.error fault world)

open Execution Exploration

/-- To start a class is to mark it and to execute its initializer, if it has one. -/
theorem Execution.startClass_of_fresh (setup : Setup) (body : Body) {type : TypeDescriptor}
    {world : World} {state : ClassState} (found : world.statics.find? type = some state)
    (fresh : state.initialized = false) :
    startClass setup body type world =
      match setup.program.templates.find? (initializerOf type),
        setup.program.rootFrame (initializerOf type) with
      | none, _ => .ok () (world.marked type)
      | some _, .error fault => .error fault (world.marked type)
      | some _, .ok frame =>
        match executeWith setup body (initializerOf type) frame (world.marked type) with
        | .ok _ after => .ok () after
        | .error fault after => .error fault after := by
  rw [startClass]
  split
  · next missing => cases missing.symm.trans found
  · next other found' =>
      cases found.symm.trans found'
      simp only [fresh, ↓reduceDIte]
      cases code : setup.program.templates.find? (initializerOf type) with
      | none => rfl
      | some template =>
          cases setup.program.rootFrame (initializerOf type) with
          | error fault => rfl
          | ok frame =>
              simp only [executeWith, code, bind, EStateM.bind, World.marked]
              cases startClass setup body (classOfDescriptor (initializerOf type))
                  ⟨world.statics.markInitialized type, .initializing type :: world.events⟩ with
              | error fault after => rfl
              | ok value after =>
                  simp only
                  cases body template frame after <;> rfl

/-! ## Runs of jobs -/

/-- A run of a job: what it comes to, and the methods that it enters. -/
inductive Evaluates (setup : Setup) : Job → JobResult → List MethodRun → Prop
  | idle : Evaluates setup .idle (.answer .nothing) []
  | startUndefined {depth : Nat} {type : TypeDescriptor} {world : World}
      (undefined : world.statics.find? type = none) :
      Evaluates setup (.request depth (.start type) world) (.answer (.started (.ok () world))) []
  | startAgain {depth : Nat} {type : TypeDescriptor} {world : World} {state : ClassState}
      (found : world.statics.find? type = some state) (marked : state.initialized = true) :
      Evaluates setup (.request depth (.start type) world) (.answer (.started (.ok () world))) []
  | startBare {depth : Nat} {type : TypeDescriptor} {world : World} {state : ClassState}
      (found : world.statics.find? type = some state) (fresh : state.initialized = false)
      (bare : setup.program.templates.find? (initializerOf type) = none) :
      Evaluates setup (.request depth (.start type) world)
        (.answer (.started (.ok () (world.marked type)))) []
  | startFault {depth : Nat} {type : TypeDescriptor} {world : World} {state : ClassState}
      {template : Graph} {fault : Fault}
      (found : world.statics.find? type = some state) (fresh : state.initialized = false)
      (code : setup.program.templates.find? (initializerOf type) = some template)
      (noFrame : setup.program.rootFrame (initializerOf type) = .error fault) :
      Evaluates setup (.request depth (.start type) world)
        (.answer (.started (.error fault (world.marked type)))) []
  | startRun {depth : Nat} {type : TypeDescriptor} {world : World} {state : ClassState}
      {template : Graph} {frame : Frame} {result : EStateM.Result Fault World (Option Graph)}
      {runs : List MethodRun}
      (found : world.statics.find? type = some state) (fresh : state.initialized = false)
      (code : setup.program.templates.find? (initializerOf type) = some template)
      (isFrame : setup.program.rootFrame (initializerOf type) = .ok frame)
      (executed : Evaluates setup
        (.request depth (.execute (initializerOf type) frame) (world.marked type))
        (.answer (.executed result)) runs) :
      Evaluates setup (.request depth (.start type) world) (.answer (.startedBy result)) runs
  | executeMissing {depth : Nat} {descriptor : String} {frame : Frame} {world : World}
      (missing : setup.program.templates.find? descriptor = none) :
      Evaluates setup (.request depth (.execute descriptor frame) world)
        (.answer (.executed (.error (.methodNotFound descriptor) world))) []
  | executeFault {depth : Nat} {descriptor : String} {frame : Frame} {world after : World}
      {template : Graph} {fault : Fault} {runs : List MethodRun}
      (code : setup.program.templates.find? descriptor = some template)
      (failed : Evaluates setup (.request depth (.start (classOfDescriptor descriptor)) world)
        (.answer (.started (.error fault after))) runs) :
      Evaluates setup (.request depth (.execute descriptor frame) world)
        (.answer (.executed (.error fault after))) runs
  | executeDeep {depth : Nat} {descriptor : String} {frame : Frame} {world after : World}
      {template : Graph} {runs : List MethodRun}
      (code : setup.program.templates.find? descriptor = some template)
      (started : Evaluates setup (.request depth (.start (classOfDescriptor descriptor)) world)
        (.answer (.started (.ok () after))) runs)
      (deep : setup.config.maxDepth ≤ depth) :
      Evaluates setup (.request depth (.execute descriptor frame) world)
        (.answer (.executed
          (abandon template (.callDepth (depth + 1) setup.config.maxDepth) after))) runs
  | executeRun {depth : Nat} {descriptor : String} {frame : Frame} {world after : World}
      {template : Graph} {accepted : List Entrance}
      {result : EStateM.Result Fault Exploration Unit} {runs inside : List MethodRun}
      (code : setup.program.templates.find? descriptor = some template)
      (started : Evaluates setup (.request depth (.start (classOfDescriptor descriptor)) world)
        (.answer (.started (.ok () after))) runs)
      (room : depth < setup.config.maxDepth)
      (explored : Evaluates setup
        (.explore (depth + 1) [.root] []
          ⟨template.setRootFrame frame, after.note (.executing template.method (depth + 1))⟩)
        (.explored accepted result) inside) :
      Evaluates setup (.request depth (.execute descriptor frame) world)
        (.answer (.executed (conclude setup result)))
        (runs ++ ⟨template.method, depth + 1, accepted⟩ :: inside)
  | exploreDone {depth : Nat} {accepted : List Entrance} {exploration : Exploration} :
      Evaluates setup (.explore depth [] accepted exploration)
        (.explored accepted (.ok () exploration)) []
  | exploreMissing {depth : Nat} {id : NodeId} {rest : List NodeId} {accepted : List Entrance}
      {exploration : Exploration}
      (missing : exploration.graph.instruction? id.address = none) :
      Evaluates setup (.explore depth (id :: rest) accepted exploration)
        (.explored accepted
          (.error (.invalidAddress exploration.graph.method id.address) exploration)) []
  | exploreRefused {depth : Nat} {id : NodeId} {rest : List NodeId} {accepted : List Entrance}
      {exploration : Exploration} {instruction : Instruction}
      (present : exploration.graph.instruction? id.address = some instruction)
      (refused : setup.config.maxVisits ≤
        accepted.count (entranceOf setup.config exploration.graph id)) :
      Evaluates setup (.explore depth (id :: rest) accepted exploration)
        (.explored accepted
          (.error (.revisitCeiling exploration.graph.method id.address instruction.op.text
            setup.config.maxVisits) exploration)) []
  | exploreFault {depth : Nat} {id : NodeId} {rest : List NodeId} {accepted : List Entrance}
      {exploration after : Exploration} {instruction : Instruction} {answer : Answer}
      {fault : Fault} {runs : List MethodRun}
      (present : exploration.graph.instruction? id.address = some instruction)
      (taken : accepted.count (entranceOf setup.config exploration.graph id) <
        setup.config.maxVisits)
      (asked : Evaluates setup
        (.ofRequest depth (visiting exploration.graph exploration.world id instruction)
          (exploration.request? setup id instruction)) (.answer answer) runs)
      (failed : visit setup answer.calls id instruction exploration = .error fault after) :
      Evaluates setup (.explore depth (id :: rest) accepted exploration)
        (.explored (entranceOf setup.config exploration.graph id :: accepted)
          (.error fault after)) runs
  | exploreVisit {depth : Nat} {id : NodeId} {rest children : List NodeId}
      {accepted total : List Entrance} {exploration after : Exploration}
      {instruction : Instruction} {answer : Answer}
      {result : EStateM.Result Fault Exploration Unit} {runs later : List MethodRun}
      (present : exploration.graph.instruction? id.address = some instruction)
      (taken : accepted.count (entranceOf setup.config exploration.graph id) <
        setup.config.maxVisits)
      (asked : Evaluates setup
        (.ofRequest depth (visiting exploration.graph exploration.world id instruction)
          (exploration.request? setup id instruction)) (.answer answer) runs)
      (visited : visit setup answer.calls id instruction exploration = .ok children after)
      (others : Evaluates setup
        (.explore depth (children.reverse ++ rest)
          (entranceOf setup.config exploration.graph id :: accepted) after)
        (.explored total result) later) :
      Evaluates setup (.explore depth (id :: rest) accepted exploration)
        (.explored total result) (runs ++ later)

/-! ## Limits -/

def Job.accepted : Job → List Entrance
  | .explore _ _ accepted _ => accepted
  | _ => []

def JobResult.accepted : JobResult → List Entrance
  | .explored accepted _ => accepted
  | _ => []

def WithinVisits (config : Config) (accepted : List Entrance) : Prop :=
  ∀ entrance, accepted.count entrance ≤ config.maxVisits

def MethodRun.Within (config : Config) (run : MethodRun) : Prop :=
  run.depth ≤ config.maxDepth ∧ WithinVisits config run.accepted

namespace WithinVisits

variable {config : Config} {accepted : List Entrance} {entrance : Entrance}

theorem nil (config : Config) : WithinVisits config [] := by
  intro entrance
  simp

theorem cons (within : WithinVisits config accepted)
    (taken : accepted.count entrance < config.maxVisits) :
    WithinVisits config (entrance :: accepted) := by
  intro wanted
  rw [List.count_cons]
  split
  · rename_i same
    rw [beq_iff_eq] at same
    subst same
    exact taken
  · exact within wanted

theorem ofRequest (config : Config) (depth : Nat) (world : World) (wanted : Option Request) :
    WithinVisits config (Job.ofRequest depth world wanted).accepted := by
  cases wanted <;> exact nil config

end WithinVisits

namespace Evaluates

variable {setup : Setup} {job : Job} {result other : JobResult} {runs otherRuns : List MethodRun}

theorem unique (evaluates : Evaluates setup job result runs)
    (again : Evaluates setup job other otherRuns) : result = other ∧ runs = otherRuns := by
  induction evaluates generalizing other otherRuns with
  -- The side conditions of the rules for one job exclude each other.
  | idle | startUndefined | startAgain | startBare | startFault | executeMissing | exploreDone
  | exploreMissing | exploreRefused => cases again <;> grind
  | startRun found fresh code isFrame executed sameExecution =>
      cases again with
      | startRun _ _ _ isFrame' executed' =>
          cases isFrame.symm.trans isFrame'
          obtain ⟨sameResult, sameRuns⟩ := sameExecution executed'
          cases sameResult
          exact ⟨rfl, sameRuns⟩
      | _ => grind
  | executeFault code failed sameStart =>
      cases again with
      | executeMissing missing => grind
      | executeFault _ failed' =>
          obtain ⟨sameResult, sameRuns⟩ := sameStart failed'
          cases sameResult
          exact ⟨rfl, sameRuns⟩
      | executeDeep _ started' _ | executeRun _ started' _ _ => cases (sameStart started').1
  | executeDeep code started deep sameStart =>
      cases again with
      | executeMissing missing => grind
      | executeFault _ failed' => cases (sameStart failed').1
      | executeDeep code' started' _ =>
          cases code.symm.trans code'
          obtain ⟨sameResult, sameRuns⟩ := sameStart started'
          cases sameResult
          exact ⟨rfl, sameRuns⟩
      | executeRun _ _ room _ => omega
  | executeRun code started room explored sameStart sameExploration =>
      cases again with
      | executeMissing missing => grind
      | executeFault _ failed' => cases (sameStart failed').1
      | executeDeep _ _ deep => omega
      | executeRun code' started' _ explored' =>
          cases code.symm.trans code'
          obtain ⟨sameWorld, sameRuns⟩ := sameStart started'
          cases sameWorld
          obtain ⟨sameResult, sameInside⟩ := sameExploration explored'
          cases sameResult
          exact ⟨rfl, by rw [sameRuns, sameInside]⟩
  | exploreFault present taken asked failed sameAnswer =>
      cases again with
      | exploreMissing missing => grind
      | exploreRefused _ refused => omega
      | exploreFault present' _ asked' failed' =>
          cases present.symm.trans present'
          obtain ⟨isAnswer, sameRuns⟩ := sameAnswer asked'
          cases isAnswer
          cases failed.symm.trans failed'
          exact ⟨rfl, sameRuns⟩
      | exploreVisit present' _ asked' visited' _ =>
          cases present.symm.trans present'
          cases (sameAnswer asked').1
          cases failed.symm.trans visited'
  | exploreVisit present taken asked visited others sameAnswer sameRest =>
      cases again with
      | exploreMissing missing => grind
      | exploreRefused _ refused => omega
      | exploreFault present' _ asked' failed' =>
          cases present.symm.trans present'
          cases (sameAnswer asked').1
          cases visited.symm.trans failed'
      | exploreVisit present' _ asked' visited' others' =>
          cases present.symm.trans present'
          obtain ⟨isAnswer, sameRuns⟩ := sameAnswer asked'
          cases isAnswer
          cases visited.symm.trans visited'
          obtain ⟨sameResult, sameLater⟩ := sameRest others'
          exact ⟨sameResult, by rw [sameRuns, sameLater]⟩

theorem within (evaluates : Evaluates setup job result runs)
    (before : WithinVisits setup.config job.accepted) :
    WithinVisits setup.config result.accepted ∧ ∀ run ∈ runs, run.Within setup.config := by
  induction evaluates with
  | idle | startUndefined | startAgain | startBare | startFault | executeMissing =>
      exact ⟨WithinVisits.nil _, by simp⟩
  | exploreDone | exploreMissing | exploreRefused => exact ⟨before, by simp⟩
  | startRun _ _ _ _ _ executed => exact ⟨WithinVisits.nil _, (executed (WithinVisits.nil _)).2⟩
  | executeFault _ _ started | executeDeep _ _ _ started =>
      exact ⟨WithinVisits.nil _, (started (WithinVisits.nil _)).2⟩
  | executeRun code _ room _ started explored =>
      obtain ⟨visits, inside⟩ := explored (WithinVisits.nil _)
      refine ⟨WithinVisits.nil _, ?_⟩
      intro run isRun
      rcases List.mem_append.mp isRun with isEarlier | isLater
      · exact (started (WithinVisits.nil _)).2 run isEarlier
      · rcases List.mem_cons.mp isLater with rfl | isInside
        · exact ⟨room, visits⟩
        · exact inside run isInside
  | exploreFault _ taken _ _ asked =>
      exact ⟨before.cons taken, (asked (WithinVisits.ofRequest _ _ _ _)).2⟩
  | exploreVisit _ taken _ _ _ asked others =>
      obtain ⟨visits, later⟩ := others (before.cons taken)
      refine ⟨visits, ?_⟩
      intro run isRun
      rcases List.mem_append.mp isRun with isEarlier | isLater
      · exact (asked (WithinVisits.ofRequest _ _ _ _)).2 run isEarlier
      · exact later run isLater

end Evaluates

end Dexplore
