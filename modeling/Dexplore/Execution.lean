import Dexplore.Exploration

/-!
# Executing methods

Executing a method starts its class if need be, explores the method from a frame, and takes
over what it wrote.  Calls and class starts inside the method do the same one level deeper.
The number of levels that are left goes down with every method that is entered, and every
class is started at most once, so every execution ends.  A method for which no level is left,
or which exhausts its visits, is given up: what it could have written becomes unknown, and its
caller goes on.
-/

set_option autoImplicit false

namespace Dexplore

/-- Executes the code of a method whose class is started: its graph before the execution and
its entry frame are given. -/
abbrev Body := Graph → Frame → Run (Option Graph)

/-! ## Starting classes -/

namespace Execution

/-- Starts a class unless it is undefined or has been started. The class is marked first, so
that its initializer may use it, and the initializer is executed if it has code. -/
def startClass (setup : Setup) (body : Body) (type : TypeDescriptor) (world : World) :
    EStateM.Result Fault World Unit :=
  match _found : world.statics.find? type with
  | none => .ok () world
  | some state =>
    if _fresh : state.initialized = false then
      let marked : World :=
        { statics := world.statics.markInitialized type
          events := .initializing type :: world.events }
      let descriptor := initializerOf type
      match setup.program.templates.find? descriptor with
      | none => .ok () marked
      | some template =>
        match setup.program.rootFrame descriptor with
        | .error fault => .error fault marked
        | .ok frame =>
          match startClass setup body (classOfDescriptor descriptor) marked with
          | .error fault world => .error fault world
          | .ok _ world =>
            match body template frame world with
            | .error fault world => .error fault world
            | .ok _ world => .ok () world
    else .ok () world
termination_by world.statics.pendingCount
decreasing_by
  have := Statics.pendingCount_markInitialized _found _fresh
  omega

def executeWith (setup : Setup) (body : Body) (descriptor : String) (frame : Frame) :
    Run (Option Graph) :=
  match setup.program.templates.find? descriptor with
  | none => throw (.methodNotFound descriptor)
  | some template => do
    startClass setup body (classOfDescriptor descriptor)
    body template frame

/-- What instructions can call, given how the code of a method is executed. -/
def callsOf (setup : Setup) (body : Body) : Calls where
  start := startClass setup body
  execute := executeWith setup body

/-! ## Executing code -/

def abandon (graph : Graph) (cause : Fault) : Run (Option Graph) := do
  modify fun world =>
    { statics := world.statics.giveUp graph
      events := .abandoning graph.method cause :: world.events }
  return none

def finish (setup : Setup) (graph : Graph) : Run (Option Graph) := do
  Run.note (.finished graph.method graph.nodeCount)
  modify fun world =>
    { world with
      statics := world.statics.commit graph (setup.program.isInitializer graph.method) }
  return some graph

def runBody (setup : Setup) (calls : Calls) (depth : Nat) : Body := fun template frame => do
  Run.note (.executing template.method depth)
  let world ← get
  match Exploration.explore setup calls ⟨template.setRootFrame frame, world⟩ with
  | .ok _ exploration => do
    set exploration.world
    finish setup exploration.graph
  | .error fault exploration => do
    set exploration.world
    if fault.isRecoverable then abandon exploration.graph fault else throw fault

/-- Executes the code of a method when `levels` more methods may be entered and `depth`
methods have been. -/
def bodyAt (setup : Setup) : (levels depth : Nat) → Body
  | 0, depth, template, _ => abandon template (.callDepth (depth + 1) setup.config.maxDepth)
  | levels + 1, depth, template, frame =>
    runBody setup (callsOf setup (bodyAt setup levels (depth + 1))) (depth + 1) template frame

/-- What instructions can call when `depth` methods have been entered. -/
def callsAt (setup : Setup) (depth : Nat) : Calls :=
  callsOf setup (bodyAt setup (setup.config.maxDepth - depth) depth)

end Execution

end Dexplore
