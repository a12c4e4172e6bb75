import Dexplore.Execution

/-!
# The analysis machine

A machine analyses Dalvik programs by following every path that the values known so far leave
open.  It holds a program, the limits of the analysis, and what is known of the static state.
Its operations give a report: the outcome, the machine afterwards, and the events in order.
An operation that fails has still changed whatever it changed before.
-/

set_option autoImplicit false

namespace Dexplore

structure Machine extends Setup where
  statics : Statics
  /-- How many methods are being executed around the next operation. -/
  callDepth : Nat
  deriving DecidableEq

structure Report (α : Type) where
  outcome : Except Fault α
  machine : Machine
  events : List Event

namespace Machine

/-! ## Loading -/

/-- Loads classes. No class is started. -/
def load (definitions : List ClassDef) (config : Config) : Except Fault Machine := do
  let program ← Program.ofClasses definitions
  return { config, program, statics := .ofDefinitions program.classes, callDepth := 0 }

def readyEvent (machine : Machine) : Event :=
  .ready machine.program.classes.size machine.program.methods.size machine.program.templates.size

/-! ## Looking at the machine -/

def classState? (machine : Machine) (type : TypeDescriptor) : Option ClassState :=
  machine.statics.find? type

def isInitialized (machine : Machine) (type : TypeDescriptor) : Bool :=
  machine.statics.isInitialized type

def method? (machine : Machine) (descriptor : String) : Option MethodDef :=
  machine.program.methods.find? descriptor

def template? (machine : Machine) (descriptor : String) : Option Graph :=
  machine.program.templates.find? descriptor

/-- The frame in which a method is analysed on its own. -/
def rootFrame (machine : Machine) (descriptor : String) : Except Fault Frame :=
  machine.program.rootFrame descriptor

def staticValue (machine : Machine) (frame : Frame) (field : FieldRef) : Value :=
  machine.statics.valueOn frame field

/-! ## Executing -/

def world (machine : Machine) : World := ⟨machine.statics, []⟩

def calls (machine : Machine) : Calls := Execution.callsAt machine.toSetup machine.callDepth

def afterwards (machine : Machine) (world : World) : Machine :=
  { machine with statics := world.statics }

/-- Does a part of an analysis. What else there is to a machine is given to a run and not changed
by it; runs that have the whole machine as their state are in `Dexplore.Live`. -/
def perform {α : Type} (machine : Machine) (run : Run α) : Report α :=
  match run machine.world with
  | .ok value world => ⟨.ok value, machine.afterwards world, world.events.reverse⟩
  | .error fault world => ⟨.error fault, machine.afterwards world, world.events.reverse⟩

/-- Executes a method from a frame. There is no graph if the method was given up. -/
def executeFrom (machine : Machine) (descriptor : String) (frame : Frame) :
    Report (Option Graph) :=
  machine.perform (machine.calls.execute descriptor frame)

def execute (machine : Machine) (descriptor : String) : Report (Option Graph) :=
  match machine.rootFrame descriptor with
  | .ok frame => machine.executeFrom descriptor frame
  | .error fault => ⟨.error fault, machine, []⟩

/-- Starts a class, unless it is undefined or has been started. -/
def startClass (machine : Machine) (type : TypeDescriptor) : Report Unit :=
  machine.perform (machine.calls.start type)

/-- Explores a graph from the frame at its entry, and neither starts the class of its method
nor takes over what it writes. The graph has grown even after a fault. -/
def explore (machine : Machine) (graph : Graph) : Report Unit × Graph :=
  match Exploration.explore machine.toSetup machine.calls ⟨graph, machine.world⟩ with
  | .ok _ done =>
    (⟨.ok (), machine.afterwards done.world, done.world.events.reverse⟩, done.graph)
  | .error fault done =>
    (⟨.error fault, machine.afterwards done.world, done.world.events.reverse⟩, done.graph)

/-- Executes one instruction of a method on a frame, which is changed even after a fault. -/
def executeInstruction (machine : Machine) (method : String) (instruction : Instruction)
    (frame : Frame) : Report (List Address) × Frame :=
  match instruction.execute machine.toSetup machine.calls method ⟨frame, machine.world⟩ with
  | .ok successors scene =>
    (⟨.ok successors, machine.afterwards scene.world, scene.world.events.reverse⟩, scene.frame)
  | .error fault scene =>
    (⟨.error fault, machine.afterwards scene.world, scene.world.events.reverse⟩, scene.frame)

/-! ## Changing -/

/-- Replaces a method of a defined class, or adds one. The definition of the class takes over
the method even if its code is refused. -/
def update (machine : Machine) (method : MethodDef) : Report Unit :=
  if machine.program.classes.contains method.reference.owner then
    let amended := machine.program.amendClass method
    let events := [Event.rebuilding method.descriptor]
    match amended.register method with
    | .ok program => ⟨.ok (), { machine with program }, events⟩
    | .error fault => ⟨.error fault, { machine with program := amended }, events⟩
  else
    ⟨.error (.malformed (.homelessMethod method.descriptor method.reference.owner)), machine, []⟩

def reset (machine : Machine) : Machine :=
  { machine with statics := .ofDefinitions machine.program.classes, callDepth := 0 }

end Machine

end Dexplore
