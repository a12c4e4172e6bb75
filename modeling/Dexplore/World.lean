import Dexplore.Event
import Dexplore.Program

/-!
# Runs

While a program is analysed, two things change: the static state of its classes and the
record of events.  A run reads and changes them and gives a result or a fault; what it changed
before a fault stays changed.
-/

set_option autoImplicit false

namespace Dexplore

/-- What changes during an analysis. -/
structure World where
  statics : Statics
  /-- What happened, latest first. -/
  events : List Event

/-- What stays the same during an analysis. -/
structure Setup where
  config : Config
  program : Program
  deriving DecidableEq

abbrev Run := EStateM Fault World

namespace World

def note (world : World) (event : Event) : World :=
  { world with events := event :: world.events }

end World

namespace Run

def note (event : Event) : Run Unit := modify fun world => world.note event

def ofExcept {α : Type} : Except Fault α → Run α
  | .ok value => pure value
  | .error fault => throw fault

end Run

/-- What an instruction may ask the rest of the analysis to do. -/
structure Calls where
  /-- Makes sure that a class is started before it is used. -/
  start : TypeDescriptor → Run Unit
  /-- Executes a method from a frame, unless it is given up. -/
  execute : String → Frame → Run (Option Graph)

end Dexplore
