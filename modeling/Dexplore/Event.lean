import Dexplore.Fault
import Dexplore.Value.Text

/-!
# What an analysis reports

The record of an analysis, event by event.
-/

set_option autoImplicit false

namespace Dexplore

inductive Level where
  | warn | info | debug | trace
  deriving DecidableEq, Repr

inductive Event where
  | ready (classes methods implemented : Nat)
  | initializing (type : TypeDescriptor)
  | executing (method : String) (depth : Nat)
  | accessing (field : FieldRef)
  | visiting (method : String) (node : NodeId) (instruction : Instruction)
  | undecidedBranch (condition : Condition) (left right : Value)
  | undecidedSwitch (selector : Value)
  | unhandled (mnemonic : String) (clobbers : List Register)
  | finished (method : String) (nodes : Nat)
  | abandoning (method : String) (cause : Fault)
  | rebuilding (method : String)
  deriving DecidableEq

namespace Event

/-- The importance of an event. Uses of static fields are not reported at any level. -/
def level : Event → Option Level
  | abandoning .. => some .warn
  | initializing .. => some .info
  | ready .. | executing .. | finished .. | rebuilding .. => some .debug
  | visiting .. | undecidedBranch .. | undecidedSwitch .. | unhandled .. => some .trace
  | accessing .. => none

def text : Event → String
  | ready classes methods implemented =>
    "virtual machine ready: " ++ toString classes ++ " classes, " ++ toString methods ++
      " methods, " ++ toString implemented ++ " implemented"
  | initializing type => "initializing " ++ type.text
  | executing method depth => "executing " ++ method ++ " at depth " ++ toString depth
  | accessing field => "accessing " ++ field.descriptor
  | visiting method node instruction => method ++ " " ++ node.text ++ ": " ++ instruction.text
  | undecidedBranch condition left right =>
    "ambiguous if-" ++ condition.name ++ " on " ++ left.text ++ " and " ++ right.text
  | undecidedSwitch selector => "ambiguous switch on " ++ selector.text
  | unhandled mnemonic clobbers =>
    "unhandled " ++ mnemonic ++ ", clobbering [" ++
      ", ".intercalate (clobbers.map fun register => toString register) ++ "]"
  | finished method nodes => "finished " ++ method ++ " with " ++ toString nodes ++ " nodes"
  | abandoning method cause => "abandoning " ++ method ++ ": " ++ cause.message
  | rebuilding method => "rebuilding graph of " ++ method

end Event

namespace Level

def all : List Level := [.warn, .info, .debug, .trace]

def name : Level → String
  | warn => "WARN"
  | info => "INFO"
  | debug => "DEBUG"
  | trace => "TRACE"

def rank : Level → Nat
  | warn => 0
  | info => 1
  | debug => 2
  | trace => 3

/-- Whether a record that keeps everything down to a level holds another level. -/
def within (level limit : Level) : Bool := level.rank ≤ limit.rank

end Level

def Event.record? (event : Event) (limit : Level) : Option String := do
  let level ← event.level
  if level.within limit then some (level.name ++ " " ++ event.text) else none

end Dexplore
