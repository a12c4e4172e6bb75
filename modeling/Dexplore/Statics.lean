import Dexplore.ClassState
import Dexplore.Graph.Consensus

/-!
# The static state of all classes

The classes that are defined, each with its static state.  A path reads a static field from
its own writes first, then from its class; of a field of an undefined class only the type is
known.  When a method is through, its writes reach the classes; when it is given up, whatever
it could have written becomes unknown.
-/

set_option autoImplicit false

namespace Dexplore

abbrev Statics := OrdMap TypeDescriptor ClassState

namespace Statics

def ofDefinitions (definitions : OrdMap TypeDescriptor ClassDef) : Statics :=
  definitions.mapValues fun _ definition => .ofDefinition definition

def isInitialized (statics : Statics) (type : TypeDescriptor) : Bool :=
  (statics.find? type).any (·.initialized)

def markInitialized (statics : Statics) (type : TypeDescriptor) : Statics :=
  statics.modify type ClassState.markInitialized

def pendingCount (statics : Statics) : Nat :=
  statics.values.countP fun state => !state.initialized

theorem countP_modify_markInitialized (type : TypeDescriptor) {state : ClassState}
    (fresh : state.initialized = false) (entries : List (TypeDescriptor × ClassState))
    (found : Entries.find? type entries = some state) :
    ((Entries.modify type ClassState.markInitialized entries).map Prod.snd).countP
        (fun state => !state.initialized) + 1 =
      (entries.map Prod.snd).countP (fun state => !state.initialized) := by
  induction entries with
  | nil => simp [Entries.find?] at found
  | cons head rest induction =>
      obtain ⟨other, stored⟩ := head
      by_cases hit : other = type
      · have isStored : stored = state := by simpa [Entries.find?, hit] using found
        simp [Entries.modify, hit, isStored, fresh, ClassState.markInitialized]
      · have foundRest : Entries.find? type rest = some state := by
          simpa [Entries.find?, hit] using found
        have fromRest := induction foundRest
        simp only [Entries.modify, hit, if_false, List.map_cons, List.countP_cons]
        omega

theorem pendingCount_markInitialized {statics : Statics} {type : TypeDescriptor}
    {state : ClassState} (found : statics.find? type = some state)
    (fresh : state.initialized = false) :
    (statics.markInitialized type).pendingCount + 1 = statics.pendingCount :=
  countP_modify_markInitialized type fresh statics.entries found

/-- What a class holds for a field; unknown if the class or the field is undefined. -/
def stored (statics : Statics) (field : FieldRef) : Value :=
  ((statics.find? field.owner).bind fun state => state.value? field.name).getD (.unknown field.type)

def valueOn (statics : Statics) (frame : Frame) (field : FieldRef) : Value :=
  (frame.static? field).getD (statics.stored field)

def hideArray (type owner : TypeDescriptor) (frame : Frame) (entry : String × StaticField) :
    Frame :=
  let field : FieldRef := ⟨owner, entry.1, entry.2.declared.getD type⟩
  if entry.2.value.isArrayOf type && (frame.static? field).isNone then
    frame.writeStatic field entry.2.value.widen
  else frame

/-- Forgets on a path every static array of a type: those it has written, and those it would
read from a class. -/
def forgetArrays (statics : Statics) (frame : Frame) (type : TypeDescriptor) : Frame :=
  statics.entries.foldl
    (fun frame state => state.2.fields.entries.foldl (hideArray type state.1) frame)
    (frame.widenStaticArrays type)

/-- Takes over one field that an execution has written. An initializer decides what its class
holds; any other method may or may not have run. -/
def commitField (graph : Graph) (strong : Bool) (statics : Statics) (field : FieldRef) :
    Statics :=
  statics.modify field.owner fun state =>
    let baseline := (state.value? field.name).getD (.unknown field.type)
    let value := graph.staticConsensus field baseline
    if strong then state.set field.name value else state.merge field.name value

def commit (statics : Statics) (graph : Graph) (strong : Bool) : Statics :=
  graph.writtenStatics.foldl (commitField graph strong) statics

def giveUp (statics : Statics) (graph : Graph) : Statics :=
  let written := graph.staticPuts.foldl
    (fun statics field => statics.modify field.owner fun state => state.widen field.name field.type)
    statics
  if graph.mayStore then written.mapValues fun _ state => state.widenArrays else written

end Statics

end Dexplore
