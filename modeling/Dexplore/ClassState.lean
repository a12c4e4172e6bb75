import Dexplore.OrdMap
import Dexplore.Definition
import Dexplore.Value

/-!
# The static state of classes

What the analysis knows about the static fields of a class, and whether the class has been
started.  A field that was never declared has no type of its own.
-/

set_option autoImplicit false

namespace Dexplore

structure StaticField where
  declared : Option TypeDescriptor
  value : Value
  deriving DecidableEq

structure ClassState where
  name : TypeDescriptor
  fields : OrdMap String StaticField
  initialized : Bool
  deriving DecidableEq

namespace ClassState

def initialValue (field : FieldDef) : Value :=
  match field.initial with
  | some literal => .ofLiteralTyped literal field.type
  | none => .defaultFor field.type

/-- The state of a class that is loaded and not started. Of two fields of one name the later
counts. -/
def ofDefinition (definition : ClassDef) : ClassState where
  name := definition.name
  fields := .ofList (definition.staticFields.map fun field =>
    (field.name, ⟨some field.type, initialValue field⟩))
  initialized := false

def value? (state : ClassState) (name : String) : Option Value :=
  (state.fields.find? name).map (·.value)

def declared? (state : ClassState) (name : String) : Option TypeDescriptor :=
  (state.fields.find? name).bind (·.declared)

def set (state : ClassState) (name : String) (value : Value) : ClassState :=
  { state with fields := state.fields.insert name ⟨state.declared? name, value⟩ }

/-- Gives a field a value that may or may not be written: any other value than before makes
the field unknown. -/
def merge (state : ClassState) (name : String) (value : Value) : ClassState :=
  match state.value? name with
  | some current => if current = value then state else state.set name current.widen
  | none => state.set name value.widen

/-- Makes a field unknown, in its declared type if it has one. -/
def widen (state : ClassState) (name : String) (type : TypeDescriptor) : ClassState :=
  state.set name (.unknown ((state.declared? name).getD type))

def widenArrays (state : ClassState) : ClassState :=
  let forget (_ : String) (field : StaticField) : StaticField :=
    if field.value.isMutable then
      { field with value := .unknown (field.declared.getD .unknown) }
    else field
  { state with fields := state.fields.mapValues forget }

def markInitialized (state : ClassState) : ClassState := { state with initialized := true }

/-! ## What the operations do to values and declared types -/

@[simp] theorem value?_set (state : ClassState) (name other : String) (value : Value) :
    (state.set name value).value? other =
      if name = other then some value else state.value? other := by
  by_cases same : name = other <;> simp [value?, set, same]

@[simp] theorem declared?_set (state : ClassState) (name other : String) (value : Value) :
    (state.set name value).declared? other = state.declared? other := by
  by_cases same : name = other <;> simp [declared?, set, same]

@[simp] theorem declared?_widenArrays (state : ClassState) (name : String) :
    state.widenArrays.declared? name = state.declared? name := by
  cases found : state.fields.find? name with
  | none => simp [declared?, widenArrays, found]
  | some field =>
      by_cases mutable : field.value.isMutable = true <;>
        simp [declared?, widenArrays, found, mutable]

theorem value?_merge (state : ClassState) (name : String) (value : Value) :
    (state.merge name value).value? name = state.value? name ∨
      ∃ type, (state.merge name value).value? name = some (.unknown type) := by
  cases found : state.value? name with
  | none => exact Or.inr ⟨value.type, by simp [merge, found, Value.widen]⟩
  | some current =>
      by_cases same : current = value
      · exact Or.inl (by simp [merge, found, same])
      · exact Or.inr ⟨current.type, by simp [merge, found, same, Value.widen]⟩

end ClassState

end Dexplore
