import Dexplore.OrdMap
import Dexplore.Fault
import Dexplore.Value

/-!
# Frames

The state of one path through a method: its registers, the value it gives back or was last
given, and the static fields written on the path.  Parameters arrive in the last registers,
the receiver right before them.
-/

set_option autoImplicit false

namespace Dexplore

structure Frame where
  registers : List Value
  /-- How many of the last registers hold parameters. -/
  parameterCount : Nat
  /-- What a call gave, or what the method gives back. -/
  result : Option Value
  /-- The static fields written on this path. -/
  statics : OrdMap FieldRef Value
  deriving DecidableEq

namespace Frame

def new (registerCount parameterCount : Nat) : Frame where
  registers := List.replicate registerCount .uninitialized
  parameterCount := min parameterCount registerCount
  result := none
  statics := .empty

def registerCount (frame : Frame) : Nat := frame.registers.length

def parameterStart (frame : Frame) : Nat := frame.registerCount - frame.parameterCount

/-- The largest register number that a fault names. -/
def greatestNamed : Nat := 4294967295

def invalid (frame : Frame) (register : Nat) : Fault :=
  .invalidRegister (min register greatestNamed) frame.registerCount

/-! ## Registers -/

def read (frame : Frame) (register : Register) : Except Fault Value :=
  match frame.registers[register]? with
  | some value => .ok value
  | none => .error (frame.invalid register)

def write (frame : Frame) (register : Register) (value : Value) : Except Fault Frame :=
  if register < frame.registerCount then
    .ok { frame with registers := frame.registers.set register value }
  else .error (frame.invalid register)

def bindParameter (frame : Frame) (index : Nat) (value : Value) : Except Fault Frame :=
  if index < frame.parameterCount then frame.write (frame.parameterStart + index) value
  else .error (frame.invalid (frame.parameterStart + index))

def bindReceiver (frame : Frame) (value : Value) : Except Fault Frame :=
  match frame.parameterStart with
  | 0 => .error (frame.invalid frame.registerCount)
  | before + 1 => frame.write before value

def parameter (frame : Frame) (index : Nat) : Except Fault Value :=
  if index < frame.parameterCount then frame.read (frame.parameterStart + index)
  else .error (frame.invalid (frame.parameterStart + index))

def withResult (frame : Frame) (result : Option Value) : Frame := { frame with result }

/-! ## Static fields written on the path -/

def writeStatic (frame : Frame) (field : FieldRef) (value : Value) : Frame :=
  { frame with statics := frame.statics.insert field value }

def static? (frame : Frame) (field : FieldRef) : Option Value := frame.statics.find? field

def inheritStatics (frame other : Frame) : Frame := { frame with statics := other.statics }

/-! ## Forgetting arrays -/

/-- Forgets a known array of a type, and keeps any other value. -/
def forgetArrayOf (type : TypeDescriptor) (value : Value) : Value :=
  if value.isArrayOf type then value.widen else value

def widenStaticArrays (frame : Frame) (type : TypeDescriptor) : Frame :=
  { frame with statics := frame.statics.mapValues fun _ value => forgetArrayOf type value }

/-- Forgets the arrays of a type everywhere but in one register. -/
def widenArrays (frame : Frame) (type : TypeDescriptor) (keep : Option Register) : Frame :=
  let registers := frame.registers.mapIdx fun index value =>
    if keep = some index then value else forgetArrayOf type value
  { frame with registers }.widenStaticArrays type

/-! ## What the operations do to registers and static writes -/

theorem eq_of_write {frame after : Frame} {register : Register} {value : Value}
    (written : frame.write register value = .ok after) :
    after = { frame with registers := frame.registers.set register value } := by
  unfold write at written
  split at written
  · cases written
    rfl
  · cases written

theorem read_write {frame after : Frame} {register : Register} {value : Value}
    (written : frame.write register value = .ok after) (other : Register) :
    after.read other = if other = register then .ok value else frame.read other := by
  by_cases inside : register < frame.registerCount
  · simp only [write, inside, if_true, Except.ok.injEq] at written
    subst written
    by_cases same : other = register
    · subst same
      simp [read, registerCount] at inside ⊢
      simp [inside]
    · simp [read, same, invalid, registerCount, List.getElem?_set_ne (Ne.symm same)]
  · simp [write, inside] at written

theorem registerCount_write {frame after : Frame} {register : Register} {value : Value}
    (written : frame.write register value = .ok after) :
    after.registerCount = frame.registerCount := by
  rw [eq_of_write written, registerCount, List.length_set]
  rfl

theorem read_isOk_iff (frame : Frame) (register : Register) :
    (∃ value, frame.read register = .ok value) ↔ register < frame.registerCount := by
  cases found : frame.registers[register]? with
  | none =>
      have outside := List.getElem?_eq_none_iff.mp found
      simp [read, found, registerCount]
      omega
  | some value =>
      have inside := (List.getElem?_eq_some_iff.mp found).1
      simp [read, registerCount, inside]

@[simp] theorem static?_writeStatic (frame : Frame) (field other : FieldRef) (value : Value) :
    (frame.writeStatic field value).static? other =
      if field = other then some value else frame.static? other := by
  simp [static?, writeStatic]

@[simp] theorem static?_widenStaticArrays (frame : Frame) (type : TypeDescriptor)
    (field : FieldRef) :
    (frame.widenStaticArrays type).static? field =
      (frame.static? field).map (forgetArrayOf type) := by
  simp [static?, widenStaticArrays]

@[simp] theorem registerCount_widenArrays (frame : Frame) (type : TypeDescriptor)
    (keep : Option Register) :
    (frame.widenArrays type keep).registerCount = frame.registerCount := by
  simp [widenArrays, widenStaticArrays, registerCount]

end Frame

end Dexplore
