import Dexplore.Descriptor

/-!
# References to methods and fields

A method is referred to as `Class->name(Parameters)Result`, a field as `Class->name:Type`.
Reading a reference and writing it are inverse on the texts that reading accepts.
-/

set_option autoImplicit false

namespace Dexplore

/-! ## Cutting a text at a mark -/

def cut? (mark : List Char) : List Char → Option (List Char × List Char)
  | [] => none
  | c :: rest =>
    if mark.isPrefixOf (c :: rest) then some ([], (c :: rest).drop mark.length)
    else (cut? mark rest).map fun parts => (c :: parts.1, parts.2)

def memberMark : List Char := ['-', '>']

/-- The class named before the first mark, or by the whole text if it has none. -/
def classOfDescriptor (descriptor : String) : TypeDescriptor :=
  match cut? memberMark descriptor.toList with
  | some (owner, _) => ⟨String.ofList owner⟩
  | none => ⟨descriptor⟩

/-! ## Methods -/

def staticInitializerName : String := "<clinit>"

structure MethodRef where
  owner : TypeDescriptor
  name : String
  parameters : List TypeDescriptor
  result : TypeDescriptor
  deriving DecidableEq, Repr

namespace MethodRef

def descriptor (method : MethodRef) : String :=
  method.owner.text ++ "->" ++ method.name ++ "(" ++
    String.join (method.parameters.map (·.text)) ++ ")" ++ method.result.text

/-- Reads the descriptor of a method: one class, a name, parameters of which none is void,
and one result. -/
def parse? (descriptor : String) : Option MethodRef := do
  let (owner, member) ← cut? memberMark descriptor.toList
  let (name, signature) ← cut? ['('] member
  let (parameters, result) ← cut? [')'] signature
  let owner ← TypeDescriptor.single? owner
  let parameters ← TypeDescriptor.split? parameters
  let result ← TypeDescriptor.single? result
  guard (name ≠ [] ∧ parameters.all fun type => !type.isVoid)
  return { owner, name := String.ofList name, parameters, result }

def isStaticInitializer (method : MethodRef) : Bool := method.name = staticInitializerName

end MethodRef

def initializerOf (type : TypeDescriptor) : String :=
  type.text ++ "->" ++ staticInitializerName ++ "()V"

/-! ## Fields -/

structure FieldRef where
  owner : TypeDescriptor
  name : String
  type : TypeDescriptor
  deriving DecidableEq, Repr

namespace FieldRef

instance : Ord FieldRef :=
  ⟨compareLex (compareOn owner) (compareLex (compareOn name) (compareOn type))⟩

instance : Std.TransOrd FieldRef :=
  inferInstanceAs (Std.TransCmp
    (compareLex (compareOn owner) (compareLex (compareOn name) (compareOn type))))

theorem eq_of_compare_eq {left right : FieldRef} (same : compare left right = .eq) :
    left = right := by
  obtain ⟨sameOwner, sameRest⟩ := Ordering.then_eq_eq.mp same
  obtain ⟨sameName, sameType⟩ := Ordering.then_eq_eq.mp sameRest
  have owners : left.owner = right.owner := Std.LawfulEqOrd.eq_of_compare sameOwner
  have names : left.name = right.name := Std.LawfulEqOrd.eq_of_compare sameName
  have types : left.type = right.type := Std.LawfulEqOrd.eq_of_compare sameType
  cases left; cases right
  simp_all

instance : Std.LawfulEqOrd FieldRef where
  eq_of_compare := eq_of_compare_eq

def descriptor (field : FieldRef) : String :=
  field.owner.text ++ "->" ++ field.name ++ ":" ++ field.type.text

/-- Reads the descriptor of a field: one class, a name, and one type that is not void. -/
def parse? (descriptor : String) : Option FieldRef := do
  let (owner, member) ← cut? memberMark descriptor.toList
  let (name, type) ← cut? [':'] member
  let owner ← TypeDescriptor.single? owner
  let type ← TypeDescriptor.single? type
  guard (name ≠ [] ∧ !type.isVoid)
  return { owner, name := String.ofList name, type }

def sorted (fields : List FieldRef) : List FieldRef :=
  fields.mergeSort fun left right => (compare left right).isLE

end FieldRef

end Dexplore
