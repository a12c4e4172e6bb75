/-!
# Type descriptors

A type is named by its descriptor: one letter for a primitive, `V` for no value, `Lpkg/Name;`
for a class, and a leading `[` for an array.  The descriptor `?` is the type of which nothing
is known.  A descriptor may be any text; the predicates say what kind it is, and
`TypeDescriptor.split?` recognises texts that are descriptors one after another.
-/

set_option autoImplicit false

namespace Dexplore

/-! ## Primitive types -/

inductive Primitive where
  | boolean | byte | short | char | int | long | float | double
  deriving DecidableEq, Repr

namespace Primitive

def letter : Primitive → Char
  | boolean => 'Z'
  | byte => 'B'
  | short => 'S'
  | char => 'C'
  | int => 'I'
  | long => 'J'
  | float => 'F'
  | double => 'D'

def ofLetter? : Char → Option Primitive
  | 'Z' => some boolean
  | 'B' => some byte
  | 'S' => some short
  | 'C' => some char
  | 'I' => some int
  | 'J' => some long
  | 'F' => some float
  | 'D' => some double
  | _ => none

/-- Whether values of the type are integers of at most 32 bits. -/
def isNarrow : Primitive → Bool
  | boolean | byte | short | char | int => true
  | long | float | double => false

theorem ofLetter?_letter (primitive : Primitive) : ofLetter? primitive.letter = some primitive := by
  cases primitive <;> rfl

theorem letter_of_ofLetter? {letter : Char} {primitive : Primitive}
    (named : ofLetter? letter = some primitive) : letter = primitive.letter := by
  unfold ofLetter? at named
  split at named <;> cases named <;> rfl

end Primitive

/-! ## Descriptors -/

structure TypeDescriptor where
  text : String
  deriving DecidableEq, Repr, Inhabited

namespace TypeDescriptor

instance : Ord TypeDescriptor := ⟨compareOn text⟩

instance : Std.TransOrd TypeDescriptor :=
  inferInstanceAs (Std.TransCmp (compareOn text))

theorem eq_of_compare_eq {left right : TypeDescriptor} (same : compare left right = .eq) :
    left = right := by
  have texts : left.text = right.text := Std.LawfulEqOrd.eq_of_compare same
  cases left; cases right
  exact congrArg TypeDescriptor.mk texts

instance : Std.LawfulEqOrd TypeDescriptor where
  eq_of_compare := eq_of_compare_eq

def ofPrimitive (primitive : Primitive) : TypeDescriptor := ⟨primitive.letter.toString⟩

def unknown : TypeDescriptor := ⟨"?"⟩

def void : TypeDescriptor := ⟨"V"⟩

def boolean : TypeDescriptor := ⟨"Z"⟩
def byte : TypeDescriptor := ⟨"B"⟩
def short : TypeDescriptor := ⟨"S"⟩
def char : TypeDescriptor := ⟨"C"⟩
def int : TypeDescriptor := ⟨"I"⟩
def long : TypeDescriptor := ⟨"J"⟩
def float : TypeDescriptor := ⟨"F"⟩
def double : TypeDescriptor := ⟨"D"⟩
def string : TypeDescriptor := ⟨"Ljava/lang/String;"⟩
def classObject : TypeDescriptor := ⟨"Ljava/lang/Class;"⟩
def object : TypeDescriptor := ⟨"Ljava/lang/Object;"⟩

def primitive? (type : TypeDescriptor) : Option Primitive :=
  match type.text.toList with
  | [letter] => Primitive.ofLetter? letter
  | _ => none

def isUnknown (type : TypeDescriptor) : Bool := type = unknown

def isVoid (type : TypeDescriptor) : Bool := type = void

def isPrimitive (type : TypeDescriptor) : Bool := type.primitive?.isSome

/-- Whether values of the type take two registers. -/
def isWide (type : TypeDescriptor) : Bool := type = long || type = double

def isArray (type : TypeDescriptor) : Bool := type.text.toList.head? = some '['

def isReference (type : TypeDescriptor) : Bool :=
  type.isArray ||
    (type.text.toList.head? = some 'L' && type.text.toList.getLast? = some ';')

def isString (type : TypeDescriptor) : Bool := type = string

def boxes : List String :=
  ["Ljava/lang/Boolean;", "Ljava/lang/Byte;", "Ljava/lang/Character;", "Ljava/lang/Short;",
    "Ljava/lang/Integer;", "Ljava/lang/Long;", "Ljava/lang/Float;", "Ljava/lang/Double;"]

def isBoxed (type : TypeDescriptor) : Bool := type.text ∈ boxes

def component? (type : TypeDescriptor) : Option TypeDescriptor :=
  match type.text.toList with
  | '[' :: rest => some ⟨String.ofList rest⟩
  | _ => none

/-- The element type of an array type, and the unknown type for any other. -/
def component (type : TypeDescriptor) : TypeDescriptor := type.component?.getD unknown

/-! ## Descriptors one after another -/

/-- What has been read of a descriptor: nothing, some `[`, or the start of a class name. -/
inductive Reading where
  | fresh
  | brackets (taken : List Char)
  | name (taken : List Char)

/-- Reads descriptors one after another. What was taken is kept latest first. -/
def scan? : Reading → List Char → Option (List TypeDescriptor)
  | .fresh, [] => some []
  | _, [] => none
  | .fresh, c :: rest =>
    if c = '[' then scan? (.brackets [c]) rest
    else if c = 'L' then scan? (.name [c]) rest
    else if c = 'V' || (Primitive.ofLetter? c).isSome then
      (scan? .fresh rest).map (⟨String.ofList [c]⟩ :: ·)
    else none
  | .brackets taken, c :: rest =>
    if c = '[' then scan? (.brackets (c :: taken)) rest
    else if c = 'L' then scan? (.name (c :: taken)) rest
    else if (Primitive.ofLetter? c).isSome then
      (scan? .fresh rest).map (⟨String.ofList (c :: taken).reverse⟩ :: ·)
    else none
  | .name taken, c :: rest =>
    if c = ';' then (scan? .fresh rest).map (⟨String.ofList (c :: taken).reverse⟩ :: ·)
    else scan? (.name (c :: taken)) rest

def split? (text : List Char) : Option (List TypeDescriptor) := scan? .fresh text

def single? (text : List Char) : Option TypeDescriptor :=
  match split? text with
  | some [type] => some type
  | _ => none

end TypeDescriptor

end Dexplore
