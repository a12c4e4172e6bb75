/-!
# Errors in code given as text

Why a descriptor cannot be read or code cannot be laid out.
-/

set_option autoImplicit false

namespace Dexplore

inductive AssemblyError where
  /-- A text that is no descriptor of the wanted kind. -/
  | invalidDescriptor (text : String)
  /-- A label that already has an address. -/
  | duplicateLabel (name : String)
  /-- A label that never gets an address. -/
  | undefinedLabel (name : String)
  deriving DecidableEq, Repr

def AssemblyError.message : AssemblyError → String
  | .invalidDescriptor text => "Invalid descriptor - " ++ text
  | .duplicateLabel name => "Duplicate label - " ++ name
  | .undefinedLabel name => "Undefined label - " ++ name

end Dexplore
