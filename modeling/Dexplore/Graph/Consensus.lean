import Dexplore.Graph

/-!
# What all paths agree on

Values of several paths agree on the value they all have, or else on their common type, or
else on nothing.
-/

set_option autoImplicit false

namespace Dexplore

/-- What some values agree on; `none` if there are no values. -/
def Value.agree? : List Value → Option Value
  | [] => none
  | first :: rest =>
    if rest.all fun value => value = first then some first
    else if rest.all fun value => value.type = first.type then some (.unknown first.type)
    else some .uninitialized

/-- Values agree on a known value only if each of them is that value. -/
theorem Value.eq_of_agree? {values : List Value} {value : Value}
    (agreed : Value.agree? values = some value) (known : value.isKnown = true) :
    ∀ member ∈ values, member = value := by
  cases values with
  | nil => simp [Value.agree?] at agreed
  | cons first rest =>
      by_cases same : rest.all (fun member => member = first) = true
      · simp only [Value.agree?, same, if_true, Option.some.injEq] at agreed
        subst agreed
        intro member inside
        rcases List.mem_cons.mp inside with isFirst | later
        · exact isFirst
        · simpa using List.all_eq_true.mp same member later
      · by_cases typed : rest.all (fun member => member.type = first.type) = true
        · simp only [Value.agree?, same, typed, if_true, Bool.false_eq_true, if_false,
            Option.some.injEq] at agreed
          subst agreed
          simp [Value.isKnown] at known
        · simp only [Value.agree?, same, typed, Bool.false_eq_true, if_false,
            Option.some.injEq] at agreed
          subst agreed
          simp [Value.isKnown, Value.uninitialized] at known

namespace Graph

def frames (graph : Graph) (addresses : List Address) : List Frame :=
  (addresses.flatMap graph.nodesAt).filterMap (·.frame)

def consensus (graph : Graph) (addresses : List Address) (register : Register) :
    Except Fault Value := do
  let values ← (graph.frames addresses).mapM fun frame => frame.read register
  return (Value.agree? values).getD .uninitialized

/-- What the paths at some addresses agree on about the result, of those that have one. -/
def returnConsensus (graph : Graph) (addresses : List Address) : Option Value :=
  Value.agree? ((graph.frames addresses).filterMap (·.result))

def writtenStatics (graph : Graph) : List FieldRef :=
  inFieldOrder ((graph.frames graph.connectedTerminating).flatMap fun frame => frame.statics.keys)

/-- What the paths agree on at their ends about a static field that holds `baseline` on the
paths that do not write it. -/
def staticConsensus (graph : Graph) (field : FieldRef) (baseline : Value) : Value :=
  let values := (graph.frames graph.connectedTerminating).map fun frame =>
    (frame.static? field).getD baseline
  (Value.agree? values).getD baseline

end Graph

end Dexplore
