import Dexplore.Proofs.Operations

/-!
# Valid classes

What loading asks of classes, said without the tables that it fills: names that differ, methods
that are their own and differ in their references, registers for what a method is passed, and
code that starts at address zero and goes upwards (`ClassDef.Valid`).  Among references that
were read the descriptor says all, so different references give different descriptors, in one
class and across classes (`loadable_iff_valid`).  From then on the tables of methods and graphs
agree, also after updates that are refused (`Machine.tables_validated`).
-/

set_option autoImplicit false

namespace Dexplore

/-! ## Code that makes a graph -/

theorem Graph.unordered?_of_pairwise {instructions : List Instruction}
    (ascending : instructions.Pairwise fun left right => left.address < right.address) :
    unordered? instructions = none := by
  induction instructions with
  | nil => rfl
  | cons first rest induction =>
      obtain ⟨below, ascendingRest⟩ := List.pairwise_cons.mp ascending
      cases rest with
      | nil => rfl
      | cons second rest =>
          have above : ¬ second.address ≤ first.address :=
            UInt32.not_le.mpr (below second List.mem_cons_self)
          rw [unordered?, if_neg above]
          exact induction ascendingRest

/-- No code at all, or code that starts at address zero and goes upwards. -/
def MethodDef.InOrder (method : MethodDef) : Prop :=
  method.instructions = [] ∨
    method.instructions.head?.map (·.address) = some 0 ∧
      method.instructions.Pairwise fun left right => left.address < right.address

theorem MethodDef.acceptable_iff {method : MethodDef} :
    method.Acceptable ↔ method.incoming ≤ method.registers ∧ method.InOrder := by
  cases code : method.instructions with
  | nil =>
      have bare : method.isImplemented = false := by simp [isImplemented, code]
      constructor
      · intro acceptable
        exact ⟨acceptable.roomy, .inl code⟩
      · intro valid
        refine ⟨valid.1, fun implemented => ?_⟩
        rw [bare] at implemented
        cases implemented
  | cons first rest =>
      have implemented : method.isImplemented = true := by simp [isImplemented, code]
      constructor
      · intro acceptable
        obtain ⟨graph, built⟩ := acceptable.graph implemented
        obtain ⟨⟨head, tail, isCode, start⟩, ascending, -⟩ := Graph.ofMethod_eq_ok built
        refine ⟨acceptable.roomy, .inr ⟨?_, ascending⟩⟩
        rw [isCode, List.head?_cons, Option.map_some, start]
      · rintro ⟨room, none | ⟨start, ascending⟩⟩
        · rw [none] at code
          cases code
        rw [code] at start ascending
        have startsAtZero : first.address = 0 := by simpa using start
        refine ⟨room, fun _ => ?_⟩
        simp [Graph.ofMethod, code, startsAtZero, Graph.unordered?_of_pairwise ascending]

/-! ## Classes that can be loaded -/

structure ClassDef.Valid (definition : ClassDef) : Prop where
  own : ∀ method ∈ definition.methods, method.reference.owner = definition.name
  distinct : (definition.methods.map (·.reference)).Nodup
  roomy : ∀ method ∈ definition.methods, method.incoming ≤ method.registers
  inOrder : ∀ method ∈ definition.methods, method.InOrder

def ClassDef.Parsed (definition : ClassDef) : Prop :=
  ∀ method ∈ definition.methods, method.reference.Parsed

variable {definitions : List ClassDef}

theorem nodup_references (names : (definitions.map (·.name)).Nodup)
    (valid : ∀ definition ∈ definitions, definition.Valid) :
    ((definitions.flatMap (·.methods)).map (·.reference)).Nodup := by
  rw [List.map_flatMap, List.nodup_flatMap]
  refine ⟨fun definition inside => (valid definition inside).distinct, ?_⟩
  rw [List.Nodup, List.pairwise_map] at names
  refine names.imp_of_mem ?_
  intro left right isLeft isRight different reference inLeft inRight
  obtain ⟨method, isMethod, rfl⟩ := List.mem_map.mp inLeft
  obtain ⟨other, isOther, same⟩ := List.mem_map.mp inRight
  apply different
  calc left.name
      = method.reference.owner := ((valid left isLeft).own method isMethod).symm
    _ = other.reference.owner := by rw [same]
    _ = right.name := (valid right isRight).own other isOther

theorem loadable_iff_valid (parsed : ∀ definition ∈ definitions, definition.Parsed) :
    Loadable definitions ↔
      (definitions.map (·.name)).Nodup ∧ ∀ definition ∈ definitions, definition.Valid := by
  constructor
  · intro loadable
    refine ⟨loadable.names, fun definition inside => ?_⟩
    have methods := loadable.methods definition inside
    exact {
      own := fun method isMethod => (methods method isMethod).1
      distinct := loadable.references inside
      roomy := fun method isMethod =>
        (MethodDef.acceptable_iff.mp (methods method isMethod).2).1
      inOrder := fun method isMethod =>
        (MethodDef.acceptable_iff.mp (methods method isMethod).2).2 }
  · rintro ⟨names, valid⟩
    refine ⟨names, ?_, ?_⟩
    · intro definition inside method isMethod
      have isValid := valid definition inside
      exact ⟨isValid.own method isMethod, MethodDef.acceptable_iff.mpr
        ⟨isValid.roomy method isMethod, isValid.inOrder method isMethod⟩⟩
    · have wereRead : ∀ reference ∈ (definitions.flatMap (·.methods)).map (·.reference),
          reference.Parsed := by
        intro reference inside
        obtain ⟨method, isMethod, rfl⟩ := List.mem_map.mp inside
        obtain ⟨definition, isDefinition, isMethod⟩ := List.mem_flatMap.mp isMethod
        exact parsed definition isDefinition method isMethod
      have distinct := (nodup_references names valid).map_on (f := MethodRef.descriptor)
        fun left isLeft right isRight =>
          (wereRead left isLeft).eq_of_descriptor (wereRead right isRight)
      rwa [List.map_map] at distinct

theorem Program.holds_foldl_adopt {program : Program} {old new : List ClassDef}
    (holds : program.Holds old) (loadable : Loadable (old ++ new)) :
    (new.foldl adopt program).Holds (old ++ new) := by
  induction new generalizing program old with
  | nil => simpa using holds
  | cons definition rest induction =>
      have regroup : old ++ definition :: rest = (old ++ [definition]) ++ rest := by simp
      rw [regroup] at loadable ⊢
      exact induction (holds.adopt loadable.of_append) loadable

namespace Machine

theorem exists_load_iff (config : Config) :
    (∃ machine, load definitions config = .ok machine) ↔ Loadable definitions := by
  constructor
  · rintro ⟨machine, loaded⟩
    exact (load_eq_ok_iff.mp loaded).1
  · intro loadable
    let program := definitions.foldl Program.adopt .empty
    let machine : Machine := ⟨⟨config, program⟩, .ofDefinitions program.classes, 0⟩
    have holds : program.Holds definitions := Program.holds_foldl_adopt .empty loadable
    exact ⟨machine, load_eq_ok_iff.mpr ⟨loadable, holds, rfl, rfl⟩⟩

/-! ## Tables that agree -/

/-- What the two tables say of a descriptor fits together. -/
structure Agree (machine : Machine) (descriptor : String) : Prop where
  method : ∀ method, machine.method? descriptor = some method →
    method.descriptor = descriptor ∧ method.incoming ≤ method.registers
  present : (machine.template? descriptor).isSome ↔
    ∃ method, machine.method? descriptor = some method ∧ method.isImplemented = true
  template : ∀ graph, machine.template? descriptor = some graph ↔
    ∃ method, machine.method? descriptor = some method ∧ Graph.ofMethod method = .ok graph

theorem agree_of_consistent {machine : Machine} (consistent : machine.program.Consistent)
    (descriptor : String) : machine.Agree descriptor := by
  have template : ∀ graph, machine.template? descriptor = some graph ↔
      ∃ method, machine.method? descriptor = some method ∧
        Graph.ofMethod method = .ok graph := by
    intro graph
    refine ⟨consistent.template, ?_⟩
    rintro ⟨method, found, built⟩
    have code := Graph.isImplemented_of_ofMethod built
    obtain ⟨stored, isStored⟩ := Option.isSome_iff_exists.mp (consistent.implemented found code)
    have same := consistent.ofMethod_of_template found isStored
    rw [built] at same
    cases same
    exact isStored
  refine ⟨fun method found => ⟨consistent.named found, consistent.roomy found⟩, ?_, template⟩
  constructor
  · intro present
    obtain ⟨graph, isGraph⟩ := Option.isSome_iff_exists.mp present
    obtain ⟨method, found, built⟩ := (template graph).mp isGraph
    exact ⟨method, found, Graph.isImplemented_of_ofMethod built⟩
  · rintro ⟨method, found, code⟩
    exact consistent.implemented found code

/-- Classes whose references were read can be loaded exactly if their names differ and each of
them is valid. Whatever is done to a machine, refused updates included, every method stands
under its own descriptor and has registers for what it is passed, and a graph stands under a
descriptor exactly if a method with code does, and is the graph of that code. -/
theorem tables_validated :
    (∀ definitions config, (∀ definition ∈ definitions, definition.Parsed) →
      ((∃ machine, load definitions config = .ok machine) ↔
        (definitions.map (·.name)).Nodup ∧ ∀ definition ∈ definitions, definition.Valid)) ∧
    ∀ machine, Reachable (fun _ => True) machine → ∀ descriptor, machine.Agree descriptor := by
  constructor
  · intro definitions config parsed
    exact (exists_load_iff config).trans (loadable_iff_valid parsed)
  · intro machine reachable
    exact agree_of_consistent reachable.invariant.1

def lateMethod : MethodDef := { loopMethod with instructions := [.ofOp 1 (.giveBack none)] }

theorem tables_validated_late :
    loopClass.Parsed ∧ loopClass.Valid ∧
      (loopMachine.update lateMethod).outcome =
        .error (.malformed (.lateStart loopMethod.descriptor 1)) ∧
      (loopMachine.update lateMethod).machine ≠ loopMachine ∧
      (loopMachine.update lateMethod).machine.Agree loopMethod.descriptor := by
  have parsed : loopClass.Parsed := by
    intro method inside
    cases List.mem_singleton.mp inside
    exact ⟨"LLoop;->run()V", by decide⟩
  have loaded : load [loopClass] {} = .ok loopMachine := rfl
  have each : ∀ definition ∈ [loopClass], definition.Parsed := by
    intro definition inside
    cases List.mem_singleton.mp inside
    exact parsed
  have valid := ((tables_validated.1 [loopClass] {} each).mp ⟨_, loaded⟩).2 loopClass (by simp)
  have reachable : Reachable (fun _ => True) (loopMachine.update lateMethod).machine :=
    .update (.load loaded trivial) lateMethod trivial
  exact ⟨parsed, valid, rfl, by decide, tables_validated.2 _ reachable _⟩

end Machine

end Dexplore
