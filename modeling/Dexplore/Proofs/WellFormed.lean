import Dexplore.Machine
import Dexplore.Proofs.References
import Dexplore.Proofs.Template

/-!
# Well-formed programs

The tables of a program belong together: every method with code has its graph, and every graph
its method (`Program.Consistent`).  Loading establishes this and updates keep it.  A program is
well-formed if its code names only registers and addresses that there are and every call passes
what is declared, by its reference and by the method with code that it finds.  Whatever is done
to a machine, its program stays as it was loaded or updated (`Machine.Reachable`).
-/

set_option autoImplicit false

namespace Dexplore

/-! ## Tables that belong together -/

/-- Methods stand under their own descriptors, have room for what they are passed, and have a
graph exactly if they have code. -/
structure Program.Consistent (program : Program) : Prop where
  named : ∀ {descriptor method}, program.methods.find? descriptor = some method →
    method.descriptor = descriptor
  roomy : ∀ {descriptor method}, program.methods.find? descriptor = some method →
    method.incoming ≤ method.registers
  template : ∀ {descriptor graph}, program.templates.find? descriptor = some graph →
    ∃ method, program.methods.find? descriptor = some method ∧
      Graph.ofMethod method = .ok graph
  implemented : ∀ {descriptor method}, program.methods.find? descriptor = some method →
    method.isImplemented = true → (program.templates.find? descriptor).isSome

namespace Program

variable {program after : Program} {method : MethodDef}

theorem Consistent.empty : Program.empty.Consistent where
  named found := by cases found
  roomy found := by cases found
  template found := by cases found
  implemented found := by cases found

theorem callee?_eq_some {descriptor : String} {template : Graph}
    (found : program.callee? descriptor = some (method, template)) :
    program.methods.find? descriptor = some method ∧
      program.templates.find? descriptor = some template := by
  unfold callee? at found
  cases foundMethod : program.methods.find? descriptor with
  | none => simp [foundMethod] at found
  | some other =>
      cases foundTemplate : program.templates.find? descriptor with
      | none => simp [foundMethod, foundTemplate] at found
      | some graph =>
          simp only [foundMethod, foundTemplate] at found
          cases found
          exact ⟨rfl, rfl⟩

theorem Consistent.ofMethod_of_template (consistent : program.Consistent) {descriptor : String}
    {template : Graph} (foundMethod : program.methods.find? descriptor = some method)
    (found : program.templates.find? descriptor = some template) :
    Graph.ofMethod method = .ok template := by
  obtain ⟨other, foundOther, built⟩ := consistent.template found
  rw [foundMethod] at foundOther
  cases foundOther
  exact built

theorem Consistent.method_of_template (consistent : program.Consistent) {descriptor : String}
    {template : Graph} (found : program.templates.find? descriptor = some template) :
    template.method = descriptor := by
  obtain ⟨method, foundMethod, built⟩ := consistent.template found
  obtain ⟨-, -, rfl⟩ := Graph.ofMethod_eq_ok built
  exact consistent.named foundMethod

theorem Consistent.of_eq (consistent : program.Consistent)
    (methods : after.methods = program.methods) (templates : after.templates = program.templates) :
    after.Consistent where
  named found := consistent.named (methods ▸ found)
  roomy found := consistent.roomy (methods ▸ found)
  template found := by
    rw [templates] at found
    rw [methods]
    exact consistent.template found
  implemented found code := by
    rw [methods] at found
    rw [templates]
    exact consistent.implemented found code

/-- Registering a method gives it its entries and leaves all others alone. -/
theorem register_eq_ok (registered : program.register method = .ok after) :
    method.incoming ≤ method.registers ∧
    (∀ descriptor, after.methods.find? descriptor =
      if method.descriptor = descriptor then some method
      else program.methods.find? descriptor) ∧
    ∃ template : Option Graph,
      (∀ descriptor, after.templates.find? descriptor =
        if method.descriptor = descriptor then template
        else program.templates.find? descriptor) ∧
      (∀ graph, template = some graph → Graph.ofMethod method = .ok graph) ∧
      (method.isImplemented = true → template.isSome) := by
  unfold register at registered
  by_cases narrow : method.registers < method.incoming
  · simp [narrow] at registered
  simp only [narrow, if_false] at registered
  refine ⟨Nat.not_lt.mp narrow, ?_⟩
  by_cases code : method.isImplemented = true
  · simp only [code, if_true, bind, Except.bind] at registered
    cases built : Graph.ofMethod method with
    | error fault => simp [built] at registered
    | ok graph =>
        simp only [built, pure, Except.pure, Except.ok.injEq] at registered
        subst registered
        exact ⟨by simp, some graph, by simp, by simp, by simp⟩
  · simp only [code] at registered
    cases registered
    exact ⟨by simp, none, by simp, by simp, by simp [code]⟩

theorem consistent_register (consistent : program.Consistent)
    (registered : program.register method = .ok after) : after.Consistent := by
  obtain ⟨room, methods, template, templates, built, code⟩ := register_eq_ok registered
  refine ⟨?_, ?_, ?_, ?_⟩
  · intro descriptor other found
    rw [methods] at found
    split at found
    · next same => cases found; exact same
    · exact consistent.named found
  · intro descriptor other found
    rw [methods] at found
    split at found
    · cases found; exact room
    · exact consistent.roomy found
  · intro descriptor graph found
    rw [templates] at found
    rw [methods]
    split at found
    · next same => exact ⟨method, by simp [same], built graph found⟩
    · next different =>
        rw [if_neg different]
        exact consistent.template found
  · intro descriptor other found implemented
    rw [methods] at found
    rw [templates]
    split at found
    · next same => cases found; simpa [same] using code implemented
    · next different =>
        rw [if_neg different]
        exact consistent.implemented found implemented

theorem consistent_declare {name : TypeDescriptor} (consistent : program.Consistent)
    (declared : program.declare name method = .ok after) : after.Consistent := by
  unfold declare at declared
  split at declared
  · cases declared
  · split at declared
    · cases declared
    · exact consistent_register consistent declared

theorem foldlM_keeps {α : Type} {step : Program → α → Except Fault Program}
    (kept : ∀ {program after item}, program.Consistent → step program item = .ok after →
      after.Consistent) {items : List α} (consistent : program.Consistent)
    (folded : items.foldlM step program = .ok after) : after.Consistent := by
  induction items generalizing program with
  | nil =>
      cases folded
      exact consistent
  | cons head rest induction =>
      rw [List.foldlM_cons] at folded
      cases first : step program head with
      | error fault => simp [first, bind, Except.bind] at folded
      | ok middle =>
          rw [first] at folded
          exact induction (kept consistent first) folded

theorem consistent_define {definition : ClassDef} (consistent : program.Consistent)
    (defined : program.define definition = .ok after) : after.Consistent := by
  unfold define at defined
  split at defined
  · cases defined
  · cases folded : definition.methods.foldlM (declare definition.name) program with
    | error fault => simp [folded, bind, Except.bind] at defined
    | ok middle =>
        simp only [folded, bind, Except.bind, pure, Except.pure, Except.ok.injEq] at defined
        subst defined
        exact (foldlM_keeps consistent_declare consistent folded).of_eq rfl rfl

theorem consistent_ofClasses {definitions : List ClassDef}
    (loaded : ofClasses definitions = .ok program) : program.Consistent :=
  foldlM_keeps consistent_define .empty loaded

end Program

/-! ## Code that can be executed -/

def Op.registers : Op → List Register
  | .nop | .jump _ => []
  | .const dest _ | .moveResult dest | .newInstance dest _ | .staticGet dest _ => [dest]
  | .move dest src | .unary _ dest src => [dest, src]
  | .binary _ _ dest lhs rhs =>
    match rhs with
    | .register index => [dest, lhs, index]
    | .literal _ => [dest, lhs]
  | .compare _ dest lhs rhs => [dest, lhs, rhs]
  | .branch _ lhs rhs _ => lhs :: rhs.toList
  | .switch src _ | .throw src | .staticPut src _ => [src]
  | .invoke _ _ args => args
  | .giveBack src => src.toList
  | .newArray dest size _ => [dest, size]
  | .arrayLength dest array => [dest, array]
  | .arrayGet dest array index => [dest, array, index]
  | .arrayPut src array index => [src, array, index]
  | .instanceGet dest object _ => [dest, object]
  | .instancePut src object _ => [src, object]
  | .unhandled _ clobbers => clobbers

/-- A call that passes what is declared, a receiver included unless it is a static call.  The
method with code that it finds takes as many arguments and is static if the call says so. -/
def Program.Accepts (program : Program) (kind : InvokeKind) (reference : MethodRef)
    (args : List Register) : Prop :=
  args.length = reference.parameters.length + (if kind = .static then 0 else 1) ∧
  ∀ callee, program.methods.find? reference.descriptor = some callee →
    callee.isImplemented = true →
      callee.isStatic = decide (kind = .static) ∧ args.length = callee.incoming

structure Program.Allows (program : Program) (method : MethodDef) (instruction : Instruction) :
    Prop where
  registers : ∀ register ∈ instruction.op.registers, register < method.registers
  successors : ∀ target ∈ instruction.possibleSuccessors,
    ∃ other ∈ method.instructions, other.address = target
  call : ∀ kind reference args, instruction.op = .invoke kind reference args →
    program.Accepts kind reference args

/-- All code of a program can be executed. -/
def Program.WellFormed (program : Program) : Prop :=
  ∀ {descriptor method}, program.methods.find? descriptor = some method →
    method.isImplemented = true → ∀ instruction ∈ method.instructions,
      program.Allows method instruction

/-! ## Whatever is done to a machine -/

namespace Machine

/-- The machines that operations lead to, from classes that are loaded and with updates, as
long as every program on the way is admitted. -/
inductive Reachable (admitted : Program → Prop) : Machine → Prop
  | load {definitions : List ClassDef} {config : Config} {machine : Machine}
      (loaded : load definitions config = .ok machine) (admits : admitted machine.program) :
      Reachable admitted machine
  | execute {machine : Machine} (before : Reachable admitted machine) (descriptor : String) :
      Reachable admitted (machine.execute descriptor).machine
  | executeFrom {machine : Machine} (before : Reachable admitted machine) (descriptor : String)
      (frame : Frame) : Reachable admitted (machine.executeFrom descriptor frame).machine
  | startClass {machine : Machine} (before : Reachable admitted machine)
      (type : TypeDescriptor) : Reachable admitted (machine.startClass type).machine
  | explore {machine : Machine} (before : Reachable admitted machine) (graph : Graph) :
      Reachable admitted (machine.explore graph).1.machine
  | executeInstruction {machine : Machine} (before : Reachable admitted machine)
      (method : String) (instruction : Instruction) (frame : Frame) :
      Reachable admitted (machine.executeInstruction method instruction frame).1.machine
  | update {machine : Machine} (before : Reachable admitted machine) (method : MethodDef)
      (admits : admitted (machine.update method).machine.program) :
      Reachable admitted (machine.update method).machine
  | reset {machine : Machine} (before : Reachable admitted machine) :
      Reachable admitted machine.reset

/-! ## What operations leave alone -/

theorem perform_machine (machine : Machine) {α : Type} (run : Run α) :
    ∃ statics, (machine.perform run).machine = { machine with statics } := by
  unfold perform
  split <;> exact ⟨_, rfl⟩

theorem execute_machine (machine : Machine) (descriptor : String) :
    ∃ statics, (machine.execute descriptor).machine = { machine with statics } := by
  unfold execute
  split
  · exact perform_machine machine _
  · exact ⟨machine.statics, rfl⟩

theorem explore_machine (machine : Machine) (graph : Graph) :
    ∃ statics, (machine.explore graph).1.machine = { machine with statics } := by
  unfold explore
  split <;> exact ⟨_, rfl⟩

theorem executeInstruction_machine (machine : Machine) (method : String)
    (instruction : Instruction) (frame : Frame) :
    ∃ statics, (machine.executeInstruction method instruction frame).1.machine =
      { machine with statics } := by
  unfold executeInstruction
  split <;> exact ⟨_, rfl⟩

section Update

variable {machine : Machine} {method : MethodDef}

theorem update_of_homeless
    (homeless : machine.program.classes.contains method.reference.owner = false) :
    machine.update method =
      ⟨.error (.malformed (.homelessMethod method.descriptor method.reference.owner)), machine, []⟩
    := by
  rw [update, homeless]
  rfl

theorem update_of_register (home : machine.program.classes.contains method.reference.owner = true)
    {program : Program}
    (registered : (machine.program.amendClass method).register method = .ok program) :
    machine.update method =
      ⟨.ok (), { machine with program }, [.rebuilding method.descriptor]⟩ := by
  rw [update, if_pos home]
  simp only [registered]

theorem update_of_refused (home : machine.program.classes.contains method.reference.owner = true)
    {fault : Fault} (refused : (machine.program.amendClass method).register method = .error fault) :
    machine.update method =
      ⟨.error fault, { machine with program := machine.program.amendClass method },
        [.rebuilding method.descriptor]⟩ := by
  rw [update, if_pos home]
  simp only [refused]

end Update

/-- An update changes the program at most: the definition of a class, and then the tables as well
unless the method is refused. -/
theorem update_cases (machine : Machine) (method : MethodDef) :
    (machine.update method).machine = machine ∨
      machine.program.classes.contains method.reference.owner = true ∧
        ∃ program, (machine.update method).machine = { machine with program } ∧
          (program = machine.program.amendClass method ∨
            (machine.program.amendClass method).register method = .ok program) := by
  cases home : machine.program.classes.contains method.reference.owner with
  | false => exact .inl (by rw [update_of_homeless home])
  | true =>
      refine .inr ⟨rfl, ?_⟩
      cases registered : (machine.program.amendClass method).register method with
      | error fault => exact ⟨_, by rw [update_of_refused home registered], .inl rfl⟩
      | ok program => exact ⟨program, by rw [update_of_register home registered], .inr rfl⟩

variable {machine : Machine}

theorem consistent_update (consistent : machine.program.Consistent) (method : MethodDef) :
    (machine.update method).machine.program.Consistent := by
  have amended : (machine.program.amendClass method).Consistent := consistent.of_eq rfl rfl
  obtain same | ⟨-, program, same, rfl | registered⟩ := machine.update_cases method
  · rw [same]
    exact consistent
  · rw [same]
    exact amended
  · rw [same]
    exact Program.consistent_register amended registered

theorem callDepth_update (method : MethodDef) :
    (machine.update method).machine.callDepth = machine.callDepth := by
  obtain same | ⟨-, program, same, -⟩ := machine.update_cases method <;> rw [same]

/-- Between operations the program is consistent and admitted, and no method is entered. -/
theorem Reachable.invariant {admitted : Program → Prop} (reachable : machine.Reachable admitted) :
    machine.program.Consistent ∧ admitted machine.program ∧ machine.callDepth = 0 := by
  induction reachable with
  | @load definitions config machine loaded admits =>
      unfold Machine.load at loaded
      cases built : Program.ofClasses definitions with
      | error fault => simp [built, bind, Except.bind] at loaded
      | ok program =>
          simp only [built, bind, Except.bind, pure, Except.pure, Except.ok.injEq] at loaded
          subst loaded
          exact ⟨Program.consistent_ofClasses built, admits, rfl⟩
  | @execute machine _ descriptor induction =>
      obtain ⟨statics, same⟩ := machine.execute_machine descriptor
      rw [same]
      exact induction
  | @executeFrom machine _ descriptor frame induction =>
      obtain ⟨statics, same⟩ := machine.perform_machine (machine.calls.execute descriptor frame)
      rw [Machine.executeFrom, same]
      exact induction
  | @startClass machine _ type induction =>
      obtain ⟨statics, same⟩ := machine.perform_machine (machine.calls.start type)
      rw [Machine.startClass, same]
      exact induction
  | @explore machine _ graph induction =>
      obtain ⟨statics, same⟩ := machine.explore_machine graph
      rw [same]
      exact induction
  | @executeInstruction machine _ method instruction frame induction =>
      obtain ⟨statics, same⟩ := machine.executeInstruction_machine method instruction frame
      rw [same]
      exact induction
  | update _ method admits induction =>
      obtain ⟨consistent, -, outermost⟩ := induction
      exact ⟨consistent_update consistent method, admits,
        (callDepth_update method).trans outermost⟩
  | reset _ induction => exact ⟨induction.1, induction.2.1, rfl⟩

end Machine

end Dexplore
