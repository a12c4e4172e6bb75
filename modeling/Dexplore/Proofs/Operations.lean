import Dexplore.Proofs.Loading
import Dexplore.Proofs.Threading

/-!
# Operations one after another

Executing methods, starting classes and updating methods, in any order and whatever comes of
each.  Executions and class starts that may change the whole machine leave everything but the
static state alone (`Machine.OnlyStatics`), so a reset takes a machine back to where loading its
classes, with the updates made since, would have put it (`Machine.reset_undoes`).
-/

set_option autoImplicit false

namespace Dexplore

inductive Operation where
  | execute (descriptor : String)
  | executeFrom (descriptor : String) (frame : Frame)
  | startClass (type : TypeDescriptor)
  | update (method : MethodDef)

def Report.done {α : Type} (report : Report α) : Report Unit :=
  ⟨report.outcome.map fun _ => (), report.machine, report.events⟩

namespace Operation

def perform (machine : Machine) : Operation → Report Unit
  | execute descriptor => (machine.execute descriptor).done
  | executeFrom descriptor frame => (machine.executeFrom descriptor frame).done
  | startClass type => (machine.startClass type).done
  | update method => machine.update method

def update? : Operation → Option MethodDef
  | update method => some method
  | _ => none

/-- The classes under analysis after an operation that succeeds. -/
def amend (definitions : List ClassDef) : Operation → List ClassDef
  | update method => definitions.map (ClassDef.amend method)
  | _ => definitions

end Operation

namespace Machine

def operate (machine : Machine) : List Operation → Machine
  | [] => machine
  | operation :: rest => (operation.perform machine).machine.operate rest

def record (machine : Machine) : List Operation → List Event
  | [] => []
  | operation :: rest =>
    (operation.perform machine).events ++ (operation.perform machine).machine.record rest

def UpdatesSucceed (machine : Machine) : List Operation → Prop
  | [] => True
  | operation :: rest =>
    (operation.update?.isSome → (operation.perform machine).outcome = .ok ()) ∧
      (operation.perform machine).machine.UpdatesSucceed rest

/-- A machine that differs from an earlier one at most in the values of static fields and in
which classes have been started. -/
structure OnlyStatics (before after : Machine) : Prop where
  config : after.config = before.config
  classes : after.program.classes = before.program.classes
  methods : after.program.methods = before.program.methods
  templates : after.program.templates = before.program.templates
  callDepth : after.callDepth = before.callDepth
  keys : after.statics.keys = before.statics.keys
  states : ∀ type state later, before.statics.find? type = some state →
    after.statics.find? type = some later →
    later.name = state.name ∧ ∀ field, later.declared? field = state.declared? field

end Machine

/-! ## What executions leave alone -/

namespace Machine

variable {machine : Machine}

theorem onlyStatics_of_advances {statics : Statics} (advances : machine.statics.Advances statics) :
    machine.OnlyStatics { machine with statics } where
  config := rfl
  classes := rfl
  methods := rfl
  templates := rfl
  callDepth := rfl
  keys := advances.keys
  states type state later found foundLater := by
    obtain ⟨last, foundLast, advanced⟩ := advances.defined found
    cases foundLast.symm.trans foundLater
    exact ⟨advanced.name, advanced.declared⟩

theorem onlyStatics_perform {α : Type} {run : Run α} (obeys : run.Obeys Law.preservation) :
    machine.OnlyStatics (machine.perform run).machine := by
  have allowed := obeys machine.world
  unfold perform
  cases ran : run machine.world with
  | ok value after =>
      rw [ran] at allowed
      exact onlyStatics_of_advances allowed
  | error fault after =>
      rw [ran] at allowed
      exact onlyStatics_of_advances allowed.1

theorem onlyStatics_executeFrom (descriptor : String) (frame : Frame) :
    machine.OnlyStatics (machine.executeFrom descriptor frame).machine :=
  onlyStatics_perform ((Execution.callsAt_preserve _ _).execute descriptor frame)

theorem onlyStatics_execute (descriptor : String) :
    machine.OnlyStatics (machine.execute descriptor).machine := by
  unfold execute
  split
  · exact onlyStatics_executeFrom descriptor _
  · exact onlyStatics_of_advances (.refl machine.statics)

theorem onlyStatics_startClass (type : TypeDescriptor) :
    machine.OnlyStatics (machine.startClass type).machine :=
  onlyStatics_perform ((Execution.callsAt_preserve _ _).start type)

theorem onlyStatics_explore (graph : Graph) :
    machine.OnlyStatics (machine.explore graph).1.machine := by
  have preserve : machine.calls.Obey Law.preservation := Execution.callsAt_preserve _ _
  have allowed := Exploration.exploreFrom_obeys machine.toSetup Law.preservation_upheld preserve
    [.root] (.full machine.config graph) ⟨graph, machine.world⟩
  unfold explore Exploration.explore
  cases ran : Exploration.exploreFrom machine.toSetup machine.calls [.root]
      (.full machine.config graph) ⟨graph, machine.world⟩ with
  | ok value after =>
      rw [ran] at allowed
      exact onlyStatics_of_advances allowed
  | error fault after =>
      rw [ran] at allowed
      exact onlyStatics_of_advances allowed.1

theorem onlyStatics_executeInstruction (method : String) (instruction : Instruction)
    (frame : Frame) :
    machine.OnlyStatics (machine.executeInstruction method instruction frame).1.machine := by
  have preserve : machine.calls.Obey Law.preservation := Execution.callsAt_preserve _ _
  have allowed := instruction.execute_obeys Law.preservation_upheld.toFair machine.toSetup
    preserve method ⟨frame, machine.world⟩
  unfold executeInstruction
  cases ran : instruction.execute machine.toSetup machine.calls method ⟨frame, machine.world⟩ with
  | ok successors scene =>
      rw [ran] at allowed
      exact onlyStatics_of_advances allowed.2
  | error fault scene =>
      rw [ran] at allowed
      exact onlyStatics_of_advances allowed.2.1

theorem OnlyStatics.toSetup {before after : Machine} (same : before.OnlyStatics after) :
    after.toSetup = before.toSetup := by
  obtain ⟨⟨config, classes, methods, templates⟩, statics, depth⟩ := after
  obtain ⟨rfl, rfl, rfl, rfl, -, -, -⟩ := same
  rfl

theorem toSetup_perform (machine : Machine) (operation : Operation)
    (isRun : operation.update? = none) :
    (operation.perform machine).machine.toSetup = machine.toSetup := by
  cases operation with
  | execute descriptor => exact (onlyStatics_execute descriptor).toSetup
  | executeFrom descriptor frame => exact (onlyStatics_executeFrom descriptor frame).toSetup
  | startClass type => exact (onlyStatics_startClass type).toSetup
  | update method => cases isRun

theorem toSetup_operate (machine : Machine) (operations : List Operation)
    (none : operations.filterMap Operation.update? = []) :
    (machine.operate operations).toSetup = machine.toSetup := by
  induction operations generalizing machine with
  | nil => rfl
  | cons operation rest induction =>
      have isRun := List.filterMap_eq_nil_iff.mp none operation List.mem_cons_self
      rw [List.filterMap_cons_none isRun] at none
      exact (induction _ none).trans (toSetup_perform machine operation isRun)

/-! ## Loading again -/

theorem load_eq_ok_iff {definitions : List ClassDef} {config : Config} :
    load definitions config = .ok machine ↔
      Loadable definitions ∧ machine.program.Holds definitions ∧ machine.config = config ∧
        machine.reset = machine := by
  unfold load
  rw [Except.bind_eq_ok_iff]
  simp only [Program.ofClasses_eq_ok_iff]
  constructor
  · rintro ⟨program, ⟨loadable, holds⟩, built⟩
    cases built
    exact ⟨loadable, holds, rfl, rfl⟩
  · rintro ⟨loadable, holds, rfl, same⟩
    exact ⟨machine.program, ⟨loadable, holds⟩, congrArg Except.ok same⟩

theorem update_of_ok {method : MethodDef} (updated : (machine.update method).outcome = .ok ()) :
    machine.program.classes.contains method.reference.owner = true ∧ method.Acceptable ∧
      (machine.update method).machine =
        { machine with program := (machine.program.amendClass method).enter method } := by
  cases home : machine.program.classes.contains method.reference.owner with
  | false =>
      rw [update_of_homeless home] at updated
      cases updated
  | true =>
      cases registered : (machine.program.amendClass method).register method with
      | error fault =>
          rw [update_of_refused home registered] at updated
          cases updated
      | ok program =>
          rw [update_of_register home registered]
          obtain ⟨acceptable, rfl⟩ := Program.register_eq_ok_iff.mp registered
          exact ⟨rfl, acceptable, rfl⟩

/-- After one operation the machine holds the classes with its update, if it is one. -/
theorem holds_perform {definitions : List ClassDef} (operation : Operation)
    (loadable : Loadable definitions) (holds : machine.program.Holds definitions)
    (succeeds : operation.update?.isSome → (operation.perform machine).outcome = .ok ())
    {known : List MethodDef} (listed : definitions.flatMap (·.methods) ⊆ known)
    (update : ∀ method, operation.update? = some method →
      method ∈ known ∧ method.Unambiguous known) :
    Loadable (operation.amend definitions) ∧
      (operation.perform machine).machine.program.Holds (operation.amend definitions) ∧
      (operation.perform machine).machine.config = machine.config ∧
      (operation.amend definitions).flatMap (·.methods) ⊆ known := by
  cases isUpdate : operation.update? with
  | none =>
      have same := toSetup_perform machine operation isUpdate
      have kept : operation.amend definitions = definitions := by
        cases operation <;> first | rfl | cases isUpdate
      rw [kept, same]
      exact ⟨loadable, holds, rfl, listed⟩
  | some method =>
      obtain ⟨isKnown, told⟩ := update method isUpdate
      have isOperation : operation = .update method := by
        cases operation with
        | update other =>
            cases isUpdate
            rfl
        | _ => cases isUpdate
      subst isOperation
      have unambiguous : method.Unambiguous (definitions.flatMap (·.methods)) :=
        fun other inside => told other (listed inside)
      obtain ⟨home, acceptable, updated⟩ := update_of_ok (succeeds rfl)
      refine ⟨loadable.amend acceptable unambiguous, ?_, ?_, ?_⟩
      · rw [Operation.perform, updated]
        exact holds.update loadable unambiguous home
      · rw [Operation.perform, updated]
      · intro other inside
        rcases (loadable.mem_amended_iff unambiguous ((holds.contains_iff _).mp home) other).mp
          inside with rfl | ⟨before, -⟩
        · exact isKnown
        · exact listed before

/-- The program of a machine stays that of its classes, with the updates put into them. -/
theorem holds_operate {definitions : List ClassDef} (operations : List Operation)
    (loadable : Loadable definitions) (holds : machine.program.Holds definitions)
    (succeed : machine.UpdatesSucceed operations) {known : List MethodDef}
    (listed : definitions.flatMap (·.methods) ⊆ known)
    (updates : ∀ method ∈ operations.filterMap Operation.update?,
      method ∈ known ∧ method.Unambiguous known) :
    Loadable (operations.foldl Operation.amend definitions) ∧
      (machine.operate operations).program.Holds (operations.foldl Operation.amend definitions) ∧
      (machine.operate operations).config = machine.config := by
  induction operations generalizing machine definitions with
  | nil => exact ⟨loadable, holds, rfl⟩
  | cons operation rest induction =>
      obtain ⟨succeeds, succeedRest⟩ := succeed
      obtain ⟨loadableNext, holdsNext, sameConfig, listedNext⟩ :=
        holds_perform operation loadable holds succeeds listed fun method isUpdate =>
          updates method (List.mem_filterMap.mpr ⟨operation, List.mem_cons_self, isUpdate⟩)
      obtain ⟨loadableAll, holdsAll, sameConfigAll⟩ :=
        induction loadableNext holdsNext succeedRest listedNext fun method inside =>
          updates method (by
            obtain ⟨later, isLater, isUpdate⟩ := List.mem_filterMap.mp inside
            exact List.mem_filterMap.mpr ⟨later, List.mem_cons_of_mem _ isLater, isUpdate⟩)
      exact ⟨loadableAll, holdsAll, sameConfigAll.trans sameConfig⟩

theorem load_of_holds {definitions : List ClassDef} (loadable : Loadable definitions)
    (holds : machine.program.Holds definitions) :
    load definitions machine.config = .ok machine.reset :=
  load_eq_ok_iff.mpr ⟨loadable, holds, rfl, rfl⟩

/-- Executions and class starts, whatever comes of them, change nothing but the values of
static fields and which classes have been started, also if they have the whole machine as their
state and count the methods they are in there. So a reset after any number of them gives
the machine that loading the classes gives; and if methods were updated in between, none of
them refused, the machine that loading the updated classes gives. Here no two references share
a descriptor, as is so for references that were read from their descriptors. -/
theorem reset_undoes :
    (∃ calls : Live.Calls, calls.Tied) ∧
    (∀ calls : Live.Calls, calls.Tied → ∀ machine : Machine,
      (∀ descriptor,
        machine.OnlyStatics (Live.report (Live.execute calls descriptor) machine).machine ∧
        Live.report (Live.execute calls descriptor) machine = machine.execute descriptor) ∧
      (∀ descriptor frame,
        machine.OnlyStatics
          (Live.report (Live.executeFrom calls descriptor frame) machine).machine ∧
        Live.report (Live.executeFrom calls descriptor frame) machine =
          machine.executeFrom descriptor frame) ∧
      ∀ type,
        machine.OnlyStatics (Live.report (Live.startClass calls type) machine).machine ∧
        Live.report (Live.startClass calls type) machine = machine.startClass type) ∧
    (∀ machine : Machine,
      (∀ descriptor, machine.OnlyStatics (machine.execute descriptor).machine) ∧
      (∀ descriptor frame, machine.OnlyStatics (machine.executeFrom descriptor frame).machine) ∧
      ∀ type, machine.OnlyStatics (machine.startClass type).machine) ∧
    ∀ definitions config machine, load definitions config = .ok machine →
      ∀ operations : List Operation,
        (operations.filterMap Operation.update? = [] →
          load definitions config = .ok (machine.operate operations).reset) ∧
        (machine.UpdatesSucceed operations →
          (∀ method ∈ operations.filterMap Operation.update?, method.Unambiguous
            (definitions.flatMap (·.methods) ++ operations.filterMap Operation.update?)) →
          load (operations.foldl Operation.amend definitions) config =
            .ok (machine.operate operations).reset) := by
  refine ⟨⟨_, Live.tied_ownCalls⟩, ?_, fun machine => ⟨fun _ => onlyStatics_execute _,
    fun _ _ => onlyStatics_executeFrom _ _, fun _ => onlyStatics_startClass _⟩, ?_⟩
  · intro calls tied machine
    refine ⟨fun descriptor => ?_, fun descriptor frame => ?_, fun type => ?_⟩
    · rw [tied.report_execute]
      exact ⟨onlyStatics_execute descriptor, rfl⟩
    · rw [tied.report_executeFrom]
      exact ⟨onlyStatics_executeFrom descriptor frame, rfl⟩
    · rw [tied.report_startClass]
      exact ⟨onlyStatics_startClass type, rfl⟩
  intro definitions config machine loaded operations
  obtain ⟨loadable, holds, rfl, -⟩ := load_eq_ok_iff.mp loaded
  constructor
  · intro none
    have same := toSetup_operate machine operations none
    rw [← same] at holds
    have again := load_of_holds loadable holds
    rwa [same] at again
  · intro succeed unambiguous
    obtain ⟨loadableAll, holdsAll, sameConfig⟩ :=
      holds_operate operations loadable holds succeed (List.subset_append_left _ _)
        fun method inside => ⟨List.mem_append_right _ inside, unambiguous method inside⟩
    rw [← sameConfig]
    exact load_of_holds loadableAll holdsAll

def haltMethod : MethodDef := { loopMethod with instructions := [.ofOp 0 (.giveBack none)] }

theorem reset_undoes_halt :
    Live.ownCalls.Tied ∧
      loopMachine.OnlyStatics
        (Live.report (Live.execute Live.ownCalls loopMethod.descriptor) loopMachine).machine ∧
      load [loopClass] {} = .ok loopMachine ∧
      loopMachine.UpdatesSucceed [.update haltMethod, .execute loopMethod.descriptor] ∧
      (∀ method ∈ [haltMethod], method.Unambiguous [loopMethod, haltMethod]) ∧
      load [{ loopClass with methods := [haltMethod] }] {} = .ok (loopMachine.operate
        [.update haltMethod, .execute loopMethod.descriptor]).reset := by
  have loaded : load [loopClass] {} = .ok loopMachine := rfl
  have succeed : loopMachine.UpdatesSucceed
      [.update haltMethod, .execute loopMethod.descriptor] :=
    ⟨fun _ => rfl, fun isUpdate => (by cases isUpdate), trivial⟩
  have parsed : loopMethod.reference.Parsed := ⟨"LLoop;->run()V", by decide⟩
  have unambiguous : ∀ method ∈ [haltMethod], method.Unambiguous [loopMethod, haltMethod] := by
    intro method inside
    cases List.mem_singleton.mp inside
    refine MethodDef.unambiguous_of_parsed parsed fun other inside => ?_
    rcases List.mem_pair.mp inside with rfl | rfl <;> exact parsed
  obtain ⟨-, live, -, reset⟩ := reset_undoes
  exact ⟨Live.tied_ownCalls, ((live _ Live.tied_ownCalls loopMachine).1 _).1, loaded, succeed,
    unambiguous, (reset _ _ _ loaded _).2 succeed unambiguous⟩

end Machine

end Dexplore
