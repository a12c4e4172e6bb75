import Dexplore.Proofs.ClassOrder

/-!
# Updates that are refused

An update puts the method into the definition of its class before the method is checked.  When it
is refused the list of methods in that definition has changed and nothing else has.  No command
reads the lists again: with the lists of all classes dropped (`Machine.unlisted`) a machine does
what it did before, so that nothing shows afterwards that the update was tried
(`Machine.refused_updates`).  The machine is another one all the same
(`Machine.listed_though_refused`).
-/

set_option autoImplicit false

namespace Dexplore

/-! ## Without the lists of methods -/

def ClassDef.unlisted (definition : ClassDef) : ClassDef := { definition with methods := [] }

def Program.unlisted (program : Program) : Program :=
  { program with classes := program.classes.mapValues fun _ => ClassDef.unlisted }

def Setup.unlisted (setup : Setup) : Setup := { setup with program := setup.program.unlisted }

def Machine.unlisted (machine : Machine) : Machine :=
  { machine with toSetup := machine.toSetup.unlisted }

def Report.unlisted {α : Type} (report : Report α) : Report α :=
  { report with machine := report.machine.unlisted }

def Reply.unlisted : Reply → Reply
  | executed report => executed report.unlisted
  | done report => done report.unlisted
  | explored report graph => explored report.unlisted graph
  | stepped report frame => stepped report.unlisted frame

theorem Reply.machine_unlisted (reply : Reply) :
    reply.unlisted.machine = reply.machine.unlisted := by
  cases reply <;> rfl

namespace Program

variable (program : Program) (method : MethodDef)

theorem isImmutable_unlisted : program.unlisted.isImmutable = program.isImmutable := by
  funext type
  unfold isImmutable unlisted
  rw [OrdMap.find?_mapValues, Option.any_map]
  rfl

theorem contains_unlisted (type : TypeDescriptor) :
    program.unlisted.classes.contains type = program.classes.contains type := by
  unfold OrdMap.contains unlisted
  rw [OrdMap.find?_mapValues, Option.isSome_map]

theorem ofDefinitions_unlisted :
    Statics.ofDefinitions program.unlisted.classes = .ofDefinitions program.classes := by
  refine OrdMap.ext_find? fun type => ?_
  unfold Statics.ofDefinitions unlisted
  rw [OrdMap.find?_mapValues, OrdMap.find?_mapValues, OrdMap.find?_mapValues, Option.map_map]
  rfl

theorem unlisted_amendClass : (program.amendClass method).unlisted = program.unlisted := by
  unfold amendClass unlisted
  refine congrArg (fun classes => { program with classes }) (OrdMap.ext_find? fun type => ?_)
  rw [OrdMap.find?_mapValues, OrdMap.find?_mapValues, OrdMap.find?_modify]
  split
  · rw [Option.map_map]
    rfl
  · rfl

theorem unlisted_unlisted : program.unlisted.unlisted = program.unlisted := by
  unfold unlisted
  refine congrArg (fun classes => { program with classes }) (OrdMap.ext_find? fun type => ?_)
  rw [OrdMap.find?_mapValues, OrdMap.find?_mapValues, Option.map_map]
  rfl

theorem register_unlisted :
    program.unlisted.register method = (program.register method).map unlisted := by
  unfold register
  simp only
  split
  · rfl
  · split
    · cases Graph.ofMethod method <;> rfl
    · rfl

end Program

/-! ## Runs -/

namespace Step

theorem forgetArgument_unlisted (program : Program) :
    forgetArgument program.unlisted = forgetArgument program := by
  unfold forgetArgument
  rewrite [program.isImmutable_unlisted]
  rfl

theorem invoke_unlisted (program : Program) : invoke program.unlisted = invoke program := by
  unfold invoke
  rewrite [forgetArgument_unlisted]
  rfl

end Step

theorem Op.perform_unlisted (setup : Setup) (calls : Calls) (site : Site) (op : Op) :
    op.perform setup.unlisted calls site = op.perform setup calls site := by
  cases op with
  | invoke kind callee args =>
      unfold perform
      exact congrFun (congrFun (congrFun (congrFun (Step.invoke_unlisted setup.program) calls) kind)
        callee) args
  | giveBack src => cases src <;> rfl
  | _ => rfl

theorem Instruction.execute_unlisted (setup : Setup) :
    Instruction.execute setup.unlisted = Instruction.execute setup := by
  funext calls method instruction
  unfold execute
  simp only [Op.perform_unlisted]

namespace Exploration

theorem executeNode_unlisted (setup : Setup) : executeNode setup.unlisted = executeNode setup := by
  unfold executeNode
  rewrite [Instruction.execute_unlisted]
  rfl

theorem visit_unlisted (setup : Setup) : visit setup.unlisted = visit setup := by
  unfold visit
  rewrite [executeNode_unlisted]
  rfl

theorem exploreFrom_unlisted (setup : Setup) (calls : Calls) (pending : List NodeId)
    (allowance : Allowance) (exploration : Exploration) :
    exploreFrom setup.unlisted calls pending allowance exploration =
      exploreFrom setup calls pending allowance exploration := by
  fun_induction exploreFrom setup calls pending allowance exploration with
  | case1 allowance exploration => exact exploreFrom_nil _ _ _ _
  | case2 allowance exploration id rest missing => exact exploreFrom_of_noInstruction missing
  | case3 allowance exploration id rest instruction present rejected =>
      exact exploreFrom_of_rejected present rejected
  | case4 allowance exploration id rest instruction present remaining spent fault after failed =>
      have spentToo : allowance.spend? (entranceOf setup.unlisted.config exploration.graph id) =
          some remaining := spent
      rw [exploreFrom_of_spent present spentToo, visit_unlisted, failed]
  | case5 allowance exploration id rest instruction present remaining spent children middle
      visited induction =>
      have spentToo : allowance.spend? (entranceOf setup.unlisted.config exploration.graph id) =
          some remaining := spent
      rw [exploreFrom_of_spent present spentToo, visit_unlisted, visited]
      exact induction

theorem explore_unlisted (setup : Setup) : explore setup.unlisted = explore setup := by
  funext calls exploration
  exact exploreFrom_unlisted setup calls _ _ _

end Exploration

namespace Execution

variable (setup : Setup) (body : Body)

theorem executeWith_unlisted {descriptor : String} (frame : Frame) {world : World}
    (start : startClass setup.unlisted body (classOfDescriptor descriptor) world =
      startClass setup body (classOfDescriptor descriptor) world) :
    executeWith setup.unlisted body descriptor frame world =
      executeWith setup body descriptor frame world := by
  have same : setup.unlisted.program.templates = setup.program.templates := rfl
  unfold executeWith
  rw [same]
  cases setup.program.templates.find? descriptor with
  | none => rfl
  | some template => simp only [Bind.bind, EStateM.bind, start]

theorem startClass_unlisted (type : TypeDescriptor) (world : World) :
    startClass setup.unlisted body type world = startClass setup body type world := by
  -- An initializer may lead to further starts, but each of them leaves one class fewer.
  induction pending : world.statics.pendingCount using Nat.strongRecOn
    generalizing type world with
  | ind count induction =>
      by_cases settled : world.statics.Settled type
      · rw [startClass_of_settled _ _ settled, startClass_of_settled _ _ settled]
      · obtain ⟨state, found, fresh⟩ : ∃ state, world.statics.find? type = some state ∧
            state.initialized = false := by
          simpa [Statics.Settled] using settled
        have fewer : (world.marked type).statics.pendingCount + 1 = world.statics.pendingCount :=
          Statics.pendingCount_markInitialized found fresh
        have started := induction (world.marked type).statics.pendingCount (by omega)
          (classOfDescriptor (initializerOf type)) (world.marked type) rfl
        rw [startClass_of_fresh _ _ found fresh, startClass_of_fresh _ _ found fresh]
        simp only [executeWith_unlisted setup body _ started]
        rfl

theorem callsOf_unlisted : callsOf setup.unlisted body = callsOf setup body := by
  have start : startClass setup.unlisted body = startClass setup body := by
    funext type world
    exact startClass_unlisted setup body type world
  have execute : executeWith setup.unlisted body = executeWith setup body := by
    funext descriptor frame world
    exact executeWith_unlisted setup body frame (congrFun (congrFun start _) world)
  rw [callsOf, start, execute, callsOf]

theorem runBody_unlisted : runBody setup.unlisted = runBody setup := by
  unfold runBody
  rewrite [Exploration.explore_unlisted]
  rfl

theorem bodyAt_unlisted (levels : Nat) :
    bodyAt setup.unlisted levels = bodyAt setup levels := by
  induction levels with
  | zero => rfl
  | succ levels induction =>
      funext depth template frame
      rw [bodyAt, runBody_unlisted, callsOf_unlisted, induction, bodyAt]

theorem callsAt_unlisted (depth : Nat) : callsAt setup.unlisted depth = callsAt setup depth := by
  unfold callsAt
  rewrite [callsOf_unlisted, bodyAt_unlisted]
  rfl

end Execution

/-! ## Operations -/

theorem Machine.unlisted_unlisted (machine : Machine) :
    machine.unlisted.unlisted = machine.unlisted :=
  congrArg (fun program => { machine with program }) machine.program.unlisted_unlisted

theorem Report.unlisted_unlisted {α : Type} (report : Report α) :
    report.unlisted.unlisted = report.unlisted :=
  congrArg (fun machine => { report with machine }) report.machine.unlisted_unlisted

namespace Machine

variable (machine : Machine)

theorem calls_unlisted : machine.unlisted.calls = machine.calls :=
  Execution.callsAt_unlisted machine.toSetup machine.callDepth

theorem perform_unlisted {α : Type} (run : Run α) :
    machine.unlisted.perform run = (machine.perform run).unlisted := by
  unfold perform
  have same : machine.unlisted.world = machine.world := rfl
  rw [same]
  cases run machine.world <;> rfl

theorem executeFrom_unlisted (descriptor : String) (frame : Frame) :
    machine.unlisted.executeFrom descriptor frame =
      (machine.executeFrom descriptor frame).unlisted := by
  rw [executeFrom, calls_unlisted, perform_unlisted, executeFrom]

theorem execute_unlisted (descriptor : String) :
    machine.unlisted.execute descriptor = (machine.execute descriptor).unlisted := by
  have same : machine.unlisted.rootFrame descriptor = machine.rootFrame descriptor := rfl
  unfold execute
  rw [same]
  cases machine.rootFrame descriptor with
  | error fault => rfl
  | ok frame => exact machine.executeFrom_unlisted descriptor frame

theorem startClass_unlisted (type : TypeDescriptor) :
    machine.unlisted.startClass type = (machine.startClass type).unlisted := by
  rw [startClass, calls_unlisted, perform_unlisted, startClass]

theorem reset_unlisted : machine.unlisted.reset = machine.reset.unlisted :=
  congrArg (fun statics => { machine.unlisted with statics, callDepth := 0 })
    machine.program.ofDefinitions_unlisted

theorem explore_unlisted (graph : Graph) :
    machine.unlisted.explore graph =
      ((machine.explore graph).1.unlisted, (machine.explore graph).2) := by
  have same : Exploration.explore machine.unlisted.toSetup machine.unlisted.calls
        ⟨graph, machine.unlisted.world⟩ =
      Exploration.explore machine.toSetup machine.calls ⟨graph, machine.world⟩ := by
    rw [calls_unlisted]
    exact congrFun (congrFun (Exploration.explore_unlisted machine.toSetup) _) _
  rw [explore, same, explore]
  cases Exploration.explore machine.toSetup machine.calls ⟨graph, machine.world⟩ <;> rfl

theorem executeInstruction_unlisted (method : String) (instruction : Instruction) (frame : Frame) :
    machine.unlisted.executeInstruction method instruction frame =
      ((machine.executeInstruction method instruction frame).1.unlisted,
        (machine.executeInstruction method instruction frame).2) := by
  have same : instruction.execute machine.unlisted.toSetup machine.unlisted.calls method
        ⟨frame, machine.unlisted.world⟩ =
      instruction.execute machine.toSetup machine.calls method ⟨frame, machine.world⟩ := by
    rw [calls_unlisted]
    exact congrFun (congrFun (congrFun (congrFun
      (Instruction.execute_unlisted machine.toSetup) _) method) instruction) _
  rw [executeInstruction, same, executeInstruction]
  cases instruction.execute machine.toSetup machine.calls method ⟨frame, machine.world⟩ <;> rfl

/-- An update overwrites the lists of a machine, but does not look at them. -/
theorem update_unlisted (method : MethodDef) :
    (machine.unlisted.update method).unlisted = (machine.update method).unlisted := by
  have amended : (machine.unlisted.program.amendClass method).unlisted =
      (machine.program.amendClass method).unlisted := by
    rw [Program.unlisted_amendClass, Program.unlisted_amendClass]
    exact machine.program.unlisted_unlisted
  have registered :
      ((machine.unlisted.program.amendClass method).register method).map Program.unlisted =
        ((machine.program.amendClass method).register method).map Program.unlisted := by
    rw [← Program.register_unlisted, ← Program.register_unlisted, amended]
  have same := machine.program.contains_unlisted method.reference.owner
  cases home : machine.program.classes.contains method.reference.owner with
  | false =>
      rw [update_of_homeless home, update_of_homeless (same.trans home)]
      exact congrArg (fun machine => (⟨_, machine, []⟩ : Report Unit)) machine.unlisted_unlisted
  | true =>
      cases bare : (machine.unlisted.program.amendClass method).register method with
      | error fault =>
          cases plain : (machine.program.amendClass method).register method with
          | error other =>
              rw [bare, plain] at registered
              cases registered
              rw [update_of_refused home plain, update_of_refused (same.trans home) bare]
              exact congrArg (fun program => (⟨_, { machine with program }, _⟩ : Report Unit))
                amended
          | ok program =>
              rw [bare, plain] at registered
              cases registered
      | ok program =>
          cases plain : (machine.program.amendClass method).register method with
          | error other =>
              rw [bare, plain] at registered
              cases registered
          | ok other =>
              rw [bare, plain] at registered
              rw [update_of_register home plain, update_of_register (same.trans home) bare]
              exact congrArg (fun program => (⟨_, { machine with program }, _⟩ : Report Unit))
                (Except.ok.inj registered)

/-! ## Commands -/

theorem reply_unlisted (command : Command) :
    (machine.unlisted.reply command).unlisted = (machine.reply command).unlisted := by
  cases command with
  | operate operation =>
      cases operation with
      | execute descriptor =>
          rw [reply, execute_unlisted]
          exact congrArg Reply.executed (Report.unlisted_unlisted _)
      | executeFrom descriptor frame =>
          rw [reply, executeFrom_unlisted]
          exact congrArg Reply.executed (Report.unlisted_unlisted _)
      | startClass type =>
          rw [reply, startClass_unlisted]
          exact congrArg Reply.done (Report.unlisted_unlisted _)
      | update method => exact congrArg Reply.done (machine.update_unlisted method)
  | explore graph =>
      rw [reply, explore_unlisted]
      exact congrArg (Reply.explored · _) (Report.unlisted_unlisted _)
  | executeInstruction method instruction frame =>
      rw [reply, executeInstruction_unlisted]
      exact congrArg (Reply.stepped · _) (Report.unlisted_unlisted _)
  | reset =>
      rw [reply, reset_unlisted]
      exact congrArg Reply.done (Report.unlisted_unlisted ⟨.ok (), machine.reset, []⟩)

theorem replies_unlisted {left right : Machine} (alike : left.unlisted = right.unlisted)
    (commands : List Command) :
    (left.replies commands).map Reply.unlisted = (right.replies commands).map Reply.unlisted := by
  induction commands generalizing left right with
  | nil => rfl
  | cons command rest induction =>
      have now : (left.reply command).unlisted = (right.reply command).unlisted := by
        rw [← reply_unlisted, alike, reply_unlisted]
      have after : (left.reply command).machine.unlisted =
          (right.reply command).machine.unlisted := by
        rw [← Reply.machine_unlisted, now, Reply.machine_unlisted]
      rw [replies, replies, List.map_cons, List.map_cons, now, induction after]

end Machine

/-! ## Refused updates -/

namespace Program

theorem replaceMethod_eq_self_iff (method : MethodDef) (methods : List MethodDef) :
    replaceMethod method methods = methods ↔
      methods.find? (fun other => other.reference = method.reference) = some method := by
  induction methods with
  | nil => simp [replaceMethod]
  | cons first rest induction =>
      rw [replaceMethod]
      by_cases named : first.reference = method.reference
      · simp [named, eq_comm]
      · simp [named, induction]

theorem find?_amendClass (program : Program) (method : MethodDef) (type : TypeDescriptor) :
    (program.amendClass method).classes.find? type =
      (program.classes.find? type).map fun definition =>
        if type = method.reference.owner then
          { definition with methods := replaceMethod method definition.methods }
        else definition := by
  rw [amendClass, OrdMap.find?_modify]
  split
  · rfl
  · exact Option.map_id'.symm

/-- A class is left as it is if its method of that name is the given one already. -/
theorem amendClass_eq_self_iff (program : Program) (method : MethodDef) :
    program.amendClass method = program ↔
      ∀ definition, program.classes.find? method.reference.owner = some definition →
        definition.methods.find? (fun other => other.reference = method.reference) =
          some method := by
  constructor
  · intro same definition found
    have kept := program.find?_amendClass method method.reference.owner
    rw [same, found, Option.map_some, if_pos rfl] at kept
    exact (replaceMethod_eq_self_iff method _).mp
      (congrArg ClassDef.methods (Option.some.inj kept)).symm
  · intro listed
    have classes : (program.amendClass method).classes = program.classes := by
      refine OrdMap.ext_find? fun type => ?_
      rw [find?_amendClass]
      cases found : program.classes.find? type with
      | none => rfl
      | some definition =>
          rw [Option.map_some]
          split
          · next isOwner =>
              cases isOwner
              rw [(replaceMethod_eq_self_iff method _).mpr (listed definition found)]
          · rfl
    exact congrArg (fun classes => { program with classes }) classes

end Program

namespace Machine

variable {machine after : Machine} {method : MethodDef} {fault : Fault} {events : List Event}

theorem exists_error_update_iff (machine : Machine) (method : MethodDef) :
    (∃ fault, (machine.update method).outcome = .error fault) ↔
      machine.program.classes.contains method.reference.owner = false ∨ ¬ method.Acceptable := by
  constructor
  · rintro ⟨fault, refused⟩
    by_contra accepted
    obtain ⟨home, acceptable⟩ := not_or.mp accepted
    rw [update_of_register (eq_true_of_ne_false home)
      (Program.register_of_acceptable (not_not.mp acceptable))] at refused
    cases refused
  · intro reason
    cases outcome : (machine.update method).outcome with
    | error fault => exact ⟨fault, rfl⟩
    | ok value =>
        obtain ⟨home, acceptable, -⟩ := update_of_ok outcome
        rcases reason with homeless | unacceptable
        · cases home.symm.trans homeless
        · exact absurd acceptable unacceptable

theorem machine_of_refused (refused : machine.update method = ⟨.error fault, after, events⟩) :
    after = { machine with program := machine.program.amendClass method } := by
  cases home : machine.program.classes.contains method.reference.owner with
  | false =>
      -- There is no class to amend.
      have untouched : machine.program.amendClass method = machine.program := by
        refine (machine.program.amendClass_eq_self_iff method).mpr fun definition found => ?_
        rw [OrdMap.contains, found] at home
        cases home
      cases (update_of_homeless home).symm.trans refused
      rw [untouched]
  | true =>
      cases registered : (machine.program.amendClass method).register method with
      | error other =>
          cases (update_of_refused home registered).symm.trans refused
          rfl
      | ok program => cases (update_of_register home registered).symm.trans refused

/-- An update is refused exactly if the class is not defined or the method is not acceptable: it
has too few registers, or code of which there is no graph. Then at most the list of methods in the
definition of its class is another one, and that list changes unless it holds the method already.
Whatever is asked of the machine afterwards, the replies are the same as if the update had not
been tried, but for such lists. -/
theorem refused_updates (machine : Machine) (method : MethodDef) :
    ((∃ fault, (machine.update method).outcome = .error fault) ↔
      machine.program.classes.contains method.reference.owner = false ∨ ¬ method.Acceptable) ∧
    ∀ fault after events, machine.update method = ⟨.error fault, after, events⟩ →
      after =
          { machine with program := { machine.program with classes := after.program.classes } } ∧
        (∀ type, after.program.classes.find? type =
          (machine.program.classes.find? type).map fun definition =>
            if type = method.reference.owner then
              { definition with methods := Program.replaceMethod method definition.methods }
            else definition) ∧
        (after = machine ↔
          ∀ definition, machine.program.classes.find? method.reference.owner = some definition →
            definition.methods.find? (fun other => other.reference = method.reference) =
              some method) ∧
        after.program.isImmutable = machine.program.isImmutable ∧
        ∀ commands, (after.replies commands).map Reply.unlisted =
          (machine.replies commands).map Reply.unlisted := by
  refine ⟨machine.exists_error_update_iff method, fun fault after events refused => ?_⟩
  cases machine_of_refused refused
  have alike : { machine with program := machine.program.amendClass method }.unlisted =
      machine.unlisted :=
    congrArg (fun program => { machine with program })
      (machine.program.unlisted_amendClass method)
  refine ⟨rfl, machine.program.find?_amendClass method, ?_, ?_, replies_unlisted alike⟩
  · rw [← Program.amendClass_eq_self_iff]
    exact ⟨fun same => congrArg (fun machine => machine.program) same,
      fun same => congrArg (fun program => { machine with program }) same⟩
  · rw [← Program.isImmutable_unlisted, Program.unlisted_amendClass, Program.isImmutable_unlisted]

/-! A class with one method, and two methods that it cannot take. -/

def dialMethod : MethodDef where
  reference := ⟨⟨"LDial;"⟩, "turn", [.int], .int⟩
  flags := 8
  registers := 1
  instructions := [.ofOp 0 (.giveBack (some 0))]
  tries := []

def dialClass : ClassDef := ⟨⟨"LDial;"⟩, 0, [], [dialMethod]⟩

def narrowDial : MethodDef := { dialMethod with registers := 0 }

def lateDial : MethodDef :=
  { dialMethod with
    reference := ⟨⟨"LDial;"⟩, "stop", [.int], .int⟩
    instructions := [.ofOp 1 (.giveBack (some 0))] }

/-- The class lists a method in the place of another one, or a further method, though both are
refused. -/
theorem listed_though_refused :
    ∃ machine, load [dialClass] {} = .ok machine ∧
      (machine.update narrowDial).outcome.isOk = false ∧
      (machine.update narrowDial).machine ≠ machine ∧
      (machine.update narrowDial).machine.program.classes.find? ⟨"LDial;"⟩ =
        some { dialClass with methods := [narrowDial] } ∧
      (machine.update narrowDial).machine.method? dialMethod.descriptor = some dialMethod ∧
      (machine.update lateDial).outcome.isOk = false ∧
      (machine.update lateDial).machine ≠ machine ∧
      (machine.update lateDial).machine.program.classes.find? ⟨"LDial;"⟩ =
        some { dialClass with methods := [dialMethod, lateDial] } ∧
      (machine.update lateDial).machine.method? lateDial.descriptor = none := by
  cases loaded : load [dialClass] {} with
  | error fault => cases loaded
  | ok machine =>
      refine ⟨machine, rfl, ?_⟩
      cases loaded
      decide +kernel

def dialCommands : List Command :=
  [.operate (.execute dialMethod.descriptor), .operate (.update dialMethod), .reset]

theorem refused_updates_dial :
    ∃ machine, load [dialClass] {} = .ok machine ∧
      (machine.update narrowDial).machine ≠ machine ∧
      ((machine.update narrowDial).machine.replies dialCommands).map Reply.unlisted =
        (machine.replies dialCommands).map Reply.unlisted := by
  cases loaded : load [dialClass] {} with
  | error fault => cases loaded
  | ok machine =>
      obtain ⟨-, refused⟩ := refused_updates machine narrowDial
      have narrow : machine.update narrowDial =
          ⟨.error (.malformed (.tooFewRegisters dialMethod.descriptor 0 1)),
            (machine.update narrowDial).machine, [.rebuilding dialMethod.descriptor]⟩ := by
        cases loaded
        rfl
      obtain ⟨-, -, unchanged, -, alike⟩ := refused _ _ _ narrow
      refine ⟨machine, rfl, fun same => ?_, alike dialCommands⟩
      have listed := unchanged.mp same dialClass (by cases loaded; rfl)
      revert listed
      decide

end Machine

end Dexplore
