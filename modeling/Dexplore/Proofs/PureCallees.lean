import Dexplore.Proofs.OwnWrites
import Dexplore.Proofs.Widening

/-!
# Callees that leave their caller alone

A pure method puts no static field, stores into no array and makes no calls.  Every path through
it carries the static writes that its caller passed on, so the caller takes over what it has
anyway (`Invocation.summarise_of_carried`).  The writes do reach the classes, which may be the
first to see them; but a class holds one value under each name, and the names that the caller has
not written are left alone.  So after the call of a pure method the caller reads what it read
before (`Machine.pure_callees`).
-/

set_option autoImplicit false

namespace Dexplore

open Execution Exploration

/-! ## Pure code -/

/-- A method that puts no static field, stores into no array and makes no calls. -/
def MethodDef.IsPure (method : MethodDef) : Prop :=
  ∀ instruction ∈ method.instructions,
    instruction.op.staticPut? = none ∧ instruction.op.mayStore = false

instance (method : MethodDef) : Decidable method.IsPure :=
  inferInstanceAs (Decidable (∀ instruction ∈ method.instructions, _ ∧ _))

structure Graph.IsPure (graph : Graph) : Prop where
  puts : graph.staticPuts = []
  stores : graph.mayStore = false

theorem MethodDef.IsPure.template {method : MethodDef} (isPure : method.IsPure) {template : Graph}
    (built : Graph.ofMethod method = .ok template) : template.IsPure where
  puts := by
    refine List.eq_nil_iff_forall_not_mem.mpr fun field isPut => ?_
    obtain ⟨instruction, inside, puts⟩ := Graph.put_of_ofMethod built isPut
    cases (isPure instruction inside).1.symm.trans puts
  stores := Graph.mayStore_of_ofMethod built fun instruction inside => (isPure instruction inside).2

namespace Graph.IsPure

variable {graph code : Graph}

theorem of_sameCode (isPure : code.IsPure) (same : graph.SameCode code) : graph.IsPure where
  puts := by
    refine List.eq_nil_iff_forall_not_mem.mpr fun field isPut => ?_
    rw [same.mem_staticPuts_iff, isPure.puts] at isPut
    cases isPut
  stores := same.mayStore_eq.trans isPure.stores

theorem giveUp (isPure : graph.IsPure) (statics : Statics) : statics.giveUp graph = statics := by
  rw [Statics.giveUp, isPure.puts, isPure.stores]
  rfl

theorem abandoned (isPure : graph.IsPure) (method : MethodRef) (caller : Frame) :
    (Invocation.abandoned method caller graph).writes = [] := by
  rw [Invocation.abandoned, Invocation.abandonedWrites, isPure.puts, isPure.stores]
  rfl

end Graph.IsPure

/-- Where all classes have been started, a pure method that does not fail leaves them as they
are, or else comes to its end with the static writes that it was given on every path. -/
theorem Execution.execute_of_pure {setup : Setup} (consistent : setup.program.Consistent)
    {depth : Nat} {descriptor : String} {template : Graph} {entry : Frame} {world after : World}
    {result : Option Graph} (code : setup.program.templates.find? descriptor = some template)
    (isPure : template.IsPure) (settled : ∀ type, world.statics.Settled type)
    (executed : (callsAt setup depth).execute descriptor entry world = .ok result after) :
    (result = none ∧ after.statics = world.statics) ∨
      ∃ graph strong, result = some graph ∧ after.statics = world.statics.commit graph strong ∧
        ∀ last ∈ graph.frames graph.connectedTerminating, last.statics = entry.statics := by
  have started := start_of_settled setup depth (settled (classOfDescriptor descriptor))
  by_cases room : depth < setup.config.maxDepth
  · obtain ⟨method, -, built⟩ := consistent.template code
    rw [execute_of_room code started room] at executed
    let entered : Exploration := ⟨template.setRootFrame entry, entering template depth world⟩
    have same := sameCode_explore setup (callsAt setup (depth + 1)) built entry
      (entering template depth world)
    have code : entered.graph.IsPure :=
      isPure.of_sameCode (template.sameCode_setRootFrame entry)
    have idle : (callsAt setup (depth + 1)).Idle := callsOf_idle setup _
    have kept := statics_explore_of_settled setup idle entered code.stores settled
    have carried := @statics_explore (· = entry.statics) setup (callsAt setup (depth + 1)) entered
      code.stores (by simp [code.puts]) ((Graph.allFrames_template built _).setRootFrame rfl)
    cases explored : explore setup (callsAt setup (depth + 1)) entered with
    | ok value done =>
        rw [explored] at executed kept carried
        replace kept : done.world.statics = world.statics := kept
        cases executed
        refine .inr ⟨done.graph, setup.program.isInitializer done.graph.method, rfl, ?_,
          fun last isLast => carried.of_mem_frames isLast⟩
        rw [← kept]
        rfl
    | error fault done =>
        rw [explored] at executed same kept
        replace kept : done.world.statics = world.statics := kept
        rw [conclude] at executed
        split at executed
        · cases executed
          refine .inl ⟨rfl, ?_⟩
          rw [← kept]
          exact (isPure.of_sameCode same).giveUp done.world.statics
        · cases executed
  · rw [execute_of_deep code started (Nat.le_of_not_lt room)] at executed
    cases executed
    exact .inl ⟨rfl, isPure.giveUp world.statics⟩

/-! ## Taking over what one has -/

theorem OrdMap.insert_of_find? {κ α : Type} [Ord κ] [Std.TransOrd κ] [Std.LawfulEqOrd κ]
    [DecidableEq κ] {map : OrdMap κ α} {key : κ} {value : α}
    (found : map.find? key = some value) : map.insert key value = map := by
  refine OrdMap.ext_find? fun wanted => ?_
  rw [OrdMap.find?_insert]
  split
  · next same => rw [← same, found]
  · rfl

theorem Frame.foldl_writeStatic_of_written {writes : List (FieldRef × Value)} {frame : Frame}
    (written : ∀ write ∈ writes, frame.static? write.1 = some write.2) :
    writes.foldl (fun frame write => frame.writeStatic write.1 write.2) frame = frame := by
  induction writes with
  | nil => rfl
  | cons head rest induction =>
      have same : frame.writeStatic head.1 head.2 = frame := by
        rw [writeStatic, OrdMap.insert_of_find? (written head List.mem_cons_self)]
      rw [List.foldl_cons, same]
      exact induction fun write later => written write (List.mem_cons_of_mem _ later)

namespace Graph

variable {graph : Graph} {caller : Frame}

/-- If every path ends with the static writes of the caller, those are the fields that count as
written. -/
theorem written_of_carried
    (carried : ∀ last ∈ graph.frames graph.connectedTerminating, last.statics = caller.statics)
    {field : FieldRef} (isWritten : field ∈ graph.writtenStatics) :
    ∃ value, caller.static? field = some value ∧
      ∀ baseline, graph.staticConsensus field baseline = value := by
  obtain ⟨last, isLast, some⟩ := (graph.mem_writtenStatics_iff field).mp isWritten
  rw [Frame.static?, carried last isLast] at some
  obtain ⟨value, isValue⟩ := Option.isSome_iff_exists.mp some
  refine ⟨value, isValue, staticConsensus_of_carried isWritten fun other isOther => ?_⟩
  rw [Frame.static?, carried other isOther]
  exact isValue

end Graph

theorem Invocation.summarise_of_carried {graph : Graph} {caller : Frame}
    (carried : ∀ last ∈ graph.frames graph.connectedTerminating, last.statics = caller.statics)
    (method : MethodRef) (statics : Statics) :
    let outcome := summarise method caller statics graph
    outcome.writes.foldl (fun frame write => frame.writeStatic write.1 write.2)
      (caller.withResult outcome.result) = caller.withResult outcome.result := by
  intro outcome
  refine Frame.foldl_writeStatic_of_written fun write isWrite => ?_
  obtain ⟨field, isWritten, rfl⟩ := List.mem_map.mp isWrite
  obtain ⟨value, isValue, agreed⟩ := Graph.written_of_carried carried isWritten
  rw [agreed]
  exact isValue

theorem Invocation.statics_entryFrame {callee : MethodDef} {method : MethodRef} {isStatic : Bool}
    {caller entry : Frame} {args : List Register}
    (entered : entryFrame callee method isStatic caller args = .ok entry) :
    entry.statics = caller.statics := by
  have inherits : ∀ {result : Except Fault Frame},
      (do let bound ← result
          return bound.inheritStatics caller : Except Fault Frame) = .ok entry →
        entry.statics = caller.statics := by
    intro result given
    obtain ⟨bound, -, inherited⟩ := Except.bind_eq_ok_iff.mp given
    cases inherited
    rfl
  unfold entryFrame at entered
  cases isStatic with
  | true => exact inherits entered
  | false =>
      cases args with
      | nil => exact inherits entered
      | cons receiver rest =>
          obtain ⟨value, -, entered⟩ := Except.bind_eq_ok_iff.mp entered
          obtain ⟨received, -, entered⟩ := Except.bind_eq_ok_iff.mp entered
          exact inherits entered

/-! ## Calls that succeed -/

theorem Run.bind_eq_ok {α β : Type} {run : Run α} {next : α → Run β} {world after : World}
    {value : β} :
    (run >>= next) world = .ok value after ↔
      ∃ first middle, run world = .ok first middle ∧ next first middle = .ok value after := by
  simp only [bind, EStateM.bind]
  cases run world <;> simp

/-- A call that succeeds has started the class of a method without code, or taken over what has
become of its callee. -/
theorem Program.invoke_eq_ok {program : Program} {calls : Calls} {kind : InvokeKind}
    {reference : MethodRef} {caller : Frame} {args : List Register} {world after : World}
    {outcome : CallOutcome}
    (run : program.invoke calls kind reference caller args world = .ok outcome after) :
    (program.callee? reference.descriptor = none ∧
        calls.start reference.owner world = .ok () after ∧ outcome.writes = []) ∨
      ∃ callee template entry result,
        program.callee? reference.descriptor = some (callee, template) ∧
        Invocation.entryFrame callee reference (kind = .static) caller args = .ok entry ∧
        calls.execute reference.descriptor entry world = .ok result after ∧
        Invocation.takeOver reference caller template result after = .ok outcome after := by
  unfold Program.invoke at run
  by_cases fits : args.length = reference.parameters.length +
      (if (decide (kind = .static) : Bool) then 0 else 1)
  · simp only [fits, ne_eq, not_true_eq_false, if_false] at run
    cases found : program.callee? reference.descriptor with
    | none =>
        rw [found] at run
        obtain ⟨_, middle, started, done⟩ := Run.bind_eq_ok.mp run
        cases done
        exact .inl ⟨rfl, started, rfl⟩
    | some pair =>
        obtain ⟨callee, template⟩ := pair
        rw [found] at run
        by_cases agrees : callee.isStatic = decide (kind = .static)
        · simp only [agrees, not_true_eq_false, if_false] at run
          obtain ⟨entry, _, entered, run⟩ := Run.bind_eq_ok.mp run
          obtain ⟨result, left, executed, run⟩ := Run.bind_eq_ok.mp run
          cases isEntry : Invocation.entryFrame callee reference (kind = .static) caller args with
          | error fault =>
              rw [isEntry] at entered
              cases entered
          | ok frame =>
              rw [isEntry] at entered
              cases entered
              refine .inr ⟨callee, template, _, result, rfl, isEntry, ?_⟩
              cases result <;> cases run <;> exact ⟨executed, rfl⟩
        · simp only [agrees, not_false_eq_true, if_true] at run
          cases run
  · simp only [fits, ne_eq, not_false_eq_true, if_true] at run
    cases run

theorem Step.forgetArguments_of_scalars {program : Program} {args : List Register}
    {scene after : Scene} {done : Unit}
    (scalars : ∀ register ∈ args, ∀ value, scene.frame.read register = .ok value →
      value.isMutable = false)
    (run : args.forM (forgetArgument program) scene = .ok done after) : after = scene := by
  induction args with
  | nil =>
      cases run
      rfl
  | cons register rest induction =>
      obtain ⟨_, middle, first, others⟩ := bind_eq_ok.mp run
      obtain ⟨value, _, isRead, kept⟩ := bind_eq_ok.mp first
      obtain ⟨held, rfl⟩ := read_eq_ok.mp isRead
      rw [scalars register List.mem_cons_self value held] at kept
      cases kept
      exact induction (fun other later => scalars other (List.mem_cons_of_mem _ later)) others

/-- The call of a pure method gives the caller no static write that it has not made itself, and
leaves the classes alone under every name that the caller has not written. -/
theorem Program.invoke_of_pure {setup : Setup} (consistent : setup.program.Consistent)
    {depth : Nat} {kind : InvokeKind} {reference : MethodRef} {caller : Frame}
    {args : List Register} {world after : World} {outcome : CallOutcome}
    (isPure : ∀ callee, setup.program.methods.find? reference.descriptor = some callee →
      callee.IsPure)
    (settled : ∀ type, world.statics.Settled type)
    (run : setup.program.invoke (callsAt setup depth) kind reference caller args world =
      .ok outcome after) :
    outcome.writes.foldl (fun frame write => frame.writeStatic write.1 write.2)
        (caller.withResult outcome.result) = caller.withResult outcome.result ∧
      ∀ owner name, (∀ other, (caller.static? other).isSome →
        ¬(other.owner = owner ∧ other.name = name)) →
          after.statics.held? owner name = world.statics.held? owner name := by
  rcases invoke_eq_ok run with ⟨-, start, noWrites⟩ |
    ⟨callee, template, entry, result, found, entered, executed, takenOver⟩
  · cases (start_of_settled setup depth (settled _)).symm.trans start
    rw [noWrites]
    exact ⟨rfl, fun _ _ _ => rfl⟩
  · have code := (callee?_eq_some found).2
    have pureCode : template.IsPure := by
      obtain ⟨method, isMethod, built⟩ := consistent.template code
      exact (isPure method isMethod).template built
    have inherited := Invocation.statics_entryFrame entered
    rcases execute_of_pure consistent code pureCode settled executed with
      ⟨rfl, unchanged⟩ | ⟨graph, strong, rfl, committed, carried⟩
    · cases takenOver
      rw [pureCode.abandoned, unchanged]
      exact ⟨rfl, fun _ _ _ => rfl⟩
    · rw [inherited] at carried
      cases takenOver
      refine ⟨Invocation.summarise_of_carried carried reference after.statics, ?_⟩
      intro owner name unwritten
      rw [committed]
      refine Statics.held?_foldl_commitField_of_ne strong _ (fun field isWritten => ?_) _
      obtain ⟨value, isValue, -⟩ := Graph.written_of_carried carried isWritten
      exact unwritten field (by rw [isValue]; rfl)

namespace Machine

variable {machine : Machine}

/-- Where all classes have been started, a call of a pure method with no known array among its
arguments, if it succeeds, changes nothing of the path but the result.  What the path reads for a
static field is the same before and after, unless the path has written a field that only the type
tells from it. -/
theorem pure_callees (loaded : machine.Loaded) {depth : Nat} {world : World}
    (settled : ∀ type, world.statics.Settled type) {instruction : Instruction}
    {kind : InvokeKind} {reference : MethodRef} {args : List Register}
    (isCall : instruction.op = .invoke kind reference args)
    (isPure : ∀ callee, machine.method? reference.descriptor = some callee → callee.IsPure)
    {frame : Frame}
    (scalars : ∀ register ∈ args, ∀ value, frame.read register = .ok value →
      value.isMutable = false)
    {method : String} {successors : List Address} {scene : Scene}
    (run : instruction.execute machine.toSetup (callsAt machine.toSetup depth) method
      ⟨frame, world⟩ = .ok successors scene) :
    scene.frame = frame.withResult scene.frame.result ∧
      ∀ field : FieldRef, (∀ other, (frame.static? other).isSome → other.owner = field.owner →
        other.name = field.name → other.type = field.type) →
          scene.world.statics.valueOn scene.frame field = world.statics.valueOn frame field := by
  obtain ⟨outcome, after, isOutcome, forgotten⟩ :=
    Step.forget_of_invoke (Instruction.invoke_of_execute isCall run)
  obtain ⟨taken, classes⟩ :=
    Program.invoke_of_pure loaded.consistent isPure settled isOutcome
  rw [taken] at forgotten
  cases Step.forgetArguments_of_scalars scalars forgotten
  refine ⟨rfl, fun field sole => ?_⟩
  change (frame.static? field).getD (after.statics.stored field) =
    (frame.static? field).getD (world.statics.stored field)
  cases written : frame.static? field with
  | some value => rfl
  | none =>
      refine Statics.stored_eq_of_held? (classes field.owner field.name ?_)
      rintro ⟨owner, name, type⟩ isWritten ⟨isOwner, named⟩
      have typed := sole _ isWritten isOwner named
      cases isOwner
      cases named
      cases typed
      rw [written] at isWritten
      cases isWritten

/-! A method that looks at a static field and gives back its argument. -/

def echoField : FieldRef := ⟨⟨"LEcho;"⟩, "heard", .int⟩

def echoMethod : MethodDef where
  reference := ⟨⟨"LEcho;"⟩, "echo", [.int], .int⟩
  flags := 8
  registers := 2
  instructions := [.ofOp 0 (.staticGet 0 echoField), .ofOp 2 (.giveBack (some 1))]
  tries := []

def echoClass : ClassDef :=
  ⟨⟨"LEcho;"⟩, 0, [⟨"heard", .int, 8, none⟩, ⟨"mode", .int, 8, none⟩], [echoMethod]⟩

def echoCall : Instruction := .ofOp 0 (.invoke .static echoMethod.reference [0])

def echoFrame : Frame := ⟨[.int 5], 0, none, .ofList [(⟨⟨"LEcho;"⟩, "mode", .int⟩, .int 3)]⟩

theorem pure_callees_echo :
    ∃ machine started scene, load [echoClass] {} = .ok machine ∧
      (machine.startClass ⟨"LEcho;"⟩).machine = started ∧
      echoCall.execute started.toSetup started.calls "LApp;->main()V"
        ⟨echoFrame, started.world⟩ = .ok [3] scene ∧
      scene.frame = echoFrame.withResult scene.frame.result ∧
      scene.world.statics.valueOn scene.frame echoField =
        started.world.statics.valueOn echoFrame echoField := by
  cases loaded : load [echoClass] {} with
  | error fault => cases loaded
  | ok machine =>
      obtain ⟨started, isStarted⟩ : ∃ started,
          (machine.startClass ⟨"LEcho;"⟩).machine = started := ⟨_, rfl⟩
      have same : machine.OnlyStatics started := isStarted ▸ onlyStatics_startClass _
      have isLoaded : started.Loaded := ⟨machine, .load loaded trivial, same.toSetup.symm⟩
      have settled : ∀ type, started.world.statics.Settled type := by
        have all : ∀ entry ∈ started.statics.entries, entry.2.initialized = true := by
          cases loaded
          cases isStarted
          decide +kernel
        exact fun type state found => all (type, state) (OrdMap.find?_eq_some_iff.mp found)
      have isPure : ∀ callee, started.method? echoMethod.descriptor = some callee →
          callee.IsPure := by
        intro callee found
        rw [method?, same.toSetup] at found
        cases loaded
        cases found
        decide
      have scalars : ∀ register ∈ [0], ∀ value, echoFrame.read register = .ok value →
          value.isMutable = false := by
        intro register isArg value isRead
        cases List.mem_singleton.mp isArg
        cases isRead
        rfl
      have sole : ∀ other, (echoFrame.static? other).isSome → other.owner = echoField.owner →
          other.name = echoField.name → other.type = echoField.type := by
        intro other isWritten _ named
        have keys : echoFrame.statics.keys = [⟨⟨"LEcho;"⟩, "mode", .int⟩] := by decide +kernel
        have inside := (OrdMap.mem_keys_iff _ _).mpr isWritten
        rw [keys] at inside
        cases List.mem_singleton.mp inside
        rfl
      have succeeds : (started.executeInstruction "LApp;->main()V" echoCall
          echoFrame).1.outcome.toOption = some [3] := by
        cases loaded
        cases isStarted
        decide +kernel
      rw [executeInstruction] at succeeds
      cases ran : echoCall.execute started.toSetup started.calls "LApp;->main()V"
          ⟨echoFrame, started.world⟩ with
      | error fault scene =>
          rw [ran] at succeeds
          cases succeeds
      | ok successors scene =>
          rw [ran] at succeeds
          cases succeeds
          obtain ⟨kept, reads⟩ := pure_callees isLoaded settled rfl isPure scalars ran
          exact ⟨machine, started, scene, rfl, isStarted, ran, kept, reads echoField sole⟩

end Machine

end Dexplore
