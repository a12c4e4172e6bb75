import Dexplore.Proofs.Traversal
import Dexplore.Proofs.TypedRuns

/-!
# The order of the classes

Classes can be loaded in any order, and whenever a machine goes through all of them it can take
them in any order: each command gives the same reply, and leaves the same machine
(`Machine.order_irrelevant`).
-/

set_option autoImplicit false

namespace Dexplore

/-! ## Loading -/

variable {definitions permuted : List ClassDef}

theorem Loadable.perm (loadable : Loadable definitions) (reordered : permuted.Perm definitions) :
    Loadable permuted where
  names := (reordered.map _).nodup_iff.mpr loadable.names
  methods definition inside := loadable.methods definition (reordered.mem_iff.mp inside)
  descriptors := ((reordered.flatMap_right _).map _).nodup_iff.mpr loadable.descriptors

theorem Program.Holds.perm {program : Program} (holds : program.Holds definitions)
    (reordered : permuted.Perm definitions) : program.Holds permuted := by
  have methods (method : MethodDef) : method ∈ permuted.flatMap (·.methods) ↔
      method ∈ definitions.flatMap (·.methods) := (reordered.flatMap_right _).mem_iff
  refine ⟨⟨fun descriptor method => ?_, fun descriptor graph => ?_⟩, fun type definition => ?_⟩
  · rw [methods, holds.methods]
  · simp only [methods, holds.templates]
  · rw [reordered.mem_iff, holds.classes]

theorem Machine.load_perm {machine : Machine} {config : Config}
    (loaded : load definitions config = .ok machine) (reordered : permuted.Perm definitions) :
    load permuted config = .ok machine := by
  obtain ⟨loadable, holds, sameConfig, fresh⟩ := load_eq_ok_iff.mp loaded
  exact load_eq_ok_iff.mpr ⟨loadable.perm reordered, holds.perm reordered, sameConfig, fresh⟩

/-! ## Loading again -/

def Program.Named (program : Program) : Prop :=
  ∀ type definition, program.classes.find? type = some definition → definition.name = type

theorem Program.Holds.named {program : Program} (holds : program.Holds definitions) :
    program.Named :=
  fun type definition found => ((holds.classes type definition).mp found).2

theorem Traversal.reload_eq (traversal : Traversal) {program : Program} (named : program.Named) :
    traversal.reload program.classes = .ofDefinitions program.classes := by
  refine OrdMap.ofList_of_perm ?_
  have byName : (traversal.order [] program.classes).map
        (fun entry => (entry.2.name, ClassState.ofDefinition entry.2)) =
      (traversal.order [] program.classes).map
        fun entry => (entry.1, ClassState.ofDefinition entry.2) := by
    refine List.map_congr_left fun entry inside => ?_
    rw [named entry.1 entry.2 (OrdMap.find?_eq_some_iff.mpr
      ((traversal.reordered _ _).mem_iff.mp inside))]
  rw [byName]
  exact (traversal.reordered _ _).map _

theorem Program.Named.update {machine : Machine} (named : machine.program.Named)
    (method : MethodDef) : (machine.update method).machine.program.Named := by
  have amended : (machine.program.amendClass method).Named := by
    intro type definition found
    rw [amendClass, OrdMap.find?_modify] at found
    split at found
    · obtain ⟨before, isBefore, rfl⟩ := Option.map_eq_some_iff.mp found
      exact named type before isBefore
    · exact named type definition found
  obtain same | ⟨-, program, same, rfl | registered⟩ := machine.update_cases method
  · rw [same]
    exact named
  · rw [same]
    exact amended
  · rw [same]
    obtain ⟨-, rfl⟩ := register_eq_ok_iff.mp registered
    exact amended

/-! ## Replies -/

/-- All that a command gives: the outcome, the machine afterwards and the events, and the graph or
the frame that was worked on. -/
inductive Reply where
  | executed (report : Report (Option Graph))
  | done (report : Report Unit)
  | explored (report : Report Unit) (graph : Graph)
  | stepped (report : Report (List Address)) (frame : Frame)

namespace Reply

def machine : Reply → Machine
  | executed report => report.machine
  | done report => report.machine
  | explored report _ => report.machine
  | stepped report _ => report.machine

end Reply

namespace Machine

def reply (machine : Machine) : Command → Reply
  | .operate (.execute descriptor) => .executed (machine.execute descriptor)
  | .operate (.executeFrom descriptor frame) => .executed (machine.executeFrom descriptor frame)
  | .operate (.startClass type) => .done (machine.startClass type)
  | .operate (.update method) => .done (machine.update method)
  | .explore graph => .explored (machine.explore graph).1 (machine.explore graph).2
  | .executeInstruction method instruction frame =>
    .stepped (machine.executeInstruction method instruction frame).1
      (machine.executeInstruction method instruction frame).2
  | .reset => .done ⟨.ok (), machine.reset, []⟩

def replies (machine : Machine) : List Command → List Reply
  | [] => []
  | command :: rest => machine.reply command :: (machine.reply command).machine.replies rest

end Machine

namespace Traversal

variable (traversal : Traversal)

def executeFrom (machine : Machine) (descriptor : String) (frame : Frame) :
    Report (Option Graph) :=
  machine.perform ((traversal.calls machine).execute descriptor frame)

def reply (machine : Machine) : Command → Reply
  | .operate (.execute descriptor) => .executed
    (match machine.rootFrame descriptor with
    | .ok frame => traversal.executeFrom machine descriptor frame
    | .error fault => ⟨.error fault, machine, []⟩)
  | .operate (.executeFrom descriptor frame) =>
    .executed (traversal.executeFrom machine descriptor frame)
  | .operate (.startClass type) => .done (machine.perform ((traversal.calls machine).start type))
  | .operate (.update method) => .done (machine.update method)
  | .explore graph =>
    match traversal.explore machine.toSetup (traversal.calls machine) ⟨graph, machine.world⟩ with
    | .ok _ done => .explored
      ⟨.ok (), machine.afterwards done.world, done.world.events.reverse⟩ done.graph
    | .error fault done => .explored
      ⟨.error fault, machine.afterwards done.world, done.world.events.reverse⟩ done.graph
  | .executeInstruction method instruction frame =>
    match traversal.execute machine.toSetup (traversal.calls machine) method instruction
        ⟨frame, machine.world⟩ with
    | .ok successors scene => .stepped
      ⟨.ok successors, machine.afterwards scene.world, scene.world.events.reverse⟩ scene.frame
    | .error fault scene => .stepped
      ⟨.error fault, machine.afterwards scene.world, scene.world.events.reverse⟩ scene.frame
  | .reset => .done
    ⟨.ok (), { machine with statics := traversal.reload machine.program.classes, callDepth := 0 },
      []⟩

theorem reply_eq {machine : Machine} (named : machine.program.Named) (command : Command) :
    traversal.reply machine command = machine.reply command := by
  cases command with
  | operate operation =>
      cases operation with
      | execute descriptor =>
          unfold reply executeFrom
          rewrite [calls_eq]
          rfl
      | executeFrom descriptor frame =>
          unfold reply executeFrom
          rewrite [calls_eq]
          rfl
      | startClass type =>
          unfold reply
          rewrite [calls_eq]
          rfl
      | update method => rfl
  | explore graph =>
      rw [reply, calls_eq, explore_eq, Machine.reply, Machine.explore]
      cases Exploration.explore machine.toSetup machine.calls ⟨graph, machine.world⟩ <;> rfl
  | executeInstruction method instruction frame =>
      rw [reply, calls_eq, execute_eq, Machine.reply, Machine.executeInstruction]
      cases instruction.execute machine.toSetup machine.calls method ⟨frame, machine.world⟩ <;> rfl
  | reset =>
      unfold reply
      rewrite [traversal.reload_eq named]
      rfl

def replies (traversals : Nat → Traversal) (machine : Machine) : List Command → List Reply
  | [] => []
  | command :: rest =>
    let reply := (traversals 0).reply machine command
    reply :: replies (fun time => traversals (time + 1)) reply.machine rest

end Traversal

namespace Machine

variable {machine : Machine}

theorem named_reply (named : machine.program.Named) (command : Command) :
    (machine.reply command).machine.program.Named := by
  have kept {after : Machine} (same : machine.OnlyStatics after) : after.program.Named := by
    intro type definition found
    exact named type definition (same.classes ▸ found)
  cases command with
  | operate operation =>
      cases operation with
      | execute descriptor => exact kept (onlyStatics_execute descriptor)
      | executeFrom descriptor frame => exact kept (onlyStatics_executeFrom descriptor frame)
      | startClass type => exact kept (onlyStatics_startClass type)
      | update method => exact named.update method
  | explore graph => exact kept (onlyStatics_explore graph)
  | executeInstruction method instruction frame =>
      exact kept (onlyStatics_executeInstruction method instruction frame)
  | reset => exact named

theorem replies_eq (named : machine.program.Named) (traversals : Nat → Traversal)
    (commands : List Command) :
    Traversal.replies traversals machine commands = machine.replies commands := by
  induction commands generalizing machine traversals with
  | nil => rfl
  | cons command rest induction =>
      rw [Traversal.replies, replies, Traversal.reply_eq _ named,
        induction (named_reply named command)]

/-- Classes that can be loaded can be loaded in any order, and two machines with the same classes
give the same replies to the same commands, in whatever orders the one and the other go through
their classes time after time. These are the replies in the order of names. In particular each
single loop over the classes has the same effect in every order. -/
theorem order_irrelevant {config : Config} (loaded : load definitions config = .ok machine)
    (reordered : permuted.Perm definitions) :
    ∃ other, load permuted config = .ok other ∧ other.readyEvent = machine.readyEvent ∧
      (∀ (first second : Nat → Traversal) (commands : List Command),
        Traversal.replies second other commands = Traversal.replies first machine commands ∧
          Traversal.replies first machine commands = machine.replies commands) ∧
      ∀ (traversal : Traversal) (world : World),
        (∀ frame type,
          traversal.forgetArrays world frame type = world.statics.forgetArrays frame type) ∧
        ∀ graph, traversal.giveUp world graph = world.statics.giveUp graph := by
  have named := (load_eq_ok_iff.mp loaded).2.1.named
  refine ⟨machine, load_perm loaded reordered, rfl, fun first second commands => ?_,
    fun traversal world => ⟨traversal.forgetArrays_eq world, traversal.giveUp_eq world⟩⟩
  have inFirst := replies_eq named first commands
  have inSecond := replies_eq named second commands
  exact ⟨inSecond.trans inFirst.symm, inFirst⟩

def crateField : FieldRef := ⟨⟨"LCrate;"⟩, "tools", ⟨"[B"⟩⟩

def packMethod : MethodDef where
  reference := ⟨⟨"LCrate;"⟩, "pack", [], .void⟩
  flags := 8
  registers := 2
  instructions :=
    [.ofOp 0 (.const 0 (.int 1)), .ofOp 3 (.newArray 1 0 ⟨"[B"⟩), .ofOp 5 (.arrayPut 0 1 0),
     .ofOp 7 (.jump 0)]
  tries := []

def crateClass : ClassDef where
  name := ⟨"LCrate;"⟩
  flags := 0
  fields := [⟨"tools", ⟨"[B"⟩, 8, none⟩]
  methods :=
    [{ reference := ⟨⟨"LCrate;"⟩, "<clinit>", [], .void⟩
       flags := 8
       registers := 2
       instructions :=
        [.ofOp 0 (.const 0 (.int 1)), .ofOp 3 (.newArray 1 0 ⟨"[B"⟩),
         .ofOp 5 (.staticPut 1 crateField), .ofOp 7 (.giveBack none)]
       tries := [] },
     packMethod]

def backwards : Traversal := ⟨fun _ map => map.entries.reverse, fun _ _ => List.reverse_perm _⟩

def packCommands : List Command :=
  [.operate (.startClass ⟨"LShelf;"⟩), .operate (.startClass ⟨"LCrate;"⟩),
    .operate (.execute packMethod.descriptor), .reset]

theorem order_irrelevant_pack :
    ∃ machine other, load [shelfClass, crateClass] { maxVisits := 2 } = .ok machine ∧
      load [crateClass, shelfClass] { maxVisits := 2 } = .ok other ∧
      backwards.order [] other.statics ≠ machine.statics.entries ∧
      (Traversal.replies (fun _ => backwards) other packCommands).map (fun reply =>
          [shelfField, crateField].map fun field =>
            (reply.machine.statics.stored field).isMutable) =
        [[true, false], [true, true], [false, false], [false, false]] := by
  cases loaded : load [shelfClass, crateClass] { maxVisits := 2 } with
  | error fault => cases loaded
  | ok machine =>
      obtain ⟨other, again, -, same, -⟩ :=
        order_irrelevant loaded (List.Perm.swap shelfClass crateClass [])
      obtain ⟨alike, plain⟩ := same (fun _ => backwards) (fun _ => backwards) packCommands
      refine ⟨machine, other, rfl, again, ?_, ?_⟩
      · cases loaded
        cases again
        decide +kernel
      · rw [alike, plain]
        cases loaded
        decide +kernel

end Machine

end Dexplore
