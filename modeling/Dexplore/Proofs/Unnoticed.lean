import Dexplore.Proofs.Runs
import Dexplore.Proofs.Visit

/-!
# Changes that are not noticed

Instructions record events without reading them, and only some operations look at the static
state (`Op.readsStatics`).  So an instruction does the same after a change of the world that
leaves new events alone and, if the instruction looks at the static state, that too
(`Instruction.execute_commutes`), provided that what it calls does.  An exploration does the same
if each of its visits does (`Exploration.exploreFrom_commutes`).
-/

set_option autoImplicit false

namespace Dexplore

/-- A change of the world that does not matter to what is recorded after it. -/
def World.Overlooked (change : World → World) : Prop :=
  ∀ world event, change (world.note event) = (change world).note event

def World.KeepsStatics (change : World → World) : Prop :=
  ∀ world, (change world).statics = world.statics

def Scene.changed (change : World → World) (scene : Scene) : Scene :=
  { scene with world := change scene.world }

def Exploration.changed (change : World → World) (exploration : Exploration) : Exploration :=
  { exploration with world := change exploration.world }

structure Calls.Commute (change : World → World) (calls : Calls) : Prop where
  start : ∀ type, Commutes change (calls.start type)
  execute : ∀ descriptor frame, Commutes change (calls.execute descriptor frame)

def Op.readsStatics : Op → Bool
  | .invoke .. | .arrayPut .. | .staticGet .. => true
  | _ => false

variable {change : World → World}

/-! ## Steps -/

namespace Step

theorem read_commutes (register : Register) :
    Commutes (Scene.changed change) (read register) := by
  intro scene
  unfold read
  simp only [Scene.changed]
  cases scene.frame.read register <;> rfl

theorem write_commutes (register : Register) (value : Value) :
    Commutes (Scene.changed change) (write register value) := by
  intro scene
  unfold write
  simp only [Scene.changed]
  cases scene.frame.write register value <;> rfl

theorem outside_commutes {α : Type} {run : Run α} (commutes : Commutes change run) :
    Commutes (Scene.changed change) (outside run) := by
  intro scene
  have same := commutes scene.world
  unfold outside
  simp only [Scene.changed]
  rw [same]
  cases run scene.world <;> rfl

theorem modifyFrame_commutes (update : Frame → Frame) :
    Commutes (Scene.changed change) (modifyFrame update) :=
  .modify fun _ => rfl

theorem note_commutes (overlooked : World.Overlooked change) (event : Event) :
    Commutes (Scene.changed change) (note event) := by
  refine .modify fun scene => ?_
  simp only [Scene.changed, overlooked scene.world event]

theorem getStatic_commutes (overlooked : World.Overlooked change)
    (keeps : World.KeepsStatics change) (field : FieldRef) :
    Commutes (Scene.changed change) (getStatic field) := by
  refine .bind (note_commutes overlooked _) fun _ => .look (fun scene => ?_) fun _ => .pure _
  simp only [Scene.changed, keeps scene.world]

theorem putStatic_commutes (overlooked : World.Overlooked change) (field : FieldRef)
    (value : Value) : Commutes (Scene.changed change) (putStatic field value) :=
  .bind (note_commutes overlooked _) fun _ => modifyFrame_commutes _

theorem forgetStaticArrays_commutes (keeps : World.KeepsStatics change) (type : TypeDescriptor) :
    Commutes (Scene.changed change) (forgetStaticArrays type) := by
  refine .modify fun scene => ?_
  simp only [Scene.changed, keeps scene.world]

theorem arrayPut_commutes (keeps : World.KeepsStatics change) (src array index : Register) :
    Commutes (Scene.changed change) (arrayPut src array index) :=
  .bind (read_commutes src) fun _ => .bind (read_commutes array) fun target =>
    .bind (read_commutes index) fun _ => .bind (write_commutes array _) fun _ =>
      .bind (modifyFrame_commutes fun frame => frame.widenArrays target.type (some array))
        fun _ => forgetStaticArrays_commutes keeps target.type

theorem forgetArgument_commutes (keeps : World.KeepsStatics change) (program : Program)
    (register : Register) : Commutes (Scene.changed change) (forgetArgument program register) := by
  refine .bind (read_commutes register) fun value => ?_
  split
  · exact .bind (write_commutes register _) fun _ => forgetStaticArrays_commutes keeps _
  · exact .pure ()

theorem branch_commutes (overlooked : World.Overlooked change) (condition : Condition)
    (left right : Value) (next target : Address) :
    Commutes (Scene.changed change) (branch condition left right next target) := by
  unfold branch
  split
  · exact .pure _
  · exact .pure _
  · exact .bind (note_commutes overlooked _) fun _ => .pure _

theorem switch_commutes (overlooked : World.Overlooked change) (selector : Value)
    (next : Address) (cases : List (Int32 × Address)) :
    Commutes (Scene.changed change) (switch selector next cases) := by
  unfold switch
  split
  · exact .pure _
  · exact .bind (note_commutes overlooked _) fun _ => .pure _

end Step

/-! ## Instructions -/

variable {calls : Calls}

open Step

theorem Program.invoke_commutes (keeps : World.KeepsStatics change) (commute : calls.Commute change)
    (program : Program) (kind : InvokeKind) (method : MethodRef) (caller : Frame)
    (args : List Register) : Commutes change (program.invoke calls kind method caller args) := by
  unfold Program.invoke
  by_cases fits : args.length = method.parameters.length +
      (if (decide (kind = .static) : Bool) then 0 else 1)
  · simp only [fits, ne_eq, not_true_eq_false, if_false]
    cases program.callee? method.descriptor with
    | none => exact .bind (commute.start method.owner) fun _ => .pure _
    | some pair =>
        obtain ⟨callee, template⟩ := pair
        by_cases agrees : callee.isStatic = decide (kind = .static)
        · simp only [agrees, not_true_eq_false, if_false]
          cases Invocation.entryFrame callee method (decide (kind = .static)) caller args with
          | error fault => exact .throw fault
          | ok frame =>
              refine .bind (.pure frame) fun frame =>
                .bind (commute.execute method.descriptor frame) fun result => ?_
              cases result with
              | none => exact .pure _
              | some graph =>
                  refine .look (fun world => ?_) fun _ => .pure _
                  rw [keeps world]
        · simp only [agrees, not_false_eq_true, if_true]
          exact .throw _
  · simp only [fits, ne_eq, not_false_eq_true, if_true]
    exact .throw _

theorem Op.perform_commutes (overlooked : World.Overlooked change) (commute : calls.Commute change)
    (setup : Setup) (site : Site) (op : Op)
    (keeps : op.readsStatics = true → World.KeepsStatics change) :
    Commutes (Scene.changed change) (op.perform setup calls site) := by
  cases op with
  | nop | branch | jump | switch => exact .pure ()
  | const dest _ | newInstance dest _ => exact write_commutes dest _
  | moveResult dest => exact .look (fun _ => rfl) fun _ => write_commutes dest _
  | move dest src | unary _ dest src | newArray dest src _ | arrayLength dest src
  | instanceGet dest src _ => exact .bind (read_commutes src) fun _ => write_commutes dest _
  | binary op kind dest lhs rhs =>
      refine .bind (read_commutes lhs) fun _ => .bind ?_ fun _ => write_commutes dest _
      cases rhs with
      | register index => exact read_commutes index
      | literal value => exact .pure _
  | compare _ dest lhs rhs | arrayGet dest lhs rhs =>
      exact .bind (read_commutes lhs) fun _ =>
        .bind (read_commutes rhs) fun _ => write_commutes dest _
  | invoke kind method args =>
      refine .look (fun _ => rfl) fun scene => ?_
      exact .bind
        (outside_commutes
          (setup.program.invoke_commutes (keeps rfl) commute kind method scene.frame args))
        fun _ => .bind (modifyFrame_commutes _) fun _ => .bind (modifyFrame_commutes _) fun _ =>
          .forM args (forgetArgument_commutes (keeps rfl) setup.program)
  | arrayPut src array index => exact arrayPut_commutes (keeps rfl) src array index
  | instancePut src object field =>
      exact .bind (read_commutes src) fun _ => .bind (read_commutes object) fun _ => .pure ()
  | staticGet dest field =>
      exact .bind (outside_commutes (commute.start field.owner)) fun _ =>
        .bind (getStatic_commutes overlooked (keeps rfl) field) fun _ => write_commutes dest _
  | staticPut src field =>
      exact .bind (outside_commutes (commute.start field.owner)) fun _ =>
        .bind (read_commutes src) fun _ => putStatic_commutes overlooked field _
  | unhandled mnemonic clobbers =>
      exact .bind (note_commutes overlooked _) fun _ =>
        .forM clobbers fun register => write_commutes register _
  | giveBack src =>
      cases src with
      | none => exact modifyFrame_commutes fun frame => frame.withResult none
      | some src => exact .bind (read_commutes src) fun _ => modifyFrame_commutes _
  | throw src => exact .bind (read_commutes src) fun _ => .pure ()

theorem Instruction.execute_commutes (overlooked : World.Overlooked change)
    (commute : calls.Commute change) (setup : Setup) (method : String) (instruction : Instruction)
    (keeps : instruction.op.readsStatics = true → World.KeepsStatics change) :
    Commutes (Scene.changed change) (instruction.execute setup calls method) := by
  have goesOn : ∀ ways, Commutes (Scene.changed change)
      (do instruction.op.perform setup calls ⟨method, instruction.address⟩
          return ways : Step (List Address)) :=
    fun _ => .bind (instruction.op.perform_commutes overlooked commute setup _ keeps)
      fun _ => .pure _
  unfold Instruction.execute
  cases shape : instruction.op with
  | branch condition lhs rhs target =>
      refine .bind (read_commutes lhs) fun _ => ?_
      cases rhs with
      | none => exact .bind (.pure _) fun _ => branch_commutes overlooked condition _ _ _ _
      | some register =>
          exact .bind (read_commutes register) fun _ => branch_commutes overlooked condition _ _ _ _
  | switch src cases =>
      exact .bind (read_commutes src) fun _ => switch_commutes overlooked _ _ _
  | _ =>
      rw [shape] at goesOn
      exact goesOn _

/-! ## Explorations -/

namespace Exploration

variable {setup : Setup}

theorem addChild_commutes (parent : NodeId) (frame : Frame) (address : Address) :
    Commutes (changed change) (addChild parent frame address) := by
  intro exploration
  unfold addChild
  simp only [changed]
  cases exploration.graph.addClone address parent frame <;> rfl

theorem executeNode_commutes (overlooked : World.Overlooked change) (commute : calls.Commute change)
    (id : NodeId) (instruction : Instruction)
    (keeps : instruction.op.readsStatics = true → World.KeepsStatics change) (frame : Frame) :
    Commutes (changed change) (executeNode setup calls id instruction frame) := by
  intro exploration
  have same := instruction.execute_commutes overlooked commute setup exploration.graph.method keeps
    ⟨frame, exploration.world⟩
  unfold executeNode
  simp only [changed]
  simp only [Scene.changed] at same
  rw [same]
  cases instruction.execute setup calls exploration.graph.method ⟨frame, exploration.world⟩ <;> rfl

theorem visit_commutes (overlooked : World.Overlooked change) (commute : calls.Commute change)
    (id : NodeId) (instruction : Instruction)
    (keeps : instruction.op.readsStatics = true → World.KeepsStatics change) :
    Commutes (changed change) (visit setup calls id instruction) := by
  rintro ⟨graph, world⟩
  have noted : visiting graph (change world) id instruction =
      change (visiting graph world id instruction) := (overlooked world _).symm
  rw [changed, visit_eq_match, visit_eq_match]
  simp only [noted]
  cases ((graph.recordVisit id.address).node? id).bind (·.frame) with
  | none => rfl
  | some frame =>
      exact Commutes.bind (executeNode_commutes overlooked commute id instruction keeps frame)
        (fun result => .mapM _ (addChild_commutes id result.1))
        ⟨graph.recordVisit id.address, visiting graph world id instruction⟩

/-- What holds along an exploration makes each of its visits do the same after a change. -/
theorem exploreFrom_commutes (holds : Exploration → Prop)
    (visits : ∀ id instruction exploration, holds exploration →
      exploration.graph.instruction? id.address = some instruction →
      visit setup calls id instruction (exploration.changed change) =
        mapState (changed change) (visit setup calls id instruction exploration))
    (kept : ∀ id instruction exploration children after, holds exploration →
      exploration.graph.instruction? id.address = some instruction →
      visit setup calls id instruction exploration = .ok children after → holds after)
    (pending : List NodeId) (allowance : Allowance) (exploration : Exploration)
    (held : holds exploration) :
    exploreFrom setup calls pending allowance (exploration.changed change) =
      mapState (changed change) (exploreFrom setup calls pending allowance exploration) := by
  fun_induction exploreFrom setup calls pending allowance exploration with
  | case1 allowance exploration => exact exploreFrom_nil _ _ _ _
  | case2 allowance exploration id rest missing => exact exploreFrom_of_noInstruction missing
  | case3 allowance exploration id rest instruction present rejected =>
      exact exploreFrom_of_rejected present rejected
  | case4 allowance exploration id rest instruction present remaining spent fault after failed =>
      have here : (exploration.changed change).graph.instruction? id.address =
        some instruction := present
      refine (exploreFrom_of_spent here spent).trans ?_
      rw [visits id instruction exploration held present, failed]
      rfl
  | case5 allowance exploration id rest instruction present remaining spent children middle
      visited induction =>
      have here : (exploration.changed change).graph.instruction? id.address =
        some instruction := present
      refine (exploreFrom_of_spent here spent).trans ?_
      rw [visits id instruction exploration held present, visited]
      exact induction (kept id instruction exploration children middle held present visited)

end Exploration

end Dexplore
