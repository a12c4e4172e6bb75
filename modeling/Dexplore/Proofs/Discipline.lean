import Dexplore.Proofs.Requests
import Dexplore.Proofs.Stepping

/-!
# What every instruction respects

A `Law` relates the frame and the world before a step to those after it, and says which faults
the step may end with.  A law is `Mild` if it allows the few changes of a path that instructions
are made of, and `Fair` if it also allows that the use of a static field is recorded.  Every
instruction is a request followed by a step of its own, and that step respects every fair law
(`Instruction.execute_eq_ask`); the instruction as a whole does so if the calls do
(`Instruction.execute_obeys`).
-/

set_option autoImplicit false

namespace Dexplore

/-! ## Laws -/

def Event.isRemark : Event → Bool
  | undecidedBranch .. | undecidedSwitch .. | unhandled .. => true
  | _ => false

/-- What may become of a frame and of the world, and which faults may end a step. -/
structure Law where
  frames : Frame → Frame → Prop
  worlds : World → World → Prop
  faults : Fault → Prop

/-- A law that allows the single changes of a path, any number of them. -/
structure Law.Mild (law : Law) : Prop where
  frame_refl : ∀ frame, law.frames frame frame
  frame_trans : ∀ {before middle after}, law.frames before middle → law.frames middle after →
    law.frames before after
  write : ∀ {frame after : Frame} {register : Register} {value : Value},
    frame.write register value = .ok after → law.frames frame after
  withResult : ∀ (frame : Frame) result, law.frames frame (frame.withResult result)
  writeStatic : ∀ (frame : Frame) field value, law.frames frame (frame.writeStatic field value)
  widenArrays : ∀ (frame : Frame) type keep, law.frames frame (frame.widenArrays type keep)
  widenStaticArrays : ∀ (frame : Frame) type, law.frames frame (frame.widenStaticArrays type)
  world_refl : ∀ world, law.worlds world world
  world_trans : ∀ {before middle after}, law.worlds before middle → law.worlds middle after →
    law.worlds before after
  remark : ∀ (world : World) {event : Event}, event.isRemark = true →
    law.worlds world (world.note event)
  invalidRegister : ∀ register count, law.faults (.invalidRegister register count)
  malformed : ∀ defect, law.faults (.malformed defect)

/-- Whether the use of a static field may be recorded, wherever it happens. -/
def Law.Permits (law : Law) (field : FieldRef) : Prop :=
  ∀ world : World, law.worlds world (world.note (.accessing field))

structure Law.Fair (law : Law) : Prop extends law.Mild where
  access : ∀ field, law.Permits field

def Law.Admits {α : Type} (law : Law) (result : Except Fault α) : Prop :=
  ∀ fault, result = .error fault → law.faults fault

/-- A run that changes the world only as the law allows. -/
def Run.Obeys {α : Type} (law : Law) (run : Run α) : Prop :=
  ∀ world, match run world with
    | .ok _ after => law.worlds world after
    | .error fault after => law.worlds world after ∧ law.faults fault

def Step.Obeys {α : Type} (law : Law) (step : Step α) : Prop :=
  ∀ scene, match step scene with
    | .ok _ after => law.frames scene.frame after.frame ∧ law.worlds scene.world after.world
    | .error fault after =>
      law.frames scene.frame after.frame ∧ law.worlds scene.world after.world ∧ law.faults fault

variable {law : Law}

/-! ## Binding arguments -/

namespace Law

variable {α β : Type}

theorem admits_ok (law : Law) (value : α) : law.Admits (.ok value) := by
  intro fault failed
  cases failed

theorem admits_bind {result : Except Fault α} {next : α → Except Fault β}
    (first : law.Admits result) (second : ∀ value, law.Admits (next value)) :
    law.Admits (result >>= next) := by
  intro fault failed
  cases result with
  | error other =>
      cases failed
      exact first _ rfl
  | ok value => exact second value fault failed

namespace Mild

variable (mild : law.Mild)

include mild

theorem read (frame : Frame) (register : Register) : law.Admits (frame.read register) := by
  intro fault failed
  unfold Frame.read at failed
  split at failed
  · cases failed
  · cases failed
    exact mild.invalidRegister _ _

theorem admits_write (frame : Frame) (register : Register) (value : Value) :
    law.Admits (frame.write register value) := by
  intro fault failed
  unfold Frame.write at failed
  split at failed
  · cases failed
  · cases failed
    exact mild.invalidRegister _ _

theorem bindParameter (frame : Frame) (index : Nat) (value : Value) :
    law.Admits (frame.bindParameter index value) := by
  intro fault failed
  unfold Frame.bindParameter at failed
  split at failed
  · exact mild.admits_write _ _ _ fault failed
  · cases failed
    exact mild.invalidRegister _ _

theorem bindReceiver (frame : Frame) (value : Value) : law.Admits (frame.bindReceiver value) := by
  intro fault failed
  unfold Frame.bindReceiver at failed
  split at failed
  · cases failed
    exact mild.invalidRegister _ _
  · exact mild.admits_write _ _ _ fault failed

theorem bindArguments (caller frame : Frame) (index : Nat) (args : List Register) :
    law.Admits (Invocation.bindArguments caller frame index args) := by
  induction args generalizing frame index with
  | nil => exact law.admits_ok _
  | cons register rest induction =>
      exact admits_bind (mild.read caller register) fun value =>
        admits_bind (mild.bindParameter frame index value) fun bound => induction bound (index + 1)

theorem entryFrame (callee : MethodDef) (method : MethodRef) (isStatic : Bool) (caller : Frame)
    (args : List Register) :
    law.Admits (Invocation.entryFrame callee method isStatic caller args) := by
  unfold Invocation.entryFrame
  simp only
  split
  · exact admits_bind (mild.read _ _) fun value =>
      admits_bind (mild.bindReceiver _ value) fun frame =>
        admits_bind (mild.bindArguments _ _ _ _) fun bound => law.admits_ok _
  · exact admits_bind (mild.bindArguments _ _ _ _) fun bound => law.admits_ok _

end Mild

end Law

/-! ## Runs that respect a law -/

namespace Run.Obeys

variable {α β : Type}

theorem pure (mild : law.Mild) (value : α) : Obeys law (Pure.pure value : Run α) :=
  fun world => mild.world_refl world

theorem throw (mild : law.Mild) {fault : Fault} (allowed : law.faults fault) :
    Obeys law (throw fault : Run α) :=
  fun world => ⟨mild.world_refl world, allowed⟩

theorem look {next : World → Run α} (rest : ∀ world, Obeys law (next world)) :
    Obeys law (get >>= next) :=
  fun world => rest world world

theorem bind (mild : law.Mild) {run : Run α} {next : α → Run β} (first : Obeys law run)
    (second : ∀ value, Obeys law (next value)) : Obeys law (run >>= next) := by
  intro world
  have before := first world
  simp only [Bind.bind, EStateM.bind]
  cases ran : run world with
  | error fault after =>
      rw [ran] at before
      exact before
  | ok value middle =>
      rw [ran] at before
      simp only
      have later := second value middle
      cases ranNext : next value middle with
      | ok result after =>
          rw [ranNext] at later
          exact mild.world_trans before later
      | error fault after =>
          rw [ranNext] at later
          exact ⟨mild.world_trans before later.1, later.2⟩

end Run.Obeys

/-! ## Steps that respect a law -/

namespace Step.Obeys

variable {α β : Type}

theorem pure (mild : law.Mild) (value : α) : Obeys law (Pure.pure value : Step α) :=
  fun scene => ⟨mild.frame_refl scene.frame, mild.world_refl scene.world⟩

theorem bind (mild : law.Mild) {step : Step α} {next : α → Step β} (first : Obeys law step)
    (second : ∀ value, Obeys law (next value)) : Obeys law (step >>= next) := by
  intro scene
  have before := first scene
  simp only [Bind.bind, EStateM.bind]
  cases ran : step scene with
  | error fault after =>
      rw [ran] at before
      exact before
  | ok value middle =>
      rw [ran] at before
      simp only
      have later := second value middle
      cases ranNext : next value middle with
      | ok result after =>
          rw [ranNext] at later
          exact ⟨mild.frame_trans before.1 later.1, mild.world_trans before.2 later.2⟩
      | error fault after =>
          rw [ranNext] at later
          exact ⟨mild.frame_trans before.1 later.1, mild.world_trans before.2 later.2.1,
            later.2.2⟩

theorem look {next : Scene → Step α} (rest : ∀ scene, Obeys law (next scene)) :
    Obeys law (get >>= next) :=
  fun scene => rest scene scene

theorem read (mild : law.Mild) (register : Register) : Obeys law (Step.read register) := by
  intro scene
  unfold Step.read
  cases found : scene.frame.read register with
  | ok value => exact ⟨mild.frame_refl _, mild.world_refl _⟩
  | error fault =>
      exact ⟨mild.frame_refl _, mild.world_refl _, mild.read _ _ fault found⟩

theorem write (mild : law.Mild) (register : Register) (value : Value) :
    Obeys law (Step.write register value) := by
  intro scene
  unfold Step.write
  cases written : scene.frame.write register value with
  | ok after => exact ⟨mild.write written, mild.world_refl _⟩
  | error fault =>
      exact ⟨mild.frame_refl _, mild.world_refl _, mild.admits_write _ _ _ fault written⟩

theorem modifyFrame (mild : law.Mild) {change : Frame → Frame}
    (allowed : ∀ frame, law.frames frame (change frame)) :
    Obeys law (Step.modifyFrame change) :=
  fun scene => ⟨allowed scene.frame, mild.world_refl scene.world⟩

theorem note (mild : law.Mild) {event : Event} (remark : event.isRemark = true) :
    Obeys law (Step.note event) :=
  fun scene => ⟨mild.frame_refl scene.frame, mild.remark scene.world remark⟩

theorem getStatic (mild : law.Mild) {field : FieldRef} (permits : law.Permits field) :
    Obeys law (Step.getStatic field) :=
  fun scene => ⟨mild.frame_refl scene.frame, permits scene.world⟩

theorem putStatic (mild : law.Mild) {field : FieldRef} (permits : law.Permits field)
    (value : Value) : Obeys law (Step.putStatic field value) :=
  fun scene => ⟨mild.writeStatic scene.frame field value, permits scene.world⟩

theorem outside (mild : law.Mild) {run : Run α} (obeys : run.Obeys law) :
    Obeys law (Step.outside run) := by
  intro scene
  have allowed := obeys scene.world
  unfold Step.outside
  cases ran : run scene.world with
  | ok value after =>
      rw [ran] at allowed
      exact ⟨mild.frame_refl _, allowed⟩
  | error fault after =>
      rw [ran] at allowed
      exact ⟨mild.frame_refl _, allowed⟩

theorem forM (mild : law.Mild) {ι : Type} (items : List ι) {action : ι → Step Unit}
    (each : ∀ item, Obeys law (action item)) : Obeys law (items.forM action) := by
  induction items with
  | nil => exact pure mild ()
  | cons head rest induction => exact bind mild (each head) fun _ => induction

end Step.Obeys

namespace Law.Mild

variable (mild : law.Mild)

include mild

theorem foldl {α : Type} {change : Frame → α → Frame}
    (each : ∀ frame item, law.frames frame (change frame item)) (items : List α) (frame : Frame) :
    law.frames frame (items.foldl change frame) := by
  induction items generalizing frame with
  | nil => exact mild.frame_refl frame
  | cons head rest induction => exact mild.frame_trans (each frame head) (induction _)

theorem forgetArrays (statics : Statics) (frame : Frame) (type : TypeDescriptor) :
    law.frames frame (statics.forgetArrays frame type) := by
  have hidden : ∀ owner (frame : Frame) entry,
      law.frames frame (Statics.hideArray type owner frame entry) := by
    intro owner frame entry
    simp only [Statics.hideArray]
    split
    · exact mild.writeStatic _ _ _
    · exact mild.frame_refl _
  have hiddenAll : ∀ (frame : Frame) (state : TypeDescriptor × ClassState), law.frames frame
      (state.2.fields.entries.foldl (Statics.hideArray type state.1) frame) :=
    fun frame state => mild.foldl (hidden state.1) _ frame
  exact mild.frame_trans (mild.widenStaticArrays frame type) (mild.foldl hiddenAll _ _)

end Law.Mild

namespace Step.Obeys

variable (mild : law.Mild)

include mild

theorem forgetStaticArrays (type : TypeDescriptor) : Obeys law (Step.forgetStaticArrays type) :=
  fun scene => ⟨mild.forgetArrays scene.world.statics scene.frame type, mild.world_refl _⟩

theorem arrayPut (src array index : Register) : Obeys law (Step.arrayPut src array index) :=
  .bind mild (.read mild src) fun _ => .bind mild (.read mild array) fun target =>
    .bind mild (.read mild index) fun _ => .bind mild (.write mild array _) fun _ =>
      .bind mild (.modifyFrame mild fun frame => mild.widenArrays frame target.type (some array))
        fun _ => .forgetStaticArrays mild target.type

theorem branch (condition : Condition) (left right : Value) (next target : Address) :
    Obeys law (Step.branch condition left right next target) := by
  unfold Step.branch
  split
  · exact .pure mild _
  · exact .pure mild _
  · exact .bind mild (.note mild rfl) fun _ => .pure mild _

theorem switch (selector : Value) (next : Address) (cases : List (Int32 × Address)) :
    Obeys law (Step.switch selector next cases) := by
  unfold Step.switch
  split
  · exact .pure mild _
  · exact .bind mild (.note mild rfl) fun _ => .pure mild _

theorem forgetArgument (program : Program) (register : Register) :
    Obeys law (Step.forgetArgument program register) := by
  refine .bind mild (.read mild register) fun value => ?_
  split
  · exact .bind mild (.write mild register _) fun _ => .forgetStaticArrays mild _
  · exact .pure mild ()

end Step.Obeys

/-! ## Operations without a request -/

def Op.asks : Op → Bool
  | invoke .. | staticGet .. | staticPut .. => true
  | _ => false

theorem Op.perform_obeys (mild : law.Mild) (setup : Setup) (calls : Calls) (site : Site) (op : Op)
    (quiet : op.asks = false) : Step.Obeys law (op.perform setup calls site) := by
  cases op with
  | invoke | staticGet | staticPut => cases quiet
  | nop | branch | jump | switch => exact .pure mild ()
  | const dest _ | newInstance dest _ => exact .write mild dest _
  | moveResult dest => exact .look fun _ => .write mild dest _
  | move dest src | unary _ dest src | newArray dest src _ | arrayLength dest src
  | instanceGet dest src _ => exact .bind mild (.read mild src) fun _ => .write mild dest _
  | binary op kind dest lhs rhs =>
      refine .bind mild (.read mild lhs) fun _ => .bind mild ?_ fun _ => .write mild dest _
      cases rhs with
      | register index => exact .read mild index
      | literal value => exact .pure mild _
  | compare _ dest lhs rhs | arrayGet dest lhs rhs =>
      exact .bind mild (.read mild lhs) fun _ => .bind mild (.read mild rhs) fun _ =>
        .write mild dest _
  | arrayPut src array index => exact .arrayPut mild src array index
  | instancePut src object field =>
      exact .bind mild (.read mild src) fun _ => .bind mild (.read mild object) fun _ =>
        .pure mild ()
  | unhandled mnemonic clobbers =>
      exact .bind mild (.note mild rfl) fun _ => .forM mild clobbers fun register =>
        .write mild register _
  | giveBack src =>
      cases src with
      | none =>
          have cleared : ∀ frame : Frame, law.frames frame (frame.withResult none) :=
            fun frame => mild.withResult frame none
          exact .modifyFrame mild cleared
      | some src =>
          exact .bind mild (.read mild src) fun value =>
            .modifyFrame mild fun frame => mild.withResult frame _
  | throw src => exact .bind mild (.read mild src) fun _ => .pure mild ()

theorem Instruction.execute_obeys_of_quiet (mild : law.Mild) (setup : Setup) (calls : Calls)
    (method : String) (instruction : Instruction) (quiet : instruction.op.asks = false) :
    Step.Obeys law (instruction.execute setup calls method) := by
  have goesOn : ∀ ways, Step.Obeys law
      (do instruction.op.perform setup calls ⟨method, instruction.address⟩
          return ways : Step (List Address)) :=
    fun _ => .bind mild (Op.perform_obeys mild setup calls _ _ quiet) fun _ => .pure mild _
  unfold Instruction.execute
  cases shape : instruction.op with
  | branch condition lhs rhs target =>
      refine .bind mild (.read mild lhs) fun _ => ?_
      cases rhs with
      | none => exact .bind mild (.pure mild _) fun _ => .branch mild condition _ _ _ _
      | some register =>
          exact .bind mild (.read mild register) fun _ => .branch mild condition _ _ _ _
  | switch src cases => exact .bind mild (.read mild src) fun _ => .switch mild _ _ _
  | _ =>
      rw [shape] at goesOn
      exact goesOn _

/-! ## A request, then the rest -/

def Op.accesses : Op → List FieldRef
  | .staticGet _ field | .staticPut _ field => [field]
  | _ => []

/-- Makes a request, if there is one. There is a graph if a method was executed to its end. -/
def Calls.ask (calls : Calls) : Option Request → Run (Option Graph)
  | none => pure none
  | some (.start type) => do calls.start type; return none
  | some (.execute descriptor frame) => calls.execute descriptor frame

structure Calls.Obey (law : Law) (calls : Calls) : Prop where
  start : ∀ type, (calls.start type).Obeys law
  execute : ∀ descriptor frame, (calls.execute descriptor frame).Obeys law

theorem Calls.Obey.ask (mild : law.Mild) {calls : Calls} (obey : calls.Obey law)
    (wanted : Option Request) : (calls.ask wanted).Obeys law := by
  cases wanted with
  | none => exact .pure mild none
  | some request =>
      cases request with
      | start type => exact .bind mild (obey.start type) fun _ => .pure mild none
      | execute descriptor frame => exact obey.execute descriptor frame

def Invocation.takeOver (method : MethodRef) (caller : Frame) (template : Graph) :
    Option Graph → Run CallOutcome
  | some graph => do return summarise method caller (← get).statics graph
  | none => return abandoned method caller template

/-- Of a call only the request leaves the method. -/
theorem Program.invoke_eq_ask (program : Program) (kind : InvokeKind) (method : MethodRef)
    (caller : Frame) (args : List Register) :
    ∃ rest : Option Graph → Run CallOutcome,
      (∀ {law : Law}, law.Mild → ∀ graph, (rest graph).Obeys law) ∧
      ∀ calls, program.invoke calls kind method caller args =
        calls.ask (program.callRequest? kind method caller args) >>= rest := by
  unfold Program.invoke Program.callRequest?
  by_cases fits : args.length = method.parameters.length +
      (if (decide (kind = .static) : Bool) then 0 else 1)
  · simp only [fits, ne_eq, not_true_eq_false, if_false]
    cases program.callee? method.descriptor with
    | none =>
        exact ⟨fun _ => pure { result := method.unknownResult, writes := [] },
          fun mild _ => .pure mild _,
          fun calls => by simp only [Calls.ask, bind_assoc, pure_bind]⟩
    | some pair =>
        obtain ⟨callee, template⟩ := pair
        by_cases agrees : callee.isStatic = decide (kind = .static)
        · simp only [agrees, not_true_eq_false, if_false]
          cases entered : Invocation.entryFrame callee method (decide (kind = .static)) caller
              args with
          | error fault =>
              exact ⟨fun _ => throw fault,
                fun mild _ => .throw mild (mild.entryFrame _ _ _ _ _ fault entered),
                fun calls => rfl⟩
          | ok frame =>
              refine ⟨Invocation.takeOver method caller template, fun mild graph => ?_,
                fun calls => rfl⟩
              cases graph with
              | none => exact .pure mild _
              | some graph => exact .look fun _ => .pure mild _
        · simp only [agrees, not_false_eq_true, if_true]
          exact ⟨fun _ => throw (.malformed (.staticMismatch kind method.descriptor
              callee.isStatic)), fun mild _ => .throw mild (mild.malformed _), fun calls => rfl⟩
  · simp only [fits, ne_eq, not_false_eq_true, if_true]
    exact ⟨fun _ => throw (.malformed (.argumentCount kind method.descriptor args.length
        (method.parameters.length + if (decide (kind = .static) : Bool) then 0 else 1))),
      fun mild _ => .throw mild (mild.malformed _), fun calls => rfl⟩

theorem Step.outside_bind {α β : Type} (run : Run α) (next : α → Run β) :
    Step.outside (run >>= next) = Step.outside run >>= fun value => Step.outside (next value) := by
  funext scene
  simp only [Step.outside, bind, EStateM.bind]
  cases run scene.world <;> rfl

theorem Instruction.request?_of_quiet (program : Program) {instruction : Instruction}
    (quiet : instruction.op.asks = false) (frame : Frame) :
    instruction.request? program frame = none := by
  unfold Instruction.request?
  cases shape : instruction.op <;> rw [shape] at quiet <;> first | rfl | cases quiet

/-- To an instruction that makes no request it does not matter what can be called. -/
theorem Instruction.execute_of_quiet (setup : Setup) (calls : Calls) (method : String)
    {instruction : Instruction} (quiet : instruction.op.asks = false) :
    instruction.execute setup calls method =
      instruction.execute setup Answer.nothing.calls method := by
  funext scene
  have same := instruction.execute_answer setup calls method scene
  rw [request?_of_quiet setup.program quiet] at same
  exact same.symm

/-- An instruction is its request and a step that respects every mild law under which the static
fields of the instruction may be used, so every fair law. -/
theorem Instruction.execute_eq_ask (setup : Setup) (method : String) (instruction : Instruction)
    (frame : Frame) :
    ∃ rest : Option Graph → Step (List Address),
      (∀ {law : Law}, law.Mild → (∀ field ∈ instruction.op.accesses, law.Permits field) →
        ∀ graph, (rest graph).Obeys law) ∧
      ∀ calls world, instruction.execute setup calls method ⟨frame, world⟩ =
        (Step.outside (calls.ask (instruction.request? setup.program frame)) >>= rest)
          ⟨frame, world⟩ := by
  cases quiet : instruction.op.asks with
  | false =>
      refine ⟨fun _ => instruction.execute setup Answer.nothing.calls method,
        fun mild _ _ => instruction.execute_obeys_of_quiet mild setup _ method quiet, ?_⟩
      intro calls world
      rw [request?_of_quiet setup.program quiet, execute_of_quiet setup calls method quiet]
      rfl
  | true =>
      unfold Instruction.execute Instruction.request?
      cases shape : instruction.op with
      | staticGet dest field =>
          exact ⟨fun _ => do
              Step.write dest (← Step.getStatic field)
              return [instruction.next],
            fun mild permits _ =>
              .bind mild (.getStatic mild (permits field List.mem_cons_self)) fun _ =>
                .bind mild (.write mild dest _) fun _ => .pure mild _,
            fun calls world => by
              simp only [Calls.ask, Op.perform, Step.outside_bind, bind_assoc]
              rfl⟩
      | staticPut src field =>
          exact ⟨fun _ => do
              Step.putStatic field (← Step.read src)
              return [instruction.next],
            fun mild permits _ => .bind mild (.read mild src) fun value =>
              .bind mild (.putStatic mild (permits field List.mem_cons_self) value) fun _ =>
                .pure mild _,
            fun calls world => by
              simp only [Calls.ask, Op.perform, Step.outside_bind, bind_assoc]
              rfl⟩
      | invoke kind reference args =>
          obtain ⟨rest, obeys, asked⟩ :=
            setup.program.invoke_eq_ask kind reference frame args
          refine ⟨fun graph => do
              let outcome ← Step.outside (rest graph)
              Step.modifyFrame fun frame => frame.withResult outcome.result
              Step.modifyFrame fun frame =>
                outcome.writes.foldl (fun frame write => frame.writeStatic write.1 write.2) frame
              args.forM (Step.forgetArgument setup.program)
              return [instruction.next], ?_, ?_⟩
          · intro law mild _ graph
            exact .bind mild (.outside mild (obeys mild graph)) fun outcome =>
              .bind mild (.modifyFrame mild fun frame => mild.withResult frame _) fun _ =>
                .bind mild (.modifyFrame mild fun frame =>
                  mild.foldl (fun frame write => mild.writeStatic frame _ _) _ frame) fun _ =>
                  .bind mild (.forM mild args fun register =>
                    .forgetArgument mild setup.program register) fun _ => .pure mild _
          · intro calls world
            simp only [Op.perform, Step.invoke, bind_assoc]
            rw [Step.get_bind, asked calls, Step.outside_bind, bind_assoc]
      | _ =>
          rw [shape] at quiet
          cases quiet

/-- An instruction respects every fair law that its calls respect. -/
theorem Instruction.execute_obeys (fair : law.Fair) (setup : Setup) {calls : Calls}
    (obey : calls.Obey law) (method : String) (instruction : Instruction) :
    Step.Obeys law (instruction.execute setup calls method) := by
  rintro ⟨frame, world⟩
  obtain ⟨rest, obeys, asked⟩ := instruction.execute_eq_ask setup method frame
  have mild := fair.toMild
  have allowed := Step.Obeys.bind mild (.outside mild (obey.ask mild
    (instruction.request? setup.program frame)))
    (fun graph => obeys mild (fun field _ => fair.access field) graph) ⟨frame, world⟩
  rw [asked calls world]
  exact allowed

end Dexplore
