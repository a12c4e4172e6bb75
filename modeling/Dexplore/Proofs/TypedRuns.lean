import Dexplore.Proofs.Stages
import Dexplore.Proofs.Typing
import Dexplore.Proofs.Widening

/-!
# Everything stays well-typed

An instruction keeps a path and the classes well-typed, provided that what it asks for does
(`Instruction.execute_typed`).  So whatever begins well-typed ends well-typed, and so does all
that lies inside it (`Juncture.endsWellTyped`, `Juncture.wellTyped_of_reaches`).  A program whose
classes have names of reference types and which creates objects of such types only never gets to
any other value, whatever is done to the machine (`Machine.values_well_typed`).
-/

set_option autoImplicit false

namespace Dexplore

open Execution Exploration

/-! ## Steps -/

variable {limit : Nat}

structure Scene.WellTyped (limit : Nat) (scene : Scene) : Prop where
  frame : scene.frame.WellTyped limit
  statics : scene.world.statics.WellTyped limit

abbrev Run.Typed {α : Type} (limit : Nat) (given : α → Prop) (run : Run α) : Prop :=
  Sustains (fun world => world.statics.WellTyped limit) given run

abbrev Step.Typed {α : Type} (limit : Nat) (given : α → Prop) (step : Step α) : Prop :=
  Sustains (Scene.WellTyped limit) given step

namespace Step

theorem read_typed (register : Register) :
    Typed limit (Value.WellTyped limit) (read register) := by
  intro scene typed
  unfold read
  split
  · next found => exact ⟨typed, typed.frame.read found⟩
  · exact typed

theorem write_typed (register : Register) {value : Value} (typedValue : value.WellTyped limit) :
    Typed limit (fun _ => True) (write register value) := by
  intro scene typed
  unfold write
  split
  · next written => exact ⟨⟨typed.frame.write typedValue written, typed.statics⟩, trivial⟩
  · exact typed

theorem modifyFrame_typed {change : Frame → Frame}
    (kept : ∀ frame : Frame, frame.WellTyped limit → (change frame).WellTyped limit) :
    Typed limit (fun _ => True) (modifyFrame change) :=
  .modify fun _ typed => ⟨kept _ typed.frame, typed.statics⟩

theorem note_typed (event : Event) : Typed limit (fun _ => True) (note event) :=
  .modify fun _ typed => ⟨typed.frame, typed.statics⟩

theorem getStatic_typed (field : FieldRef) :
    Typed limit (·.WellTyped limit) (getStatic field) :=
  .bind (note_typed _) fun _ _ => .look fun _ typed =>
    .pure (typed.statics.valueOn typed.frame field)

theorem putStatic_typed (field : FieldRef) {value : Value} (typedValue : value.WellTyped limit) :
    Typed limit (fun _ => True) (putStatic field value) :=
  .bind (note_typed _) fun _ _ =>
    modifyFrame_typed fun _ typed => typed.writeStatic field typedValue

theorem outside_typed {α : Type} {given : α → Prop} {run : Run α}
    (typedRun : run.Typed limit given) : Typed limit given (outside run) := by
  intro scene typed
  have ended := typedRun scene.world typed.statics
  unfold outside
  cases ran : run scene.world with
  | ok value world =>
      rw [ran] at ended
      exact ⟨⟨typed.frame, ended.1⟩, ended.2⟩
  | error fault world =>
      rw [ran] at ended
      exact ⟨typed.frame, ended⟩

theorem forgetStaticArrays_typed (type : TypeDescriptor) :
    Typed limit (fun _ => True) (forgetStaticArrays type) :=
  .modify fun _ typed => ⟨Statics.WellTyped.forgetArrays _ typed.frame type, typed.statics⟩

theorem arrayPut_typed (src array index : Register) :
    Typed limit (fun _ => True) (arrayPut src array index) :=
  .bind (read_typed src) fun _ typedStored =>
    .bind (read_typed array) fun target typedTarget =>
      .bind (read_typed index) fun place _ =>
        .bind (write_typed array (typedTarget.storeElement typedStored place)) fun _ _ =>
          .bind (modifyFrame_typed fun _ typed => typed.widenArrays target.type (some array))
            fun _ _ => forgetStaticArrays_typed target.type

theorem forgetArgument_typed (program : Program) (register : Register) :
    Typed limit (fun _ => True) (forgetArgument program register) := by
  refine .bind (read_typed register) fun value _ => ?_
  split
  · exact .bind (write_typed register (.widen value)) fun _ _ =>
      forgetStaticArrays_typed value.type
  · exact .pure trivial

theorem branch_typed (condition : Condition) (left right : Value) (next target : Address) :
    Typed limit (fun _ => True) (branch condition left right next target) := by
  unfold branch
  split
  · exact .pure trivial
  · exact .pure trivial
  · exact .bind (note_typed _) fun _ _ => .pure trivial

theorem switch_typed (selector : Value) (next : Address) (cases : List (Int32 × Address)) :
    Typed limit (fun _ => True) (switch selector next cases) := by
  unfold switch
  split
  · exact .pure trivial
  · exact .bind (note_typed _) fun _ _ => .pure trivial

end Step

/-! ## Instructions -/

structure Calls.Typed (limit : Nat) (calls : Calls) : Prop where
  start : ∀ type, (calls.start type).Typed limit fun _ => True
  execute : ∀ descriptor frame, frame.WellTyped limit →
    (calls.execute descriptor frame).Typed limit fun result =>
      ∀ graph, result = some graph → graph.WellTyped limit

section

variable {calls : Calls}

theorem Invocation.takeOver_typed (method : MethodRef) {caller : Frame}
    (typedCaller : caller.WellTyped limit) (template : Graph) {result : Option Graph}
    (typedResult : ∀ graph, result = some graph → graph.WellTyped limit) :
    (takeOver method caller template result).Typed limit (CallOutcome.WellTyped limit) := by
  cases result with
  | none => exact .pure (.abandoned method caller template)
  | some graph =>
      exact .look fun world typed =>
        .pure (.summarise method typedCaller typed (typedResult graph rfl))

theorem Program.invoke_typed (program : Program) (typedCalls : calls.Typed limit)
    (kind : InvokeKind) (method : MethodRef) {caller : Frame} (typedCaller : caller.WellTyped limit)
    (args : List Register) :
    (program.invoke calls kind method caller args).Typed limit (CallOutcome.WellTyped limit) := by
  unfold Program.invoke
  by_cases fits : args.length = method.parameters.length +
      (if (decide (kind = .static) : Bool) then 0 else 1)
  · simp only [fits, ne_eq, not_true_eq_false, if_false]
    cases program.callee? method.descriptor with
    | none =>
        exact .bind (typedCalls.start method.owner) fun _ _ =>
          .pure ⟨fun _ found => .unknownResult method found, by simp⟩
    | some pair =>
        obtain ⟨callee, template⟩ := pair
        by_cases agrees : callee.isStatic = decide (kind = .static)
        · simp only [agrees, not_true_eq_false, if_false]
          cases entered : Invocation.entryFrame callee method (decide (kind = .static)) caller
              args with
          | error fault => exact .throw fault
          | ok entry =>
              exact show Run.Typed limit (CallOutcome.WellTyped limit)
                  (calls.execute method.descriptor entry >>=
                    Invocation.takeOver method caller template) from
                .bind (typedCalls.execute method.descriptor entry (typedCaller.entryFrame entered))
                  fun result typedResult =>
                    Invocation.takeOver_typed method typedCaller template typedResult
        · simp only [agrees, not_false_eq_true, if_true]
          exact .throw _
  · simp only [fits, ne_eq, not_false_eq_true, if_true]
    exact .throw _

theorem Step.invoke_typed (program : Program) (typedCalls : calls.Typed limit) (kind : InvokeKind)
    (method : MethodRef) (args : List Register) :
    Typed limit (fun _ => True) (invoke program calls kind method args) :=
  .look fun _ typed =>
    .bind (outside_typed (program.invoke_typed typedCalls kind method typed.frame args))
      fun _ typedOutcome =>
        .bind (modifyFrame_typed fun _ typed => typed.withResult typedOutcome.result) fun _ _ =>
          .bind (modifyFrame_typed fun _ typed => .foldl
            (fun _ typed write inside =>
              typed.writeStatic write.1 (typedOutcome.writes write inside)) typed) fun _ _ =>
            .forM fun register _ => forgetArgument_typed program register

theorem Op.perform_typed (setup : Setup) (typedCalls : calls.Typed setup.config.maxArrayLength)
    (site : Site) (op : Op) (creates : op.createsReferences = true) :
    Step.Typed setup.config.maxArrayLength (fun _ => True) (op.perform setup calls site) := by
  open Step in
  cases op with
  | nop | branch | jump | switch => exact .pure trivial
  | const dest literal => exact write_typed dest (.ofLiteral literal)
  | move dest src => exact .bind (read_typed src) fun _ typed => write_typed dest typed
  | moveResult dest =>
      exact .look fun _ typed => write_typed dest (.getD typed.frame.result .uninitialized)
  | binary op kind dest lhs rhs =>
      refine .bind (read_typed lhs) fun left _ => ?_
      cases rhs with
      | register index =>
          exact .bind (read_typed index) fun right _ =>
            write_typed dest (.binary op kind left right)
      | literal value => exact write_typed dest (.binary op kind left (.int value))
  | unary op dest src =>
      exact .bind (read_typed src) fun operand _ => write_typed dest (.unary op operand)
  | compare kind dest lhs rhs =>
      exact .bind (read_typed lhs) fun left _ => .bind (read_typed rhs) fun right _ =>
        write_typed dest (.threeWay kind left right)
  | invoke kind method args => exact invoke_typed setup.program typedCalls kind method args
  | newInstance dest type => exact write_typed dest (.scalar creates)
  | newArray dest size type =>
      exact .bind (read_typed size) fun length _ => write_typed dest (.newArray type length _)
  | arrayLength dest array =>
      exact .bind (read_typed array) fun value _ => write_typed dest (.arrayLength value)
  | arrayGet dest array index =>
      exact .bind (read_typed array) fun _ typed => .bind (read_typed index) fun place _ =>
        write_typed dest (typed.elementAt place)
  | arrayPut src array index => exact arrayPut_typed src array index
  | instanceGet dest object field =>
      exact .bind (read_typed object) fun _ _ => write_typed dest (.unknown field.type)
  | instancePut src object field =>
      exact .bind (read_typed src) fun _ _ => .bind (read_typed object) fun _ _ => .pure trivial
  | staticGet dest field =>
      exact .bind (outside_typed (typedCalls.start field.owner)) fun _ _ =>
        .bind (getStatic_typed field) fun _ typed => write_typed dest typed
  | staticPut src field =>
      exact .bind (outside_typed (typedCalls.start field.owner)) fun _ _ =>
        .bind (read_typed src) fun _ typed => putStatic_typed field typed
  | unhandled mnemonic clobbers =>
      exact .bind (note_typed _) fun _ _ => .forM fun register _ =>
        write_typed register .uninitialized
  | giveBack src =>
      cases src with
      | none => exact modifyFrame_typed fun _ typed => typed.withResult (by simp)
      | some src =>
          exact .bind (read_typed src) fun _ typedValue => modifyFrame_typed fun _ typed =>
            typed.withResult fun _ same => Option.some.inj same ▸ typedValue
  | throw src => exact .bind (read_typed src) fun _ _ => .pure trivial

/-- An instruction keeps its path and the classes well-typed if what it asks for does. -/
theorem Instruction.execute_typed (setup : Setup)
    (typedCalls : calls.Typed setup.config.maxArrayLength) (method : String)
    (instruction : Instruction) (creates : instruction.op.createsReferences = true) :
    Step.Typed setup.config.maxArrayLength (fun _ => True)
      (instruction.execute setup calls method) := by
  have goesOn : ∀ ways, Step.Typed setup.config.maxArrayLength (fun _ => True)
      (do instruction.op.perform setup calls ⟨method, instruction.address⟩
          return ways : Step (List Address)) :=
    fun _ => .bind (Op.perform_typed setup typedCalls _ _ creates) fun _ _ => .pure trivial
  unfold Instruction.execute
  cases shape : instruction.op with
  | branch condition lhs rhs target =>
      refine .bind (Step.read_typed lhs) fun left _ => ?_
      cases rhs with
      | none => exact Step.branch_typed condition left _ _ target
      | some register =>
          exact .bind (Step.read_typed register) fun right _ =>
            Step.branch_typed condition left right _ target
  | switch src cases =>
      exact .bind (Step.read_typed src) fun selector _ => Step.switch_typed selector _ cases
  | _ =>
      rw [shape] at goesOn
      exact goesOn _

end

/-! ## Junctures -/

def Request.WellTyped (limit : Nat) : Request → Prop
  | start _ => True
  | execute _ frame => frame.WellTyped limit

structure Exploration.WellTyped (limit : Nat) (exploration : Exploration) : Prop where
  graph : exploration.graph.WellTyped limit
  statics : exploration.world.statics.WellTyped limit

theorem Instruction.wellTyped_of_request? {program : Program} {instruction : Instruction}
    {frame : Frame} {wanted : Request} (typed : frame.WellTyped limit)
    (asked : instruction.request? program frame = some wanted) : wanted.WellTyped limit := by
  cases wanted with
  | start type => trivial
  | execute callee entry =>
      obtain ⟨kind, reference, args, -, asked⟩ := Instruction.call_of_request? asked
      obtain ⟨definition, template, -, entered⟩ := Program.callee_of_callRequest? asked
      exact typed.entryFrame entered

theorem Exploration.WellTyped.request {exploration : Exploration}
    (typed : exploration.WellTyped limit) {setup : Setup} {id : NodeId} {instruction : Instruction}
    {wanted : Request} (asked : exploration.request? setup id instruction = some wanted) :
    wanted.WellTyped limit := by
  obtain ⟨frame, framed, asked⟩ := Option.bind_eq_some_iff.mp asked
  obtain ⟨node, found, isFrame⟩ := Option.bind_eq_some_iff.mp framed
  exact Instruction.wellTyped_of_request? (typed.graph.frame id node frame found isFrame) asked

/-- A request leaves the classes well-typed, and gives a well-typed graph if it gives one. -/
def Calls.AnswersTyped (limit : Nat) (calls : Calls) (wanted : Request) (world : World) : Prop :=
  Sustained (fun after => after.statics.WellTyped limit)
    (fun result => ∀ graph, result = some graph → graph.WellTyped limit)
    (calls.ask (some wanted) world)

theorem Calls.answersTyped_start_iff (calls : Calls) (type : TypeDescriptor) (world : World) :
    calls.AnswersTyped limit (.start type) world ↔
      (lastState (calls.start type world)).statics.WellTyped limit := by
  unfold AnswersTyped
  simp only [Calls.ask, bind, EStateM.bind]
  cases calls.start type world with
  | ok value after => exact ⟨fun sustained => sustained.1, fun typed => ⟨typed, by simp⟩⟩
  | error fault after => exact Iff.rfl

theorem Calls.answer_typed {calls : Calls} {world : World} {wanted : Option Request}
    (answers : ∀ request, wanted = some request → calls.AnswersTyped limit request world) :
    (calls.answer world wanted).calls.Typed limit := by
  match wanted, answers with
  | none, _ => exact ⟨fun _ => .pure trivial, fun _ _ _ => .pure (by simp)⟩
  | some (.start type), answers =>
      have ended := (calls.answersTyped_start_iff type world).mp (answers _ rfl)
      refine ⟨fun _ _ _ => ?_, fun _ _ _ => .pure (by simp)⟩
      simp only [Calls.answer, Answer.calls]
      cases started : calls.start type world with
      | ok value after =>
          rw [started] at ended
          exact ⟨ended, trivial⟩
      | error fault after =>
          rw [started] at ended
          exact ended
  | some (.execute descriptor frame), answers =>
      exact ⟨fun _ => .pure trivial, fun _ _ _ _ _ => answers _ rfl⟩

theorem Instruction.execute_typed_of_answer {setup : Setup} {calls : Calls} (method : String)
    {instruction : Instruction} {frame : Frame} {world : World}
    (creates : instruction.op.createsReferences = true)
    (typed : frame.WellTyped setup.config.maxArrayLength)
    (typedStatics : world.statics.WellTyped setup.config.maxArrayLength)
    (answers : ∀ wanted, instruction.request? setup.program frame = some wanted →
      calls.AnswersTyped setup.config.maxArrayLength wanted world) :
    (lastState (instruction.execute setup calls method ⟨frame, world⟩)).WellTyped
      setup.config.maxArrayLength := by
  have answered := instruction.execute_answer setup calls method ⟨frame, world⟩
  rw [← answered]
  exact (instruction.execute_typed setup (Calls.answer_typed answers) method creates _
    ⟨typed, typedStatics⟩).lastState

theorem Exploration.WellTyped.visit {setup : Setup} {calls : Calls} {id : NodeId}
    {instruction : Instruction} {exploration : Exploration}
    (typed : exploration.WellTyped setup.config.maxArrayLength)
    (present : exploration.graph.instruction? id.address = some instruction)
    (answers : ∀ wanted, exploration.request? setup id instruction = some wanted →
      calls.AnswersTyped setup.config.maxArrayLength wanted
        (visiting exploration.graph exploration.world id instruction)) :
    (lastState (visit setup calls id instruction exploration)).WellTyped
      setup.config.maxArrayLength := by
  obtain ⟨graph, world⟩ := exploration
  cases framed : (graph.node? id).bind (·.frame) with
  | none =>
      rw [visit_of_noFrame framed]
      exact ⟨typed.graph.recordVisit id.address, typed.statics⟩
  | some frame =>
      have asked : request? ⟨graph, world⟩ setup id instruction =
          instruction.request? setup.program frame := by
        rw [request?, framed, Option.bind_some]
      obtain ⟨node, found, isFrame⟩ := Option.bind_eq_some_iff.mp framed
      rw [asked] at answers
      have here : (visiting graph world id instruction).statics.WellTyped
          setup.config.maxArrayLength := typed.statics
      have executed := Instruction.execute_typed_of_answer graph.method
        (typed.graph.code _ _ present) (typed.graph.frame id node frame found isFrame) here answers
      -- The node and its children get one frame, even if the visit fails on the way.
      obtain ⟨children, branched, -⟩ := branched_visit setup calls instruction world found isFrame
      refine ⟨typed.graph.branched found branched executed.frame, ?_⟩
      rw [statics_visit, asked, ← Instruction.statics_execute setup calls graph.method]
      exact executed.statics

/-! ## Programs -/

def ClassDef.createsReferences (definition : ClassDef) : Bool :=
  definition.name.isReference && definition.methods.all (·.createsReferences)

/-- Classes have names of reference types, and methods create objects of such types only. -/
structure Program.CreatesReferences (program : Program) : Prop where
  name : ∀ type, program.classes.contains type = true → type.isReference = true
  owner : ∀ {descriptor method}, program.methods.find? descriptor = some method →
    method.reference.owner.isReference = true
  code : ∀ {descriptor method}, program.methods.find? descriptor = some method →
    method.createsReferences = true

namespace Program.CreatesReferences

variable {program : Program}

theorem ofClasses {definitions : List ClassDef}
    (creates : ∀ definition ∈ definitions, definition.createsReferences = true)
    (loaded : ofClasses definitions = .ok program) : program.CreatesReferences := by
  obtain ⟨loadable, holds⟩ := ofClasses_eq_ok_iff.mp loaded
  have named : ∀ definition ∈ definitions, definition.name.isReference = true ∧
      definition.methods.all (·.createsReferences) = true :=
    fun definition inside => Bool.and_eq_true_iff.mp (creates definition inside)
  have home : ∀ {descriptor method}, program.methods.find? descriptor = some method →
      ∃ definition ∈ definitions, method ∈ definition.methods := by
    intro descriptor method found
    exact List.mem_flatMap.mp ((holds.methods descriptor method).mp found).1
  refine ⟨fun type defined => ?_, fun found => ?_, fun found => ?_⟩
  · obtain ⟨definition, inside, rfl⟩ := (holds.contains_iff type).mp defined
    exact (named definition inside).1
  · obtain ⟨definition, inside, isMethod⟩ := home found
    rw [(loadable.methods definition inside _ isMethod).1]
    exact (named definition inside).1
  · obtain ⟨definition, inside, isMethod⟩ := home found
    exact List.all_eq_true.mp (named definition inside).2 _ isMethod

theorem amendClass (creates : program.CreatesReferences) (method : MethodDef) :
    (program.amendClass method).CreatesReferences where
  name type defined := by
    refine creates.name type ?_
    rw [Program.amendClass, OrdMap.contains, OrdMap.find?_modify] at defined
    split at defined
    · rwa [Option.isSome_map] at defined
    · exact defined
  owner := creates.owner
  code := creates.code

theorem enter (creates : program.CreatesReferences) {method : MethodDef}
    (isReference : method.reference.owner.isReference = true)
    (createsToo : method.createsReferences = true) : (program.enter method).CreatesReferences where
  name := creates.name
  owner found := by
    rw [methods_enter] at found
    split at found
    · cases found
      exact isReference
    · exact creates.owner found
  code found := by
    rw [methods_enter] at found
    split at found
    · cases found
      exact createsToo
    · exact creates.code found

theorem rootFrame (creates : program.CreatesReferences) {descriptor : String} {frame : Frame}
    (isFrame : program.rootFrame descriptor = .ok frame) : frame.WellTyped limit := by
  unfold Program.rootFrame at isFrame
  split at isFrame
  · cases isFrame
  · next method found =>
      have unknowns : ∀ value ∈ method.reference.parameters.map Value.unknown,
          value.WellTyped limit := by
        intro value inside
        obtain ⟨type, -, rfl⟩ := List.mem_map.mp inside
        exact .unknown type
      simp only at isFrame
      split at isFrame
      · exact (Frame.WellTyped.new _ _).bindParameters unknowns isFrame
      · obtain ⟨received, isBound, isFrame⟩ := Except.bind_eq_ok_iff.mp isFrame
        have receiver : (Value.scalar method.reference.owner (.object none)).WellTyped limit :=
          .scalar (creates.owner found)
        exact ((Frame.WellTyped.new _ _).bindReceiver receiver isBound).bindParameters unknowns
          isFrame

theorem template (creates : program.CreatesReferences) (consistent : program.Consistent)
    {descriptor : String} {graph : Graph} (code : program.templates.find? descriptor = some graph) :
    graph.WellTyped limit := by
  obtain ⟨method, found, built⟩ := consistent.template code
  exact .ofMethod (creates.code found) built

end Program.CreatesReferences

/-! ## Everything inside a juncture -/

namespace Juncture

def WellTyped (limit : Nat) : Juncture → Prop
  | request _ wanted world => wanted.WellTyped limit ∧ world.statics.WellTyped limit
  | explore _ _ _ exploration => exploration.WellTyped limit

/-- What is done at a juncture leaves everything well-typed, whether or not it fails. -/
def EndsWellTyped (setup : Setup) : Juncture → Prop
  | request depth wanted world =>
    (callsAt setup depth).AnswersTyped setup.config.maxArrayLength wanted world
  | explore depth pending allowance exploration =>
    (lastState (exploreFrom setup (callsAt setup depth) pending allowance
      exploration)).WellTyped setup.config.maxArrayLength

variable {setup : Setup} {juncture inner : Juncture}

/-- A juncture inside a well-typed one is well-typed, if those before it have ended so. -/
theorem Leads.wellTyped (creates : setup.program.CreatesReferences)
    (consistent : setup.program.Consistent) (leads : Leads setup juncture inner)
    (typed : juncture.WellTyped setup.config.maxArrayLength)
    (ends : ∀ other, Leads setup juncture other → other.WellTyped setup.config.maxArrayLength →
      other.EndsWellTyped setup) : inner.WellTyped setup.config.maxArrayLength := by
  cases leads with
  | @initializer depth type world state template frame found fresh code isFrame =>
      exact ⟨creates.rootFrame isFrame, typed.2.markInitialized type⟩
  | start code => exact ⟨trivial, typed.2⟩
  | @enter depth descriptor frame world started template code start room =>
      -- The code begins in the classes as the start of its own class has left them.
      have starting := ends _ (.start code) ⟨trivial, typed.2⟩
      have ended := (Calls.answersTyped_start_iff _ _ _).mp starting
      rw [start] at ended
      exact ⟨(creates.template consistent code).setRootFrame typed.1, ended⟩
  | ask present spent asked => exact ⟨typed.request asked, typed.statics⟩
  | goOn present spent visited =>
      have after := typed.visit present fun wanted asked =>
        ends _ (.ask present spent asked) ⟨typed.request asked, typed.statics⟩
      rw [visited] at after
      exact after

theorem conclude_typed (setup : Setup) {result : EStateM.Result Fault Exploration Unit}
    (typed : (lastState result).WellTyped limit) :
    Sustained (fun after => after.statics.WellTyped limit)
      (fun given => ∀ graph, given = some graph → graph.WellTyped limit)
      (conclude setup result) := by
  cases result with
  | ok value done =>
      refine ⟨typed.statics.commit typed.graph _, fun graph same => ?_⟩
      cases same
      exact typed.graph
  | error fault done =>
      rw [conclude]
      split
      · exact ⟨typed.statics.giveUp done.graph, by simp⟩
      · exact typed.statics

/-- Whatever begins well-typed ends well-typed. -/
theorem endsWellTyped (creates : setup.program.CreatesReferences)
    (consistent : setup.program.Consistent) (juncture : Juncture)
    (typed : juncture.WellTyped setup.config.maxArrayLength) : juncture.EndsWellTyped setup := by
  induction juncture using @Juncture.induction setup with | step juncture inside
  -- Junctures that come later inside this one are well-typed because the earlier ones ended so.
  have within : ∀ inner, Leads setup juncture inner →
      inner.WellTyped setup.config.maxArrayLength :=
    fun inner leads => leads.wellTyped creates consistent typed inside
  have ends : ∀ inner, Leads setup juncture inner → inner.EndsWellTyped setup :=
    fun inner leads => inside inner leads (within inner leads)
  match juncture, typed, ends with
  | .request depth (.start type) world, typed, ends =>
      refine (Calls.answersTyped_start_iff _ type world).mpr ?_
      rcases lastState_start setup depth type world with
        same | ⟨state, found, fresh, same | ⟨template, frame, code, isFrame, same⟩⟩
      · rw [same]
        exact typed.2
      · rw [same]
        exact typed.2.markInitialized type
      · rw [same]
        exact (ends _ (.initializer found fresh code isFrame)).lastState
  | .request depth (.execute descriptor frame) world, typed, ends =>
      simp only [EndsWellTyped, Calls.AnswersTyped, Calls.ask]
      rcases execute_cases setup depth descriptor frame world with
        missing | ⟨template, code, ⟨fault, failed, start, executed⟩ |
          ⟨started, start, executed | ⟨room, executed⟩⟩⟩
      · rw [missing]
        exact typed.2
      all_goals
        have starting := (Calls.answersTyped_start_iff _ _ _).mp (ends _ (.start code))
        rw [start] at starting
        rw [executed]
      · exact starting
      · exact ⟨starting.giveUp template, by simp⟩
      · exact conclude_typed setup (ends _ (.enter code start room))
  | .explore depth pending allowance exploration, typed, ends =>
      rw [EndsWellTyped]
      rcases exploreFrom_cases setup (callsAt setup depth) pending allowance exploration with
        same | ⟨id, rest, instruction, remaining, rfl, present, spent,
          ⟨fault, after, visited, same⟩ | ⟨children, after, visited, same⟩⟩
      · rw [same]
        exact typed
      · have failed := typed.visit present fun wanted asked => ends _ (.ask present spent asked)
        rw [visited] at failed
        rw [same]
        exact failed
      · rw [same]
        exact ends _ (.goOn present spent visited)

theorem EndsWellTyped.finalStatics (ended : juncture.EndsWellTyped setup) :
    (juncture.finalStatics setup).WellTyped setup.config.maxArrayLength := by
  cases juncture with
  | request depth wanted world => exact Sustained.lastState ended
  | explore depth pending allowance exploration => exact Exploration.WellTyped.statics ended

/-- Whatever lies inside something well-typed is well-typed. -/
theorem wellTyped_of_reaches (creates : setup.program.CreatesReferences)
    (consistent : setup.program.Consistent)
    (typed : juncture.WellTyped setup.config.maxArrayLength)
    (reaches : Reaches setup juncture inner) :
    inner.WellTyped setup.config.maxArrayLength := by
  induction reaches with
  | refl => exact typed
  | tail _ leads induction =>
      exact leads.wellTyped creates consistent induction fun other _ =>
        endsWellTyped creates consistent other

end Juncture

/-! ## Machines -/

inductive Command where
  | operate (operation : Operation)
  | explore (graph : Graph)
  | executeInstruction (method : String) (instruction : Instruction) (frame : Frame)
  | reset

namespace Command

def WellTyped (limit : Nat) : Command → Prop
  | operate (.executeFrom _ frame) => frame.WellTyped limit
  | operate (.update method) => method.createsReferences = true
  | explore graph => graph.WellTyped limit
  | executeInstruction _ instruction frame =>
    instruction.op.createsReferences = true ∧ frame.WellTyped limit
  | _ => True

def perform (machine : Machine) : Command → Machine
  | operate operation => (operation.perform machine).machine
  | explore graph => (machine.explore graph).1.machine
  | executeInstruction method instruction frame =>
    (machine.executeInstruction method instruction frame).1.machine
  | reset => machine.reset

def juncture? (machine : Machine) : Command → Option Juncture
  | operate operation => operation.juncture? machine
  | explore graph =>
    some (.explore machine.callDepth [.root] (.full machine.config graph) ⟨graph, machine.world⟩)
  | executeInstruction _ instruction frame =>
    (instruction.request? machine.program frame).map fun wanted =>
      .request machine.callDepth wanted machine.world
  | reset => none

end Command

namespace Machine

def follow (machine : Machine) (commands : List Command) : Machine :=
  commands.foldl Command.perform machine

structure WellTyped (machine : Machine) : Prop where
  creates : machine.program.CreatesReferences
  consistent : machine.program.Consistent
  statics : machine.statics.WellTyped machine.config.maxArrayLength

variable {machine : Machine}

theorem WellTyped.load {definitions : List ClassDef} {config : Config}
    (creates : ∀ definition ∈ definitions, definition.createsReferences = true)
    (loaded : load definitions config = .ok machine) : machine.WellTyped := by
  obtain ⟨program, built, loaded⟩ := Except.bind_eq_ok_iff.mp loaded
  cases loaded
  exact ⟨.ofClasses creates built, Program.consistent_ofClasses built, .ofDefinitions _⟩

theorem lastState_explore (machine : Machine) (graph : Graph) :
    (machine.explore graph).1.machine = machine.afterwards
        (lastState (Exploration.explore machine.toSetup machine.calls
          ⟨graph, machine.world⟩)).world ∧
      (machine.explore graph).2 =
        (lastState (Exploration.explore machine.toSetup machine.calls
          ⟨graph, machine.world⟩)).graph := by
  unfold explore
  cases Exploration.explore machine.toSetup machine.calls ⟨graph, machine.world⟩ <;>
    exact ⟨rfl, rfl⟩

theorem lastState_executeInstruction (machine : Machine) (method : String)
    (instruction : Instruction) (frame : Frame) :
    (machine.executeInstruction method instruction frame).1.machine = machine.afterwards
        (lastState (instruction.execute machine.toSetup machine.calls method
          ⟨frame, machine.world⟩)).world ∧
      (machine.executeInstruction method instruction frame).2 =
        (lastState (instruction.execute machine.toSetup machine.calls method
          ⟨frame, machine.world⟩)).frame := by
  unfold executeInstruction
  cases instruction.execute machine.toSetup machine.calls method ⟨frame, machine.world⟩ <;>
    exact ⟨rfl, rfl⟩

namespace WellTyped

theorem juncture (typed : machine.WellTyped) {command : Command} {juncture : Juncture}
    (given : command.WellTyped machine.config.maxArrayLength)
    (begins : command.juncture? machine = some juncture) :
    juncture.WellTyped machine.config.maxArrayLength := by
  match command, given, begins with
  | .operate (.execute descriptor), _, begins =>
      simp only [Command.juncture?, Operation.juncture?] at begins
      cases isFrame : machine.rootFrame descriptor with
      | error fault =>
          rw [isFrame] at begins
          cases begins
      | ok frame =>
          rw [isFrame] at begins
          cases begins
          exact ⟨typed.creates.rootFrame isFrame, typed.statics⟩
  | .operate (.executeFrom descriptor frame), given, begins =>
      cases begins
      exact ⟨given, typed.statics⟩
  | .operate (.startClass type), _, begins =>
      cases begins
      exact ⟨trivial, typed.statics⟩
  | .operate (.update method), _, begins => cases begins
  | .explore graph, given, begins =>
      cases begins
      exact ⟨given, typed.statics⟩
  | .executeInstruction method instruction frame, given, begins =>
      obtain ⟨wanted, asked, rfl⟩ := Option.map_eq_some_iff.mp begins
      exact ⟨Instruction.wellTyped_of_request? given.2 asked, typed.statics⟩
  | .reset, _, begins => cases begins

/-- At every juncture of a command everything is well-typed, before and after. -/
theorem moment (typed : machine.WellTyped) {command : Command} {juncture inner : Juncture}
    (given : command.WellTyped machine.config.maxArrayLength)
    (begins : command.juncture? machine = some juncture)
    (reaches : Juncture.Reaches machine.toSetup juncture inner) :
    inner.WellTyped machine.config.maxArrayLength ∧ inner.EndsWellTyped machine.toSetup := by
  have here := Juncture.wellTyped_of_reaches typed.creates typed.consistent
    (typed.juncture given begins) reaches
  exact ⟨here, Juncture.endsWellTyped typed.creates typed.consistent inner here⟩

theorem explore (typed : machine.WellTyped) {graph : Graph}
    (given : graph.WellTyped machine.config.maxArrayLength) :
    (lastState (Exploration.explore machine.toSetup machine.calls
      ⟨graph, machine.world⟩)).WellTyped machine.config.maxArrayLength := by
  have command : (Command.explore graph).WellTyped machine.config.maxArrayLength := given
  exact (typed.moment command rfl .refl).2

theorem executeInstruction (typed : machine.WellTyped) (method : String)
    {instruction : Instruction} {frame : Frame}
    (creates : instruction.op.createsReferences = true)
    (given : frame.WellTyped machine.config.maxArrayLength) :
    (lastState (instruction.execute machine.toSetup machine.calls method
      ⟨frame, machine.world⟩)).WellTyped machine.config.maxArrayLength := by
  refine Instruction.execute_typed_of_answer method creates given typed.statics ?_
  intro wanted asked
  have command : (Command.executeInstruction method instruction frame).WellTyped
      machine.config.maxArrayLength := ⟨creates, given⟩
  have begins : (Command.executeInstruction method instruction frame).juncture? machine =
      some (.request machine.callDepth wanted machine.world) := by
    rw [Command.juncture?, asked, Option.map_some]
  exact (typed.moment command begins .refl).2

theorem update (typed : machine.WellTyped) {method : MethodDef}
    (creates : method.createsReferences = true) : (machine.update method).machine.WellTyped := by
  have consistent := consistent_update typed.consistent method
  have amended := typed.creates.amendClass method
  obtain same | ⟨home, program, same, rfl | registered⟩ := machine.update_cases method
  · rw [same]
    exact typed
  · rw [same] at consistent ⊢
    exact ⟨amended, consistent, typed.statics⟩
  · rw [same] at consistent ⊢
    obtain ⟨-, rfl⟩ := Program.register_eq_ok_iff.mp registered
    exact ⟨amended.enter (typed.creates.name _ home) creates, consistent, typed.statics⟩

theorem of_toSetup (typed : machine.WellTyped) {after : Machine}
    (same : after.toSetup = machine.toSetup)
    (statics : after.statics.WellTyped machine.config.maxArrayLength) : after.WellTyped where
  creates := by
    rw [same]
    exact typed.creates
  consistent := by
    rw [same]
    exact typed.consistent
  statics := by
    rw [same]
    exact statics

theorem operate (typed : machine.WellTyped) {operation : Operation}
    (given : (Command.operate operation).WellTyped machine.config.maxArrayLength)
    (isRun : operation.update? = none) : (operation.perform machine).machine.WellTyped := by
  refine typed.of_toSetup (machine.toSetup_perform operation isRun) ?_
  rw [statics_performOperation]
  cases begins : operation.juncture? machine with
  | none => exact typed.statics
  | some juncture => exact (typed.moment given begins .refl).2.finalStatics

theorem perform (typed : machine.WellTyped) {command : Command}
    (given : command.WellTyped machine.config.maxArrayLength) :
    (command.perform machine).WellTyped := by
  match command, given with
  | .operate (.update method), given => exact typed.update given
  | .operate (.execute descriptor), given => exact typed.operate given rfl
  | .operate (.executeFrom descriptor frame), given => exact typed.operate given rfl
  | .operate (.startClass type), given => exact typed.operate given rfl
  | .explore graph, given =>
      simp only [Command.perform]
      rw [(machine.lastState_explore graph).1]
      exact typed.of_toSetup rfl (typed.explore given).statics
  | .executeInstruction method instruction frame, given =>
      simp only [Command.perform]
      rw [(machine.lastState_executeInstruction method instruction frame).1]
      exact typed.of_toSetup rfl (typed.executeInstruction method given.1 given.2).statics
  | .reset, _ => exact typed.of_toSetup rfl (.ofDefinitions _)

end WellTyped

theorem config_perform (machine : Machine) (command : Command) :
    (command.perform machine).config = machine.config := by
  match command with
  | .operate (.update method) =>
      simp only [Command.perform, Operation.perform]
      obtain same | ⟨-, program, same, -⟩ := machine.update_cases method <;> rw [same]
  | .operate (.execute descriptor) => exact congrArg Setup.config (machine.toSetup_perform _ rfl)
  | .operate (.executeFrom descriptor frame) =>
      exact congrArg Setup.config (machine.toSetup_perform _ rfl)
  | .operate (.startClass type) => exact congrArg Setup.config (machine.toSetup_perform _ rfl)
  | .explore graph =>
      simp only [Command.perform]
      rw [(machine.lastState_explore graph).1]
      rfl
  | .executeInstruction method instruction frame =>
      simp only [Command.perform]
      rw [(machine.lastState_executeInstruction method instruction frame).1]
      rfl
  | .reset => rfl

theorem WellTyped.follow (typed : machine.WellTyped) (commands : List Command)
    (given : ∀ command ∈ commands, command.WellTyped machine.config.maxArrayLength) :
    (machine.follow commands).WellTyped ∧ (machine.follow commands).config = machine.config := by
  induction commands generalizing machine with
  | nil => exact ⟨typed, rfl⟩
  | cons command rest induction =>
      have same := machine.config_perform command
      have later := induction (typed.perform (given command List.mem_cons_self)) (by
        rw [same]
        exact fun other inside => given other (List.mem_cons_of_mem _ inside))
      exact ⟨later.1, later.2.trans same⟩

/-- Whatever the machine holds, goes through and gives is well-typed: its classes, graphs and
frames, the junctures of the next command, and what that command gives. -/
structure GivesWellTyped (machine : Machine) (limit : Nat) : Prop where
  statics : machine.statics.WellTyped limit
  template : ∀ descriptor graph, machine.template? descriptor = some graph → graph.WellTyped limit
  rootFrame : ∀ descriptor frame, machine.rootFrame descriptor = .ok frame →
    frame.WellTyped limit
  moment : ∀ (command : Command) (juncture inner : Juncture), command.WellTyped limit →
    command.juncture? machine = some juncture →
    Juncture.Reaches machine.toSetup juncture inner →
    inner.WellTyped limit ∧ inner.EndsWellTyped machine.toSetup
  execute : ∀ descriptor graph, (machine.execute descriptor).outcome = .ok (some graph) →
    graph.WellTyped limit
  executeFrom : ∀ descriptor (frame : Frame) graph, frame.WellTyped limit →
    (machine.executeFrom descriptor frame).outcome = .ok (some graph) → graph.WellTyped limit
  explore : ∀ graph : Graph, graph.WellTyped limit → (machine.explore graph).2.WellTyped limit
  executeInstruction : ∀ method (instruction : Instruction) (frame : Frame),
    instruction.op.createsReferences = true → frame.WellTyped limit →
    (machine.executeInstruction method instruction frame).2.WellTyped limit

theorem WellTyped.executeFrom (typed : machine.WellTyped) {descriptor : String} {frame : Frame}
    {graph : Graph} (given : frame.WellTyped machine.config.maxArrayLength)
    (executed : (machine.executeFrom descriptor frame).outcome = .ok (some graph)) :
    graph.WellTyped machine.config.maxArrayLength := by
  have command : (Command.operate (.executeFrom descriptor frame)).WellTyped
      machine.config.maxArrayLength := given
  obtain ⟨after, ran⟩ := executeFrom_eq_ok_iff.mp executed
  have ended := (typed.moment command rfl .refl).2
  simp only [Juncture.EndsWellTyped, Calls.AnswersTyped, Calls.ask] at ended
  unfold calls at ran
  rw [ran] at ended
  exact ended.2 graph rfl

theorem WellTyped.gives (typed : machine.WellTyped) :
    machine.GivesWellTyped machine.config.maxArrayLength where
  statics := typed.statics
  template _ _ code := typed.creates.template typed.consistent code
  rootFrame _ _ isFrame := typed.creates.rootFrame isFrame
  moment _ _ _ given begins reaches := typed.moment given begins reaches
  execute descriptor graph executed := by
    unfold Machine.execute at executed
    split at executed
    · next frame isFrame => exact typed.executeFrom (typed.creates.rootFrame isFrame) executed
    · cases executed
  executeFrom _ _ _ given executed := typed.executeFrom given executed
  explore graph given := by
    rw [(machine.lastState_explore graph).2]
    exact (typed.explore given).graph
  executeInstruction method instruction frame creates given := by
    rw [(machine.lastState_executeInstruction method instruction frame).2]
    exact (typed.executeInstruction method creates given).frame

/-- If classes have names of reference types and objects are created of such types only, then
after any sequence of commands whatever is known is of its declared type, and no array is longer
than the limit: between commands, at every juncture inside the next one, and in what it gives. -/
theorem values_well_typed {definitions : List ClassDef} {config : Config}
    (loaded : load definitions config = .ok machine)
    (creates : ∀ definition ∈ definitions, definition.createsReferences = true)
    (commands : List Command)
    (given : ∀ command ∈ commands, command.WellTyped config.maxArrayLength) :
    (machine.follow commands).GivesWellTyped config.maxArrayLength := by
  obtain ⟨-, -, rfl, -⟩ := load_eq_ok_iff.mp loaded
  obtain ⟨typed, same⟩ := (WellTyped.load creates loaded).follow commands given
  rw [← same]
  exact typed.gives

def shelfField : FieldRef := ⟨⟨"LShelf;"⟩, "books", ⟨"[B"⟩⟩

def shelfClass : ClassDef where
  name := ⟨"LShelf;"⟩
  flags := 0
  fields := [⟨"books", ⟨"[B"⟩, 8, none⟩]
  methods :=
    [{ reference := ⟨⟨"LShelf;"⟩, "<clinit>", [], .void⟩
       flags := 8
       registers := 3
       instructions :=
        [.ofOp 0 (.const 0 (.int 2)), .ofOp 3 (.newArray 1 0 ⟨"[B"⟩),
         .ofOp 5 (.const 0 (.int 1)), .ofOp 8 (.const 2 (.int 300)), .ofOp 11 (.arrayPut 2 1 0),
         .ofOp 13 (.newInstance 2 ⟨"LBook;"⟩), .ofOp 15 (.staticPut 1 shelfField),
         .ofOp 17 (.giveBack none)]
       tries := [] }]

theorem values_well_typed_shelf :
    ∃ machine, load [shelfClass] {} = .ok machine ∧
      (machine.follow [.reset, .operate (.startClass ⟨"LShelf;"⟩)]).statics.held? ⟨"LShelf;"⟩
        "books" = some (.array ⟨"[B"⟩ [.scalar .byte (.byte 0), .scalar .byte (.byte 44)]) ∧
      (Value.array ⟨"[B"⟩ [.scalar .byte (.byte 0), .scalar .byte (.byte 44)]).WellTyped 4096 := by
  cases loaded : load [shelfClass] {} with
  | error fault => cases loaded
  | ok machine =>
      have held : (machine.follow [.reset, .operate (.startClass ⟨"LShelf;"⟩)]).statics.held?
          ⟨"LShelf;"⟩ "books" =
            some (.array ⟨"[B"⟩ [.scalar .byte (.byte 0), .scalar .byte (.byte 44)]) := by
        cases loaded
        decide +kernel
      have creates : ∀ definition ∈ [shelfClass], definition.createsReferences = true := by
        decide
      have given : ∀ command ∈ [Command.reset, .operate (.startClass ⟨"LShelf;"⟩)],
          command.WellTyped 4096 := by
        simp [Command.WellTyped]
      have typed := values_well_typed loaded creates _ given
      obtain ⟨state, found, isValue⟩ := Option.bind_eq_some_iff.mp held
      exact ⟨machine, rfl, held, typed.statics _ state found _ _ isValue⟩

end Machine

end Dexplore
