import Dexplore.Exploration
import Dexplore.Proofs.Visit

/-!
# What an instruction asks for

An instruction makes at most one request to the rest of the analysis, and the path alone says
which one.  So its execution depends on `Calls` only through the answer to that request
(`Instruction.execute_answer`), and a visit does too (`Exploration.visit_answer`).
-/

set_option autoImplicit false

namespace Dexplore

/-- A class to be started, or a method to be executed from a frame. -/
inductive Request where
  | start (type : TypeDescriptor)
  | execute (descriptor : String) (frame : Frame)

/-- What has become of a request, if there was one. -/
inductive Answer where
  | nothing
  | started (result : EStateM.Result Fault World Unit)
  | executed (result : EStateM.Result Fault World (Option Graph))

/-- The request of a call: no method is entered if the arguments do not fit. -/
def Program.callRequest? (program : Program) (kind : InvokeKind) (method : MethodRef)
    (caller : Frame) (args : List Register) : Option Request :=
  let isStatic : Bool := kind = .static
  if args.length ≠ method.parameters.length + (if isStatic then 0 else 1) then none
  else
    match program.callee? method.descriptor with
    | none => some (.start method.owner)
    | some (callee, _) =>
      if callee.isStatic ≠ isStatic then none
      else
        match Invocation.entryFrame callee method isStatic caller args with
        | .error _ => none
        | .ok frame => some (.execute method.descriptor frame)

def Instruction.request? (program : Program) (instruction : Instruction) (frame : Frame) :
    Option Request :=
  match instruction.op with
  | .invoke kind method args => program.callRequest? kind method frame args
  | .staticGet _ field | .staticPut _ field => some (.start field.owner)
  | _ => none

theorem Instruction.call_of_request? {program : Program} {instruction : Instruction}
    {frame entry : Frame} {callee : String}
    (asked : instruction.request? program frame = some (.execute callee entry)) :
    ∃ kind reference args, instruction.op = .invoke kind reference args ∧
      program.callRequest? kind reference frame args = some (.execute callee entry) := by
  unfold request? at asked
  split at asked
  · next kind reference args isCall => exact ⟨kind, reference, args, isCall, asked⟩
  · cases asked
  · cases asked
  · cases asked

theorem Program.callee_of_callRequest? {program : Program} {kind : InvokeKind}
    {reference : MethodRef} {caller entry : Frame} {args : List Register} {callee : String}
    (asked : program.callRequest? kind reference caller args = some (.execute callee entry)) :
    ∃ definition template, program.callee? callee = some (definition, template) ∧
      Invocation.entryFrame definition reference (kind = .static) caller args = .ok entry := by
  unfold callRequest? at asked
  by_cases fits : args.length = reference.parameters.length +
      (if (decide (kind = .static) : Bool) then 0 else 1)
  · simp only [fits, ne_eq, not_true_eq_false, if_false] at asked
    split at asked
    · cases asked
    · next definition template found =>
        split at asked
        · cases asked
        · split at asked
          · cases asked
          · next entered =>
              cases asked
              exact ⟨definition, template, found, entered⟩
  · simp only [fits, ne_eq, not_false_eq_true, if_true] at asked
    cases asked

def Calls.answer (calls : Calls) (world : World) : Option Request → Answer
  | none => .nothing
  | some (.start type) => .started (calls.start type world)
  | some (.execute descriptor frame) => .executed (calls.execute descriptor frame world)

def Answer.calls : Answer → Calls
  | .nothing => ⟨fun _ world => .ok () world, fun _ _ world => .ok none world⟩
  | .started result => ⟨fun _ _ => result, fun _ _ world => .ok none world⟩
  | .executed result => ⟨fun _ world => .ok () world, fun _ _ _ => result⟩

/-! ## Only the answer matters -/

theorem Program.invoke_answer (program : Program) (calls : Calls) (kind : InvokeKind)
    (method : MethodRef) (caller : Frame) (args : List Register) (world : World) :
    program.invoke (calls.answer world (program.callRequest? kind method caller args)).calls
        kind method caller args world =
      program.invoke calls kind method caller args world := by
  unfold Program.invoke Program.callRequest?
  by_cases fits : args.length = method.parameters.length +
      (if (decide (kind = .static) : Bool) then 0 else 1)
  · simp only [fits, ne_eq, not_true_eq_false, if_false]
    cases program.callee? method.descriptor with
    | none => rfl
    | some pair =>
        obtain ⟨callee, template⟩ := pair
        by_cases agrees : callee.isStatic = decide (kind = .static)
        · simp only [agrees, not_true_eq_false, if_false]
          cases Invocation.entryFrame callee method (decide (kind = .static)) caller args with
          | error fault => rfl
          | ok frame => rfl
        · simp only [agrees, not_false_eq_true, if_true]
          rfl
  · simp only [fits, ne_eq, not_false_eq_true, if_true]
    rfl

theorem Step.bind_congr {α β : Type} {left right : Step α} {next : α → Step β} {scene : Scene}
    (same : left scene = right scene) : (left >>= next) scene = (right >>= next) scene := by
  simp only [bind, EStateM.bind, same]

theorem Step.get_bind {β : Type} (next : Scene → Step β) (scene : Scene) :
    (get >>= next) scene = next scene scene := rfl

theorem Step.invoke_answer (program : Program) (calls : Calls) (kind : InvokeKind)
    (method : MethodRef) (args : List Register) (scene : Scene) :
    Step.invoke program
        (calls.answer scene.world (program.callRequest? kind method scene.frame args)).calls
        kind method args scene =
      Step.invoke program calls kind method args scene := by
  unfold Step.invoke
  rw [Step.get_bind, Step.get_bind]
  refine Step.bind_congr ?_
  simp only [Step.outside, Program.invoke_answer]

/-- An instruction does the same if only its own request is answered. -/
theorem Instruction.execute_answer (setup : Setup) (calls : Calls) (method : String)
    (instruction : Instruction) (scene : Scene) :
    instruction.execute setup
        (calls.answer scene.world (instruction.request? setup.program scene.frame)).calls
        method scene =
      instruction.execute setup calls method scene := by
  unfold Instruction.execute Instruction.request?
  cases instruction.op with
  | invoke kind reference args =>
      exact Step.bind_congr (Step.invoke_answer setup.program calls kind reference args scene)
  | staticGet dest field => rfl
  | staticPut src field => rfl
  | giveBack src => cases src <;> rfl
  | _ => rfl

namespace Exploration

def request? (exploration : Exploration) (setup : Setup) (id : NodeId)
    (instruction : Instruction) : Option Request :=
  ((exploration.graph.node? id).bind (·.frame)).bind (instruction.request? setup.program)

theorem visit_answer (setup : Setup) (calls : Calls) (id : NodeId) (instruction : Instruction)
    (graph : Graph) (world : World) :
    visit setup
        (calls.answer (visiting graph world id instruction)
          (request? ⟨graph, world⟩ setup id instruction)).calls id instruction ⟨graph, world⟩ =
      visit setup calls id instruction ⟨graph, world⟩ := by
  cases framed : (graph.node? id).bind (·.frame) with
  | none => rw [visit_of_noFrame framed, visit_of_noFrame framed]
  | some frame =>
      have asked : request? ⟨graph, world⟩ setup id instruction =
          instruction.request? setup.program frame := by
        rw [request?, framed]
        rfl
      obtain ⟨node, found, framed⟩ := Option.bind_eq_some_iff.mp framed
      rw [asked, visit_eq found framed, visit_eq found framed]
      have same := instruction.execute_answer setup calls graph.method
        ⟨frame, visiting graph world id instruction⟩
      rw [same]

end Exploration

end Dexplore
