import Dexplore.Proofs.Lawful
import Dexplore.Proofs.Layout
import Dexplore.Proofs.Outcomes
import Dexplore.Proofs.Stages

/-!
# Code without stray targets

Code that is assembled from labels has its targets at instructions or at its end, and so has
everything that an instruction of it can hand control to (`successors_instructionsFrom`).  A graph
can be built of it.  An analysis then names an address of the method that holds no instruction
only if a path has run off the end, however deep in other calls the method was entered
(`Machine.strays_only_off_end`).
-/

set_option autoImplicit false

namespace Dexplore

/-! ## Targets given by labels -/

/-- A directive whose targets are labels, and which takes up room if it lays anything out. -/
def Directive.Symbolic : Directive → Prop
  | .emit op => op.targets = []
  | .emitSized op units => op.targets = [] ∧ units ≠ 0
  | .access op _ => ∀ field, (op field).targets = []
  | _ => True

theorem Op.units_ne_zero (op : Op) : op.units ≠ 0 := by
  cases op with
  | const dest value => cases value <;> simp [units, Literal.units]
  | _ => simp [units]

theorem Instruction.mem_possibleSuccessors {instruction : Instruction} {address : Address}
    (possible : address ∈ instruction.possibleSuccessors) :
    address = instruction.next ∨ address ∈ instruction.op.targets := by
  unfold possibleSuccessors at possible
  cases shape : instruction.op <;> rw [shape] at possible <;>
    simp_all [Op.targets, switchSuccessors]

namespace Directive

variable {directive : Directive} {place : String → Address} {address : Address}
  {instruction : Instruction}

theorem units_of_statement? {op : Op} {units : UInt16}
    (states : directive.statement? place = some (op, units)) :
    units = op.units ∨ directive = .emitSized op units := by
  cases directive with
  | label name => cases states
  | emitSized other width =>
      cases states
      exact .inr rfl
  | invoke kind descriptor args =>
      obtain ⟨method, -, isStatement⟩ := Option.map_eq_some_iff.mp states
      cases isStatement
      exact .inl rfl
  | access other descriptor =>
      obtain ⟨field, -, isStatement⟩ := Option.map_eq_some_iff.mp states
      cases isStatement
      exact .inl rfl
  | _ =>
      cases states
      exact .inl rfl

theorem units_ne_zero_of_symbolic (symbolic : directive.Symbolic)
    (puts : directive.instruction? place address = some instruction) :
    instruction.units ≠ 0 := by
  obtain ⟨⟨op, units⟩, states, rfl⟩ := Option.map_eq_some_iff.mp puts
  rcases units_of_statement? states with usual | sized
  · subst usual
    exact op.units_ne_zero
  · subst sized
    exact symbolic.2

theorem targets_of_symbolic (symbolic : directive.Symbolic)
    (puts : directive.instruction? place address = some instruction) :
    instruction.op.targets = directive.references.map place := by
  obtain ⟨statement, states, rfl⟩ := Option.map_eq_some_iff.mp puts
  cases directive with
  | label name => cases states
  | emit op =>
      cases states
      exact symbolic
  | emitSized op units =>
      cases states
      exact symbolic.1
  | invoke kind descriptor args =>
      obtain ⟨method, -, isStatement⟩ := Option.map_eq_some_iff.mp states
      cases isStatement
      rfl
  | access op descriptor =>
      obtain ⟨field, -, isStatement⟩ := Option.map_eq_some_iff.mp states
      cases isStatement
      exact symbolic field
  | branch condition lhs rhs name | jump name =>
      cases states
      rfl
  | switch src cases =>
      cases states
      simp [Op.targets, references]

end Directive

/-! ## Where assembled code goes on -/

namespace Assembler

open Directive

variable {directives : List Directive} {code : List Instruction} {place : String → Address}

theorem widthOf_concat (before : List Directive) (directive : Directive) :
    widthOf (before ++ [directive]) = widthOf before + directive.width := by
  induction before with
  | nil => simp [widthOf]
  | cons first rest induction =>
      rw [List.cons_append, widthOf, widthOf, induction]
      omega

theorem placeIn_of_mem {name : String} (placed : .label name ∈ directives) :
    ∃ before after, directives = before ++ after ∧
      placeIn (ofDirectives directives).labels name = .ofNat (widthOf before) := by
  obtain ⟨before, after, isSplit, first⟩ := List.eq_append_cons_of_mem placed
  refine ⟨before, .label name :: after, isSplit, ?_⟩
  rw [isSplit]
  exact placeIn_of_first first

theorem mem_instructionsFrom {instruction : Instruction} {address : Address}
    (inside : instruction ∈ instructionsFrom place address directives) :
    ∃ before directive after, directives = before ++ directive :: after ∧
      directive.instruction? place (address + .ofNat (widthOf before)) = some instruction := by
  induction directives generalizing address with
  | nil => cases inside
  | cons directive rest induction =>
      rw [instructionsFrom, List.mem_append, Option.mem_toList] at inside
      rcases inside with here | later
      · refine ⟨[], directive, rest, rfl, ?_⟩
        rw [widthOf]
        exact (congrArg (directive.instruction? place) (UInt32.add_zero address)).trans here
      · obtain ⟨before, other, after, isSplit, puts⟩ := induction later
        refine ⟨directive :: before, other, after, by rw [isSplit]; rfl, ?_⟩
        rw [widthOf, UInt32.ofNat_add, ← UInt32.add_assoc]
        exact puts

theorem instruction_between (place : String → Address) (before after : List Directive) :
    UInt32.ofNat (widthOf before) = .ofNat (widthOf (before ++ after)) ∨
      ∃ instruction ∈ instructionsFrom place 0 (before ++ after),
        instruction.address = .ofNat (widthOf before) := by
  have stands := addressAt_instructionsFrom place before after
  rw [addressAt] at stands
  cases next : (instructionsFrom place 0 (before ++ after))[(before.filterMap
      (statement? place)).length]? with
  | none =>
      rw [next] at stands
      left
      exact stands.symm.trans
        ((endOf_instructionsFrom place (before ++ after) 0).trans (UInt32.zero_add _))
  | some instruction =>
      rw [next] at stands
      exact .inr ⟨instruction, List.mem_of_getElem? next, stands⟩

/-- Wherever an instruction can hand control to there is an instruction, or the end. -/
theorem successors_instructionsFrom {instruction : Instruction} {address : Address}
    (symbolic : ∀ directive ∈ directives, directive.Symbolic)
    (defined : ∀ name ∈ directives.flatMap references, .label name ∈ directives)
    (inside : instruction ∈
      instructionsFrom (placeIn (ofDirectives directives).labels) 0 directives)
    (possible : address ∈ instruction.possibleSuccessors) :
    address = .ofNat (widthOf directives) ∨
      ∃ other ∈ instructionsFrom (placeIn (ofDirectives directives).labels) 0 directives,
        other.address = address := by
  have between : ∀ before after, directives = before ++ after →
      address = .ofNat (widthOf before) →
      address = .ofNat (widthOf directives) ∨
        ∃ other ∈ instructionsFrom (placeIn (ofDirectives directives).labels) 0 directives,
          other.address = address := by
    intro before after isSplit isAddress
    subst isAddress
    have stands :=
      instruction_between (placeIn (ofDirectives directives).labels) before after
    rw [← isSplit] at stands
    exact stands
  obtain ⟨before, directive, after, isSplit, puts⟩ := mem_instructionsFrom inside
  have isMember : directive ∈ directives := by
    rw [isSplit]
    exact List.mem_append_right _ List.mem_cons_self
  rcases Instruction.mem_possibleSuccessors possible with isNext | isTarget
  · apply between (before ++ [directive]) after
    · rw [isSplit, List.append_assoc]
      rfl
    · rw [isNext, next_of_instruction? puts, widthOf_concat, UInt32.ofNat_add]
      exact congrArg (· + _) (UInt32.zero_add _)
  · rw [targets_of_symbolic (symbolic directive isMember) puts] at isTarget
    obtain ⟨name, refers, isPlace⟩ := List.mem_map.mp isTarget
    obtain ⟨earlier, later, isSplitToo, stands⟩ :=
      placeIn_of_mem (defined name (List.mem_flatMap.mpr ⟨directive, isMember, refers⟩))
    exact between earlier later isSplitToo (isPlace.symm.trans stands)

theorem unordered?_of_laidOut {start : Nat} (laidOut : LaidOut start code)
    (wide : ∀ instruction ∈ code, instruction.units ≠ 0) : Graph.unordered? code = none := by
  induction code generalizing start with
  | nil => rfl
  | cons first rest induction =>
      cases rest with
      | nil => rfl
      | cons second others =>
          obtain ⟨isFirst, isSecond, further⟩ := laidOut
          have room : 0 < first.units.toNat := by
            apply Nat.pos_of_ne_zero
            intro isZero
            exact wide first List.mem_cons_self (UInt16.toNat.inj isZero)
          have above : ¬ second.address ≤ first.address := by
            rw [UInt32.le_iff_toNat_le]
            omega
          rw [Graph.unordered?, if_neg above]
          exact induction ⟨isSecond, further⟩ fun instruction inside =>
            wide instruction (List.mem_cons_of_mem _ inside)

theorem ofMethod_of_link (symbolic : ∀ directive ∈ directives, directive.Symbolic)
    (fits : widthOf directives < 4294967296) (links : (ofDirectives directives).link = .ok code)
    {method : MethodDef} (isCode : method.instructions = code) (nonempty : code ≠ []) :
    ∃ template, Graph.ofMethod method = .ok template := by
  have laidOut := (linked_of_link fits links).laidOut
  obtain ⟨rfl, -⟩ := link_eq_ok links
  have wide : ∀ instruction ∈ method.instructions, instruction.units ≠ 0 := by
    intro instruction inside
    rw [isCode] at inside
    obtain ⟨before, directive, after, isSplit, puts⟩ := mem_instructionsFrom inside
    apply units_ne_zero_of_symbolic (symbolic directive _) puts
    rw [isSplit]
    exact List.mem_append_right _ List.mem_cons_self
  rw [← isCode] at laidOut nonempty
  have ordered := unordered?_of_laidOut laidOut wide
  unfold Graph.ofMethod
  cases isFirst : method.instructions with
  | nil => exact absurd isFirst nonempty
  | cons first rest =>
      rw [isFirst] at laidOut ordered
      have start : first.address = 0 := UInt32.toNat.inj laidOut.1
      simp only [start, ordered, ne_eq, not_true_eq_false, if_false]
      exact ⟨_, rfl⟩

theorem mem_code_of_link (symbolic : ∀ directive ∈ directives, directive.Symbolic)
    (links : (ofDirectives directives).link = .ok code) {instruction : Instruction}
    {address : Address} (inside : instruction ∈ code)
    (possible : address ∈ instruction.possibleSuccessors) :
    address = .ofNat (widthOf directives) ∨ address ∈ code.map (·.address) := by
  obtain ⟨rfl, defined⟩ := link_eq_ok links
  rw [List.mem_map]
  exact successors_instructionsFrom symbolic defined inside possible

end Assembler

/-! ## Running off the end -/

def Fault.StraysTo (method : String) (last : Address) (fault : Fault) : Prop :=
  ∀ address, fault = .invalidAddress method address → address = last

def Graph.LeavesAt (graph : Graph) (last : Address) : Prop :=
  ∀ address instruction, graph.instruction? address = some instruction →
    ∀ next ∈ instruction.possibleSuccessors, next = last ∨ (graph.instruction? next).isSome

def Law.straying (method : String) (last : Address) : Law :=
  ⟨fun _ _ => True, fun _ _ => True, Fault.StraysTo method last⟩

theorem Law.straying_fair (method : String) (last : Address) : (straying method last).Fair where
  frame_refl _ := trivial
  frame_trans _ _ := trivial
  write _ := trivial
  withResult _ _ := trivial
  writeStatic _ _ _ := trivial
  widenArrays _ _ _ := trivial
  widenStaticArrays _ _ := trivial
  world_refl _ := trivial
  world_trans _ _ := trivial
  remark _ _ _ := trivial
  access _ _ := trivial
  invalidRegister _ _ := by
    intro address isFault
    cases isFault
  malformed _ := by
    intro address isFault
    cases isFault

def faultOf? {σ α : Type} : EStateM.Result Fault σ α → Option Fault
  | .ok _ _ => none
  | .error fault _ => some fault

def Answer.fault? : Answer → Option Fault
  | .nothing => none
  | .started result => faultOf? result
  | .executed result => faultOf? result

def JobResult.fault? : JobResult → Option Fault
  | .answer reply => reply.fault?
  | .explored _ result => faultOf? result

section Runs

variable {setup : Setup} {method : String} {last : Address}

theorem Run.obeys_straying {α : Type} {run : Run α}
    (strays : ∀ world fault, faultOf? (run world) = some fault → fault.StraysTo method last) :
    run.Obeys (Law.straying method last) := by
  intro world
  have here := strays world
  cases result : run world with
  | ok value after => exact trivial
  | error fault after =>
      rw [result] at here
      exact ⟨trivial, here fault rfl⟩

theorem Answer.calls_obey {answer : Answer}
    (strays : ∀ fault, answer.fault? = some fault → fault.StraysTo method last) :
    answer.calls.Obey (Law.straying method last) := by
  cases answer with
  | nothing => exact ⟨fun _ _ => trivial, fun _ _ _ => trivial⟩
  | started result =>
      exact ⟨fun _ => Run.obeys_straying fun _ => strays, fun _ _ _ => trivial⟩
  | executed result =>
      exact ⟨fun _ _ => trivial, fun _ _ => Run.obeys_straying fun _ => strays⟩

/-- What an instruction fails with strays no further than what it calls. -/
theorem Instruction.strays_of_execute {calls : Calls} {name : String} {instruction : Instruction}
    {scene done : Scene} {fault : Fault} (obey : calls.Obey (Law.straying method last))
    (failed : instruction.execute setup calls name scene = .error fault done) :
    fault.StraysTo method last := by
  have obeyed := instruction.execute_obeys (Law.straying_fair method last) setup obey name scene
  rw [failed] at obeyed
  exact obeyed.2.2

open Exploration Execution

/-- A visit fails because there is nothing to visit, because the instruction fails, or because a
way on leads nowhere. -/
theorem Exploration.fault_of_visit {calls : Calls} {id : NodeId} {instruction : Instruction}
    {exploration after : Exploration} {fault : Fault}
    (failed : visit setup calls id instruction exploration = .error fault after) :
    (∃ defect, fault = .malformed defect) ∨
    (∃ scene done, instruction.execute setup calls exploration.graph.method scene =
      .error fault done) ∨
    ∃ address ∈ instruction.possibleSuccessors,
      exploration.graph.instruction? address = none ∧
      fault = .invalidAddress exploration.graph.method address := by
  obtain ⟨graph, world⟩ := exploration
  cases framed : (graph.node? id).bind (·.frame) with
  | none =>
      rw [visit_of_noFrame framed] at failed
      cases failed
      exact .inl ⟨_, rfl⟩
  | some frame =>
      obtain ⟨node, found, isFrame⟩ := Option.bind_eq_some_iff.mp framed
      cases executed : instruction.execute setup calls graph.method
          ⟨frame, visiting graph world id instruction⟩ with
      | error other scene =>
          obtain ⟨done, failsToo⟩ := visit_of_error found isFrame executed
          rw [failsToo] at failed
          cases failed
          exact .inr (.inl ⟨_, _, executed⟩)
      | ok successors scene =>
          right
          right
          by_cases missing : ∃ address ∈ successors, graph.instruction? address = none
          · obtain ⟨address, done, inside, absent, failsToo⟩ :=
              visit_of_missing found isFrame executed missing
            rw [failsToo] at failed
            cases failed
            exact ⟨address, Instruction.successors_of_execute executed inside, absent, rfl⟩
          · have present : ∀ address ∈ successors, (graph.instruction? address).isSome := by
              intro address inside
              rw [Option.isSome_iff_ne_none]
              intro absent
              exact missing ⟨address, inside, absent⟩
            obtain ⟨children, done, succeeds, -⟩ := visit_of_ok found isFrame executed present
            rw [succeeds] at failed
            cases failed

theorem Exploration.children_of_visit {calls : Calls} {id : NodeId} {instruction : Instruction}
    {exploration after : Exploration} {children : List NodeId}
    (visited : visit setup calls id instruction exploration = .ok children after) :
    ∀ child ∈ children, (exploration.graph.instruction? child.address).isSome := by
  obtain ⟨graph, world⟩ := exploration
  cases framed : (graph.node? id).bind (·.frame) with
  | none =>
      rw [visit_of_noFrame framed] at visited
      cases visited
  | some frame =>
      obtain ⟨node, found, isFrame⟩ := Option.bind_eq_some_iff.mp framed
      obtain ⟨-, -, present, -⟩ := branched_of_visit found isFrame visited
      exact present

theorem Graph.LeavesAt.of_sameCode {graph code : Graph} (leaves : code.LeavesAt last)
    (same : graph.SameCode code) : graph.LeavesAt last := by
  intro address instruction found next possible
  rw [same.instruction?] at found ⊢
  exact leaves address instruction found next possible

/-- A job that starts at instructions, of code that is left in one place if it is the method's. -/
def Job.Rooted (method : String) (last : Address) : Job → Prop
  | .explore _ pending _ exploration =>
    (∀ id ∈ pending, (exploration.graph.instruction? id.address).isSome) ∧
      (exploration.graph.method = method → exploration.graph.LeavesAt last)
  | _ => True

theorem Job.rooted_ofRequest (depth : Nat) (world : World) (wanted : Option Request) :
    (Job.ofRequest depth world wanted).Rooted method last := by
  cases wanted <;> exact trivial

theorem Job.rooted_template {template : Graph} {definition : MethodDef}
    (built : Graph.ofMethod definition = .ok template)
    (leaves : template.method = method → template.LeavesAt last) (depth : Nat) (frame : Frame)
    (world : World) :
    (Job.explore depth [.root] [] ⟨template.setRootFrame frame, world⟩).Rooted method last := by
  have same := Graph.sameCode_setRootFrame template frame
  refine ⟨?_, ?_⟩
  · intro id isRoot
    cases List.mem_singleton.mp isRoot
    rw [same.instruction?]
    exact Graph.instruction?_entry built
  · intro isMethod
    exact (leaves (same.method.symm.trans isMethod)).of_sameCode same

theorem faultOf?_conclude {result : EStateM.Result Fault Exploration Unit} {fault : Fault}
    (isFault : faultOf? (conclude setup result) = some fault) : faultOf? result = some fault := by
  cases result with
  | ok value done => cases isFault
  | error other done =>
      rw [conclude] at isFault
      by_cases kept : other.isRecoverable = true
      · rw [if_pos kept] at isFault
        cases isFault
      · rw [if_neg kept] at isFault
        exact isFault

theorem Exploration.strays_of_visit {calls : Calls} {id : NodeId} {instruction : Instruction}
    {exploration after : Exploration} {fault : Fault} (obey : calls.Obey (Law.straying method last))
    (leaves : exploration.graph.method = method → exploration.graph.LeavesAt last)
    (present : exploration.graph.instruction? id.address = some instruction)
    (failed : visit setup calls id instruction exploration = .error fault after) :
    fault.StraysTo method last := by
  rcases fault_of_visit failed with ⟨defect, rfl⟩ | ⟨scene, done, executed⟩ |
    ⟨address, possible, absent, rfl⟩
  · intro address isInvalid
    cases isInvalid
  · exact Instruction.strays_of_execute obey executed
  · intro other isInvalid
    cases isInvalid
    rcases leaves rfl _ _ present _ possible with isLast | isPresent
    · exact isLast
    · rw [absent] at isPresent
      cases isPresent

theorem Job.rooted_of_visit {calls : Calls} {depth : Nat} {id : NodeId}
    {rest children : List NodeId} {accepted later : List Entrance} {instruction : Instruction}
    {exploration after : Exploration}
    (rooted : (Job.explore depth (id :: rest) accepted exploration).Rooted method last)
    (visited : visit setup calls id instruction exploration = .ok children after) :
    (Job.explore depth (children.reverse ++ rest) later after).Rooted method last := by
  have same : after.graph.SameCode exploration.graph := by
    have kept := sameCode_visit setup calls id instruction exploration
    rw [visited] at kept
    exact kept
  refine ⟨?_, ?_⟩
  · intro next waits
    rw [same.instruction?]
    rcases List.mem_append.mp waits with isChild | isOther
    · exact children_of_visit visited next (List.mem_reverse.mp isChild)
    · exact rooted.1 next (List.mem_cons_of_mem _ isOther)
  · intro isMethod
    exact (rooted.2 (same.method.symm.trans isMethod)).of_sameCode same

/-- Whatever a run comes to, it strays from the method only at its end. -/
theorem Evaluates.strays (consistent : setup.program.Consistent)
    (leaves : ∀ template, setup.program.templates.find? method = some template →
      template.LeavesAt last)
    {job : Job} {result : JobResult} {runs : List MethodRun}
    (evaluates : Evaluates setup job result runs) (rooted : job.Rooted method last) :
    ∀ fault, result.fault? = some fault → fault.StraysTo method last := by
  induction evaluates with
  | idle | startUndefined | startAgain | startBare | exploreDone | executeDeep =>
      intro fault isFault
      cases isFault
  | executeMissing | exploreRefused =>
      intro fault isFault address isInvalid
      cases isFault
      cases isInvalid
  | startFault _ _ _ noFrame =>
      intro fault isFault
      cases isFault
      apply (Law.straying_fair method last).rootFrame setup.program _ _ noFrame
      intro address isInvalid
      cases isInvalid
  | @startRun _ _ _ _ _ _ result _ _ _ _ _ _ executed =>
      intro fault isFault
      apply executed trivial
      cases result <;> exact isFault
  | executeFault _ _ started => exact started trivial
  | executeRun code _ _ _ _ explored =>
      intro fault isFault
      obtain ⟨definition, -, built⟩ := consistent.template code
      apply explored _ fault (faultOf?_conclude isFault)
      apply Job.rooted_template built
      intro isMethod
      rw [consistent.method_of_template code] at isMethod
      subst isMethod
      exact leaves _ code
  | exploreMissing missing =>
      have present := rooted.1 _ List.mem_cons_self
      rw [missing] at present
      cases present
  | exploreFault present _ _ failed asked =>
      intro fault isFault
      cases isFault
      have obey := Answer.calls_obey (asked (Job.rooted_ofRequest _ _ _))
      exact strays_of_visit obey rooted.2 present failed
  | exploreVisit _ _ _ visited _ _ others => exact others (Job.rooted_of_visit rooted visited)

theorem callsAt_strays (consistent : setup.program.Consistent)
    (leaves : ∀ template, setup.program.templates.find? method = some template →
      template.LeavesAt last) (depth : Nat) :
    (callsAt setup depth).Obey (Law.straying method last) := by
  have answered := answered_callsAt consistent depth
  refine ⟨fun type => Run.obeys_straying ?_, fun descriptor frame => Run.obeys_straying ?_⟩
  · intro world
    obtain ⟨runs, started⟩ := answered (some (.start type)) world
    exact started.strays consistent leaves trivial
  · intro world
    obtain ⟨runs, executed⟩ := answered (some (.execute descriptor frame)) world
    exact executed.strays consistent leaves trivial

end Runs

/-! ## Machines -/

namespace Machine

open Directive Assembler

variable {directives : List Directive} {code : List Instruction} {method : MethodDef}

/-- The faults that operations of a machine end with, among them explorations of a graph. -/
inductive Fails (machine : Machine) (template : Graph) : Fault → Prop
  | explore {frame : Frame} {fault : Fault}
      (failed : (machine.explore (template.setRootFrame frame)).1.outcome = .error fault) :
      Fails machine template fault
  | executeFrom {descriptor : String} {frame : Frame} {fault : Fault}
      (failed : (machine.executeFrom descriptor frame).outcome = .error fault) :
      Fails machine template fault
  | execute {descriptor : String} {fault : Fault}
      (failed : (machine.execute descriptor).outcome = .error fault) :
      Fails machine template fault
  | startClass {type : TypeDescriptor} {fault : Fault}
      (failed : (machine.startClass type).outcome = .error fault) :
      Fails machine template fault
  | executeInstruction {descriptor : String} {instruction : Instruction} {frame : Frame}
      {fault : Fault}
      (failed : (machine.executeInstruction descriptor instruction frame).1.outcome =
        .error fault) :
      Fails machine template fault

/-- The graph of assembled code is left at the end of the code only. -/
theorem leavesAt_of_link (symbolic : ∀ directive ∈ directives, directive.Symbolic)
    (links : (ofDirectives directives).link = .ok code) {template : Graph}
    (built : Graph.ofMethod method = .ok template) (isCode : method.instructions = code) :
    template.LeavesAt (.ofNat (widthOf directives)) := by
  intro address instruction found next possible
  have inside := ((Graph.instruction?_iff_mem built address instruction).mp found).1
  rw [Graph.instruction?_isSome_iff_mem built, isCode]
  rw [isCode] at inside
  exact mem_code_of_link symbolic links inside possible

theorem strays_of_perform {machine : Machine} {α : Type} {run : Run α} {name : String}
    {last : Address} {fault : Fault} (obeys : run.Obeys (Law.straying name last))
    (failed : (machine.perform run).outcome = .error fault) : fault.StraysTo name last := by
  have obeyed := obeys machine.world
  unfold perform at failed
  cases result : run machine.world with
  | ok value after =>
      rw [result] at failed
      cases failed
  | error other after =>
      rw [result] at failed obeyed
      cases failed
      exact obeyed.2

/-- What an operation fails with strays from a method only where its code is left. -/
theorem Fails.strays {machine : Machine} {template : Graph} {last : Address} {fault : Fault}
    (fails : machine.Fails template fault) (loaded : machine.Loaded)
    (built : Graph.ofMethod method = .ok template) (leaves : template.LeavesAt last)
    (leavesToo : ∀ other, machine.template? method.descriptor = some other →
      other.LeavesAt last) :
    fault.StraysTo method.descriptor last := by
  have consistent := loaded.consistent
  have obey : machine.calls.Obey (Law.straying method.descriptor last) :=
    callsAt_strays consistent leavesToo machine.callDepth
  cases fails with
  | @explore frame _ failed =>
      obtain ⟨total, runs, explored⟩ :=
        evaluates_explore (Execution.answered_callsAt consistent machine.callDepth)
          built frame machine.world
      have strays := explored.strays consistent leavesToo
        (Job.rooted_template built (fun _ => leaves) _ frame machine.world)
      unfold Machine.explore at failed
      cases result : Exploration.explore machine.toSetup machine.calls
          ⟨template.setRootFrame frame, machine.world⟩ with
      | ok value done =>
          rw [result] at failed
          cases failed
      | error other done =>
          rw [result] at failed
          cases failed
          exact strays _ (congrArg faultOf? result)
  | executeFrom failed => exact strays_of_perform (obey.execute _ _) failed
  | @execute descriptor _ failed =>
      unfold Machine.execute at failed
      cases isFrame : machine.rootFrame descriptor with
      | ok frame =>
          rw [isFrame] at failed
          exact strays_of_perform (obey.execute _ _) failed
      | error other =>
          rw [isFrame] at failed
          cases failed
          apply (Law.straying_fair method.descriptor last).rootFrame machine.program _ _ isFrame
          intro address isInvalid
          cases isInvalid
  | startClass failed => exact strays_of_perform (obey.start _) failed
  | @executeInstruction descriptor instruction frame _ failed =>
      unfold Machine.executeInstruction at failed
      cases executed : instruction.execute machine.toSetup machine.calls descriptor
          ⟨frame, machine.world⟩ with
      | ok successors scene =>
          rw [executed] at failed
          cases failed
      | error other scene =>
          rw [executed] at failed
          cases failed
          exact Instruction.strays_of_execute obey executed

/-- Assembled code whose targets are labels has a graph, and its instructions go on at instructions
or at the end.  Whatever a machine does with it, an address without an instruction is the end of
the code, unless the machine knows other code under the same descriptor. -/
theorem strays_only_off_end (symbolic : ∀ directive ∈ directives, directive.Symbolic)
    (fits : widthOf directives < 4294967296) (links : (ofDirectives directives).link = .ok code)
    (nonempty : code ≠ []) (isCode : method.instructions = code) :
    ∃ template, Graph.ofMethod method = .ok template ∧
      (∀ setup calls scene after successors, ∀ instruction ∈ code,
        instruction.execute setup calls method.descriptor scene = .ok successors after →
        ∀ address ∈ successors, address.toNat = widthOf directives ∨
          (template.instruction? address).isSome) ∧
      ∀ machine : Machine, machine.Loaded →
        (∀ other, machine.method? method.descriptor = some other → other.instructions = code) →
        ∀ address, machine.Fails template (.invalidAddress method.descriptor address) →
          address.toNat = widthOf directives := by
  have isWidth : (UInt32.ofNat (widthOf directives)).toNat = widthOf directives :=
    UInt32.toNat_ofNat_of_lt' fits
  obtain ⟨template, built⟩ := ofMethod_of_link symbolic fits links isCode nonempty
  have leaves := leavesAt_of_link symbolic links built isCode
  refine ⟨template, built, ?_, ?_⟩
  · intro setup calls scene after successors instruction inside executed address goesOn
    have possible := Instruction.successors_of_execute executed goesOn
    rw [Graph.instruction?_isSome_iff_mem built, isCode]
    rcases mem_code_of_link symbolic links inside possible with isEnd | isInside
    · exact .inl (isEnd ▸ isWidth)
    · exact .inr isInside
  · intro machine loaded sameCode address fails
    rw [← isWidth]
    refine congrArg UInt32.toNat (fails.strays loaded built leaves ?_ address rfl)
    intro other isTemplate
    obtain ⟨definition, isMethod, builtToo⟩ := loaded.consistent.template isTemplate
    exact leavesAt_of_link symbolic links builtToo (sameCode definition isMethod)

def runoffMethod : MethodDef where
  reference := ⟨⟨"LRunoff;"⟩, "run", [.int], .void⟩
  flags := 8
  registers := 1
  instructions := [⟨0, 2, .branch .eq 0 none 3⟩, ⟨2, 1, .jump 0⟩]
  tries := []

theorem strays_only_off_end_runoff :
    ∃ machine template, load [⟨⟨"LRunoff;"⟩, 0, [], [runoffMethod]⟩] {} = .ok machine ∧
      Graph.ofMethod runoffMethod = .ok template ∧
      machine.Fails template (.invalidAddress runoffMethod.descriptor 3) ∧
      ∀ address, machine.Fails template (.invalidAddress runoffMethod.descriptor address) →
        address.toNat = 3 := by
  have symbolic : ∀ directive ∈ spin, directive.Symbolic := by simp [spin, Symbolic]
  have isWidth : widthOf spin = 3 := by decide +kernel
  have links : (ofDirectives spin).link = .ok runoffMethod.instructions := rfl
  obtain ⟨template, built, -, strays⟩ :=
    strays_only_off_end symbolic (by omega) links (by simp [runoffMethod]) rfl
  cases loaded : load [⟨⟨"LRunoff;"⟩, 0, [], [runoffMethod]⟩] {} with
  | error fault => cases loaded
  | ok machine =>
      refine ⟨machine, template, rfl, built, ?_, ?_⟩
      · have failed : (machine.execute runoffMethod.descriptor).outcome =
            .error (.invalidAddress runoffMethod.descriptor 3) := by
          cases loaded
          decide +kernel
        exact .execute failed
      · rw [isWidth] at strays
        apply strays machine ⟨machine, .load loaded trivial, rfl⟩
        intro other isMethod
        cases loaded
        cases isMethod
        rfl

end Machine

end Dexplore
