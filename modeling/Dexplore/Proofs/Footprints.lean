import Dexplore.Proofs.Runs
import Dexplore.Proofs.Stepping

/-!
# What an instruction changes and where it goes

Apart from calls and stores into arrays, an operation changes its path in three ways: it writes
the registers that it defines, it gives back a result, it puts a static field.  What these changes
keep, the whole instruction keeps (`Instruction.execute_keepsFrame`).  So everything else of the
path stays as it was, and an instruction that succeeds goes on in every way that it can, or in the
one way that its operands decide (`Instruction.contract_kept`).
-/

set_option autoImplicit false

namespace Dexplore

/-! ## Properties that the changes of an operation keep -/

namespace Op

def defined : Op → List Register
  | const dest _ | move dest _ | moveResult dest | binary _ _ dest _ _ | unary _ dest _
  | compare _ dest _ _ | newInstance dest _ | newArray dest _ _ | arrayLength dest _
  | arrayGet dest _ _ | instanceGet dest _ _ | staticGet dest _ => [dest]
  | unhandled _ clobbers => clobbers
  | _ => []

structure Keeps (op : Op) (property : Frame → Prop) : Prop where
  write : ∀ register ∈ op.defined, ∀ {frame after : Frame} {value : Value},
    frame.write register value = .ok after → property frame → property after
  withResult : op.isReturn = true → ∀ (frame : Frame) (result : Option Value),
    property frame → property (frame.withResult result)
  writeStatic : ∀ field, op.staticPut? = some field → ∀ (frame : Frame) (value : Value),
    property frame → property (frame.writeStatic field value)

end Op

variable {property : Frame → Prop}

namespace Step

abbrev KeepsFrame {α : Type} (property : Frame → Prop) (step : Step α) : Prop :=
  Sustains (fun scene => property scene.frame) (fun _ => True) step

theorem read_keepsFrame (register : Register) : KeepsFrame property (read register) := by
  intro scene held
  unfold read
  split
  · exact ⟨held, trivial⟩
  · exact held

theorem write_keepsFrame {register : Register} {value : Value}
    (kept : ∀ {frame after : Frame}, frame.write register value = .ok after →
      property frame → property after) :
    KeepsFrame property (write register value) := by
  intro scene held
  unfold write
  split
  · next written => exact ⟨kept written held, trivial⟩
  · exact held

theorem modifyFrame_keepsFrame {change : Frame → Frame}
    (kept : ∀ frame, property frame → property (change frame)) :
    KeepsFrame property (modifyFrame change) :=
  .modify fun _ held => kept _ held

theorem note_keepsFrame (event : Event) : KeepsFrame property (note event) :=
  .modify fun _ held => held

theorem getStatic_keepsFrame (field : FieldRef) : KeepsFrame property (getStatic field) :=
  fun _ held => ⟨held, trivial⟩

theorem putStatic_keepsFrame {field : FieldRef} {value : Value}
    (kept : ∀ frame : Frame, property frame → property (frame.writeStatic field value)) :
    KeepsFrame property (putStatic field value) :=
  fun scene held => ⟨kept scene.frame held, trivial⟩

theorem outside_keepsFrame {α : Type} (run : Run α) : KeepsFrame property (outside run) := by
  intro scene held
  unfold outside
  split
  · exact ⟨held, trivial⟩
  · exact held

theorem branch_keepsFrame (condition : Condition) (left right : Value) (next target : Address) :
    KeepsFrame property (branch condition left right next target) := by
  unfold branch
  split
  · exact .pure trivial
  · exact .pure trivial
  · exact .bind (note_keepsFrame _) fun _ _ => .pure trivial

theorem switch_keepsFrame (selector : Value) (next : Address) (cases : List (Int32 × Address)) :
    KeepsFrame property (switch selector next cases) := by
  unfold switch
  split
  · exact .pure trivial
  · exact .bind (note_keepsFrame _) fun _ _ => .pure trivial

end Step

open Step

variable {setup : Setup} {calls : Calls}

theorem Op.perform_keepsFrame (site : Site) {op : Op} (plain : op.mayStore = false)
    (keeps : op.Keeps property) : KeepsFrame property (op.perform setup calls site) := by
  -- Every operation with a destination ends by writing it.
  have writes : ∀ register ∈ op.defined, ∀ value, KeepsFrame property (write register value) :=
    fun register isDefined _ => write_keepsFrame (keeps.write register isDefined)
  cases op with
  | invoke | arrayPut => cases plain
  | nop | branch | jump | switch => exact .pure trivial
  | const dest _ | newInstance dest _ => exact writes dest List.mem_cons_self _
  | moveResult dest => exact .look fun _ _ => writes dest List.mem_cons_self _
  | move dest src | unary _ dest src | newArray dest src _ | arrayLength dest src
  | instanceGet dest src _ =>
      exact .bind (read_keepsFrame src) fun _ _ => writes dest List.mem_cons_self _
  | binary op kind dest lhs rhs =>
      refine .bind (read_keepsFrame lhs) fun _ _ => ?_
      cases rhs with
      | register index =>
          exact .bind (read_keepsFrame index) fun _ _ => writes dest List.mem_cons_self _
      | literal value => exact writes dest List.mem_cons_self _
  | compare _ dest lhs rhs | arrayGet dest lhs rhs =>
      exact .bind (read_keepsFrame lhs) fun _ _ =>
        .bind (read_keepsFrame rhs) fun _ _ => writes dest List.mem_cons_self _
  | staticGet dest field =>
      exact .bind (outside_keepsFrame _) fun _ _ => .bind (getStatic_keepsFrame field) fun _ _ =>
        writes dest List.mem_cons_self _
  | instancePut src object field =>
      exact .bind (read_keepsFrame src) fun _ _ =>
        .bind (read_keepsFrame object) fun _ _ => .pure trivial
  | staticPut src field =>
      exact .bind (outside_keepsFrame _) fun _ _ => .bind (read_keepsFrame src) fun value _ =>
        putStatic_keepsFrame fun frame => keeps.writeStatic field rfl frame value
  | unhandled mnemonic clobbers =>
      exact .bind (note_keepsFrame _) fun _ _ =>
        .forM fun register inside => writes register inside _
  | giveBack src =>
      cases src with
      | none => exact modifyFrame_keepsFrame fun frame => keeps.withResult rfl frame none
      | some src =>
          exact .bind (read_keepsFrame src) fun value _ =>
            modifyFrame_keepsFrame fun frame => keeps.withResult rfl frame (some value)
  | throw src => exact .bind (read_keepsFrame src) fun _ _ => .pure trivial

theorem Instruction.execute_keepsFrame (method : String) {instruction : Instruction}
    (plain : instruction.op.mayStore = false) (keeps : instruction.op.Keeps property) :
    KeepsFrame property (instruction.execute setup calls method) := by
  have goesOn : ∀ ways, KeepsFrame property
      (do instruction.op.perform setup calls ⟨method, instruction.address⟩
          return ways : Step (List Address)) :=
    fun _ => .bind (Op.perform_keepsFrame _ plain keeps) fun _ _ => .pure trivial
  unfold Instruction.execute
  cases shape : instruction.op with
  | branch condition lhs rhs target =>
      refine .bind (read_keepsFrame lhs) fun left _ => ?_
      cases rhs with
      | none => exact branch_keepsFrame condition left _ _ target
      | some register =>
          exact .bind (read_keepsFrame register) fun right _ =>
            branch_keepsFrame condition left right _ target
  | switch src cases =>
      exact .bind (read_keepsFrame src) fun selector _ => switch_keepsFrame selector _ cases
  | _ =>
      rw [shape] at goesOn
      exact goesOn _

/-! ## What stays as it was -/

/-- All of a path is as it was but for what an operation changes. -/
structure Frame.Unchanged (op : Op) (before after : Frame) : Prop where
  registers : ∀ register, register ∉ op.defined → after.read register = before.read register
  registerCount : after.registerCount = before.registerCount
  parameterCount : after.parameterCount = before.parameterCount
  result : op.isReturn = false → after.result = before.result
  statics : ∀ field, op.staticPut? ≠ some field → after.static? field = before.static? field

namespace Frame

theorem Unchanged.refl (op : Op) (frame : Frame) : frame.Unchanged op frame :=
  ⟨fun _ _ => rfl, rfl, rfl, fun _ => rfl, fun _ _ => rfl⟩

theorem keeps_unchanged (op : Op) (before : Frame) : op.Keeps (before.Unchanged op) where
  write := by
    intro register isDefined frame after value written same
    have shape := eq_of_write written
    refine ⟨?_, (registerCount_write written).trans same.registerCount, ?_, ?_, ?_⟩
    · intro other apart
      have elsewhere : other ≠ register := fun isRegister => apart (isRegister ▸ isDefined)
      rw [read_write written, if_neg elsewhere]
      exact same.registers other apart
    · rw [shape]
      exact same.parameterCount
    · rw [shape]
      exact same.result
    · rw [shape]
      exact same.statics
  withResult := by
    intro returns frame result same
    refine ⟨same.registers, same.registerCount, same.parameterCount, ?_, same.statics⟩
    intro noReturn
    cases returns.symm.trans noReturn
  writeStatic := by
    intro field isPut frame value same
    refine ⟨same.registers, same.registerCount, same.parameterCount, same.result, ?_⟩
    intro other apart
    have elsewhere : field ≠ other := fun isField => apart (isField ▸ isPut)
    rw [static?_writeStatic, if_neg elsewhere]
    exact same.statics other apart

end Frame

theorem Instruction.unchanged_of_execute {method : String} {instruction : Instruction}
    {scene after : Scene} {ways : List Address} (plain : instruction.op.mayStore = false)
    (run : instruction.execute setup calls method scene = .ok ways after) :
    scene.frame.Unchanged instruction.op after.frame := by
  have keeps : KeepsFrame (scene.frame.Unchanged instruction.op)
      (instruction.execute setup calls method) :=
    execute_keepsFrame method plain (scene.frame.keeps_unchanged instruction.op)
  have kept := keeps scene (.refl _ _)
  rw [run] at kept
  exact kept.1

/-! ## Where a branch and a switch go -/

/-- A list holds what another one does, each thing once, in the order of first occurrence. -/
structure FirstOccurrences {α : Type} [DecidableEq α] (items firsts : List α) : Prop where
  mem_iff : ∀ item, item ∈ firsts ↔ item ∈ items
  inOrder : firsts.Pairwise fun left right => items.idxOf left < items.idxOf right

section FirstOccurrences

variable {α : Type} [DecidableEq α]

theorem idxOf_lt_of_filter (keep : α → Bool) {left right : α} (keepsLeft : keep left = true)
    (keepsRight : keep right = true) {items : List α}
    (below : (items.filter keep).idxOf left < (items.filter keep).idxOf right) :
    items.idxOf left < items.idxOf right := by
  induction items with
  | nil => exact below
  | cons head rest induction =>
      by_cases isRight : head = right
      · subst isRight
        simp [keepsRight] at below
      by_cases isLeft : head = left
      · subst isLeft
        simp [isRight]
      · cases keepsHead : keep head <;>
          simp only [List.filter_cons, keepsHead, if_true, Bool.false_eq_true, if_false,
            List.idxOf_cons_ne _ isLeft, List.idxOf_cons_ne _ isRight] at below ⊢
        · exact Nat.succ_lt_succ (induction below)
        · exact Nat.succ_lt_succ (induction (Nat.lt_of_succ_lt_succ below))

theorem pairwise_eraseDups (items : List α) :
    items.eraseDups.Pairwise fun left right => items.idxOf left < items.idxOf right := by
  match items with
  | [] => exact .nil
  | head :: rest =>
      let others := rest.filter fun item => !item == head
      have apart : ∀ item ∈ others.eraseDups, head ≠ item := by
        intro item inside isHead
        have kept := (List.mem_filter.mp (List.mem_eraseDups.mp inside)).2
        simp [isHead] at kept
      rw [List.eraseDups_cons, List.pairwise_cons]
      constructor
      · intro item inside
        rw [List.idxOf_cons_self, List.idxOf_cons_ne _ (apart item inside)]
        exact Nat.succ_pos _
      · refine (pairwise_eraseDups others).imp_of_mem ?_
        intro left right isLeft isRight below
        have keepsLeft := (List.mem_filter.mp (List.mem_eraseDups.mp isLeft)).2
        have keepsRight := (List.mem_filter.mp (List.mem_eraseDups.mp isRight)).2
        rw [List.idxOf_cons_ne _ (apart left isLeft), List.idxOf_cons_ne _ (apart right isRight)]
        exact Nat.succ_lt_succ (idxOf_lt_of_filter
          (fun item => !item == head) keepsLeft keepsRight below)
termination_by items.length
decreasing_by
  exact Nat.lt_succ_of_le (List.length_filter_le _ rest)

theorem firstOccurrences_eraseDups (items : List α) : FirstOccurrences items items.eraseDups :=
  ⟨fun _ => List.mem_eraseDups, pairwise_eraseDups items⟩

end FirstOccurrences

/-- The target of the first case with a key, or else the address to go on at. -/
def FirstCase (cases : List (Int32 × Address)) (key : Int32) (next target : Address) : Prop :=
  (∃ earlier later, cases = earlier ++ (key, target) :: later ∧
    ∀ case ∈ earlier, case.1 ≠ key) ∨
  (∀ case ∈ cases, case.1 ≠ key) ∧ target = next

theorem firstCase_find? (cases : List (Int32 × Address)) (key : Int32) (next : Address) :
    FirstCase cases key next (((cases.find? fun case => case.1 = key).map (·.2)).getD next) := by
  cases found : cases.find? fun case => case.1 = key with
  | none =>
      refine .inr ⟨fun case inside isKey => ?_, rfl⟩
      exact List.find?_eq_none.mp found case inside (decide_eq_true isKey)
  | some case =>
      obtain ⟨isKey, earlier, later, split, others⟩ := List.find?_eq_some_iff_append.mp found
      obtain ⟨_, target⟩ := case
      cases of_decide_eq_true isKey
      refine .inl ⟨earlier, later, split, fun case inside isKey => ?_⟩
      have other := others case inside
      rw [decide_eq_true isKey] at other
      cases other

namespace Step

variable {scene after : Scene} {ways : List Address} {next target : Address}

theorem ways_of_branch {condition : Condition} {left right : Value}
    (run : branch condition left right next target scene = .ok ways after) :
    (condition.decide? left right = some true → ways = [target]) ∧
    (condition.decide? left right = some false → ways = [next]) ∧
    (condition.decide? left right = none → ways = [next, target]) := by
  unfold branch at run
  cases decided : condition.decide? left right with
  | none =>
      rw [decided] at run
      cases run
      exact ⟨nofun, nofun, fun _ => rfl⟩
  | some answer =>
      rw [decided] at run
      cases answer <;> cases run
      · exact ⟨nofun, fun _ => rfl, nofun⟩
      · exact ⟨fun _ => rfl, nofun, nofun⟩

theorem ways_of_switch {selector : Value} {cases : List (Int32 × Address)}
    (run : switch selector next cases scene = .ok ways after) :
    (∀ integer, selector.integer? = some integer →
      ∃ target, ways = [target] ∧ FirstCase cases integer.toInt32 next target) ∧
    (selector.integer? = none → ways = Instruction.switchSuccessors next cases) := by
  unfold switch Value.int? at run
  cases isInteger : selector.integer? with
  | none =>
      rw [isInteger] at run
      cases run
      exact ⟨nofun, fun _ => rfl⟩
  | some integer =>
      rw [isInteger] at run
      cases run
      refine ⟨?_, nofun⟩
      rintro _ ⟨⟩
      exact ⟨_, rfl, firstCase_find? cases integer.toInt32 next⟩

end Step

namespace Instruction

variable {method : String} {instruction : Instruction} {scene after : Scene} {ways : List Address}

theorem ways_of_branch {condition : Condition} {lhs : Register} {rhs : Option Register}
    {target : Address} (isBranch : instruction.op = .branch condition lhs rhs target)
    (run : instruction.execute setup calls method scene = .ok ways after) :
    ∃ left right, scene.frame.read lhs = .ok left ∧
      rhs.elim (.ok (.int 0)) scene.frame.read = .ok right ∧
      (condition.decide? left right = some true → ways = [target]) ∧
      (condition.decide? left right = some false → ways = [instruction.next]) ∧
      (condition.decide? left right = none → ways = [instruction.next, target]) := by
  unfold execute at run
  rw [isBranch] at run
  obtain ⟨left, _, first, afterLeft⟩ := Step.bind_eq_ok.mp run
  obtain ⟨isLeft, rfl⟩ := Step.read_eq_ok.mp first
  cases rhs with
  | none => exact ⟨left, .int 0, isLeft, rfl, Step.ways_of_branch afterLeft⟩
  | some register =>
      obtain ⟨right, _, second, afterRight⟩ := Step.bind_eq_ok.mp afterLeft
      obtain ⟨isRight, rfl⟩ := Step.read_eq_ok.mp second
      exact ⟨left, right, isLeft, isRight, Step.ways_of_branch afterRight⟩

theorem ways_of_switch {src : Register} {cases : List (Int32 × Address)}
    (isSwitch : instruction.op = .switch src cases)
    (run : instruction.execute setup calls method scene = .ok ways after) :
    ∃ selector, scene.frame.read src = .ok selector ∧
      (∀ integer, selector.integer? = some integer →
        ∃ target, ways = [target] ∧ FirstCase cases integer.toInt32 instruction.next target) ∧
      (selector.integer? = none → ways = switchSuccessors instruction.next cases) := by
  unfold execute at run
  rw [isSwitch] at run
  obtain ⟨selector, _, first, afterSelector⟩ := Step.bind_eq_ok.mp run
  obtain ⟨isSelector, rfl⟩ := Step.read_eq_ok.mp first
  exact ⟨selector, isSelector, Step.ways_of_switch afterSelector⟩

theorem ways_of_straight
    (straight : instruction.op.flow = .sequential ∨ instruction.op.flow = .call)
    (run : instruction.execute setup calls method scene = .ok ways after) :
    ways = [instruction.next] := by
  have all : ways = instruction.possibleSuccessors := by
    apply ways_of_other _ _ run
    · rcases straight with flow | flow <;> rw [flow] <;> exact nofun
    · rcases straight with flow | flow <;> rw [flow] <;> exact nofun
  rw [all]
  unfold possibleSuccessors
  cases shape : instruction.op <;> rw [shape] at straight <;> simp [Op.flow] at straight ⊢

/-- An instruction that succeeds goes on in all its ways, or in one of them. -/
theorem ways_possible (run : instruction.execute setup calls method scene = .ok ways after) :
    ways = instruction.possibleSuccessors ∨
      ∃ target ∈ instruction.possibleSuccessors, ways = [target] := by
  have among := successors_of_execute run
  cases shape : instruction.op with
  | branch condition lhs rhs target =>
      obtain ⟨left, right, -, -, taken, passed, undecided⟩ := ways_of_branch shape run
      cases decided : condition.decide? left right with
      | none =>
          left
          rw [undecided decided]
          simp [possibleSuccessors, shape]
      | some answer =>
          right
          cases answer with
          | true => exact ⟨target, among (taken decided ▸ List.mem_cons_self), taken decided⟩
          | false => exact ⟨_, among (passed decided ▸ List.mem_cons_self), passed decided⟩
  | switch src cases =>
      obtain ⟨selector, -, known, undecided⟩ := ways_of_switch shape run
      cases isInteger : selector.integer? with
      | none =>
          left
          rw [undecided isInteger]
          simp [possibleSuccessors, shape]
      | some integer =>
          obtain ⟨target, isTarget, -⟩ := known integer isInteger
          exact .inr ⟨target, among (isTarget ▸ List.mem_cons_self), isTarget⟩
  | _ =>
      left
      apply ways_of_other _ _ run <;> simp [shape, Op.flow]

theorem possibleSuccessors_eq_nil_iff (instruction : Instruction) :
    instruction.possibleSuccessors = [] ↔ instruction.op.canContinue = false := by
  unfold possibleSuccessors switchSuccessors
  cases instruction.op <;> simp [Op.canContinue, List.eraseDups_cons]

theorem ways_eq_nil_iff (run : instruction.execute setup calls method scene = .ok ways after) :
    ways = [] ↔ instruction.op.canContinue = false := by
  rw [← possibleSuccessors_eq_nil_iff]
  rcases ways_possible run with all | ⟨target, inside, one⟩
  · rw [all]
  · rw [one]
    constructor
    · intro isNil
      cases isNil
    · intro isNil
      rw [isNil] at inside
      cases inside

end Instruction

/-! ## The contract of an instruction -/

/-- How an operation is classified: by what it is, by how control leaves it and by what the
exploration asks about it. -/
structure Op.Classified (op : Op) : Prop where
  continues : op.canContinue = op.flow.canContinue
  ends : op.canContinue = false ↔ op.flow = .giveBack ∨ op.flow = .throw
  returns : op.isReturn = true ↔ op.flow = .giveBack
  giveBack : op.flow = .giveBack ↔ ∃ src, op = .giveBack src
  throw : op.flow = .throw ↔ ∃ src, op = .throw src
  stores : op.mayStore = true ↔
    (∃ kind reference args, op = .invoke kind reference args) ∨
      ∃ src array index, op = .arrayPut src array index
  puts : ∀ field, op.staticPut? = some field ↔ ∃ src, op = .staticPut src field

theorem Op.classified (op : Op) : op.Classified := by
  cases op <;> constructor <;>
    simp [canContinue, Flow.canContinue, isReturn, flow, mayStore, staticPut?]

/-- What an instruction promises that takes a path from one frame to another and goes on in some
ways. -/
structure Instruction.Contract (instruction : Instruction) (before after : Frame)
    (ways : List Address) : Prop where
  possible : ways = instruction.possibleSuccessors ∨
    ∃ target ∈ instruction.possibleSuccessors, ways = [target]
  ends : ways = [] ↔ instruction.op.canContinue = false
  straight : instruction.op.flow = .sequential ∨ instruction.op.flow = .call →
    ways = [instruction.next]
  jump : ∀ target, instruction.op = .jump target → ways = [target]
  branch : ∀ condition lhs rhs target, instruction.op = .branch condition lhs rhs target →
    ∃ left right, before.read lhs = .ok left ∧ rhs.elim (.ok (.int 0)) before.read = .ok right ∧
      (condition.decide? left right = some true → ways = [target]) ∧
      (condition.decide? left right = some false → ways = [instruction.next]) ∧
      (condition.decide? left right = none → ways = [instruction.next, target])
  switch : ∀ src cases, instruction.op = .switch src cases →
    ∃ selector, before.read src = .ok selector ∧
      (∀ integer, selector.integer? = some integer →
        ∃ target, ways = [target] ∧ FirstCase cases integer.toInt32 instruction.next target) ∧
      (selector.integer? = none →
        FirstOccurrences (instruction.next :: cases.map (·.2)) ways ∧
          ways.head? = some instruction.next)
  /-- Calls and stores may change more. -/
  unchanged : instruction.op.mayStore = false → before.Unchanged instruction.op after

/-- Every operation is classified in one way throughout, and every instruction that succeeds keeps
to its contract, whatever the rest of the analysis does for it. -/
theorem Instruction.contract_kept (setup : Setup) (calls : Calls) (method : String)
    (instruction : Instruction) (scene : Scene) :
    instruction.op.Classified ∧
      ∀ ways after, instruction.execute setup calls method scene = .ok ways after →
        instruction.Contract scene.frame after.frame ways := by
  refine ⟨instruction.op.classified, fun ways after run => ?_⟩
  exact {
    possible := ways_possible run
    ends := ways_eq_nil_iff run
    straight := fun straight => ways_of_straight straight run
    jump := by
      intro target isJump
      rw [ways_of_other (by rw [isJump]; exact nofun) (by rw [isJump]; exact nofun) run]
      simp only [possibleSuccessors, isJump]
    branch := fun condition lhs rhs target isBranch => ways_of_branch isBranch run
    switch := by
      intro src cases isSwitch
      obtain ⟨selector, isSelector, known, undecided⟩ := ways_of_switch isSwitch run
      refine ⟨selector, isSelector, known, fun isUnknown => ?_⟩
      rw [undecided isUnknown, switchSuccessors]
      exact ⟨firstOccurrences_eraseDups _, by rw [List.eraseDups_cons, List.head?_cons]⟩
    unchanged := fun plain => unchanged_of_execute plain run }

def forkedSwitch : Instruction := .ofOp 0 (.switch 0 [(1, 7), (2, 3), (3, 7)])

theorem Instruction.contract_kept_switch :
    ∃ after, forkedSwitch.execute ⟨{}, .empty⟩ ⟨fun _ => pure (), fun _ _ => pure none⟩
        "LApp;->main()V" ⟨⟨[.unknown .int], 0, none, .empty⟩, ⟨.empty, []⟩⟩ =
          .ok [3, 7] after ∧
      FirstOccurrences [3, 7, 3, 7] ([3, 7] : List Address) ∧
      after.frame.read 0 = .ok (.unknown .int) := by
  obtain ⟨after, run⟩ : ∃ after, forkedSwitch.execute ⟨{}, .empty⟩
      ⟨fun _ => pure (), fun _ _ => pure none⟩ "LApp;->main()V"
      ⟨⟨[.unknown .int], 0, none, .empty⟩, ⟨.empty, []⟩⟩ = .ok [3, 7] after := ⟨_, rfl⟩
  have contract := (contract_kept _ _ _ _ _).2 _ _ run
  obtain ⟨selector, isSelector, -, undecided⟩ := contract.switch _ _ rfl
  cases isSelector
  exact ⟨after, run, (undecided rfl).1, (contract.unchanged rfl).registers 0 List.not_mem_nil⟩

end Dexplore
