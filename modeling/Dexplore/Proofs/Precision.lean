import Mathlib.Data.List.Forall2
import Dexplore.Execution
import Dexplore.Proofs.Stepping

/-!
# Executing an instruction on two paths

Two paths are compared value by value, by a relation that the calculations of the analysis
respect (`Value.Precision`).  Where an instruction touches neither other methods nor classes
that are not started, it takes related paths to related paths and goes on in no more
directions on the second path than on the first (`Instruction.execute_relates`).

Equality is such a relation, and then the statement says that the record of events has no
influence on what is executed.
-/

set_option autoImplicit false

namespace Dexplore

/-! ## Related lists and options -/

theorem rel_some {α β : Type} {R : α → β → Prop} {value : α} {option : Option β}
    (related : Option.Rel R (some value) option) :
    ∃ value', option = some value' ∧ R value value' := by
  cases related with
  | some same => exact ⟨_, rfl, same⟩

theorem rel_none {α β : Type} {R : α → β → Prop} {option : Option β}
    (related : Option.Rel R (none : Option α) option) : option = none := by
  cases related
  rfl

theorem rel_eq {α : Type} {left right : Option α} (related : Option.Rel Eq left right) :
    left = right := by
  cases related with
  | some same => rw [same]
  | none => rfl

theorem forall₂_getElem? {α β : Type} {R : α → β → Prop} {left : List α} {right : List β}
    (related : List.Forall₂ R left right) (index : Nat) :
    Option.Rel R left[index]? right[index]? := by
  induction related generalizing index with
  | nil => simp
  | cons head _ induction =>
      cases index with
      | zero => simpa using head
      | succ index => simpa using induction index

theorem forall₂_set {α β : Type} {R : α → β → Prop} {left : List α} {right : List β}
    (related : List.Forall₂ R left right) (index : Nat) {value : α} {value' : β}
    (same : R value value') : List.Forall₂ R (left.set index value) (right.set index value') := by
  induction related generalizing index with
  | nil => exact .nil
  | cons head tail induction =>
      cases index with
      | zero => exact .cons same tail
      | succ index => exact .cons head (induction index)

/-! ## Related values and frames -/

/-- A relation between values that every calculation respects: what can be told of the first
value can be told of the second. -/
structure Value.Precision (V : Value → Value → Prop) : Prop where
  refl : ∀ value, V value value
  binary : ∀ op kind {left left' right right'}, V left left' → V right right' →
    V (.binary op kind left right) (.binary op kind left' right')
  unary : ∀ op {operand operand'}, V operand operand' →
    V (.unary op operand) (.unary op operand')
  threeWay : ∀ kind {left left' right right'}, V left left' → V right right' →
    V (.threeWay kind left right) (.threeWay kind left' right')
  newArray : ∀ type maxLength {size size'}, V size size' →
    V (.newArray type size maxLength) (.newArray type size' maxLength)
  arrayLength : ∀ {value value'}, V value value' → V value.arrayLength value'.arrayLength
  elementAt : ∀ {value value' index index'}, V value value' → V index index' →
    V (value.elementAt index) (value'.elementAt index')
  decide? : ∀ (condition : Condition) {left left' right right'}, V left left' → V right right' →
    condition.decide? left right = none ∨
      condition.decide? left right = condition.decide? left' right'
  int? : ∀ {value value'}, V value value' → value.int? = none ∨ value.int? = value'.int?

theorem Value.Precision.eq : Value.Precision Eq where
  refl _ := rfl
  binary _ _ _ _ _ _ left right := by rw [left, right]
  unary _ _ _ operand := by rw [operand]
  threeWay _ _ _ _ _ left right := by rw [left, right]
  newArray _ _ _ _ size := by rw [size]
  arrayLength value := by rw [value]
  elementAt value index := by rw [value, index]
  decide? _ _ _ _ _ left right := .inr (by rw [left, right])
  int? value := .inr (by rw [value])

/-- Two paths of one shape whose values are related place by place. -/
structure Frame.Related (V : Value → Value → Prop) (left right : Frame) : Prop where
  registers : List.Forall₂ V left.registers right.registers
  parameterCount : left.parameterCount = right.parameterCount
  result : Option.Rel V left.result right.result
  statics : ∀ field, Option.Rel V (left.static? field) (right.static? field)

namespace Frame.Related

variable {V : Value → Value → Prop} {left right : Frame}

theorem registerCount (related : Related V left right) :
    left.registerCount = right.registerCount :=
  related.registers.length_eq

theorem refl (precision : Value.Precision V) (frame : Frame) : Related V frame frame where
  registers := List.forall₂_same.mpr fun value _ => precision.refl value
  parameterCount := rfl
  result := by cases frame.result <;> simp [precision.refl]
  statics field := by cases frame.static? field <;> simp [precision.refl]

theorem eq (related : Related Eq left right) : left = right := by
  have sameRegisters : left.registers = right.registers := by
    have registers := related.registers
    rwa [List.forall₂_eq_eq_eq] at registers
  have sameStatics : left.statics = right.statics :=
    OrdMap.ext_find? fun field => rel_eq (related.statics field)
  have sameResult := rel_eq related.result
  have sameCount := related.parameterCount
  cases left
  cases right
  simp_all

theorem read (related : Related V left right) {register : Register} {value : Value}
    (found : left.read register = .ok value) :
    ∃ value', right.read register = .ok value' ∧ V value value' := by
  have here := forall₂_getElem? related.registers register
  unfold Frame.read at found ⊢
  cases onLeft : left.registers[register]? with
  | none => simp [onLeft] at found
  | some stored =>
      rw [onLeft] at here found
      obtain ⟨value', onRight, same⟩ := rel_some here
      rw [onRight]
      cases found
      exact ⟨value', rfl, same⟩

theorem write (related : Related V left right) {register : Register} {value value' : Value}
    {after : Frame} (same : V value value') (written : left.write register value = .ok after) :
    ∃ after', right.write register value' = .ok after' ∧ Related V after after' := by
  by_cases inside : register < left.registerCount
  · have insideToo : register < right.registerCount := related.registerCount ▸ inside
    simp only [Frame.write, inside, if_true, Except.ok.injEq] at written
    subst written
    refine ⟨{ right with registers := right.registers.set register value' }, ?_, ?_⟩
    · simp [Frame.write, insideToo]
    · exact ⟨forall₂_set related.registers register same, related.parameterCount,
        related.result, related.statics⟩
  · simp [Frame.write, inside] at written

theorem withResult (related : Related V left right) {result result' : Option Value}
    (same : Option.Rel V result result') :
    Related V (left.withResult result) (right.withResult result') :=
  ⟨related.registers, related.parameterCount, same, related.statics⟩

theorem writeStatic (related : Related V left right) (field : FieldRef) {value value' : Value}
    (same : V value value') :
    Related V (left.writeStatic field value) (right.writeStatic field value') := by
  refine ⟨related.registers, related.parameterCount, related.result, ?_⟩
  intro other
  rw [static?_writeStatic, static?_writeStatic]
  by_cases hit : field = other
  · simpa [hit] using same
  · simpa [hit] using related.statics other

theorem valueOn (precision : Value.Precision V) (related : Related V left right)
    (statics : Statics) (field : FieldRef) :
    V (statics.valueOn left field) (statics.valueOn right field) := by
  have here := related.statics field
  unfold Statics.valueOn
  cases onLeft : left.static? field with
  | none =>
      rw [onLeft] at here
      rw [rel_none here]
      exact precision.refl _
  | some value =>
      rw [onLeft] at here
      obtain ⟨value', onRight, same⟩ := rel_some here
      rw [onRight]
      exact same

end Frame.Related

/-! ## Operations that stay within their method -/

/-- A class that is undefined or has been started. -/
def Statics.Settled (statics : Statics) (type : TypeDescriptor) : Prop :=
  ∀ state, statics.find? type = some state → state.initialized = true

theorem Execution.startClass_of_settled (setup : Setup) (body : Body) {type : TypeDescriptor}
    {world : World} (settled : world.statics.Settled type) :
    startClass setup body type world = .ok () world := by
  rw [startClass]
  split
  · rfl
  · next state found => simp [settled state found]

def Op.Local (statics : Statics) : Op → Prop
  | .invoke .. => False
  | .staticGet _ field | .staticPut _ field => statics.Settled field.owner
  | _ => True

def Calls.Idle (calls : Calls) : Prop :=
  ∀ type (world : World), world.statics.Settled type → calls.start type world = .ok () world

theorem Execution.callsOf_idle (setup : Setup) (body : Body) : (callsOf setup body).Idle :=
  fun _ _ settled => startClass_of_settled setup body settled

/-! ## Related steps -/

namespace Step

variable {α β γ δ : Type}

/-- Wherever the first step succeeds, the second succeeds on every related path, with related
paths and values afterwards; neither touches the static state. -/
def Relates (statics : Statics) (V : Value → Value → Prop) (R : α → β → Prop)
    (left : Step α) (right : Step β) : Prop :=
  ∀ ⦃frame frame' : Frame⦄, frame.Related V frame' → ∀ events events' value scene,
    left ⟨frame, ⟨statics, events⟩⟩ = .ok value scene →
    scene.world.statics = statics ∧
    ∃ value' scene', right ⟨frame', ⟨statics, events'⟩⟩ = .ok value' scene' ∧
      scene'.world.statics = statics ∧ scene.frame.Related V scene'.frame ∧ R value value'

namespace Relates

variable {statics : Statics} {V : Value → Value → Prop} {R : α → β → Prop} {S : γ → δ → Prop}

theorem pure {value : α} {value' : β} (same : R value value') :
    Relates statics V R (Pure.pure value) (Pure.pure value') := by
  intro frame frame' related events events' value scene run
  cases run
  exact ⟨rfl, value', _, rfl, rfl, related, same⟩

theorem bind {left : Step α} {right : Step β} {next : α → Step γ} {next' : β → Step δ}
    (first : Relates statics V R left right)
    (second : ∀ value value', R value value' → Relates statics V S (next value) (next' value')) :
    Relates statics V S (left >>= next) (right >>= next') := by
  intro frame frame' related events events' value scene run
  obtain ⟨middle, between, firstRun, secondRun⟩ := bind_eq_ok.mp run
  obtain ⟨quiet, middle', between', firstRun', quiet', relatedBetween, same⟩ :=
    first related events events' middle between firstRun
  obtain ⟨frameBetween, staticsBetween, eventsBetween⟩ := between
  obtain ⟨frameBetween', staticsBetween', eventsBetween'⟩ := between'
  cases quiet
  cases quiet'
  obtain ⟨stillQuiet, value', scene', secondRun', rest⟩ :=
    second middle middle' same relatedBetween eventsBetween eventsBetween' value scene secondRun
  exact ⟨stillQuiet, value', scene', bind_eq_ok.mpr ⟨_, _, firstRun', secondRun'⟩, rest⟩

theorem read (register : Register) :
    Relates statics V V (Step.read register) (Step.read register) := by
  intro frame frame' related events events' value scene run
  obtain ⟨found, rfl⟩ := read_eq_ok.mp run
  obtain ⟨value', found', same⟩ := related.read found
  exact ⟨rfl, value', _, read_eq_ok.mpr ⟨found', rfl⟩, rfl, related, same⟩

theorem write (register : Register) {value value' : Value} (same : V value value') :
    Relates statics V Eq (Step.write register value) (Step.write register value') := by
  intro frame frame' related events events' done scene run
  obtain ⟨after, written, rfl⟩ := write_eq_ok.mp run
  obtain ⟨after', written', relatedAfter⟩ := related.write same written
  exact ⟨rfl, (), _, write_eq_ok.mpr ⟨after', written', rfl⟩, rfl, relatedAfter, rfl⟩

theorem modifyFrame {change change' : Frame → Frame}
    (kept : ∀ frame frame', frame.Related V frame' → (change frame).Related V (change' frame')) :
    Relates statics V Eq (Step.modifyFrame change) (Step.modifyFrame change') := by
  intro frame frame' related events events' done scene run
  cases run
  exact ⟨rfl, (), _, rfl, rfl, kept frame frame' related, rfl⟩

theorem note (event event' : Event) :
    Relates statics V Eq (Step.note event) (Step.note event') := by
  intro frame frame' related events events' done scene run
  cases run
  exact ⟨rfl, (), _, rfl, rfl, related, rfl⟩

theorem getStatic (precision : Value.Precision V) (field : FieldRef) :
    Relates statics V V (Step.getStatic field) (Step.getStatic field) := by
  intro frame frame' related events events' value scene run
  cases run
  exact ⟨rfl, _, _, rfl, rfl, related, related.valueOn precision statics field⟩

theorem putStatic (field : FieldRef) {value value' : Value} (same : V value value') :
    Relates statics V Eq (Step.putStatic field value) (Step.putStatic field value') := by
  intro frame frame' related events events' done scene run
  cases run
  exact ⟨rfl, (), _, rfl, rfl, related.writeStatic field same, rfl⟩

theorem noteThenPure (event : Event) {value : α} {value' : β} (same : R value value') :
    Relates statics V R (do Step.note event; return value) (Pure.pure value') := by
  intro frame frame' related events events' first scene run
  cases run
  exact ⟨rfl, value', ⟨frame', ⟨statics, events'⟩⟩, rfl, rfl, related, same⟩

theorem look {next : Scene → Step γ} {next' : Scene → Step δ}
    (rest : ∀ scene scene' : Scene, scene.frame.Related V scene'.frame →
      scene.world.statics = statics → scene'.world.statics = statics →
      Relates statics V S (next scene) (next' scene')) :
    Relates statics V S (get >>= next) (get >>= next') := by
  intro frame frame' related events events' value scene run
  exact rest ⟨frame, ⟨statics, events⟩⟩ ⟨frame', ⟨statics, events'⟩⟩ related rfl rfl related
    events events' value scene run

theorem start {calls : Calls} {type : TypeDescriptor} (idle : calls.Idle)
    (settled : statics.Settled type) :
    Relates statics V Eq (outside (calls.start type)) (outside (calls.start type)) := by
  intro frame frame' related events events' done scene run
  have still : ∀ events, calls.start type ⟨statics, events⟩ = .ok () ⟨statics, events⟩ :=
    fun events => idle type ⟨statics, events⟩ settled
  obtain ⟨world, started, rfl⟩ := outside_eq_ok.mp run
  rw [still] at started
  cases started
  exact ⟨rfl, (), _, outside_eq_ok.mpr ⟨_, still events', rfl⟩, rfl, related, rfl⟩

theorem forM {ι : Type} (items : List ι) {action : ι → Step Unit}
    (each : ∀ item, Relates statics V Eq (action item) (action item)) :
    Relates statics V Eq (items.forM action) (items.forM action) := by
  induction items with
  | nil => exact pure rfl
  | cons head rest induction => exact bind (each head) fun _ _ _ => induction

theorem forgetStaticArrays (type : TypeDescriptor) :
    Relates statics Eq Eq (Step.forgetStaticArrays type) (Step.forgetStaticArrays type) := by
  intro frame frame' related events events' done scene run
  cases run
  cases related.eq
  exact ⟨rfl, (), _, rfl, rfl, .refl .eq _, rfl⟩

/-- A store depends on the whole path, and only on the path. -/
theorem arrayPut (src array index : Register) :
    Relates statics Eq Eq (Step.arrayPut src array index) (Step.arrayPut src array index) := by
  refine bind (read src) ?_
  rintro stored _ rfl
  refine bind (read array) ?_
  rintro target _ rfl
  refine bind (read index) ?_
  rintro place _ rfl
  refine bind (write array rfl) fun _ _ _ => bind (modifyFrame ?_) fun _ _ _ =>
    forgetStaticArrays target.type
  intro frame frame' related
  cases related.eq
  exact .refl .eq _

theorem branch (precision : Value.Precision V) (condition : Condition)
    {left left' right right' : Value} (sameLeft : V left left') (sameRight : V right right')
    (next target : Address) :
    Relates statics V (fun all some => some.Sublist all)
      (Step.branch condition left right next target)
      (Step.branch condition left' right' next target) := by
  unfold Step.branch
  rcases precision.decide? condition sameLeft sameRight with undecided | same
  · rw [undecided]
    have ways : ∀ way ∈ [[target], [next], [next, target]], way.Sublist [next, target] := by
      simp
    cases condition.decide? left' right' with
    | none => exact bind (note _ _) fun _ _ _ => pure (ways _ (by simp))
    | some taken => cases taken <;> exact noteThenPure _ (ways _ (by simp))
  · rw [same]
    cases condition.decide? left' right' with
    | none => exact bind (note _ _) fun _ _ _ => pure (List.Sublist.refl _)
    | some taken => cases taken <;> exact pure (List.Sublist.refl _)

theorem switch (precision : Value.Precision V) {selector selector' : Value}
    (same : V selector selector') (next : Address) (cases : List (Int32 × Address)) :
    Relates statics V (fun all some => some.Sublist all)
      (Step.switch selector next cases) (Step.switch selector' next cases) := by
  unfold Step.switch
  have chosen : ∀ key : Int32,
      [((cases.find? fun case => case.1 = key).map (·.2)).getD next].Sublist
        (Instruction.switchSuccessors next cases) := fun key =>
    List.singleton_sublist.mpr (Instruction.case_mem_switchSuccessors next cases key)
  rcases precision.int? same with unknown | same
  · rw [unknown]
    cases selector'.int? with
    | none => exact bind (note _ _) fun _ _ _ => pure (List.Sublist.refl _)
    | some key => exact noteThenPure _ (chosen key)
  · rw [same]
    cases selector'.int? with
    | none => exact bind (note _ _) fun _ _ _ => pure (List.Sublist.refl _)
    | some key => exact pure (List.Sublist.refl _)

end Relates

end Step

/-! ## Related executions -/

open Step

variable {statics : Statics} {V : Value → Value → Prop} {setup : Setup} {calls : Calls}

theorem Op.perform_relates (precision : Value.Precision V) (idle : calls.Idle) (site : Site)
    (op : Op) (stays : op.Local statics)
    (store : V = Eq ∨ ∀ src array index, op ≠ .arrayPut src array index) :
    Relates statics V Eq (op.perform setup calls site) (op.perform setup calls site) := by
  cases op with
  | nop | branch | jump | switch => exact .pure rfl
  | const dest value => exact .write dest (precision.refl _)
  | move dest src => exact .bind (.read src) fun _ _ same => .write dest same
  | moveResult dest =>
      refine .look fun scene scene' related _ _ => .write dest ?_
      cases found : scene.frame.result with
      | none =>
          have result := related.result
          rw [found] at result
          rw [rel_none result]
          exact precision.refl _
      | some value =>
          have result := related.result
          rw [found] at result
          obtain ⟨value', found', same⟩ := rel_some result
          rw [found']
          exact same
  | binary op kind dest lhs rhs =>
      refine .bind (.read lhs) fun _ _ sameLeft => ?_
      cases rhs with
      | register index =>
          exact .bind (.read index) fun _ _ sameRight =>
            .write dest (precision.binary op kind sameLeft sameRight)
      | literal value =>
          exact .bind (.pure (precision.refl _)) fun _ _ sameRight =>
            .write dest (precision.binary op kind sameLeft sameRight)
  | unary op dest src =>
      exact .bind (.read src) fun _ _ same => .write dest (precision.unary op same)
  | compare kind dest lhs rhs =>
      exact .bind (.read lhs) fun _ _ sameLeft => .bind (.read rhs) fun _ _ sameRight =>
        .write dest (precision.threeWay kind sameLeft sameRight)
  | invoke kind method args => exact stays.elim
  | newInstance dest type => exact .write dest (precision.refl _)
  | newArray dest size type =>
      exact .bind (.read size) fun _ _ same => .write dest (precision.newArray type _ same)
  | arrayLength dest array =>
      exact .bind (.read array) fun _ _ same => .write dest (precision.arrayLength same)
  | arrayGet dest array index =>
      exact .bind (.read array) fun _ _ same => .bind (.read index) fun _ _ samePlace =>
        .write dest (precision.elementAt same samePlace)
  | arrayPut src array index =>
      rcases store with rfl | noStore
      · exact .arrayPut src array index
      · exact absurd rfl (noStore src array index)
  | instanceGet dest object field =>
      exact .bind (.read object) fun _ _ _ => .write dest (precision.refl _)
  | instancePut src object field =>
      exact .bind (.read src) fun _ _ _ => .bind (.read object) fun _ _ _ => .pure rfl
  | staticGet dest field =>
      exact .bind (.start idle stays) fun _ _ _ => .bind (.getStatic precision field)
        fun _ _ same => .write dest same
  | staticPut src field =>
      exact .bind (.start idle stays) fun _ _ _ => .bind (.read src) fun _ _ same =>
        .putStatic field same
  | unhandled mnemonic clobbers =>
      exact .bind (.note _ _) fun _ _ _ =>
        .forM clobbers fun register => .write register (precision.refl _)
  | giveBack src =>
      cases src with
      | none => exact .modifyFrame fun _ _ related => related.withResult .none
      | some src =>
          exact .bind (.read src) fun _ _ same =>
            .modifyFrame fun _ _ related => related.withResult (.some same)
  | throw src => exact .bind (.read src) fun _ _ _ => .pure rfl

/-- On the second of two related paths an instruction that stays within its method succeeds if
it does on the first, goes on in some of the same directions, and leaves related paths. -/
theorem Instruction.execute_relates (precision : Value.Precision V) (idle : calls.Idle)
    (method : String) (instruction : Instruction) (stays : instruction.op.Local statics)
    (store : V = Eq ∨ ∀ src array index, instruction.op ≠ .arrayPut src array index) :
    Relates statics V (fun all some => some.Sublist all)
      (instruction.execute setup calls method) (instruction.execute setup calls method) := by
  have performs : Relates statics V Eq
      (instruction.op.perform setup calls ⟨method, instruction.address⟩)
      (instruction.op.perform setup calls ⟨method, instruction.address⟩) :=
    Op.perform_relates precision idle _ instruction.op stays store
  have goesOn : ∀ ways : List Address, Relates statics V (fun all some => some.Sublist all)
      (do instruction.op.perform setup calls ⟨method, instruction.address⟩
          return ways)
      (do instruction.op.perform setup calls ⟨method, instruction.address⟩
          return ways) :=
    fun _ => .bind performs fun _ _ _ => .pure (List.Sublist.refl _)
  unfold Instruction.execute
  cases shape : instruction.op with
  | branch condition lhs rhs target =>
      refine .bind (.read lhs) fun _ _ sameLeft => ?_
      cases rhs with
      | some register =>
          exact .bind (.read register) fun _ _ sameRight =>
            .branch precision condition sameLeft sameRight _ _
      | none =>
          exact .bind (.pure (precision.refl _)) fun _ _ sameRight =>
            .branch precision condition sameLeft sameRight _ _
  | switch src cases => exact .bind (.read src) fun _ _ same => .switch precision same _ _
  | _ =>
      rw [shape] at goesOn
      exact goesOn _

end Dexplore
