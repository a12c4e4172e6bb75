import Dexplore.Proofs.WellFormed

/-!
# Passing arguments

A method is entered with a frame that holds what the method is passed in its last registers, the
receiver first, and nothing in the others (`Frame.passing`).  The places are counted from the end
of the frame: a parameter stands after the start of the parameters, and the receiver right before
it.  Both ways to enter a method come to this frame: on its own, with a receiver and parameters of
which nothing is known (`Program.rootFrame_eq`), and by a call, with the values of registers of the
caller (`Invocation.entryFrame_eq`).
-/

set_option autoImplicit false

namespace Dexplore

/-- The frame of a method that is passed some values and has written nothing. -/
def Frame.passing (count parameters : Nat) (values : List Value) : Frame where
  registers := List.replicate (count - values.length) .uninitialized ++ values
  parameterCount := parameters
  result := none
  statics := .empty

/-! ## Binding values from the end of a frame -/

namespace Frame

theorem registerCount_passing {count parameters : Nat} {values : List Value}
    (room : values.length ≤ count) : (passing count parameters values).registerCount = count := by
  simp only [registerCount, passing, List.length_append, List.length_replicate]
  omega

theorem read_passing {count parameters : Nat} {values : List Value} {index : Nat} {value : Value}
    (passed : values[index]? = some value) :
    (passing count parameters values).read (count - values.length + index) = .ok value := by
  rw [read, passing, List.getElem?_append_right (by simp), List.length_replicate,
    Nat.add_sub_cancel_left, passed]

theorem read_passing_of_lt {count parameters : Nat} {values : List Value} {register : Register}
    (before : register < count - values.length) :
    (passing count parameters values).read register = .ok .uninitialized := by
  rw [read, passing, List.getElem?_append_left (by simpa using before),
    List.getElem?_replicate_of_lt before]

@[simp]
theorem registerCount_inheritStatics (frame caller : Frame) :
    (frame.inheritStatics caller).registerCount = frame.registerCount := rfl

@[simp]
theorem read_inheritStatics (frame caller : Frame) (register : Register) :
    (frame.inheritStatics caller).read register = frame.read register := rfl

theorem bindParameter_append {before rest : List Value} {frame : Frame} {index : Nat}
    {value old : Value} (registers : frame.registers = before ++ old :: rest)
    (place : before.length = frame.parameterStart + index) (inside : index < frame.parameterCount) :
    frame.bindParameter index value =
      .ok { frame with registers := before ++ value :: rest } := by
  have isRegister : before.length < frame.registerCount := by
    rw [registerCount, registers, List.length_append, List.length_cons]
    omega
  rw [bindParameter, if_pos inside, ← place, write, if_pos isRegister, registers,
    List.set_append_right _ _ (Nat.le_refl _), Nat.sub_self, List.set_cons_zero]

theorem bindReceiver_append {before rest : List Value} {frame : Frame} {value old : Value}
    (registers : frame.registers = before ++ old :: rest)
    (place : frame.parameterStart = before.length + 1) :
    frame.bindReceiver value = .ok { frame with registers := before ++ value :: rest } := by
  have isRegister : before.length < frame.registerCount := by
    rw [registerCount, registers, List.length_append, List.length_cons]
    omega
  unfold bindReceiver
  rw [place]
  simp only [write, if_pos isRegister, registers, List.set_append_right _ _ (Nat.le_refl _),
    Nat.sub_self, List.set_cons_zero]

end Frame

/-- The values take the places of the last registers. What stands before them, also what was bound
before, stays. -/
theorem Program.bindParameters_append {values before rest : List Value} {frame : Frame}
    {index : Nat} (registers : frame.registers = before ++ rest)
    (place : before.length = frame.parameterStart + index) (room : rest.length = values.length)
    (inside : index + values.length ≤ frame.parameterCount) :
    bindParameters frame index values = .ok { frame with registers := before ++ values } := by
  induction values generalizing before rest frame index with
  | nil =>
      cases List.length_eq_zero_iff.mp room
      rw [← registers]
      rfl
  | cons value values induction =>
      cases rest with
      | nil => cases room
      | cons old rest =>
          simp only [List.length_cons] at room inside
          let middle : Frame := { frame with registers := before ++ value :: rest }
          have bound : frame.bindParameter index value = .ok middle :=
            Frame.bindParameter_append registers place (by omega)
          have start : middle.parameterStart = frame.parameterStart := by
            simp [middle, Frame.parameterStart, Frame.registerCount, registers]
          have bindRest : bindParameters middle (index + 1) values =
              .ok { middle with registers := (before ++ [value]) ++ values } := by
            apply induction
            · exact List.append_cons before value rest
            · rw [start, List.length_append, place]
              rfl
            · omega
            · change index + 1 + values.length ≤ frame.parameterCount
              omega
          rw [List.append_assoc] at bindRest
          simp only [bindParameters, bound, bind, Except.bind]
          exact bindRest

namespace Frame

theorem registers_new {count parameters : Nat} (fits : parameters ≤ count) :
    (new count parameters).registers =
      List.replicate (count - parameters) .uninitialized ++
        List.replicate parameters .uninitialized := by
  rw [List.replicate_append_replicate, Nat.sub_add_cancel fits]
  rfl

theorem parameterStart_new {count parameters : Nat} (fits : parameters ≤ count) :
    (new count parameters).parameterStart = count - parameters := by
  simp only [parameterStart, registerCount, new, List.length_replicate, Nat.min_eq_left fits]

end Frame

open Dexplore.Frame Program

theorem Program.bindParameters_new {count : Nat} {values : List Value}
    (fits : values.length ≤ count) :
    bindParameters (new count values.length) 0 values =
      .ok (passing count values.length values) := by
  have bound := bindParameters_append (registers_new fits)
    (by rw [parameterStart_new fits, List.length_replicate, Nat.add_zero])
    List.length_replicate (by simp [new, Nat.min_eq_left fits])
  rw [bound]
  simp only [passing, new, Nat.min_eq_left fits]

theorem Program.bindParameters_received {count : Nat} {values : List Value}
    (fits : values.length < count) (receiver : Value) :
    ∃ received, (new count values.length).bindReceiver receiver = .ok received ∧
      bindParameters received 0 values =
        .ok (passing count values.length (receiver :: values)) := by
  have within := Nat.le_of_lt fits
  -- The register right before the parameters is the one of the receiver.
  have split : (new count values.length).registers =
      List.replicate (count - values.length - 1) .uninitialized ++
        .uninitialized :: List.replicate values.length .uninitialized := by
    rw [registers_new within, List.append_cons, ← List.replicate_succ']
    congr 2
    omega
  let received : Frame :=
    { new count values.length with
      registers := List.replicate (count - values.length - 1) .uninitialized ++
        receiver :: List.replicate values.length .uninitialized }
  have isReceived : (new count values.length).bindReceiver receiver = .ok received := by
    apply bindReceiver_append split
    rw [parameterStart_new within, List.length_replicate]
    omega
  have start : received.parameterStart = count - values.length := by
    rw [← parameterStart_new within]
    simp [received, parameterStart, registerCount, split]
  have bound : bindParameters received 0 values =
      .ok { received with
        registers := (List.replicate (count - values.length - 1) .uninitialized ++ [receiver]) ++
          values } := by
    apply bindParameters_append
    · exact List.append_cons _ receiver _
    · rw [start, List.length_append, List.length_replicate, List.length_singleton]
      omega
    · exact List.length_replicate
    · simp [received, new, Nat.min_eq_left within]
  refine ⟨received, isReceived, bound.trans ?_⟩
  simp only [received, passing, new, Nat.min_eq_left within, List.length_cons, List.append_assoc,
    List.cons_append, List.nil_append, Nat.sub_sub]

/-! ## Entering a method on its own -/

def MethodDef.unknownArguments (method : MethodDef) : List Value :=
  (if method.isStatic then [] else [.scalar method.reference.owner (.object none)]) ++
    method.reference.parameters.map Value.unknown

theorem MethodDef.length_unknownArguments (method : MethodDef) :
    method.unknownArguments.length = method.incoming := by
  unfold unknownArguments incoming
  cases method.isStatic <;> simp

theorem Program.rootFrame_eq {program : Program} {descriptor : String} {method : MethodDef}
    (found : program.methods.find? descriptor = some method)
    (room : method.incoming ≤ method.registers) :
    program.rootFrame descriptor =
      .ok (passing method.registers method.reference.parameters.length
        method.unknownArguments) := by
  have parameters : (method.reference.parameters.map Value.unknown).length =
      method.reference.parameters.length := List.length_map _
  unfold MethodDef.incoming at room
  simp only [rootFrame, found, MethodDef.unknownArguments]
  cases isStatic : method.isStatic with
  | true =>
      rw [isStatic] at room
      rw [← parameters]
      exact bindParameters_new (by simpa using room)
  | false =>
      rw [isStatic] at room
      obtain ⟨received, isReceived, bound⟩ := bindParameters_received
        (parameters ▸ Nat.lt_of_succ_le room)
        (.scalar method.reference.owner (.object none))
      rw [parameters] at isReceived bound
      simp only [isReceived, bind, Except.bind, bound]
      rfl

/-! ## Entering a method by a call -/

namespace Invocation

variable {caller : Frame} {args : List Register} {values : List Value}

theorem exists_values (readable : ∀ register ∈ args, register < caller.registerCount) :
    ∃ values : List Value, args.map caller.read = values.map .ok := by
  induction args with
  | nil => exact ⟨[], rfl⟩
  | cons register rest induction =>
      obtain ⟨value, isValue⟩ :=
        (caller.read_isOk_iff register).mpr (readable register List.mem_cons_self)
      obtain ⟨values, are⟩ :=
        induction fun other inside => readable other (List.mem_cons_of_mem _ inside)
      exact ⟨value :: values, by rw [List.map_cons, List.map_cons, isValue, are]⟩

theorem value_of_argument (are : args.map caller.read = values.map .ok) {index : Nat}
    {register : Register} (isArgument : args[index]? = some register) :
    ∃ value, values[index]? = some value ∧ caller.read register = .ok value := by
  have here := congrArg (fun results => results[index]?) are
  simp only [List.getElem?_map, isArgument, Option.map_some] at here
  obtain ⟨value, isValue, same⟩ := Option.map_eq_some_iff.mp here.symm
  exact ⟨value, isValue, same.symm⟩

theorem bindArguments_eq (are : args.map caller.read = values.map .ok) (frame : Frame)
    (index : Nat) : bindArguments caller frame index args = bindParameters frame index values := by
  induction args generalizing values frame index with
  | nil =>
      cases values with
      | nil => rfl
      | cons => cases are
  | cons register rest induction =>
      cases values with
      | nil => cases are
      | cons value values =>
          obtain ⟨isValue, areRest⟩ := List.cons.inj are
          simp only [bindArguments, bindParameters, isValue, bind, Except.bind]
          cases frame.bindParameter index value with
          | error fault => rfl
          | ok bound => exact induction areRest bound (index + 1)

/-- A callee is entered with the values of the arguments and the static writes of the caller. -/
theorem entryFrame_eq {callee : MethodDef} {reference : MethodRef} {isStatic : Bool}
    (are : args.map caller.read = values.map .ok)
    (counted : args.length = reference.parameters.length + if isStatic then 0 else 1)
    (room : args.length ≤ callee.registers) :
    entryFrame callee reference isStatic caller args =
      .ok ((passing callee.registers reference.parameters.length values).inheritStatics
        caller) := by
  have sameLength : args.length = values.length := by
    simpa using congrArg List.length are
  cases isStatic with
  | true =>
      have parameters : values.length = reference.parameters.length := by
        rw [← sameLength, counted]
        rfl
      simp only [entryFrame, bindArguments_eq are]
      rw [← parameters, bindParameters_new (sameLength ▸ room)]
      rfl
  | false =>
      cases args with
      | nil => cases counted
      | cons receiver rest =>
          cases values with
          | nil => cases are
          | cons value values =>
              obtain ⟨isValue, areRest⟩ := List.cons.inj are
              have parameters : values.length = reference.parameters.length := by
                simpa [sameLength] using counted
              have fits : values.length < callee.registers := by
                rw [sameLength] at room
                exact Nat.lt_of_succ_le room
              obtain ⟨received, isReceived, bound⟩ := bindParameters_received fits value
              rw [parameters] at isReceived bound
              simp only [entryFrame, isValue, bindArguments_eq areRest, isReceived, bound, bind,
                Except.bind]
              rfl

def conclude (reference : MethodRef) (caller : Frame) (template : Graph) :
    Option Graph → Run CallOutcome
  | some graph => do return summarise reference caller (← get).statics graph
  | none => return abandoned reference caller template

end Invocation

/-- A call that fits its callee executes it from the frame of the arguments. -/
theorem Program.invoke_eq {program : Program} {kind : InvokeKind} {reference : MethodRef}
    {caller : Frame} {args : List Register} {values : List Value} {callee : MethodDef}
    {template : Graph} (calls : Calls)
    (found : program.callee? reference.descriptor = some (callee, template))
    (are : args.map caller.read = values.map .ok)
    (counted : args.length = reference.parameters.length + if kind = .static then 0 else 1)
    (room : args.length ≤ callee.registers) (sameKind : callee.isStatic = decide (kind = .static)) :
    program.invoke calls kind reference caller args =
      calls.execute reference.descriptor
          ((passing callee.registers reference.parameters.length values).inheritStatics caller) >>=
        Invocation.conclude reference caller template := by
  have expected : args.length =
      reference.parameters.length + if decide (kind = .static) then 0 else 1 := by
    simpa using counted
  simp only [invoke, expected, ne_eq, not_true_eq_false, if_false, found, sameKind,
    Invocation.entryFrame_eq are expected room, Run.ofExcept, pure_bind]
  rfl

namespace Machine

variable {machine : Machine}

/-- Every method can be entered on its own, with a known receiver if it has one and parameters of
which only the types are known. A call of a method with code that passes as many arguments as its
reference and the method declare, by a kind of call that fits, starts the method from a frame with
the values of the arguments and the static writes of the caller. In both cases what is passed
stands in the last registers, in order, and nothing was written to any other. -/
theorem arguments_passed (reachable : machine.Reachable fun _ => True) :
    (∀ descriptor method, machine.method? descriptor = some method →
      ∃ frame, machine.rootFrame descriptor = .ok frame ∧
        frame.registerCount = method.registers ∧
        frame.registers =
          List.replicate (method.registers - method.incoming) .uninitialized ++
            ((if method.isStatic then [] else [.scalar method.reference.owner (.object none)]) ++
              method.reference.parameters.map Value.unknown) ∧
        frame.result = none ∧ frame.statics = .empty) ∧
    ∀ kind reference callee, machine.method? reference.descriptor = some callee →
      callee.isImplemented = true → callee.isStatic = decide (kind = .static) →
      ∀ (caller : Frame) (args : List Register),
        args.length = reference.parameters.length + (if kind = .static then 0 else 1) →
        args.length = callee.incoming →
        (∀ register ∈ args, register < caller.registerCount) →
        ∃ frame template, machine.template? reference.descriptor = some template ∧
          (∀ calls, machine.program.invoke calls kind reference caller args =
            calls.execute reference.descriptor frame >>=
              Invocation.conclude reference caller template) ∧
          frame.registerCount = callee.registers ∧
          (∀ (index : Nat) register, args[index]? = some register →
            frame.read (callee.registers - callee.incoming + index) = caller.read register) ∧
          (∀ register, register < callee.registers - callee.incoming →
            frame.read register = .ok .uninitialized) ∧
          frame.result = none ∧ frame.statics = caller.statics := by
  have consistent := reachable.invariant.1
  constructor
  · intro descriptor method found
    have room := consistent.roomy found
    refine ⟨_, Program.rootFrame_eq found room, ?_, ?_, rfl, rfl⟩
    · exact registerCount_passing (method.length_unknownArguments ▸ room)
    · rw [← method.length_unknownArguments]
      rfl
  · intro kind reference callee found code sameKind caller args declared taken readable
    have room : args.length ≤ callee.registers := taken ▸ consistent.roomy found
    obtain ⟨template, isTemplate⟩ := Option.isSome_iff_exists.mp (consistent.implemented found code)
    have isCallee : machine.program.callee? reference.descriptor = some (callee, template) := by
      have listed : machine.program.methods.find? reference.descriptor = some callee := found
      rw [Program.callee?, listed, isTemplate]
      rfl
    obtain ⟨values, are⟩ := Invocation.exists_values readable
    have sameLength : values.length = callee.incoming := by
      rw [← taken]
      simpa using (congrArg List.length are).symm
    refine ⟨(passing callee.registers reference.parameters.length values).inheritStatics caller,
      template, isTemplate,
      fun calls => Program.invoke_eq calls isCallee are declared room sameKind,
      ?_, ?_, ?_, rfl, rfl⟩
    · rw [registerCount_inheritStatics]
      exact registerCount_passing (sameLength ▸ consistent.roomy found)
    · intro index register isArgument
      obtain ⟨value, isValue, isRead⟩ := Invocation.value_of_argument are isArgument
      rw [isRead, ← sameLength, read_inheritStatics]
      exact read_passing isValue
    · intro register before
      rw [← sameLength] at before
      rw [read_inheritStatics]
      exact read_passing_of_lt before

def moveMethod : MethodDef where
  reference := ⟨⟨"LPoint;"⟩, "move", [.int, .long], .void⟩
  flags := 0
  registers := 5
  instructions := [.ofOp 0 (.giveBack none)]
  tries := []

def pointClass : ClassDef := ⟨⟨"LPoint;"⟩, 0, [], [moveMethod]⟩

def movingFrame : Frame where
  registers :=
    [.unknown .int, .scalar ⟨"LPoint;"⟩ (.object (some ⟨"LMain;->main()V", 0⟩)), .unknown .long]
  parameterCount := 0
  result := none
  statics := .empty

theorem arguments_passed_move :
    ∃ machine, load [pointClass] {} = .ok machine ∧
      machine.method? moveMethod.descriptor = some moveMethod ∧
      (∃ root, machine.rootFrame moveMethod.descriptor = .ok root ∧
        root.registers = [.uninitialized, .uninitialized,
          .scalar ⟨"LPoint;"⟩ (.object none), .unknown .int, .unknown .long]) ∧
      ∃ frame template, machine.template? moveMethod.descriptor = some template ∧
        (∀ calls, machine.program.invoke calls .virtual moveMethod.reference movingFrame [1, 0, 2] =
          calls.execute moveMethod.descriptor frame >>=
            Invocation.conclude moveMethod.reference movingFrame template) ∧
        frame.read 1 = .ok .uninitialized ∧
        frame.read 2 = .ok (.scalar ⟨"LPoint;"⟩ (.object (some ⟨"LMain;->main()V", 0⟩))) ∧
        frame.read 3 = .ok (.unknown .int) ∧ frame.read 4 = .ok (.unknown .long) := by
  have runs : ∃ machine, load [pointClass] {} = .ok machine ∧
      machine.method? moveMethod.descriptor = some moveMethod := ⟨_, rfl, rfl⟩
  obtain ⟨machine, loaded, found⟩ := runs
  obtain ⟨entered, called⟩ := arguments_passed (.load loaded trivial)
  obtain ⟨root, isRoot, -, registers, -, -⟩ := entered moveMethod.descriptor moveMethod found
  obtain ⟨frame, template, isTemplate, starts, -, passed, fresh, -, -⟩ :=
    called .virtual moveMethod.reference moveMethod found rfl rfl movingFrame [1, 0, 2] rfl rfl
      (by decide)
  exact ⟨machine, loaded, found, ⟨root, isRoot, registers⟩, frame, template, isTemplate, starts,
    fresh 1 (by decide), passed 0 1 rfl, passed 1 0 rfl, passed 2 2 rfl⟩

end Machine

end Dexplore
