import Dexplore.Machine
import Dexplore.Proofs.Stepping

/-!
# What a call makes its caller forget

After a call, an argument that held a known array has been forgotten, unless objects of its
declared type never change, and nothing else has happened to the registers.  Of the static
fields that the path reads only arrays have been forgotten (`Statics.Forgets`).

A second register may hold the same array as an argument.  It is not looked at: the contents
of an array that was passed stay known in every register that was not passed itself
(`Instruction.arrays_after_call`).
-/

set_option autoImplicit false

namespace Dexplore

/-! ## Static fields -/

/-- A value has been kept, or it was a known array and has been forgotten. -/
def Value.Kept (before after : Value) : Prop :=
  after = before ∨ (before.isMutable = true ∧ after.isKnown = false)

theorem Value.isKnown_of_isMutable {value : Value} (mutable : value.isMutable = true) :
    value.isKnown = true := by
  cases value with
  | array type elements => rfl
  | unknown type => cases mutable
  | scalar type contents => cases mutable

theorem Value.Kept.trans {before middle after : Value} (first : before.Kept middle)
    (second : middle.Kept after) : before.Kept after := by
  rcases second with rfl | ⟨wasArray, unknown⟩
  · exact first
  · rcases first with rfl | ⟨-, forgotten⟩
    · exact .inr ⟨wasArray, unknown⟩
    · cases forgotten.symm.trans (isKnown_of_isMutable wasArray)

theorem Value.isMutable_of_unknown {value : Value} (unknown : value.isKnown = false) :
    value.isMutable = false := by
  cases isArray : value.isMutable with
  | false => rfl
  | true => cases unknown.symm.trans (isKnown_of_isMutable isArray)

theorem Value.Kept.unknown {before after : Value} (kept : before.Kept after)
    (unknown : before.isKnown = false) : after.isKnown = false := by
  rcases kept with rfl | ⟨-, forgotten⟩
  · exact unknown
  · exact forgotten

theorem Value.Kept.scalar {before after : Value} (kept : before.Kept after)
    (scalar : before.isMutable = false) : after.isMutable = false := by
  rcases kept with rfl | ⟨-, forgotten⟩
  · exact scalar
  · exact isMutable_of_unknown forgotten

/-- Of what a path reads for static fields, nothing but arrays has been forgotten. -/
def Statics.Forgets (statics : Statics) (before after : Frame) : Prop :=
  ∀ field, (statics.valueOn before field).Kept (statics.valueOn after field)

namespace Statics

variable {statics : Statics} {frame before middle after : Frame}

theorem Forgets.of_same (same : after.statics = before.statics) : statics.Forgets before after := by
  intro field
  rw [valueOn, valueOn, Frame.static?, Frame.static?, same]
  exact .inl rfl

theorem Forgets.trans (first : statics.Forgets before middle)
    (second : statics.Forgets middle after) : statics.Forgets before after :=
  fun field => (first field).trans (second field)

theorem Forgets.foldl {α : Type} {change : Frame → α → Frame} (items : List α)
    (each : ∀ item ∈ items, ∀ frame, statics.Forgets frame (change frame item))
    (frame : Frame) : statics.Forgets frame (items.foldl change frame) := by
  induction items generalizing frame with
  | nil => exact .of_same rfl
  | cons head rest induction =>
      apply (each head List.mem_cons_self frame).trans
      exact induction (fun item inside => each item (List.mem_cons_of_mem _ inside)) _

theorem forgets_widenStaticArrays (statics : Statics) (frame : Frame) (type : TypeDescriptor) :
    statics.Forgets frame (frame.widenStaticArrays type) := by
  intro field
  rw [valueOn, valueOn, Frame.static?_widenStaticArrays]
  cases frame.static? field with
  | none => exact .inl rfl
  | some value =>
      simp only [Option.map_some, Option.getD_some, Frame.forgetArrayOf]
      split
      · next isArray =>
          rw [Value.isArrayOf, Bool.and_eq_true] at isArray
          exact .inr ⟨isArray.1, rfl⟩
      · exact .inl rfl

theorem forgets_hideArray {state : ClassState} {owner : TypeDescriptor}
    (found : statics.find? owner = some state) {entry : String × StaticField}
    (inside : entry ∈ state.fields.entries) (type : TypeDescriptor) (frame : Frame) :
    statics.Forgets frame (hideArray type owner frame entry) := by
  intro field
  simp only [hideArray]
  split
  · next hides =>
      rw [Bool.and_eq_true, Value.isArrayOf, Bool.and_eq_true] at hides
      change (statics.valueOn frame field).Kept
        (((frame.writeStatic _ _).static? field).getD (statics.stored field))
      rw [Frame.static?_writeStatic]
      split
      · next same =>
          -- The path has not written the field, so it reads what the class holds.
          subst same
          have held : state.value? entry.1 = some entry.2.value := by
            rw [ClassState.value?, OrdMap.find?_eq_some_iff.mpr inside]
            rfl
          have reads : statics.valueOn frame ⟨owner, entry.1, entry.2.declared.getD type⟩ =
              entry.2.value := by
            rw [valueOn, Option.isNone_iff_eq_none.mp hides.2, Option.getD_none, stored, found,
              Option.bind_some, held]
            rfl
          exact .inr ⟨reads ▸ hides.1.1, rfl⟩
      · exact .inl rfl
  · exact .inl rfl

theorem forgets_forgetArrays (statics : Statics) (frame : Frame) (type : TypeDescriptor) :
    statics.Forgets frame (statics.forgetArrays frame type) := by
  refine (statics.forgets_widenStaticArrays frame type).trans (.foldl _ ?_ _)
  rintro ⟨owner, state⟩ isState frame
  refine .foldl _ ?_ frame
  intro entry isEntry frame
  exact forgets_hideArray (OrdMap.find?_eq_some_iff.mpr isState) isEntry type frame

end Statics

/-! ## Arguments -/

theorem Frame.read_eq_ok_iff {frame : Frame} {register : Register} {value : Value} :
    frame.read register = .ok value ↔ frame.registers[register]? = some value := by
  unfold read
  cases frame.registers[register]? <;> simp

def Program.mayChange (program : Program) (value : Value) : Bool :=
  value.isMutable && !program.isImmutable value.type

namespace Step

variable {program : Program} {register : Register} {args : List Register} {scene after : Scene}
  {done : Unit}

theorem forgetArgument_eq_ok (run : forgetArgument program register scene = .ok done after) :
    after.world = scene.world ∧ after.frame.result = scene.frame.result ∧
      scene.world.statics.Forgets scene.frame after.frame ∧
      ∀ other : Register, after.frame.registers[other]? =
        scene.frame.registers[other]?.map fun value =>
          if other = register ∧ program.mayChange value = true then value.widen else value := by
  obtain ⟨value, middle, isRead, run⟩ := bind_eq_ok.mp run
  obtain ⟨isRead, isScene⟩ := read_eq_ok.mp isRead
  rw [isScene] at run
  have held := Frame.read_eq_ok_iff.mp isRead
  split at run
  · next changes =>
      replace changes : program.mayChange value = true := changes
      obtain ⟨_, middle, written, run⟩ := bind_eq_ok.mp run
      obtain ⟨frame, isFrame, rfl⟩ := write_eq_ok.mp written
      have isAfter : after = ⟨scene.world.statics.forgetArrays frame value.type, scene.world⟩ := by
        cases run
        rfl
      have ⟨isSet, sameResult, sameStatics⟩ : frame.registers =
          scene.frame.registers.set register value.widen ∧ frame.result = scene.frame.result ∧
            frame.statics = scene.frame.statics := by
        rw [Frame.eq_of_write isFrame]
        exact ⟨rfl, rfl, rfl⟩
      obtain ⟨_, forgotten⟩ := scene.world.statics.forgetArrays_statics frame value.type
      rw [isAfter]
      refine ⟨rfl, ?_, ?_, fun other => ?_⟩
      · exact (congrArg Frame.result forgotten).trans sameResult
      · apply (Statics.Forgets.of_same sameStatics).trans
        exact scene.world.statics.forgets_forgetArrays frame value.type
      · rw [forgotten, isSet]
        by_cases same : other = register
        · subst same
          have inside := (List.getElem?_eq_some_iff.mp held).1
          rw [List.getElem?_set_self inside, held, Option.map_some, if_pos ⟨rfl, changes⟩]
        · rw [List.getElem?_set_ne (Ne.symm same)]
          simp [same]
  · next keeps =>
      replace keeps : ¬program.mayChange value = true := keeps
      cases run
      refine ⟨rfl, rfl, .of_same rfl, fun other => ?_⟩
      by_cases same : other = register
      · subst same
        rw [held, Option.map_some, if_neg fun both => keeps both.2]
      · simp [same]

theorem mayChange_widen (program : Program) (value : Value) :
    program.mayChange value.widen = false := rfl

theorem forgetArguments_eq_ok (run : args.forM (forgetArgument program) scene = .ok done after) :
    after.world = scene.world ∧ after.frame.result = scene.frame.result ∧
      scene.world.statics.Forgets scene.frame after.frame ∧
      ∀ other : Register, after.frame.registers[other]? =
        scene.frame.registers[other]?.map fun value =>
          if other ∈ args ∧ program.mayChange value = true then value.widen else value := by
  induction args generalizing scene with
  | nil =>
      cases run
      exact ⟨rfl, rfl, .of_same rfl, by simp⟩
  | cons register rest induction =>
      obtain ⟨_, middle, first, others⟩ := bind_eq_ok.mp run
      obtain ⟨sameWorld, sameResult, forgets, here⟩ := forgetArgument_eq_ok first
      obtain ⟨sameAfter, sameLast, forgetsAfter, there⟩ := induction others
      rw [sameWorld] at forgetsAfter
      refine ⟨sameAfter.trans sameWorld, sameLast.trans sameResult,
        forgets.trans forgetsAfter, fun other => ?_⟩
      rw [there, here, Option.map_map]
      congr 1
      funext value
      by_cases changes : program.mayChange value = true
      · by_cases isFirst : other = register
        · simp [isFirst, changes, mayChange_widen]
        · simp [isFirst, changes]
      · simp [changes]

section

variable {calls : Calls} {kind : InvokeKind} {method : MethodRef}

/-- A call writes what its outcome says, and then forgets its arguments. -/
theorem forget_of_invoke (run : invoke program calls kind method args scene = .ok done after) :
    ∃ outcome world,
      program.invoke calls kind method scene.frame args scene.world = .ok outcome world ∧
      args.forM (forgetArgument program)
        ⟨outcome.writes.foldl (fun frame write => frame.writeStatic write.1 write.2)
          (scene.frame.withResult outcome.result), world⟩ = .ok done after := by
  obtain ⟨looked, _, isLooked, run⟩ := bind_eq_ok.mp run
  cases isLooked
  obtain ⟨outcome, _, called, run⟩ := bind_eq_ok.mp run
  obtain ⟨world, isOutcome, rfl⟩ := outside_eq_ok.mp called
  exact ⟨outcome, world, isOutcome, run⟩

theorem invoke_eq_ok (run : invoke program calls kind method args scene = .ok done after) :
    ∃ outcome, program.invoke calls kind method scene.frame args scene.world =
        .ok outcome after.world ∧
      after.world.statics.Forgets
        (outcome.writes.foldl (fun frame write => frame.writeStatic write.1 write.2)
          (scene.frame.withResult outcome.result)) after.frame ∧
      ∀ other : Register, after.frame.registers[other]? =
        scene.frame.registers[other]?.map fun value =>
          if other ∈ args ∧ program.mayChange value = true then value.widen else value := by
  obtain ⟨outcome, world, isOutcome, forgotten⟩ := forget_of_invoke run
  obtain ⟨sameWorld, -, forgets, registers⟩ := forgetArguments_eq_ok forgotten
  obtain ⟨_, written⟩ :=
    Frame.foldl_writeStatic outcome.writes (scene.frame.withResult outcome.result)
  refine ⟨outcome, sameWorld ▸ isOutcome, sameWorld ▸ forgets, fun other => ?_⟩
  rw [registers, written]
  rfl

end

end Step

/-! ## Aliases -/

namespace Instruction

variable {setup : Setup} {calls : Calls} {method : String} {instruction : Instruction}
  {kind : InvokeKind} {reference : MethodRef} {args : List Register} {scene after : Scene}
  {successors : List Address}

theorem invoke_of_execute (isCall : instruction.op = .invoke kind reference args)
    (run : instruction.execute setup calls method scene = .ok successors after) :
    Step.invoke setup.program calls kind reference args scene = .ok () after := by
  unfold execute at run
  rw [isCall] at run
  obtain ⟨_, _, called, goesOn⟩ := Step.bind_eq_ok.mp run
  cases goesOn
  exact called

/-- A call that succeeds leaves every register as it was, except that arguments with known
arrays of a type whose contents may change are unknown.  So the known arrays that equal an
argument are all forgotten exactly if every register that holds one is an argument itself and
the contents of their declared type may change. -/
theorem arrays_after_call (isCall : instruction.op = .invoke kind reference args)
    (run : instruction.execute setup calls method scene = .ok successors after) :
    (∀ register : Register, after.frame.registers[register]? =
      scene.frame.registers[register]?.map fun value =>
        if register ∈ args ∧ setup.program.mayChange value = true then value.widen else value) ∧
    ((∀ arg ∈ args, ∀ value, scene.frame.read arg = .ok value → value.isMutable = true →
        ∀ register held, scene.frame.read register = .ok value →
          after.frame.read register = .ok held → held.isMutable = false) ↔
      ∀ arg ∈ args, ∀ value, scene.frame.read arg = .ok value → value.isMutable = true →
        setup.program.isImmutable value.type = false ∧
          ∀ register, scene.frame.read register = .ok value → register ∈ args) := by
  obtain ⟨-, -, -, registers⟩ := Step.invoke_eq_ok (invoke_of_execute isCall run)
  have readAfter : ∀ {register value}, scene.frame.read register = .ok value →
      after.frame.read register = .ok
        (if register ∈ args ∧ setup.program.mayChange value = true then value.widen
          else value) := by
    intro register value isRead
    rw [Frame.read_eq_ok_iff, registers, Frame.read_eq_ok_iff.mp isRead]
    rfl
  refine ⟨registers, ?_, ?_⟩
  · intro forgotten arg isArg value isRead isArray
    have gone : ∀ register, scene.frame.read register = .ok value →
        register ∈ args ∧ setup.program.mayChange value = true := by
      intro register isAlias
      by_contra kept
      have stays := readAfter isAlias
      rw [if_neg kept] at stays
      cases (forgotten arg isArg value isRead isArray register value isAlias stays).symm.trans
        isArray
    refine ⟨?_, fun register isAlias => (gone register isAlias).1⟩
    simpa [Program.mayChange, isArray] using (gone arg isRead).2
  · intro passed arg isArg value isRead isArray register held isAlias isHeld
    obtain ⟨changes, aliases⟩ := passed arg isArg value isRead isArray
    have isPassed := readAfter isAlias
    rw [if_pos ⟨aliases register isAlias, by simp [Program.mayChange, isArray, changes]⟩,
      isHeld] at isPassed
    cases isPassed
    rfl

def fillCall : Instruction :=
  .ofOp 0 (.invoke .static ⟨⟨"LLib;"⟩, "fill", [⟨"[I"⟩], .void⟩ [0])

def aliasedFrame : Frame :=
  ⟨[.array ⟨"[I"⟩ [.int 7], .array ⟨"[I"⟩ [.int 7]], 0, none, .empty⟩

/-- With an alias in a register that is not passed, not every known array is forgotten. -/
theorem arrays_after_call_fill :
    ∃ after, fillCall.execute ⟨{}, .empty⟩ ⟨fun _ => pure (), fun _ _ => pure none⟩
        "LApp;->main()V" ⟨aliasedFrame, ⟨.empty, []⟩⟩ = .ok [3] after ∧
      ¬∀ arg ∈ [0], ∀ value, aliasedFrame.read arg = .ok value → value.isMutable = true →
        ∀ register held, aliasedFrame.read register = .ok value →
          after.frame.read register = .ok held → held.isMutable = false := by
  have isCall : fillCall.op = .invoke .static _ [0] := rfl
  obtain ⟨after, run⟩ : ∃ after, fillCall.execute ⟨{}, .empty⟩
      ⟨fun _ => pure (), fun _ _ => pure none⟩ "LApp;->main()V"
      ⟨aliasedFrame, ⟨.empty, []⟩⟩ = .ok [3] after := ⟨_, rfl⟩
  refine ⟨after, run, fun forgotten => ?_⟩
  have passed := (arrays_after_call isCall run).2.mp forgotten 0 List.mem_cons_self _ rfl rfl
  exact absurd (passed.2 1 rfl) (by decide)

/-- The second register keeps the contents that the callee may have changed. -/
theorem array_known_after_call :
    (Machine.executeInstruction ⟨⟨{}, .empty⟩, .empty, 0⟩ "LApp;->main()V" fillCall
      aliasedFrame).2.registers = [.unknown ⟨"[I"⟩, .array ⟨"[I"⟩ [.int 7]] := by
  decide +kernel

end Instruction

end Dexplore
