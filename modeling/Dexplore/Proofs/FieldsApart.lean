import Dexplore.Proofs.Initializers
import Dexplore.Proofs.OwnWrites

/-!
# Static fields that are kept apart

A class holds one value under each name.  Fields of different names, or of different classes, are
kept apart: a field begins with its own initial value, and code that puts only other fields leaves
it alone, whether it is an initializer or any other method (`Machine.fields_apart`).  Fields of one
class that only their types tell apart are not: they share what the class holds, from the moment
the class is loaded (`Machine.twins_shared`).
-/

set_option autoImplicit false

namespace Dexplore

open Execution Exploration

/-- Fields of different classes, or of different names. -/
def FieldRef.Apart (left right : FieldRef) : Prop :=
  ¬(left.owner = right.owner ∧ left.name = right.name)

instance (left right : FieldRef) : Decidable (left.Apart right) :=
  inferInstanceAs (Decidable (¬(_ ∧ _)))

/-! ## Initial values -/

/-- Of the fields of one name, the last one decides what the class begins with. -/
theorem ClassState.value?_ofDefinition {definition : ClassDef} {declared : FieldDef}
    {earlier later : List FieldDef}
    (fields : definition.staticFields = earlier ++ declared :: later)
    (last : ∀ other ∈ later, other.name ≠ declared.name) :
    (ofDefinition definition).value? declared.name = some (initialValue declared) := by
  let entry (field : FieldDef) : String × StaticField :=
    (field.name, ⟨some field.type, initialValue field⟩)
  have passed : (later.map entry).reverse.find? (fun other => other.1 = declared.name) = none := by
    refine List.find?_eq_none.mpr fun other inside => ?_
    obtain ⟨field, isLater, rfl⟩ := List.mem_map.mp (List.mem_reverse.mp inside)
    simpa using last field isLater
  have found : ((definition.staticFields.map entry).reverse.find?
      fun other => other.1 = declared.name) = some (entry declared) := by
    rw [fields, List.map_append, List.map_cons, List.reverse_append, List.reverse_cons,
      List.append_assoc, List.find?_append, passed, Option.none_or]
    exact List.find?_cons_of_pos (by simp [entry])
  rw [value?, ofDefinition, OrdMap.find?_ofList, found]
  rfl

namespace Machine

theorem stored_of_load {definitions : List ClassDef} {config : Config} {machine : Machine}
    (loaded : load definitions config = .ok machine) {definition : ClassDef}
    (isDefined : definition ∈ definitions) {name : String} {value : Value}
    (initially : (ClassState.ofDefinition definition).value? name = some value)
    (type : TypeDescriptor) : machine.statics.stored ⟨definition.name, name, type⟩ = value := by
  obtain ⟨-, holds, -, fresh⟩ := load_eq_ok_iff.mp loaded
  have isClass := (holds.classes definition.name definition).mpr ⟨isDefined, rfl⟩
  rw [← fresh]
  simp only [reset, Statics.stored, Statics.ofDefinitions, OrdMap.find?_mapValues, isClass,
    Option.map_some, Option.bind_some, initially, Option.getD_some]

end Machine

/-! ## What is recorded inside is recorded at the end -/

namespace Juncture

/-- The events on the record once everything at a juncture is done. -/
def finalEvents (setup : Setup) : Juncture → List Event
  | request depth wanted world =>
    (lastState ((callsAt setup depth).ask (some wanted) world)).events
  | explore depth pending allowance exploration =>
    (lastState (exploreFrom setup (callsAt setup depth) pending allowance
      exploration)).world.events

theorem finalEvents_start (setup : Setup) (depth : Nat) (type : TypeDescriptor) (world : World) :
    (request depth (.start type) world).finalEvents setup =
      (lastState ((callsAt setup depth).start type world)).events :=
  congrArg World.events (Calls.lastState_ask_start _ type world)

theorem finalEvents_execute (setup : Setup) (depth : Nat) (descriptor : String) (frame : Frame)
    (world : World) :
    (request depth (.execute descriptor frame) world).finalEvents setup =
      (lastState ((callsAt setup depth).execute descriptor frame world)).events := rfl

theorem Leads.recorded {setup : Setup} {juncture inner : Juncture}
    (leads : Leads setup juncture inner) :
    inner.finalEvents setup <:+ juncture.finalEvents setup := by
  have obey : ∀ depth, (callsAt setup depth).Obey Law.recording :=
    callsAt_obey Law.recording_upheld setup
  cases leads with
  | @initializer depth type world state template frame found fresh code isFrame =>
      rw [finalEvents_start, finalEvents_execute, start_of_code found fresh code isFrame]
      cases (callsAt setup depth).execute (initializerOf type) frame (world.marked type) <;>
        exact List.suffix_rfl
  | @start depth descriptor frame world template code =>
      rw [finalEvents_start, finalEvents_execute]
      cases start : (callsAt setup depth).start (classOfDescriptor descriptor) world with
      | error fault failed =>
          rw [execute_of_failed code start]
          exact List.suffix_rfl
      | ok value started =>
          by_cases room : depth < setup.config.maxDepth
          · rw [execute_of_room code start room]
            have explored := recorded_exploreFrom setup (obey (depth + 1)) [.root]
              (.full setup.config (template.setRootFrame frame))
              ⟨template.setRootFrame frame, entering template depth started⟩
            have entered : started.events <:+ (entering template depth started).events :=
              List.suffix_cons _ _
            exact entered.trans (explored.trans (recorded_conclude setup _))
          · rw [execute_of_deep code start (Nat.le_of_not_lt room)]
            exact List.suffix_cons _ _
  | enter code start room =>
      rw [finalEvents_execute, execute_of_room code start room]
      exact recorded_conclude setup _
  | @ask depth id rest allowance remaining exploration instruction wanted present spent asked =>
      have visited := worlds_visit Law.recording_upheld.toFair setup (callsAt setup depth) id
        instruction exploration
      rw [asked] at visited
      refine List.IsSuffix.trans visited ?_
      rw [finalEvents, exploreFrom_of_spent present spent]
      cases visit setup (callsAt setup depth) id instruction exploration with
      | error fault after => exact List.suffix_rfl
      | ok children after => exact recorded_exploreFrom setup (obey depth) _ _ _
  | goOn present spent visited =>
      rewrite [finalEvents, finalEvents, exploreFrom_of_spent present spent, visited]
      exact List.suffix_rfl

end Juncture

/-! ## Methods that are executed alone -/

namespace Statics

variable {graph : Graph} {field : FieldRef}

theorem held?_markInitialized (statics : Statics) (type owner : TypeDescriptor) (name : String) :
    (statics.markInitialized type).held? owner name = statics.held? owner name := by
  rw [markInitialized, held?_modify]
  split <;> rfl

theorem held?_foldl_widenField_of_apart {puts : List FieldRef}
    (apart : ∀ put ∈ puts, put.Apart field) (statics : Statics) :
    (puts.foldl widenField statics).held? field.owner field.name =
      statics.held? field.owner field.name := by
  induction puts generalizing statics with
  | nil => rfl
  | cons head rest induction =>
      rw [List.foldl_cons, induction fun put later => apart put (List.mem_cons_of_mem _ later),
        widenField, held?_modify]
      split
      · next isOwner =>
          have named : head.name ≠ field.name :=
            fun same => apart head List.mem_cons_self ⟨isOwner.symm, same⟩
          refine congrArg _ (funext fun state => ?_)
          exact (state.value?_set _ _ _).trans (if_neg named)
      · rfl

theorem held?_giveUp_of_apart (plain : graph.mayStore = false)
    (apart : ∀ put ∈ graph.staticPuts, put.Apart field) (statics : Statics) :
    (statics.giveUp graph).held? field.owner field.name =
      statics.held? field.owner field.name := by
  rw [giveUp_eq, plain]
  exact held?_foldl_widenField_of_apart apart statics

end Statics

/-- Whatever becomes of a method that puts other fields only, it leaves a field alone. -/
theorem Execution.held?_conclude_of_apart (setup : Setup) (calls : Calls) {method : MethodDef}
    {template : Graph} (built : Graph.ofMethod method = .ok template)
    (plain : template.mayStore = false) {field : FieldRef}
    (puts : ∀ put ∈ template.staticPuts, put.Apart field) {frame : Frame}
    (blank : frame.WritesOnly (·.Apart field)) (world : World) :
    let result := explore setup calls ⟨template.setRootFrame frame, world⟩
    (lastState (conclude setup result)).statics.held? field.owner field.name =
      (lastState result).world.statics.held? field.owner field.name := by
  intro result
  have same : (lastState result).graph.SameCode template :=
    sameCode_explore setup calls built frame world
  have entered := template.sameCode_setRootFrame frame
  have written : (lastState result).graph.AllFrames (Frame.WritesOnly (·.Apart field)) :=
    writesOnly_explore setup calls ⟨template.setRootFrame frame, world⟩
      (entered.mayStore_eq.trans plain)
      (fun put isPut => puts put ((entered.mem_staticPuts_iff put).mp isPut))
      ((Graph.allFrames_template built _).setRootFrame blank)
  cases ended : result with
  | ok value done =>
      rw [ended] at written
      refine Statics.held?_foldl_commitField_of_ne _ _ (fun other isWritten => ?_) _
      obtain ⟨last, isLast, carries⟩ := (Graph.mem_writtenStatics_iff _ other).mp isWritten
      exact written.of_mem_frames isLast other carries
  | error fault done =>
      rw [ended] at same
      rw [conclude]
      split
      · exact Statics.held?_giveUp_of_apart (same.mayStore_eq.trans plain)
          (fun put isPut => puts put ((same.mem_staticPuts_iff put).mp isPut)) done.world.statics
      · rfl

namespace Juncture

variable {setup : Setup} {descriptor : String} {field : FieldRef} {juncture inner : Juncture}

/-- Nothing but one method is executed here, from a frame that has not written to the field. -/
def Executes (setup : Setup) (descriptor : String) (field : FieldRef) : Juncture → Prop
  | request _ (.start _) _ => True
  | request _ (.execute other frame) _ =>
    other = descriptor ∧ frame.WritesOnly (·.Apart field)
  | explore _ _ _ exploration => ∃ template,
    setup.program.templates.find? descriptor = some template ∧
      exploration.graph.SameCode template

structure Alone (setup : Setup) (descriptor : String) (field : FieldRef) (juncture : Juncture) :
    Prop where
  executes : juncture.Executes setup descriptor field
  quiet : ∀ type, .initializing type ∈ juncture.finalEvents setup →
    setup.program.templates.find? (initializerOf type) = none ∨ initializerOf type = descriptor

theorem Leads.alone (leads : Leads setup juncture inner)
    (plain : ∀ template, setup.program.templates.find? descriptor = some template →
      template.mayStore = false)
    (alone : juncture.Alone setup descriptor field) : inner.Alone setup descriptor field := by
  have quiet : ∀ type, .initializing type ∈ inner.finalEvents setup →
      setup.program.templates.find? (initializerOf type) = none ∨
        initializerOf type = descriptor :=
    fun type recorded => alone.quiet type (leads.recorded.subset recorded)
  refine ⟨?_, quiet⟩
  have executes := alone.executes
  cases leads with
  | @initializer depth type world state template frame found fresh code isFrame =>
      have kept := ((callsAt_obey Law.recording_upheld setup depth).execute (initializerOf type)
        frame).lastWorld (world.marked type)
      have isOwn := (quiet type (kept.subset List.mem_cons_self)).resolve_left
        (by rw [code]; exact Option.some_ne_none _)
      refine ⟨isOwn, fun written isWritten => ?_⟩
      rw [Frame.static?, Program.statics_rootFrame isFrame] at isWritten
      cases isWritten
  | start code => trivial
  | @enter depth _ frame world started template code start room =>
      obtain ⟨rfl, -⟩ := executes
      exact ⟨template, code, template.sameCode_setRootFrame frame⟩
  | ask present spent asked =>
      obtain ⟨template, code, same⟩ := executes
      obtain ⟨frame, -, fromFrame⟩ := Option.bind_eq_some_iff.mp asked
      rw [same.instruction?] at present
      obtain ⟨type, rfl⟩ := Instruction.start_of_request?
        (template.op_mayStore (plain template code) present) fromFrame
      trivial
  | @goOn depth id _ _ _ _ exploration _ instruction present spent visited =>
      obtain ⟨template, code, same⟩ := executes
      have kept := sameCode_visit setup (callsAt setup depth) id instruction exploration
      rw [visited] at kept
      exact ⟨template, code, kept.trans same⟩

theorem Alone.concludes (alone : juncture.Alone setup descriptor field)
    (consistent : setup.program.Consistent)
    (apart : ∀ template, setup.program.templates.find? descriptor = some template →
      template.mayStore = false ∧ ∀ put ∈ template.staticPuts, put.Apart field) :
    juncture.Concludes setup fun before after =>
      after.held? field.owner field.name = before.held? field.owner field.name := by
  cases juncture with
  | explore depth pending allowance exploration => trivial
  | request depth wanted world =>
      cases wanted with
      | start type => trivial
      | execute other frame =>
          obtain ⟨rfl, blank⟩ := alone.executes
          intro template started code start
          obtain ⟨plain, puts⟩ := apart template code
          obtain ⟨method, -, built⟩ := consistent.template code
          refine ⟨Statics.held?_giveUp_of_apart plain puts started.statics, fun room => ?_⟩
          rw [execute_of_room code start room]
          exact held?_conclude_of_apart setup _ built plain puts blank _

theorem Alone.held? (alone : juncture.Alone setup descriptor field)
    (consistent : setup.program.Consistent)
    (apart : ∀ template, setup.program.templates.find? descriptor = some template →
      template.mayStore = false ∧ ∀ put ∈ template.staticPuts, put.Apart field) :
    (juncture.finalStatics setup).held? field.owner field.name =
      juncture.statics.held? field.owner field.name := by
  let kept (before after : Statics) : Prop :=
    after.held? field.owner field.name = before.held? field.owner field.name
  refine @relates setup kept (fun _ => rfl) (fun first second => second.trans first)
    (fun statics type => statics.held?_markInitialized type field.owner field.name) juncture ?_
  intro inner reaches
  refine Alone.concludes ?_ consistent apart
  induction reaches with
  | refl => exact alone
  | tail _ leads before =>
      exact leads.alone (fun template code => (apart template code).1) before

end Juncture

/-! ## Machines -/

/-- An operation that executes a method, or the initializer of a class, on a path that has not
written to a field. -/
def Operation.Runs (descriptor : String) (field : FieldRef) : Operation → Prop
  | execute other => other = descriptor
  | executeFrom other frame => other = descriptor ∧ frame.WritesOnly (·.Apart field)
  | startClass type => initializerOf type = descriptor
  | update _ => False

namespace Machine

theorem events_performOperation {machine : Machine} {operation : Operation}
    {juncture : Juncture} (begins : operation.juncture? machine = some juncture) :
    (operation.perform machine).events = (juncture.finalEvents machine.toSetup).reverse := by
  cases operation with
  | execute descriptor =>
      obtain ⟨frame, isFrame, rfl⟩ := Option.map_eq_some_iff.mp begins
      rw [Operation.perform, execute_eq (Except.eq_ok_of_toOption isFrame)]
      exact machine.events_perform (machine.calls.execute descriptor frame)
  | executeFrom descriptor frame =>
      cases begins
      exact machine.events_perform (machine.calls.execute descriptor frame)
  | startClass type =>
      cases begins
      refine (machine.events_perform _).trans ?_
      rw [Juncture.finalEvents_start]
      rfl
  | update method => cases begins

theorem executes_of_runs {machine : Machine} {operation : Operation} {descriptor : String}
    {field : FieldRef} {juncture : Juncture} (runs : operation.Runs descriptor field)
    (begins : operation.juncture? machine = some juncture) :
    juncture.Executes machine.toSetup descriptor field ∧ juncture.statics = machine.statics := by
  cases operation with
  | execute other =>
      obtain ⟨frame, isFrame, rfl⟩ := Option.map_eq_some_iff.mp begins
      refine ⟨⟨runs, fun written isWritten => ?_⟩, rfl⟩
      rw [Frame.static?, Program.statics_rootFrame (Except.eq_ok_of_toOption isFrame)] at isWritten
      cases isWritten
  | executeFrom other frame =>
      cases begins
      exact ⟨runs, rfl⟩
  | startClass type =>
      cases begins
      exact ⟨trivial, rfl⟩
  | update method => cases begins

/-- The last static field of a name, in the order in which a class declares its fields, decides
what a path without writes reads under that name when the class has been loaded.  Afterwards the
field keeps what it holds, known or not, while a method or an initializer is executed that makes
no calls, stores into no array, puts only fields of other names or classes, and sets off no
initializer but itself. -/
theorem fields_apart (machine : Machine) :
    (∀ definitions config, load definitions config = .ok machine →
      ∀ definition ∈ definitions, ∀ earlier declared later,
        definition.staticFields = earlier ++ declared :: later →
        (∀ other ∈ later, other.name ≠ declared.name) →
        ∀ type frame, frame.static? ⟨definition.name, declared.name, type⟩ = none →
          machine.staticValue frame ⟨definition.name, declared.name, type⟩ =
            ClassState.initialValue declared) ∧
    (machine.Loaded →
      ∀ descriptor (field : FieldRef) (operation : Operation), operation.Runs descriptor field →
        (∀ method, machine.method? descriptor = some method →
          ∀ instruction ∈ method.instructions, instruction.op.mayStore = false ∧
            ∀ put, instruction.op.staticPut? = some put → put.Apart field) →
        (∀ type, .initializing type ∈ (operation.perform machine).events →
          machine.template? (initializerOf type) = none ∨ initializerOf type = descriptor) →
        ∀ frame, (operation.perform machine).machine.staticValue frame field =
          machine.staticValue frame field) := by
  constructor
  · intro definitions config loaded definition isDefined earlier declared later fields last
      type frame blank
    rw [staticValue, Statics.valueOn, blank]
    exact stored_of_load loaded isDefined (ClassState.value?_ofDefinition fields last) type
  · intro loaded descriptor field operation runs code quiet frame
    suffices same : (operation.perform machine).machine.statics.held? field.owner field.name =
        machine.statics.held? field.owner field.name by
      rw [staticValue, staticValue, Statics.valueOn, Statics.valueOn,
        Statics.stored_eq_of_held? same]
    have apart : ∀ template, machine.program.templates.find? descriptor = some template →
        template.mayStore = false ∧ ∀ put ∈ template.staticPuts, put.Apart field := by
      intro template found
      obtain ⟨method, isMethod, built⟩ := loaded.consistent.template found
      refine ⟨Graph.mayStore_of_ofMethod built fun instruction inside =>
        (code method isMethod instruction inside).1, fun put isPut => ?_⟩
      obtain ⟨instruction, inside, puts⟩ := Graph.put_of_ofMethod built isPut
      exact (code method isMethod instruction inside).2 put puts
    rw [statics_performOperation]
    cases begins : operation.juncture? machine with
    | none => rfl
    | some juncture =>
        obtain ⟨executes, here⟩ := executes_of_runs runs begins
        have alone : juncture.Alone machine.toSetup descriptor field :=
          ⟨executes, fun type recorded => quiet type
            (events_performOperation begins ▸ List.mem_reverse.mpr recorded)⟩
        rw [← here]
        exact alone.held? loaded.consistent apart

/-! A class whose two fields have one name. -/

def twinInt : FieldDef := ⟨"x", .int, 8, some (.int 1)⟩

def twinLong : FieldDef := ⟨"x", .long, 8, some (.long 2)⟩

def twinMethod : MethodDef where
  reference := ⟨⟨"LTwin;"⟩, "put", [], .void⟩
  flags := 8
  registers := 1
  instructions :=
    [.ofOp 0 (.const 0 (.long 3)), .ofOp 5 (.staticPut 0 ⟨⟨"LTwin;"⟩, "x", .long⟩),
      .ofOp 7 (.giveBack none)]
  tries := []

def twinClass : ClassDef := ⟨⟨"LTwin;"⟩, 0, [twinInt, twinLong], [twinMethod]⟩

/-- The field with the number 1 reads as the long 2 of its twin, and a method that puts the twin
makes it unknown. -/
theorem twins_shared :
    ∃ machine, load [twinClass] {} = .ok machine ∧
      ClassState.initialValue twinInt = .int 1 ∧
      machine.staticValue (.new 0 0) ⟨⟨"LTwin;"⟩, "x", .int⟩ = ClassState.initialValue twinLong ∧
      (machine.execute twinMethod.descriptor).machine.staticValue (.new 0 0)
        ⟨⟨"LTwin;"⟩, "x", .int⟩ = .unknown .long ∧
      ClassState.initialValue twinLong ≠ .int 1 := by
  cases loaded : load [twinClass] {} with
  | error fault => cases loaded
  | ok machine =>
      refine ⟨machine, rfl, ?_⟩
      cases loaded
      decide +kernel

/-! A class whose initializer puts one of its two fields. -/

def pairField (name : String) : FieldRef := ⟨⟨"LPair;"⟩, name, .int⟩

def pairInitializer : MethodDef where
  reference := ⟨⟨"LPair;"⟩, "<clinit>", [], .void⟩
  flags := 8
  registers := 1
  instructions :=
    [.ofOp 0 (.const 0 (.int 5)), .ofOp 3 (.staticPut 0 (pairField "y")),
      .ofOp 5 (.giveBack none)]
  tries := []

def pairClass : ClassDef :=
  ⟨⟨"LPair;"⟩, 0, [⟨"x", .int, 8, some (.int 1)⟩, ⟨"y", .int, 8, some (.int 2)⟩],
    [pairInitializer]⟩

theorem fields_apart_pair :
    ∃ machine, load [pairClass] {} = .ok machine ∧
      machine.staticValue (.new 0 0) (pairField "x") = .int 1 ∧
      (machine.startClass ⟨"LPair;"⟩).machine.staticValue (.new 0 0) (pairField "x") =
        machine.staticValue (.new 0 0) (pairField "x") ∧
      (machine.startClass ⟨"LPair;"⟩).machine.staticValue (.new 0 0) (pairField "y") = .int 5 := by
  cases loaded : load [pairClass] {} with
  | error fault => cases loaded
  | ok machine =>
      have changed : (machine.startClass ⟨"LPair;"⟩).machine.staticValue (.new 0 0)
          (pairField "y") = .int 5 := by
        cases loaded
        decide +kernel
      have code : ∀ method, machine.method? (initializerOf ⟨"LPair;"⟩) = some method →
          ∀ instruction ∈ method.instructions, instruction.op.mayStore = false ∧
            ∀ put, instruction.op.staticPut? = some put → put.Apart (pairField "x") := by
        intro method found
        have isInitializer : machine.method? (initializerOf ⟨"LPair;"⟩) = some pairInitializer := by
          cases loaded
          rfl
        cases isInitializer.symm.trans found
        decide
      have quiet : ∀ type, .initializing type ∈ (machine.startClass ⟨"LPair;"⟩).events →
          machine.template? (initializerOf type) = none ∨
            initializerOf type = initializerOf ⟨"LPair;"⟩ := by
        intro type recorded
        have acts : (machine.startClass ⟨"LPair;"⟩).events.filterMap Event.act? =
            [.start ⟨"LPair;"⟩, .enter (initializerOf ⟨"LPair;"⟩), .access (pairField "y")] := by
          cases loaded
          decide +kernel
        have started : .start type ∈ (machine.startClass ⟨"LPair;"⟩).events.filterMap Event.act? :=
          List.mem_filterMap.2 ⟨_, recorded, rfl⟩
        rw [acts] at started
        simp only [List.mem_cons, Act.start.injEq, reduceCtorEq, List.not_mem_nil, or_false]
          at started
        exact .inr (congrArg initializerOf started)
      obtain ⟨initially, apart⟩ := fields_apart machine
      refine ⟨machine, rfl, ?_, ?_, changed⟩
      · exact initially _ _ loaded pairClass List.mem_cons_self []
          ⟨"x", .int, 8, some (.int 1)⟩ [⟨"y", .int, 8, some (.int 2)⟩] rfl (by decide) .int
          (.new 0 0) rfl
      · exact apart ⟨machine, .load loaded trivial, rfl⟩ _ (pairField "x")
          (.startClass ⟨"LPair;"⟩) rfl code quiet (.new 0 0)

end Machine

end Dexplore
