import Dexplore.Proofs.Operations
import Dexplore.Proofs.Precision
import Dexplore.Proofs.Runs

/-!
# The history of an analysis

The moments at which a class is started, the code of a method begins to run or a static field is
used, in order, each with the static state of that moment.  The functions here follow the
execution of methods and collect the moments; what the execution comes to is left to the
functions that carry it out.  A history leads from the static state before an analysis to the
one after it, and agrees with the record (`Execution.callsAt_told`).
-/

set_option autoImplicit false

namespace Dexplore

/-! ## Moments -/

inductive Act where
  | start (type : TypeDescriptor)
  | enter (method : String)
  | access (field : FieldRef)
  deriving DecidableEq

structure Moment where
  act : Act
  /-- The static state just before. -/
  statics : Statics

/-- A class is started only once it is defined and while it is not marked; code runs and fields
are used only if the class is marked or not defined at all. -/
def Moment.Fits (moment : Moment) : Prop :=
  match moment.act with
  | .start type =>
    ∃ state, moment.statics.find? type = some state ∧ state.initialized = false
  | .enter method => moment.statics.Settled (classOfDescriptor method)
  | .access field => moment.statics.Settled field.owner

def Moment.next (moment : Moment) : Statics :=
  match moment.act with
  | .start type => moment.statics.markInitialized type
  | _ => moment.statics

/-- The static fields that an operation reads or writes on a path. A field is written only if there
is a value to write. -/
def Op.used (frame : Frame) : Op → List FieldRef
  | .staticGet _ field => [field]
  | .staticPut src field =>
    match frame.read src with
    | .ok _ => [field]
    | .error _ => []
  | _ => []

/-! ## Collecting moments -/

abbrev Calls.History := Option Request → World → List Moment

abbrev Body.History := Graph → Frame → World → List Moment

namespace Exploration

def visitHistory (setup : Setup) (calls : Calls) (asked : Calls.History) (id : NodeId)
    (instruction : Instruction) (exploration : Exploration) : List Moment :=
  match (exploration.graph.node? id).bind (·.frame) with
  | none => []
  | some frame =>
    let world := visiting exploration.graph exploration.world id instruction
    let request := instruction.request? setup.program frame
    asked request world ++
      match calls.ask request world with
      | .ok _ after => (instruction.op.used frame).map fun field => ⟨.access field, after.statics⟩
      | .error _ _ => []

def exploreHistory (setup : Setup) (calls : Calls) (asked : Calls.History)
    (pending : List NodeId) (allowance : Allowance) (exploration : Exploration) : List Moment :=
  match pending with
  | [] => []
  | id :: rest =>
    match exploration.graph.instruction? id.address with
    | none => []
    | some instruction =>
      match _spent : allowance.spend? (entranceOf setup.config exploration.graph id) with
      | none => []
      | some remaining =>
        visitHistory setup calls asked id instruction exploration ++
          match visit setup calls id instruction exploration with
          | .error _ _ => []
          | .ok children exploration =>
            exploreHistory setup calls asked (children.reverse ++ rest) remaining exploration
termination_by allowance.total
decreasing_by
  have := Allowance.total_spend? _spent
  omega

end Exploration

open Exploration

namespace Execution

def startHistory (setup : Setup) (body : Body) (inside : Body.History) (type : TypeDescriptor)
    (world : World) : List Moment :=
  match _found : world.statics.find? type with
  | none => []
  | some state =>
    if _fresh : state.initialized = false then
      let descriptor := initializerOf type
      ⟨.start type, world.statics⟩ ::
        match setup.program.templates.find? descriptor, setup.program.rootFrame descriptor with
        | some template, .ok frame =>
          startHistory setup body inside (classOfDescriptor descriptor) (world.marked type) ++
            match startClass setup body (classOfDescriptor descriptor) (world.marked type) with
            | .ok _ after => inside template frame after
            | .error _ _ => []
        | _, _ => []
    else []
termination_by world.statics.pendingCount
decreasing_by
  have := Statics.pendingCount_markInitialized _found _fresh
  simp only [World.marked]
  omega

def executeHistory (setup : Setup) (body : Body) (inside : Body.History) (descriptor : String)
    (frame : Frame) (world : World) : List Moment :=
  match setup.program.templates.find? descriptor with
  | none => []
  | some template =>
    startHistory setup body inside (classOfDescriptor descriptor) world ++
      match startClass setup body (classOfDescriptor descriptor) world with
      | .ok _ after => inside template frame after
      | .error _ _ => []

def callsHistory (setup : Setup) (body : Body) (inside : Body.History) : Calls.History
  | none, _ => []
  | some (.start type), world => startHistory setup body inside type world
  | some (.execute descriptor frame), world =>
    executeHistory setup body inside descriptor frame world

/-- No code runs if no level is left. -/
def bodyHistory (setup : Setup) : (levels depth : Nat) → Body.History
  | 0, _, _, _, _ => []
  | levels + 1, depth, template, frame, world =>
    let body := bodyAt setup levels (depth + 1)
    let entered := template.setRootFrame frame
    ⟨.enter template.method, world.statics⟩ ::
      exploreHistory setup (callsOf setup body)
        (callsHistory setup body (bodyHistory setup levels (depth + 1))) [.root]
        (Allowance.full setup.config entered)
        ⟨entered, world.note (.executing template.method (depth + 1))⟩

def historyAt (setup : Setup) (depth : Nat) : Calls.History :=
  callsHistory setup (bodyAt setup (setup.config.maxDepth - depth) depth)
    (bodyHistory setup (setup.config.maxDepth - depth) depth)

end Execution

open Execution

/-! ## From one static state to another -/

/-- The same classes later on, with the same marks. -/
structure Statics.Drifts (before after : Statics) : Prop extends before.Advances after where
  marks : ∀ type, after.isInitialized type = before.isInitialized type

/-- A history that leads from one static state to another: between the moments values change, but
no class is marked or unmarked. -/
inductive Statics.Passes : Statics → List Moment → Statics → Prop
  | along {before after : Statics} (drifts : before.Drifts after) : Passes before [] after
  | through {before after : Statics} {moment : Moment} {later : List Moment}
      (drifts : before.Drifts moment.statics) (fits : moment.Fits)
      (onward : Passes moment.next later after) : Passes before (moment :: later) after

def Event.act? : Event → Option Act
  | .initializing type => some (.start type)
  | .executing method _ => some (.enter method)
  | .accessing field => some (.access field)
  | _ => none

/-- A history that leads from one world to another: the events of its acts have been recorded,
in their order, and those of no others. -/
structure World.Passes (before : World) (history : List Moment) (after : World) : Prop where
  statics : before.statics.Passes history after.statics
  record : ∃ events, after.events = events ++ before.events ∧
    events.reverse.filterMap Event.act? = history.map (·.act)

theorem ClassState.initialized_merge (state : ClassState) (name : String) (value : Value) :
    (state.merge name value).initialized = state.initialized := by
  unfold merge
  split
  · split <;> rfl
  · rfl

namespace Statics

theorem isInitialized_modify {change : ClassState → ClassState}
    (kept : ∀ state : ClassState, (change state).initialized = state.initialized)
    (statics : Statics) (place type : TypeDescriptor) :
    Statics.isInitialized (statics.modify place change) type = statics.isInitialized type := by
  rw [isInitialized, isInitialized, OrdMap.find?_modify]
  split
  · cases statics.find? type with
    | none => rfl
    | some state => exact kept state
  · rfl

namespace Drifts

variable {before middle after : Statics}

theorem refl (statics : Statics) : statics.Drifts statics := ⟨.refl statics, fun _ => rfl⟩

theorem trans (first : before.Drifts middle) (second : middle.Drifts after) :
    before.Drifts after :=
  ⟨first.toAdvances.trans second.toAdvances,
    fun type => (second.marks type).trans (first.marks type)⟩

theorem modify (statics : Statics) (type : TypeDescriptor) {change : ClassState → ClassState}
    (each : ∀ state : ClassState, state.Advances (change state))
    (kept : ∀ state : ClassState, (change state).initialized = state.initialized) :
    statics.Drifts (OrdMap.modify statics type change) :=
  ⟨.modify statics type each, isInitialized_modify kept statics type⟩

theorem foldl {α : Type} {change : Statics → α → Statics}
    (each : ∀ (statics : Statics) item, statics.Drifts (change statics item)) (items : List α)
    (statics : Statics) : statics.Drifts (items.foldl change statics) := by
  induction items generalizing statics with
  | nil => exact refl statics
  | cons head rest induction => exact (each statics head).trans (induction _)

theorem commit (statics : Statics) (graph : Graph) (strong : Bool) :
    statics.Drifts (statics.commit graph strong) := by
  refine foldl (fun statics field => ?_) _ statics
  cases strong with
  | true => exact modify statics field.owner (fun state => .set state field.name _) fun _ => rfl
  | false =>
      refine modify statics field.owner (fun state => .merge state field.name _) fun state => ?_
      exact state.initialized_merge field.name _

theorem giveUp (statics : Statics) (graph : Graph) : statics.Drifts (statics.giveUp graph) := by
  refine ⟨.giveUp statics graph, fun type => ?_⟩
  have widened : statics.Drifts (graph.staticPuts.foldl (fun statics field =>
      statics.modify field.owner fun state => state.widen field.name field.type) statics) :=
    foldl (fun statics (field : FieldRef) => modify statics field.owner
      (fun state => .set state field.name _) fun _ => rfl) _ statics
  rw [← widened.marks type, Statics.giveUp]
  split
  · rw [isInitialized, isInitialized, OrdMap.find?_mapValues]
    cases OrdMap.find? _ type <;> rfl
  · rfl

end Drifts

end Statics

namespace Statics.Passes

variable {before middle after : Statics} {moment : Moment} {history later : List Moment}

theorem after_drifts (first : before.Drifts middle) (passes : middle.Passes history after) :
    before.Passes history after := by
  cases passes with
  | along drifts => exact .along (first.trans drifts)
  | through drifts fits onward => exact .through (first.trans drifts) fits onward

theorem append (first : before.Passes history middle) (second : middle.Passes later after) :
    before.Passes (history ++ later) after := by
  induction first with
  | along drifts => exact second.after_drifts drifts
  | through drifts fits _ induction => exact .through drifts fits (induction second)

theorem advances_next (moment : Moment) : moment.statics.Advances moment.next := by
  unfold Moment.next
  split
  · exact .modify _ _ .markInitialized
  · exact .refl _

theorem advances (passes : before.Passes history after) : before.Advances after := by
  induction passes with
  | along drifts => exact drifts.toAdvances
  | @through before after moment later drifts fits onward induction =>
      exact (drifts.toAdvances.trans (advances_next moment)).trans induction

end Statics.Passes

theorem Statics.Advances.settled {before after : Statics} (advances : before.Advances after)
    {type : TypeDescriptor} (settled : before.Settled type) : after.Settled type := by
  intro later foundLater
  cases found : before.find? type with
  | none => cases (advances.undefined found).symm.trans foundLater
  | some state =>
      obtain ⟨last, foundLast, advanced⟩ := advances.defined found
      cases foundLast.symm.trans foundLater
      exact advanced.initialized (settled state found)

theorem Statics.settled_markInitialized (statics : Statics) (type : TypeDescriptor) :
    (statics.markInitialized type).Settled type := by
  intro state found
  rw [Statics.markInitialized, OrdMap.find?_modify, if_pos rfl] at found
  obtain ⟨before, -, rfl⟩ := Option.map_eq_some_iff.mp found
  rfl

def World.noteAccesses (world : World) (fields : List FieldRef) : World :=
  fields.foldl (fun world field => world.note (.accessing field)) world

namespace World.Passes

variable {before middle after : World} {history later : List Moment}

theorem refl (world : World) : world.Passes [] world :=
  ⟨.along (.refl _), [], rfl, rfl⟩

theorem append (first : before.Passes history middle) (second : middle.Passes later after) :
    before.Passes (history ++ later) after := by
  obtain ⟨events, added, told⟩ := first.record
  obtain ⟨more, addedMore, toldMore⟩ := second.record
  refine ⟨first.statics.append second.statics, more ++ events, ?_, ?_⟩
  · rw [addedMore, added, List.append_assoc]
  · rw [List.reverse_append, List.filterMap_append, told, toldMore, List.map_append]

theorem andThen (first : before.Passes history middle) (second : middle.Passes [] after) :
    before.Passes history after := by
  have both := first.append second
  rwa [List.append_nil] at both

theorem quiet {statics : Statics} (drifts : before.statics.Drifts statics) {event : Event}
    (actless : event.act? = none) : before.Passes [] ⟨statics, event :: before.events⟩ := by
  refine ⟨.along drifts, [event], rfl, ?_⟩
  simp [actless]

theorem start {world : World} {type : TypeDescriptor} {state : ClassState}
    (found : world.statics.find? type = some state) (fresh : state.initialized = false) :
    world.Passes [⟨.start type, world.statics⟩] (world.marked type) :=
  ⟨.through (.refl _) ⟨state, found, fresh⟩ (.along (.refl _)), [.initializing type], rfl, rfl⟩

theorem enter {world : World} {method : String} (depth : Nat)
    (settled : world.statics.Settled (classOfDescriptor method)) :
    world.Passes [⟨.enter method, world.statics⟩] (world.note (.executing method depth)) :=
  ⟨.through (.refl _) settled (.along (.refl _)), [.executing method depth], rfl, rfl⟩

theorem accesses {world : World} {fields : List FieldRef}
    (settled : ∀ field ∈ fields, world.statics.Settled field.owner) :
    world.Passes (fields.map fun field => ⟨.access field, world.statics⟩)
      (world.noteAccesses fields) := by
  induction fields generalizing world with
  | nil => exact refl world
  | cons field rest induction =>
      have access : world.Passes [⟨.access field, world.statics⟩] (world.note (.accessing field)) :=
        ⟨.through (.refl _) (settled field List.mem_cons_self) (.along (.refl _)),
          [.accessing field], rfl, rfl⟩
      exact access.append (induction fun other inside =>
        settled other (List.mem_cons_of_mem _ inside))

end World.Passes

/-! ## Explorations -/

/-- A history tells what calls do, and a class needs no start after it was started, even if
its start failed. -/
structure Calls.Told (calls : Calls) (asked : Calls.History) : Prop where
  ask : ∀ wanted (world : World),
    world.Passes (asked wanted world) (lastState (calls.ask wanted world))
  settled : ∀ type world, (lastState (calls.start type world)).statics.Settled type

def Law.uneventful : Law where
  frames _ _ := True
  worlds before after := before.Passes [] after
  faults _ := True

theorem Law.uneventful_mild : Law.uneventful.Mild where
  frame_refl _ := trivial
  frame_trans _ _ := trivial
  write _ := trivial
  withResult _ _ := trivial
  writeStatic _ _ _ := trivial
  widenArrays _ _ _ := trivial
  widenStaticArrays _ _ := trivial
  world_refl := .refl
  world_trans first second := first.append second
  remark world event isRemark := by
    refine .quiet (.refl _) ?_
    cases event <;> first | rfl | cases isRemark
  invalidRegister _ _ := trivial
  malformed _ := trivial

variable {setup : Setup} {calls : Calls} {asked : Calls.History}

theorem Calls.lastState_ask_start (calls : Calls) (type : TypeDescriptor) (world : World) :
    lastState (calls.ask (some (.start type)) world) = lastState (calls.start type world) := by
  simp only [Calls.ask, bind, EStateM.bind]
  cases calls.start type world <;> rfl

namespace Instruction

variable {instruction : Instruction}

/-- An instruction that uses static fields asks for the start of their class. -/
theorem request_of_accesses (setup : Setup) (frame : Frame) {field : FieldRef}
    (used : field ∈ instruction.op.accesses) :
    instruction.request? setup.program frame = some (.start field.owner) := by
  unfold request?
  unfold Op.accesses at used
  split at used
  · cases List.mem_singleton.mp used
    simp_all
  · cases List.mem_singleton.mp used
    simp_all
  · cases used

theorem used_subset_accesses (frame : Frame) (op : Op) : op.used frame ⊆ op.accesses := by
  unfold Op.used
  split
  · exact List.Subset.refl _
  · split
    · exact List.Subset.refl _
    · exact List.nil_subset _
  · exact List.nil_subset _

/-- What an instruction that uses static fields leaves of the world: its request, and the record of
the fields it has used. -/
theorem world_of_accesses (setup : Setup) (calls : Calls) (method : String) (frame : Frame)
    (world : World) (uses : instruction.op.accesses ≠ []) :
    (lastState (instruction.execute setup calls method ⟨frame, world⟩)).world =
      match calls.ask (instruction.request? setup.program frame) world with
      | .ok _ after => after.noteAccesses (instruction.op.used frame)
      | .error _ after => after := by
  unfold execute request? Op.used
  cases shape : instruction.op with
  | staticGet dest field =>
      simp only [Calls.ask, Op.perform, Step.outside, bind, EStateM.bind]
      cases calls.start field.owner world with
      | error fault after => rfl
      | ok value after =>
          have written : ∀ value, (lastState ((do Step.write dest value; return [instruction.next] :
              Step (List Address)) ⟨frame, after.note (.accessing field)⟩)).world =
              after.note (.accessing field) := by
            intro value
            simp only [bind, EStateM.bind, Step.write]
            cases frame.write dest value <;> rfl
          exact written _
  | staticPut src field =>
      simp only [Calls.ask, Op.perform, Step.outside, bind, EStateM.bind]
      cases calls.start field.owner world with
      | error fault after => rfl
      | ok value after =>
          simp only [Step.read]
          cases frame.read src <;> rfl
  | _ =>
      rw [shape] at uses
      exact absurd rfl uses

theorem execute_passes (setup : Setup) (told : calls.Told asked) (method : String)
    (instruction : Instruction) (frame : Frame) (world : World) :
    world.Passes
      (asked (instruction.request? setup.program frame) world ++
        match calls.ask (instruction.request? setup.program frame) world with
        | .ok _ after => (instruction.op.used frame).map fun field => ⟨.access field, after.statics⟩
        | .error _ _ => [])
      (lastState (instruction.execute setup calls method ⟨frame, world⟩)).world := by
  have passes := told.ask (instruction.request? setup.program frame) world
  by_cases uses : instruction.op.accesses = []
  · -- After its request the instruction does nothing that concerns a class.
    obtain ⟨rest, obeys, execute⟩ := instruction.execute_eq_ask setup method frame
    have none : instruction.op.used frame = [] :=
      List.eq_nil_of_subset_nil (uses ▸ used_subset_accesses frame instruction.op)
    rw [execute calls world, none]
    simp only [bind, EStateM.bind, Step.outside]
    cases answered : calls.ask (instruction.request? setup.program frame) world with
    | error fault after =>
        rw [answered] at passes
        rw [List.append_nil]
        exact passes
    | ok graph after =>
        rw [answered] at passes
        have onward := obeys Law.uneventful_mild (by simp [uses]) graph ⟨frame, after⟩
        simp only [List.map_nil, List.append_nil]
        cases ended : rest graph ⟨frame, after⟩ with
        | ok successors scene =>
            rw [ended] at onward
            exact passes.andThen onward.2
        | error fault scene =>
            rw [ended] at onward
            exact passes.andThen onward.2.1
  · rw [world_of_accesses setup calls method frame world uses]
    have settled : ∀ field ∈ instruction.op.used frame,
        (lastState (calls.ask (instruction.request? setup.program frame)
          world)).statics.Settled field.owner := by
      intro field used
      rw [request_of_accesses setup frame (used_subset_accesses frame _ used),
        Calls.lastState_ask_start]
      exact told.settled field.owner world
    cases answered : calls.ask (instruction.request? setup.program frame) world with
    | error fault after =>
        rw [answered] at passes
        rw [List.append_nil]
        exact passes
    | ok graph after =>
        rw [answered] at passes settled
        exact passes.append (.accesses settled)

end Instruction

namespace Exploration

theorem world_addChildren (parent : NodeId) (frame : Frame) (successors : List Address)
    (exploration : Exploration) :
    (lastState (successors.mapM (addChild parent frame) exploration)).world =
      exploration.world := by
  have added := addChildren_obeys Law.preservation_upheld parent frame successors exploration
  cases ended : successors.mapM (addChild parent frame) exploration with
  | ok ids after =>
      rw [ended] at added
      exact added
  | error fault after =>
      rw [ended] at added
      exact added.1

theorem visit_passes (setup : Setup) (told : calls.Told asked) (id : NodeId)
    (instruction : Instruction) (exploration : Exploration) :
    exploration.world.Passes (visitHistory setup calls asked id instruction exploration)
      (lastState (visit setup calls id instruction exploration)).world := by
  obtain ⟨graph, world⟩ := exploration
  have noted : world.Passes [] (visiting graph world id instruction) := .quiet (.refl _) rfl
  cases framed : (graph.node? id).bind (·.frame) with
  | none =>
      rw [visitHistory, framed, visit_of_noFrame framed]
      exact noted
  | some frame =>
      rw [visitHistory, framed]
      obtain ⟨node, found, framed⟩ := Option.bind_eq_some_iff.mp framed
      have executed := noted.append (instruction.execute_passes setup told graph.method frame
        (visiting graph world id instruction))
      rw [visit_eq found framed]
      cases ran : instruction.execute setup calls graph.method
          ⟨frame, visiting graph world id instruction⟩ with
      | error fault scene =>
          rw [ran] at executed
          exact executed
      | ok successors scene =>
          rw [ran] at executed
          have same := world_addChildren id scene.frame successors
            ⟨(graph.recordVisit id.address).setFrame id scene.frame, scene.world⟩
          simp only
          rw [same]
          exact executed

theorem exploreFrom_passes (setup : Setup) (told : calls.Told asked) (pending : List NodeId)
    (allowance : Allowance) (exploration : Exploration) :
    exploration.world.Passes (exploreHistory setup calls asked pending allowance exploration)
      (lastState (exploreFrom setup calls pending allowance exploration)).world := by
  fun_induction exploreFrom setup calls pending allowance exploration with
  | case1 allowance exploration =>
      rw [exploreHistory]
      exact .refl _
  | case2 allowance exploration id rest missing =>
      rw [exploreHistory, missing]
      exact .refl _
  | case3 allowance exploration id rest instruction present rejected =>
      rw [exploreHistory, present]
      simp only
      split
      · exact .refl _
      · next spent => cases rejected.symm.trans spent
  | case4 allowance exploration id rest instruction present remaining spent fault after failed =>
      have visited := visit_passes setup told id instruction exploration
      rw [exploreHistory, present]
      simp only
      split
      · next rejected => cases rejected.symm.trans spent
      · rw [failed] at visited ⊢
        rw [List.append_nil]
        exact visited
  | case5 allowance exploration id rest instruction present remaining spent children middle
      visit induction =>
      have visited := visit_passes setup told id instruction exploration
      rw [exploreHistory, present]
      simp only
      split
      · next rejected => cases rejected.symm.trans spent
      · next other spent' =>
          cases spent.symm.trans spent'
          rw [visit] at visited ⊢
          exact visited.append induction

end Exploration

/-! ## Executions -/

/-- A history tells what the code of the methods does once their classes are started. -/
def Body.Told (setup : Setup) (body : Body) (inside : Body.History) : Prop :=
  ∀ {descriptor : String} {template : Graph},
    setup.program.templates.find? descriptor = some template → ∀ frame (world : World),
    world.statics.Settled (classOfDescriptor descriptor) →
    world.Passes (inside template frame world) (lastState (body template frame world))

namespace Execution

variable {body : Body} {inside : Body.History}

theorem startHistory_of_settled {type : TypeDescriptor} {world : World}
    (settled : world.statics.Settled type) : startHistory setup body inside type world = [] := by
  rw [startHistory]
  split
  · rfl
  · next state found => simp [settled state found]

theorem startHistory_of_fresh {type : TypeDescriptor} {world : World} {state : ClassState}
    (found : world.statics.find? type = some state) (fresh : state.initialized = false) :
    startHistory setup body inside type world = ⟨.start type, world.statics⟩ ::
      match setup.program.templates.find? (initializerOf type),
        setup.program.rootFrame (initializerOf type) with
      | some _, .ok frame => executeHistory setup body inside (initializerOf type) frame
          (world.marked type)
      | _, _ => [] := by
  rw [startHistory]
  split
  · next missing => cases missing.symm.trans found
  · next other found' =>
      cases found.symm.trans found'
      simp only [fresh, ↓reduceDIte]
      cases code : setup.program.templates.find? (initializerOf type) with
      | none => rfl
      | some template =>
          cases setup.program.rootFrame (initializerOf type) with
          | error fault => rfl
          | ok frame =>
              simp only [executeHistory, code]

theorem lastState_startClass {type : TypeDescriptor} {world : World} {state : ClassState}
    (found : world.statics.find? type = some state) (fresh : state.initialized = false) :
    lastState (startClass setup body type world) =
      match setup.program.templates.find? (initializerOf type),
        setup.program.rootFrame (initializerOf type) with
      | some _, .ok frame => lastState (executeWith setup body (initializerOf type) frame
          (world.marked type))
      | _, _ => world.marked type := by
  rw [startClass_of_fresh setup body found fresh]
  cases setup.program.templates.find? (initializerOf type) with
  | none => rfl
  | some template =>
      cases setup.program.rootFrame (initializerOf type) with
      | error fault => rfl
      | ok frame =>
          simp only
          cases executeWith setup body (initializerOf type) frame (world.marked type) <;> rfl

/-- However the start of a class ends, the class has been marked. -/
theorem settled_of_passes {type : TypeDescriptor} {world : World}
    (passes : world.Passes (startHistory setup body inside type world)
      (lastState (startClass setup body type world))) :
    (lastState (startClass setup body type world)).statics.Settled type := by
  by_cases settled : world.statics.Settled type
  · rw [startClass_of_settled setup body settled]
    exact settled
  · obtain ⟨state, found, fresh⟩ : ∃ state, world.statics.find? type = some state ∧
        state.initialized = false := by
      simpa [Statics.Settled] using settled
    rw [startHistory_of_fresh found fresh] at passes
    cases passes.statics with
    | through _ _ onward => exact onward.advances.settled (Statics.settled_markInitialized _ type)

theorem executeWith_passes (told : body.Told setup inside) {descriptor : String} (frame : Frame)
    {world : World}
    (started : world.Passes
      (startHistory setup body inside (classOfDescriptor descriptor) world)
      (lastState (startClass setup body (classOfDescriptor descriptor) world))) :
    world.Passes (executeHistory setup body inside descriptor frame world)
      (lastState (executeWith setup body descriptor frame world)) := by
  have settled := settled_of_passes started
  unfold executeHistory executeWith
  cases code : setup.program.templates.find? descriptor with
  | none => exact .refl world
  | some template =>
      simp only [bind, EStateM.bind]
      cases ended : startClass setup body (classOfDescriptor descriptor) world with
      | error fault after =>
          rw [ended] at started
          rw [List.append_nil]
          exact started
      | ok value after =>
          rw [ended] at started settled
          exact started.append (told code frame after settled)

theorem startClass_passes (told : body.Told setup inside) (type : TypeDescriptor)
    (world : World) :
    world.Passes (startHistory setup body inside type world)
      (lastState (startClass setup body type world)) := by
  -- An initializer may lead to further starts, but each of them leaves one class fewer.
  induction pending : world.statics.pendingCount using Nat.strongRecOn
    generalizing type world with
  | ind pending induction =>
      by_cases settled : world.statics.Settled type
      · rw [startHistory_of_settled settled, startClass_of_settled setup body settled]
        exact .refl world
      · obtain ⟨state, found, fresh⟩ : ∃ state, world.statics.find? type = some state ∧
            state.initialized = false := by
          simpa [Statics.Settled] using settled
        have marked := World.Passes.start found fresh
        have fewer : (world.marked type).statics.pendingCount + 1 = world.statics.pendingCount :=
          Statics.pendingCount_markInitialized found fresh
        have started := induction _ (by omega) (classOfDescriptor (initializerOf type))
          (world.marked type) rfl
        rw [startHistory_of_fresh found fresh, lastState_startClass found fresh]
        cases setup.program.templates.find? (initializerOf type) with
        | none => exact marked
        | some template =>
            cases setup.program.rootFrame (initializerOf type) with
            | error fault => exact marked
            | ok frame => exact marked.append (executeWith_passes told frame started)

theorem callsOf_told (told : body.Told setup inside) :
    (callsOf setup body).Told (callsHistory setup body inside) where
  ask wanted world := by
    cases wanted with
    | none => exact .refl world
    | some request =>
        cases request with
        | execute descriptor frame =>
            exact executeWith_passes told frame (startClass_passes told _ world)
        | start type =>
            rw [Calls.lastState_ask_start]
            exact startClass_passes told type world
  settled type world := settled_of_passes (startClass_passes told type world)

theorem lastState_conclude (setup : Setup) (result : EStateM.Result Fault Exploration Unit) :
    (lastState result).world.Passes [] (lastState (conclude setup result)) := by
  cases result with
  | ok value done => exact .quiet (.commit _ _ _) rfl
  | error fault done =>
      rw [conclude]
      split
      · exact .quiet (.giveUp _ _) rfl
      · exact .refl _

theorem bodyAt_told (consistent : setup.program.Consistent) (levels depth : Nat) :
    (bodyAt setup levels depth).Told setup (bodyHistory setup levels depth) := by
  induction levels generalizing depth with
  | zero => exact fun _ _ _ _ => .quiet (.giveUp _ _) rfl
  | succ levels induction =>
      -- What the code calls is one level deeper, where the history is known.
      intro descriptor template code frame world settled
      rw [← consistent.method_of_template code] at settled
      have entered := World.Passes.enter (depth + 1) settled
      have explored := exploreFrom_passes setup (callsOf_told (induction (depth + 1))) [.root]
        (Allowance.full setup.config (template.setRootFrame frame))
        ⟨template.setRootFrame frame, world.note (.executing template.method (depth + 1))⟩
      rw [bodyAt, runBody_eq]
      exact (entered.append explored).andThen (lastState_conclude setup _)

/-- The history of what is called leads from the world before to the world after. -/
theorem callsAt_told (consistent : setup.program.Consistent) (depth : Nat) :
    (callsAt setup depth).Told (historyAt setup depth) :=
  callsOf_told (bodyAt_told consistent _ _)

end Execution

end Dexplore
