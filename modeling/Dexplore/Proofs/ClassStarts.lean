import Dexplore.Proofs.History

/-!
# Classes are started once

The history of any number of operations leads from the static state before them to the one
after them, and its acts are those of the recorded events.  A start needs a class that is not
marked, and marks it; no class is marked in any other way, or loses its mark.  So no class is
started twice, and wherever code runs or a static field is used, the class has been marked
(`Machine.classes_start_once`).
-/

set_option autoImplicit false

namespace Dexplore

/-! ## Histories of operations -/

def Machine.requestHistory (machine : Machine) (wanted : Request) : List Moment :=
  Execution.historyAt machine.toSetup machine.callDepth (some wanted) machine.world

def Operation.history (machine : Machine) : Operation → List Moment
  | execute descriptor =>
    match machine.rootFrame descriptor with
    | .ok frame => machine.requestHistory (.execute descriptor frame)
    | .error _ => []
  | executeFrom descriptor frame => machine.requestHistory (.execute descriptor frame)
  | startClass type => machine.requestHistory (.start type)
  | update _ => []

def Machine.history (machine : Machine) : List Operation → List Moment
  | [] => []
  | operation :: rest =>
    operation.history machine ++ (operation.perform machine).machine.history rest

/-- The class that has to be started before an act. -/
def Act.needs? : Act → Option TypeDescriptor
  | start _ => none
  | enter method => some (classOfDescriptor method)
  | access field => some field.owner

theorem Moment.settled_of_needs (moment : Moment) {type : TypeDescriptor}
    (needs : moment.act.needs? = some type) (fits : moment.Fits) :
    moment.statics.Settled type := by
  obtain ⟨act, statics⟩ := moment
  cases act with
  | start other => cases needs
  | enter method =>
      cases needs
      exact fits
  | access field =>
      cases needs
      exact fits

theorem Moment.marked_of_next (moment : Moment) {type : TypeDescriptor}
    (marked : moment.next.isInitialized type = true) :
    moment.statics.isInitialized type = true ∨ moment.act = .start type := by
  obtain ⟨act, statics⟩ := moment
  cases act with
  | enter method => exact .inl marked
  | access field => exact .inl marked
  | start other =>
      by_cases same : other = type
      · exact .inr (congrArg Act.start same)
      · simp only [next, Statics.isInitialized, Statics.markInitialized] at marked
        rw [OrdMap.find?_modify, if_neg (Ne.symm same)] at marked
        exact .inl marked

theorem Moment.marks_of_start (moment : Moment) {type : TypeDescriptor}
    (isStart : moment.act = .start type) (fits : moment.Fits) :
    moment.statics.isInitialized type = false ∧ moment.next.isInitialized type = true := by
  obtain ⟨act, statics⟩ := moment
  cases isStart
  obtain ⟨state, found, fresh⟩ := fits
  constructor
  · rw [Statics.isInitialized, found]
    exact fresh
  · exact Statics.isInitialized_markInitialized found

namespace Statics.Passes

variable {before after : Statics} {history : List Moment}

theorem fits (passes : before.Passes history after) : ∀ moment ∈ history, moment.Fits := by
  induction passes with
  | along => exact fun moment inside => absurd inside List.not_mem_nil
  | through drifts fits _ induction =>
      intro moment inside
      rcases List.mem_cons.mp inside with rfl | inside
      · exact fits
      · exact induction moment inside

/-- Every static state of a history comes from the earlier ones. -/
theorem pairwise (passes : before.Passes history after) :
    (before :: history.map (·.statics) ++ [after]).Pairwise Statics.Advances := by
  induction passes with
  | along drifts => simpa using drifts.toAdvances
  | @through before after moment later drifts fits onward induction =>
      have advances := drifts.toAdvances
      obtain ⟨fromNext, rest⟩ := List.pairwise_cons.mp induction
      have fromMoment : ∀ statics ∈ later.map (·.statics) ++ [after],
          moment.statics.Advances statics := fun statics inside =>
        (advances_next moment).trans (fromNext statics inside)
      refine List.pairwise_cons.mpr ⟨?_, List.pairwise_cons.mpr ⟨fromMoment, rest⟩⟩
      intro statics inside
      rcases List.mem_cons.mp inside with rfl | inside
      · exact advances
      · exact advances.trans (fromMoment statics inside)

/-- A class is started at most once, and not at all if it has been marked. -/
theorem count_start_le (passes : before.Passes history after) (type : TypeDescriptor) :
    (history.map (·.act)).count (.start type) ≤ if before.isInitialized type then 0 else 1 := by
  induction passes with
  | along => simp
  | @through before after moment later drifts fits onward induction =>
      have advances := drifts.toAdvances
      rw [List.map_cons, List.count_cons]
      by_cases isStart : moment.act = .start type
      -- The class was not marked before this start, and is marked in all that follows.
      · obtain ⟨fresh, marked⟩ := moment.marks_of_start isStart fits
        have unmarked : before.isInitialized type = false := by
          rw [← Bool.not_eq_true]
          intro isMarked
          rw [advances.isInitialized isMarked] at fresh
          cases fresh
        rw [marked, if_pos rfl] at induction
        rw [unmarked, if_pos (by simp [isStart])]
        exact Nat.succ_le_succ induction
      · rw [if_neg (by simpa using isStart), Nat.add_zero]
        refine Nat.le_trans induction ?_
        cases isMarked : before.isInitialized type with
        | true =>
            have stays := (advances.trans (advances_next moment)).isInitialized isMarked
            exact Nat.le_of_eq (by rw [stays])
        | false => split <;> decide

/-- A class that is marked was marked before, or has been started. -/
theorem started (passes : before.Passes history after) {type : TypeDescriptor}
    (marked : after.isInitialized type = true) :
    before.isInitialized type = true ∨ .start type ∈ history.map (·.act) := by
  induction passes with
  | along drifts => exact .inl (drifts.marks type ▸ marked)
  | @through before after moment later drifts fits onward induction =>
      rw [List.map_cons, List.mem_cons, ← drifts.marks type]
      rcases induction marked with marked | later
      · rcases moment.marked_of_next marked with earlier | isStart
        · exact .inl earlier
        · exact .inr (.inl isStart.symm)
      · exact .inr (.inr later)

theorem upTo {earlier later : List Moment} {moment : Moment}
    (passes : before.Passes (earlier ++ moment :: later) after) :
    before.Passes earlier moment.statics ∧ moment.Fits := by
  induction earlier generalizing before with
  | nil =>
      cases passes with
      | through drifts fits _ => exact ⟨.along drifts, fits⟩
  | cons first rest induction =>
      cases passes with
      | through drifts fits onward =>
          obtain ⟨passes, fitsThere⟩ := induction onward
          exact ⟨.through drifts fits passes, fitsThere⟩

/-- A class that is needed at some moment was marked before the history, or started earlier in
it. -/
theorem started_of_needs {earlier later : List Moment} {moment : Moment} {type : TypeDescriptor}
    {state : ClassState} (passes : before.Passes (earlier ++ moment :: later) after)
    (needs : moment.act.needs? = some type) (defined : before.find? type = some state) :
    state.initialized = true ∨ .start type ∈ earlier.map (·.act) := by
  obtain ⟨upToHere, fits⟩ := passes.upTo
  obtain ⟨now, isNow, -⟩ := upToHere.advances.defined defined
  have marked : moment.statics.isInitialized type = true := by
    rw [Statics.isInitialized, isNow]
    exact moment.settled_of_needs needs fits now isNow
  rcases upToHere.started marked with marked | isStarted
  · rw [Statics.isInitialized, defined] at marked
    exact .inl marked
  · exact .inr isStarted

end Statics.Passes

theorem count_initializing (record : List Event) (type : TypeDescriptor) :
    record.count (.initializing type) = (record.filterMap Event.act?).count (.start type) := by
  rw [List.count_filterMap, List.count]
  congr 1
  funext event
  cases event <;> simp [Event.act?]

theorem initializing_of_start {record : List Event} {type : TypeDescriptor}
    (isStart : .start type ∈ record.filterMap Event.act?) : .initializing type ∈ record := by
  obtain ⟨event, inside, acts⟩ := List.mem_filterMap.mp isStart
  cases event <;> cases acts
  exact inside

/-! ## Machines -/

namespace Machine

variable {machine : Machine}

/-- The history of one operation leads to the machine after it, and agrees with its events. -/
structure Tells (machine : Machine) (history : List Moment) (after : Machine)
    (events : List Event) : Prop where
  statics : machine.statics.Passes history after.statics
  record : events.filterMap Event.act? = history.map (·.act)

theorem Tells.refl (machine : Machine) : machine.Tells [] machine [] :=
  ⟨.along (.refl _), rfl⟩

theorem Tells.append {middle after : Machine} {history later : List Moment}
    {events more : List Event} (first : machine.Tells history middle events)
    (second : middle.Tells later after more) :
    machine.Tells (history ++ later) after (events ++ more) := by
  refine ⟨first.statics.append second.statics, ?_⟩
  rw [List.filterMap_append, first.record, second.record, List.map_append]

theorem perform_tells {α : Type} {run : Run α} {history : List Moment}
    (passes : machine.world.Passes history (lastState (run machine.world))) :
    machine.Tells history (machine.perform run).machine (machine.perform run).events := by
  obtain ⟨events, added, told⟩ := passes.record
  unfold perform
  cases ran : run machine.world with
  | ok value after =>
      rw [ran] at passes added
      simp only [lastState, world, List.append_nil] at added
      rw [← added] at told
      exact ⟨passes.statics, told⟩
  | error fault after =>
      rw [ran] at passes added
      simp only [lastState, world, List.append_nil] at added
      rw [← added] at told
      exact ⟨passes.statics, told⟩

theorem executeFrom_tells (consistent : machine.program.Consistent) (descriptor : String)
    (frame : Frame) :
    machine.Tells (machine.requestHistory (.execute descriptor frame))
      (machine.executeFrom descriptor frame).machine
      (machine.executeFrom descriptor frame).events :=
  perform_tells ((Execution.callsAt_told consistent machine.callDepth).ask
    (some (.execute descriptor frame)) machine.world)

theorem startClass_tells (consistent : machine.program.Consistent) (type : TypeDescriptor) :
    machine.Tells (machine.requestHistory (.start type)) (machine.startClass type).machine
      (machine.startClass type).events := by
  have passes := (Execution.callsAt_told consistent machine.callDepth).ask (some (.start type))
    machine.world
  rw [Calls.lastState_ask_start] at passes
  exact perform_tells passes

/-- An update is no part of the history. -/
theorem update_tells (method : MethodDef) :
    machine.Tells [] (machine.update method).machine (machine.update method).events := by
  unfold update
  split
  · simp only
    split <;> exact ⟨.along (.refl _), rfl⟩
  · exact .refl machine

end Machine

theorem Operation.perform_tells {machine : Machine} (consistent : machine.program.Consistent)
    (operation : Operation) :
    machine.Tells (operation.history machine) (operation.perform machine).machine
      (operation.perform machine).events := by
  cases operation with
  | execute descriptor =>
      simp only [perform, history, Machine.execute, Report.done]
      cases machine.rootFrame descriptor with
      | error fault => exact .refl machine
      | ok frame => exact Machine.executeFrom_tells consistent descriptor frame
  | executeFrom descriptor frame => exact Machine.executeFrom_tells consistent descriptor frame
  | startClass type => exact Machine.startClass_tells consistent type
  | update method => exact Machine.update_tells method

namespace Machine

variable {machine : Machine}

theorem Reachable.perform (reachable : machine.Reachable fun _ => True) (operation : Operation) :
    (operation.perform machine).machine.Reachable fun _ => True := by
  cases operation with
  | execute descriptor => exact reachable.execute descriptor
  | executeFrom descriptor frame => exact reachable.executeFrom descriptor frame
  | startClass type => exact reachable.startClass type
  | update method => exact reachable.update method trivial

theorem operate_tells (reachable : machine.Reachable fun _ => True)
    (operations : List Operation) :
    machine.Tells (machine.history operations) (machine.operate operations)
      (machine.record operations) := by
  induction operations generalizing machine with
  | nil => exact .refl machine
  | cons operation rest induction =>
      exact (operation.perform_tells reachable.invariant.1).append
        (induction (reachable.perform operation))

/-- An event that needs a class comes after the event of its start, unless the class was marked
before or is not defined. -/
theorem Tells.started {after : Machine} {history : List Moment} {events earlier later : List Event}
    {event : Event} {act : Act} {type : TypeDescriptor} {state : ClassState}
    (tells : machine.Tells history after events) (split : events = earlier ++ event :: later)
    (acts : event.act? = some act) (needs : act.needs? = some type)
    (defined : machine.statics.find? type = some state) :
    state.initialized = true ∨ .initializing type ∈ earlier := by
  have told := tells.record
  rw [split, List.filterMap_append, List.filterMap_cons_some acts] at told
  obtain ⟨before, onward, rfl, isBefore, isOnward⟩ := List.map_eq_append_iff.mp told.symm
  obtain ⟨moment, rest, rfl, isAct, -⟩ := List.map_eq_cons_iff.mp isOnward
  rcases tells.statics.started_of_needs (isAct ▸ needs) defined with marked | isStarted
  · exact .inl marked
  · rw [isBefore] at isStarted
    exact .inr (initializing_of_start isStarted)

/-- Whatever is executed, started and updated between two resets, and whatever comes of it, no
class is started twice: there is at most one event of its start, and none if it was marked
before. No class that was marked is unmarked later. Code of a method begins to run, and a static
field is read or written, only after the event of the start of the class, unless the class was
marked before or is not defined; so the class is marked by then. The history tells of just the
starts, the runs of code and the uses of static fields that the record tells of. -/
theorem classes_start_once (reachable : machine.Reachable fun _ => True)
    (operations : List Operation) :
    (machine.record operations).filterMap Event.act? =
      (machine.history operations).map (·.act) ∧
    (∀ type, (machine.record operations).count (.initializing type) ≤
      if machine.isInitialized type then 0 else 1) ∧
    (∀ type, (machine.statics :: (machine.history operations).map (·.statics) ++
        [(machine.operate operations).statics]).Pairwise fun earlier later =>
      earlier.isInitialized type = true → later.isInitialized type = true) ∧
    (∀ earlier later field state,
      machine.record operations = earlier ++ .accessing field :: later →
      machine.classState? field.owner = some state →
        state.initialized = true ∨ .initializing field.owner ∈ earlier) ∧
    (∀ earlier later descriptor depth state,
      machine.record operations = earlier ++ .executing descriptor depth :: later →
      machine.classState? (classOfDescriptor descriptor) = some state →
        state.initialized = true ∨ .initializing (classOfDescriptor descriptor) ∈ earlier) ∧
    ∀ moment ∈ machine.history operations,
      (∀ type, moment.act = .start type →
        ∃ state, moment.statics.find? type = some state ∧ state.initialized = false) ∧
      (∀ descriptor, moment.act = .enter descriptor →
        moment.statics.Settled (classOfDescriptor descriptor)) ∧
      (∀ method : MethodRef, method.Parsed → moment.act = .enter method.descriptor →
        moment.statics.Settled method.owner) ∧
      ∀ field, moment.act = .access field → moment.statics.Settled field.owner := by
  have tells := operate_tells reachable operations
  have passes := tells.statics
  have told := tells.record
  refine ⟨told, fun type => ?_, fun type => ?_, ?_, ?_, fun moment inside => ?_⟩
  · rw [count_initializing, told]
    exact passes.count_start_le type
  · exact passes.pairwise.imp fun advances => advances.isInitialized
  · exact fun earlier later field state split defined => tells.started split rfl rfl defined
  · exact fun earlier later descriptor depth state split defined =>
      tells.started split rfl rfl defined
  · have fits := passes.fits moment inside
    refine ⟨?_, fun descriptor isEnter => ?_, fun method parsed isEnter => ?_,
      fun field isAccess => ?_⟩
    · intro type isStart
      rw [Moment.Fits, isStart] at fits
      exact fits
    · exact moment.settled_of_needs (by rw [isEnter]; rfl) fits
    · rw [← parsed.classOfDescriptor]
      exact moment.settled_of_needs (by rw [isEnter]; rfl) fits
    · exact moment.settled_of_needs (by rw [isAccess]; rfl) fits

def mirrorField (name : String) : FieldRef := ⟨⟨name⟩, "image", .int⟩

/-- A class whose initializer copies the static field of another class into its own and calls
the method of the other class, which reads the field of that class. -/
def mirrorClass (name other : String) : ClassDef where
  name := ⟨name⟩
  flags := 0
  fields := [⟨"image", .int, 8, none⟩]
  methods :=
    [{ reference := ⟨⟨name⟩, "<clinit>", [], .void⟩
       flags := 8
       registers := 1
       instructions :=
        [.ofOp 0 (.staticGet 0 (mirrorField other)), .ofOp 2 (.staticPut 0 (mirrorField name)),
         .ofOp 4 (.invoke .static ⟨⟨other⟩, "look", [], .void⟩ []), .ofOp 7 (.giveBack none)]
       tries := [] },
     { reference := ⟨⟨name⟩, "look", [], .void⟩
       flags := 8
       registers := 1
       instructions := [.ofOp 0 (.staticGet 0 (mirrorField name)), .ofOp 2 (.giveBack none)]
       tries := [] }]

theorem classes_start_once_mirror :
    ∃ machine, load [mirrorClass "LLeft;" "LRight;", mirrorClass "LRight;" "LLeft;"] {} =
        .ok machine ∧
      (machine.record [.startClass ⟨"LLeft;"⟩, .startClass ⟨"LRight;"⟩]).filterMap Event.act? =
        [.start ⟨"LLeft;"⟩, .enter "LLeft;-><clinit>()V", .start ⟨"LRight;"⟩,
          .enter "LRight;-><clinit>()V", .access (mirrorField "LLeft;"),
          .access (mirrorField "LRight;"), .enter "LLeft;->look()V",
          .access (mirrorField "LLeft;"), .access (mirrorField "LRight;"),
          .access (mirrorField "LLeft;"), .enter "LRight;->look()V",
          .access (mirrorField "LRight;")] ∧
      (∀ earlier later, machine.record [.startClass ⟨"LLeft;"⟩, .startClass ⟨"LRight;"⟩] =
          earlier ++ .accessing (mirrorField "LRight;") :: later →
        .initializing ⟨"LRight;"⟩ ∈ earlier) ∧
      (∀ moment ∈ machine.history [.startClass ⟨"LLeft;"⟩, .startClass ⟨"LRight;"⟩],
        moment.act = .access (mirrorField "LLeft;") → moment.statics.Settled ⟨"LLeft;"⟩) ∧
      (machine.record [.startClass ⟨"LLeft;"⟩, .startClass ⟨"LRight;"⟩]).count
        (.initializing ⟨"LRight;"⟩) ≤ 1 := by
  cases loaded : load [mirrorClass "LLeft;" "LRight;", mirrorClass "LRight;" "LLeft;"] {} with
  | error fault => cases loaded
  | ok machine =>
      obtain ⟨state, defined, fresh⟩ : ∃ state, machine.classState? ⟨"LRight;"⟩ = some state ∧
          state.initialized = false := by
        cases loaded
        exact ⟨_, rfl, rfl⟩
      obtain ⟨-, atMostOnce, -, used, -, moments⟩ := classes_start_once (.load loaded trivial)
        [.startClass ⟨"LLeft;"⟩, .startClass ⟨"LRight;"⟩]
      refine ⟨machine, rfl, ?_, ?_, ?_, ?_⟩
      · cases loaded
        decide +kernel
      · intro earlier later split
        rcases used earlier later (mirrorField "LRight;") state split defined with marked | started
        · cases fresh.symm.trans marked
        · exact started
      · exact fun moment inside => (moments moment inside).2.2.2 (mirrorField "LLeft;")
      · have once := atMostOnce ⟨"LRight;"⟩
        split at once <;> omega

end Machine

end Dexplore
