import Dexplore.Proofs.Abandonment
import Dexplore.Proofs.Junctures

/-!
# Static fields only widen

A method that is through, and one that is given up, leave every static field as it was or
unknown.  Initializers are the one exception: what the paths of an initializer agree on replaces
what the classes held, in every class it has written to.  So between two resets a field stays as
it is or becomes unknown, unless an initializer that wrote it comes to its end
(`Machine.static_fields_widen`).
-/

set_option autoImplicit false

namespace Dexplore

open Execution Exploration

/-! ## What a class holds -/

namespace Statics

def held? (statics : Statics) (owner : TypeDescriptor) (name : String) : Option Value :=
  (statics.find? owner).bind fun state => state.value? name

/-- A field later on: as it was, or unknown. -/
def Widens (owner : TypeDescriptor) (name : String) (before after : Statics) : Prop :=
  after.held? owner name = before.held? owner name ∨
    ∃ type, after.held? owner name = some (.unknown type)

theorem held?_modify (statics : Statics) (type owner : TypeDescriptor) (name : String)
    (change : ClassState → ClassState) :
    held? (OrdMap.modify statics type change) owner name =
      if owner = type then (statics.find? owner).bind fun state => (change state).value? name
      else statics.held? owner name := by
  rw [held?, OrdMap.find?_modify]
  split
  · rw [Option.bind_map]
    rfl
  · rfl

theorem held?_commitField_of_ne (graph : Graph) (strong : Bool) (statics : Statics)
    {field : FieldRef} {owner : TypeDescriptor} {name : String}
    (different : ¬(field.owner = owner ∧ field.name = name)) :
    (commitField graph strong statics field).held? owner name = statics.held? owner name := by
  rw [commitField, held?_modify]
  split
  · next isOwner =>
      have named : field.name ≠ name := fun same => different ⟨isOwner.symm, same⟩
      refine congrArg _ (funext fun state => ?_)
      cases strong with
      | true => exact (state.value?_set _ _ _).trans (if_neg named)
      | false => exact ClassState.value?_merge_of_ne named
  · rfl

namespace Widens

variable {owner : TypeDescriptor} {name : String} {before middle after statics : Statics}

theorem refl (statics : Statics) : Widens owner name statics statics := .inl rfl

theorem trans (first : Widens owner name before middle) (second : Widens owner name middle after) :
    Widens owner name before after := by
  rcases second with same | unknown
  · unfold Widens
    rw [same]
    exact first
  · exact .inr unknown

theorem modify (statics : Statics) (type : TypeDescriptor) {change : ClassState → ClassState}
    (each : owner = type → ∀ state : ClassState,
      (change state).value? name = state.value? name ∨
        ∃ type, (change state).value? name = some (.unknown type)) :
    Widens owner name statics (OrdMap.modify statics type change) := by
  unfold Widens
  rw [held?_modify]
  split
  · next same =>
      cases found : statics.find? owner with
      | none => exact .inl (by rw [held?, found]; rfl)
      | some state =>
          rw [held?, found]
          exact each same state
  · exact .inl rfl

theorem foldl {α : Type} {change : Statics → α → Statics} (items : List α)
    (each : ∀ statics, ∀ item ∈ items, Widens owner name statics (change statics item))
    (statics : Statics) : Widens owner name statics (items.foldl change statics) := by
  induction items generalizing statics with
  | nil => exact refl statics
  | cons head rest induction =>
      exact (each statics head List.mem_cons_self).trans
        (induction (fun statics item later => each statics item (List.mem_cons_of_mem _ later)) _)

theorem markInitialized (statics : Statics) (type : TypeDescriptor) :
    Widens owner name statics (statics.markInitialized type) :=
  modify statics type fun _ _ => .inl rfl

/-- A field that is taken over from an initializer is the one exception. -/
theorem commitField (graph : Graph) {strong : Bool} {field : FieldRef}
    (decides : strong = true → ¬(field.owner = owner ∧ field.name = name)) (statics : Statics) :
    Widens owner name statics (commitField graph strong statics field) := by
  by_cases here : field.owner = owner ∧ field.name = name
  · cases strong with
    | true => exact absurd here (decides rfl)
    | false =>
        obtain ⟨-, rfl⟩ := here
        exact modify statics field.owner fun _ state => state.value?_merge field.name _
  · exact .inl (held?_commitField_of_ne graph strong statics here)

theorem commit (graph : Graph) {strong : Bool}
    (decides : strong = true →
      ¬∃ field ∈ graph.writtenStatics, field.owner = owner ∧ field.name = name)
    (statics : Statics) : Widens owner name statics (statics.commit graph strong) :=
  foldl _ (fun statics field written => commitField graph
    (fun isStrong here => decides isStrong ⟨field, written, here⟩) statics) statics

theorem widenArrays (state : ClassState) :
    state.widenArrays.value? name = state.value? name ∨
      ∃ type, state.widenArrays.value? name = some (.unknown type) := by
  unfold ClassState.widenArrays ClassState.value?
  rw [OrdMap.find?_mapValues]
  cases state.fields.find? name with
  | none => exact .inl rfl
  | some field =>
      by_cases mutable : field.value.isMutable = true
      · exact .inr ⟨_, by simp [mutable]; rfl⟩
      · exact .inl (by simp [mutable])

theorem giveUp (statics : Statics) (graph : Graph) :
    Widens owner name statics (statics.giveUp graph) := by
  have widened : Widens owner name statics (graph.staticPuts.foldl (fun statics field =>
      statics.modify field.owner fun state => state.widen field.name field.type) statics) := by
    refine foldl _ (fun statics field _ => modify statics field.owner fun _ state => ?_) statics
    by_cases named : field.name = name
    · exact .inr ⟨_, (state.value?_set _ _ _).trans (if_pos named)⟩
    · exact .inl ((state.value?_set _ _ _).trans (if_neg named))
  unfold Statics.giveUp
  split
  · refine widened.trans ?_
    unfold Widens held?
    rw [OrdMap.find?_mapValues]
    cases OrdMap.find? _ owner with
    | none => exact .inl rfl
    | some state => exact widenArrays state
  · exact widened

end Widens

/-! ## What an initializer decides -/

variable {graph : Graph} {field : FieldRef}

theorem held?_commitField_of_strong (statics : Statics)
    (defined : (statics.find? field.owner).isSome) :
    (commitField graph true statics field).held? field.owner field.name =
      some (graph.staticConsensus field (statics.stored field)) := by
  obtain ⟨state, found⟩ := Option.isSome_iff_exists.mp defined
  rw [commitField, held?_modify, if_pos rfl, stored, found]
  exact (state.value?_set _ _ _).trans (if_pos rfl)

theorem held?_foldl_commitField_of_ne (strong : Bool) (fields : List FieldRef)
    {owner : TypeDescriptor} {name : String}
    (different : ∀ field ∈ fields, ¬(field.owner = owner ∧ field.name = name))
    (statics : Statics) :
    (fields.foldl (commitField graph strong) statics).held? owner name =
      statics.held? owner name := by
  induction fields generalizing statics with
  | nil => rfl
  | cons head rest induction =>
      rw [List.foldl_cons,
        induction (fun field later => different field (List.mem_cons_of_mem _ later))]
      exact held?_commitField_of_ne graph strong statics (different head List.mem_cons_self)

theorem stored_eq_of_held? {before after : Statics}
    (same : after.held? field.owner field.name = before.held? field.owner field.name) :
    after.stored field = before.stored field := by
  unfold held? at same
  rw [stored, stored, same]

/-- A class holds what the paths of an initializer agree on, if the initializer wrote no other
field of the same name to it. -/
theorem held?_commit_of_strong (statics : Statics)
    (defined : (statics.find? field.owner).isSome) (written : field ∈ graph.writtenStatics)
    (sole : ∀ other ∈ graph.writtenStatics, other.owner = field.owner → other.name = field.name →
      other = field) :
    (statics.commit graph true).held? field.owner field.name =
      some (graph.staticConsensus field (statics.stored field)) := by
  -- The fields are listed once each, so those before and after this one are other fields.
  have listed : graph.writtenStatics.Nodup := OrdMap.nodup_keys _
  obtain ⟨earlier, later, split⟩ := List.append_of_mem written
  rw [split] at sole listed
  have notEarlier : ∀ other ∈ earlier, ¬(other.owner = field.owner ∧ other.name = field.name) := by
    rintro other inside ⟨isOwner, named⟩
    cases sole other (List.mem_append_left _ inside) isOwner named
    exact (List.nodup_append.mp listed).2.2 _ inside _ List.mem_cons_self rfl
  have notLater : ∀ other ∈ later, ¬(other.owner = field.owner ∧ other.name = field.name) := by
    rintro other inside ⟨isOwner, named⟩
    cases sole other (List.mem_append_right _ (List.mem_cons_of_mem _ inside)) isOwner named
    exact (List.nodup_cons.mp (List.nodup_append.mp listed).2.1).1 inside
  have untouched :
      (earlier.foldl (commitField graph true) statics).held? field.owner field.name =
        statics.held? field.owner field.name :=
    held?_foldl_commitField_of_ne true earlier notEarlier statics
  have stillDefined :
      ((earlier.foldl (commitField graph true) statics).find? field.owner).isSome := by
    obtain ⟨state, found⟩ := Option.isSome_iff_exists.mp defined
    have advances : statics.Advances (earlier.foldl (commitField graph true) statics) :=
      .foldl (fun statics (other : FieldRef) =>
        .modify statics other.owner fun state => .set state _ _) _ _
    obtain ⟨after, foundAfter, -⟩ := advances.defined found
    rw [foundAfter]
    rfl
  rw [Statics.commit, split, List.foldl_append, List.foldl_cons,
    held?_foldl_commitField_of_ne true later notLater, held?_commitField_of_strong _ stillDefined,
    stored_eq_of_held? untouched]

end Statics

theorem Execution.committed_of_execute {setup : Setup} {depth : Nat} {descriptor : String}
    {frame : Frame} {world after : World} {graph : Graph}
    (executed : (callsAt setup depth).execute descriptor frame world = .ok (some graph) after) :
    ∃ before : Statics, after.statics =
      before.commit graph (setup.program.isInitializer graph.method) := by
  obtain ⟨-, -, done, -, -, -, -, -, committed⟩ := explored_of_execute executed
  exact ⟨_, committed⟩

/-! ## Junctures -/

namespace Juncture

variable {setup : Setup} {owner : TypeDescriptor} {name : String}

/-- An initializer is executed here, comes to its end and has written the field. -/
def Decides (setup : Setup) (owner : TypeDescriptor) (name : String) : Juncture → Prop
  | request depth (.execute descriptor frame) world => ∃ graph after,
      (callsAt setup depth).execute descriptor frame world = .ok (some graph) after ∧
        setup.program.isInitializer graph.method = true ∧
        ∃ field ∈ graph.writtenStatics, field.owner = owner ∧ field.name = name
  | _ => False

theorem widens_conclude {result : EStateM.Result Fault Exploration Unit}
    (undecided : ∀ graph after, conclude setup result = .ok (some graph) after →
      setup.program.isInitializer graph.method = true →
      ¬∃ field ∈ graph.writtenStatics, field.owner = owner ∧ field.name = name) :
    Statics.Widens owner name (lastState result).world.statics
      (lastState (conclude setup result)).statics := by
  cases result with
  | ok value done => exact .commit done.graph (undecided done.graph _ rfl) done.world.statics
  | error fault done =>
      rw [conclude]
      split
      · exact .giveUp done.world.statics done.graph
      · exact .refl done.world.statics

theorem concludes_of_undecided {juncture : Juncture}
    (undecided : ¬juncture.Decides setup owner name) :
    juncture.Concludes setup (Statics.Widens owner name) := by
  cases juncture with
  | explore depth pending allowance exploration => trivial
  | request depth wanted world =>
      cases wanted with
      | start type => trivial
      | execute descriptor frame =>
          intro template started code start
          refine ⟨.giveUp started.statics template, fun room => ?_⟩
          have executed : (callsAt setup depth).execute descriptor frame world = _ :=
            execute_of_room code start room
          rw [executed]
          refine widens_conclude fun graph after concluded isInitializer decided => ?_
          exact undecided ⟨graph, after, executed.trans concluded, isInitializer, decided⟩

/-- Nothing but an initializer makes a field anything else than unknown. -/
theorem widens_of_undecided (juncture : Juncture)
    (undecided : ∀ inner, Reaches setup juncture inner → ¬inner.Decides setup owner name) :
    Statics.Widens owner name juncture.statics (juncture.finalStatics setup) :=
  juncture.relates .refl .trans .markInitialized
    fun inner reaches => concludes_of_undecided (undecided inner reaches)

theorem widens_or_decided (setup : Setup) (owner : TypeDescriptor) (name : String)
    (juncture : Juncture) :
    Statics.Widens owner name juncture.statics (juncture.finalStatics setup) ∨
      ∃ inner, Reaches setup juncture inner ∧ inner.Decides setup owner name := by
  by_cases decided : ∃ inner, Reaches setup juncture inner ∧ inner.Decides setup owner name
  · exact .inr decided
  · exact .inl (widens_of_undecided juncture fun inner reaches decides =>
      decided ⟨inner, reaches, decides⟩)

end Juncture

def Operation.juncture? (machine : Machine) : Operation → Option Juncture
  | execute descriptor =>
    (machine.rootFrame descriptor).toOption.map fun frame =>
      .request machine.callDepth (.execute descriptor frame) machine.world
  | executeFrom descriptor frame =>
    some (.request machine.callDepth (.execute descriptor frame) machine.world)
  | startClass type => some (.request machine.callDepth (.start type) machine.world)
  | update _ => none

namespace Machine

variable {machine : Machine}

theorem statics_perform {α : Type} (machine : Machine) (run : Run α) :
    (machine.perform run).machine.statics = (lastState (run machine.world)).statics := by
  unfold perform
  cases run machine.world <;> rfl

theorem statics_update (machine : Machine) (method : MethodDef) :
    (machine.update method).machine.statics = machine.statics := by
  obtain same | ⟨-, program, same, -⟩ := machine.update_cases method <;> rw [same]

theorem statics_performOperation (machine : Machine) (operation : Operation) :
    (operation.perform machine).machine.statics =
      ((operation.juncture? machine).map (·.finalStatics machine.toSetup)).getD
        machine.statics := by
  cases operation with
  | execute descriptor =>
      simp only [Operation.perform, Operation.juncture?, Report.done, execute]
      cases machine.rootFrame descriptor with
      | error fault => rfl
      | ok frame => exact machine.statics_perform _
  | executeFrom descriptor frame => exact machine.statics_perform _
  | startClass type =>
      refine (machine.statics_perform _).trans ?_
      exact congrArg World.statics (Calls.lastState_ask_start _ type machine.world).symm
  | update method => exact machine.statics_update method

/-- An initializer that has written the field comes to its end during some operations. -/
def Decided (machine : Machine) (operations : List Operation) (owner : TypeDescriptor)
    (name : String) : Prop :=
  ∃ earlier operation later juncture inner, operations = earlier ++ operation :: later ∧
    operation.juncture? (machine.operate earlier) = some juncture ∧
    Juncture.Reaches (machine.operate earlier).toSetup juncture inner ∧
    inner.Decides (machine.operate earlier).toSetup owner name

theorem widens_perform (operation : Operation) {owner : TypeDescriptor} {name : String} :
    Statics.Widens owner name machine.statics (operation.perform machine).machine.statics ∨
      ∃ juncture inner, operation.juncture? machine = some juncture ∧
        Juncture.Reaches machine.toSetup juncture inner ∧
        inner.Decides machine.toSetup owner name := by
  rw [statics_performOperation]
  have before : ∀ {juncture}, operation.juncture? machine = some juncture →
      juncture.statics = machine.statics := by
    intro juncture begins
    cases operation with
    | execute descriptor =>
        obtain ⟨frame, -, rfl⟩ := Option.map_eq_some_iff.mp begins
        rfl
    | executeFrom | startClass =>
        cases begins
        rfl
    | update => cases begins
  cases begins : operation.juncture? machine with
  | none => exact .inl (.refl machine.statics)
  | some juncture =>
      rcases juncture.widens_or_decided machine.toSetup owner name with widens | ⟨inner, decided⟩
      · rw [before begins] at widens
        exact .inl widens
      · exact .inr ⟨juncture, inner, rfl, decided⟩

theorem widens_operate (machine : Machine) (operations : List Operation)
    (owner : TypeDescriptor) (name : String) :
    Statics.Widens owner name machine.statics (machine.operate operations).statics ∨
      machine.Decided operations owner name := by
  induction operations generalizing machine with
  | nil => exact .inl (.refl machine.statics)
  | cons operation rest induction =>
      rcases machine.widens_perform operation with
        widens | ⟨juncture, inner, begins, reaches, decides⟩
      · rcases induction (operation.perform machine).machine with
          later | ⟨earlier, next, later, juncture, inner, rfl, decided⟩
        · exact .inl (widens.trans later)
        · exact .inr ⟨operation :: earlier, next, later, juncture, inner, rfl, decided⟩
      · exact .inr ⟨[], operation, rest, juncture, inner, rfl, begins, reaches, decides⟩

/-- Whatever is executed, started and updated between two resets, a static field stays as it is
or becomes unknown, and so it is at every juncture inside. The one exception is an initializer,
of whatever class, that has written the field and comes to its end: then the class holds just
what the paths of the initializer agree on, even if the field was unknown before. -/
theorem static_fields_widen (machine : Machine) (owner : TypeDescriptor) (name : String) :
    (∀ operations : List Operation,
      Statics.Widens owner name machine.statics (machine.operate operations).statics ∨
        machine.Decided operations owner name) ∧
    (∀ juncture : Juncture,
      Statics.Widens owner name juncture.statics (juncture.finalStatics machine.toSetup) ∨
        ∃ inner, Juncture.Reaches machine.toSetup juncture inner ∧
          inner.Decides machine.toSetup owner name) ∧
    ∀ depth descriptor frame world graph after,
      (callsAt machine.toSetup depth).execute descriptor frame world = .ok (some graph) after →
      machine.program.isInitializer graph.method = true →
      ∀ field ∈ graph.writtenStatics, field.owner = owner → field.name = name →
        (∀ other ∈ graph.writtenStatics, other.owner = owner → other.name = name →
          other = field) →
        (after.statics.find? owner).isSome →
        ∃ before : Statics, after.statics = before.commit graph true ∧
          after.statics.held? owner name =
            some (graph.staticConsensus field (before.stored field)) := by
  refine ⟨fun operations => machine.widens_operate operations owner name,
    Juncture.widens_or_decided machine.toSetup owner name, ?_⟩
  rintro depth descriptor frame world graph after executed isInitializer field written rfl rfl
    sole defined
  obtain ⟨before, committed⟩ := committed_of_execute executed
  rw [isInitializer] at committed
  refine ⟨before, committed, ?_⟩
  rw [committed] at defined ⊢
  refine Statics.held?_commit_of_strong before ?_ written sole
  by_contra missing
  rw [(Statics.Advances.commit before graph true).undefined
    (Option.not_isSome_iff_eq_none.mp missing)] at defined
  cases defined

def rateField : FieldRef := ⟨⟨"LRate;"⟩, "percent", .int⟩

def ratePut (owner name : String) (value : Int32) : MethodDef where
  reference := ⟨⟨owner⟩, name, [], .void⟩
  flags := 8
  registers := 1
  instructions :=
    [.ofOp 0 (.const 0 (.int value)), .ofOp 3 (.staticPut 0 rateField), .ofOp 5 (.giveBack none)]
  tries := []

def rateClass : ClassDef where
  name := ⟨"LRate;"⟩
  flags := 0
  fields := [⟨"percent", .int, 8, none⟩]
  methods := [ratePut "LRate;" "<clinit>" 1, ratePut "LRate;" "raise" 2]

def patchClass : ClassDef := ⟨⟨"LPatch;"⟩, 0, [], [ratePut "LPatch;" "<clinit>" 5]⟩

/-- A field of a class that has been started gets a known value back: its initializer made it 1,
a method left it unknown, and the initializer of another class makes it 5. -/
theorem field_known_again :
    ∃ machine raised, load [rateClass, patchClass] {} = .ok machine ∧
      machine.operate [.execute "LRate;->raise()V"] = raised ∧
      raised.isInitialized ⟨"LRate;"⟩ = true ∧
      raised.statics.held? ⟨"LRate;"⟩ "percent" = some (.unknown .int) ∧
      (raised.operate [.startClass ⟨"LPatch;"⟩]).statics.held? ⟨"LRate;"⟩ "percent" =
        some (.int 5) := by
  cases loaded : load [rateClass, patchClass] {} with
  | error fault => cases loaded
  | ok machine =>
      refine ⟨machine, _, rfl, rfl, ?_⟩
      cases loaded
      decide +kernel

theorem static_fields_widen_patch :
    ∃ machine, load [rateClass, patchClass] {} = .ok machine ∧
      machine.Decided [.execute "LRate;->raise()V", .startClass ⟨"LPatch;"⟩] ⟨"LRate;"⟩
        "percent" := by
  cases loaded : load [rateClass, patchClass] {} with
  | error fault => cases loaded
  | ok machine =>
      have values : machine.statics.held? ⟨"LRate;"⟩ "percent" = some (.int 0) ∧
          (machine.operate [.execute "LRate;->raise()V",
            .startClass ⟨"LPatch;"⟩]).statics.held? ⟨"LRate;"⟩ "percent" = some (.int 5) := by
        cases loaded
        decide +kernel
      refine ⟨machine, rfl, ?_⟩
      have decided := (static_fields_widen machine ⟨"LRate;"⟩ "percent").1
        [.execute "LRate;->raise()V", .startClass ⟨"LPatch;"⟩]
      rw [Statics.Widens, values.1, values.2] at decided
      exact decided.resolve_left (by simp [Value.int])

end Machine

end Dexplore
