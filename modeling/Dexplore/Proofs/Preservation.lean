import Dexplore.Proofs.Lawful

/-!
# What every analysis keeps

A path never loses a static write, though it may forget the value.  Classes keep their names
and the declared types of their fields, and a class that has been started stays started.  No
ceiling gets out of the method that hit it.  These three are one law (`Law.preservation`), so
whatever is called, at any depth, respects them (`Execution.callsAt_preserve`).
-/

set_option autoImplicit false

namespace Dexplore

def Frame.Retains (before after : Frame) : Prop :=
  ∀ field, (before.static? field).isSome → (after.static? field).isSome

/-- A class later on: only the values of its fields have changed, and it may have been
started. -/
structure ClassState.Advances (before after : ClassState) : Prop where
  name : after.name = before.name
  declared : ∀ field, after.declared? field = before.declared? field
  initialized : before.initialized = true → after.initialized = true

structure Statics.Advances (before after : Statics) : Prop where
  undefined : ∀ {type}, before.find? type = none → after.find? type = none
  defined : ∀ {type state}, before.find? type = some state →
    ∃ later, after.find? type = some later ∧ state.Advances later

namespace ClassState.Advances

theorem refl (state : ClassState) : state.Advances state := ⟨rfl, fun _ => rfl, id⟩

theorem trans {before middle after : ClassState} (first : before.Advances middle)
    (second : middle.Advances after) : before.Advances after where
  name := second.name.trans first.name
  declared field := (second.declared field).trans (first.declared field)
  initialized started := second.initialized (first.initialized started)

theorem set (state : ClassState) (name : String) (value : Value) :
    state.Advances (state.set name value) :=
  ⟨rfl, fun field => declared?_set state name field value, id⟩

theorem merge (state : ClassState) (name : String) (value : Value) :
    state.Advances (state.merge name value) := by
  unfold ClassState.merge
  split
  · split
    · exact .refl state
    · exact .set state name _
  · exact .set state name _

theorem widenArrays (state : ClassState) : state.Advances state.widenArrays :=
  ⟨rfl, declared?_widenArrays state, id⟩

theorem markInitialized (state : ClassState) : state.Advances state.markInitialized :=
  ⟨rfl, fun _ => rfl, fun _ => rfl⟩

end ClassState.Advances

namespace Statics.Advances

variable {before middle after : Statics}

theorem refl (statics : Statics) : statics.Advances statics :=
  ⟨id, fun found => ⟨_, found, .refl _⟩⟩

theorem trans (first : before.Advances middle) (second : middle.Advances after) :
    before.Advances after where
  undefined missing := second.undefined (first.undefined missing)
  defined found := by
    obtain ⟨between, foundBetween, earlier⟩ := first.defined found
    obtain ⟨last, foundLast, later⟩ := second.defined foundBetween
    exact ⟨last, foundLast, earlier.trans later⟩

theorem mapValues (statics : Statics) {change : TypeDescriptor → ClassState → ClassState}
    (each : ∀ type (state : ClassState), state.Advances (change type state)) :
    statics.Advances (OrdMap.mapValues change statics) where
  undefined missing := by rw [OrdMap.find?_mapValues, missing]; rfl
  defined found := ⟨_, by rw [OrdMap.find?_mapValues, found]; rfl, each _ _⟩

theorem modify (statics : Statics) (type : TypeDescriptor) {change : ClassState → ClassState}
    (each : ∀ state : ClassState, state.Advances (change state)) :
    statics.Advances (OrdMap.modify statics type change) where
  undefined missing := by rw [OrdMap.find?_modify, missing]; split <;> rfl
  defined {other state} found := by
    rw [OrdMap.find?_modify, found]
    split
    · exact ⟨change state, rfl, each state⟩
    · exact ⟨state, rfl, .refl state⟩

theorem foldl {α : Type} {change : Statics → α → Statics}
    (each : ∀ (statics : Statics) item, statics.Advances (change statics item)) (items : List α)
    (statics : Statics) : statics.Advances (items.foldl change statics) := by
  induction items generalizing statics with
  | nil => exact refl statics
  | cons head rest induction => exact (each statics head).trans (induction _)

theorem commit (statics : Statics) (graph : Graph) (strong : Bool) :
    statics.Advances (statics.commit graph strong) := by
  refine foldl (fun statics field => ?_) _ statics
  refine modify statics field.owner fun state => ?_
  cases strong with
  | true => exact .set state field.name _
  | false => exact .merge state field.name _

theorem giveUp (statics : Statics) (graph : Graph) : statics.Advances (statics.giveUp graph) := by
  have widened : statics.Advances (graph.staticPuts.foldl (fun statics field =>
      statics.modify field.owner fun state => state.widen field.name field.type) statics) :=
    foldl (fun statics (field : FieldRef) =>
      modify statics field.owner fun state => .set state field.name _) _ statics
  unfold Statics.giveUp
  split
  · exact widened.trans (mapValues _ fun _ state => .widenArrays state)
  · exact widened

theorem isInitialized (advances : before.Advances after) {type : TypeDescriptor}
    (started : before.isInitialized type = true) : after.isInitialized type = true := by
  unfold Statics.isInitialized at started ⊢
  cases found : before.find? type with
  | none =>
      rw [found] at started
      cases started
  | some state =>
      obtain ⟨later, foundLater, advances⟩ := advances.defined found
      rw [found] at started
      rw [foundLater]
      exact advances.initialized started

end Statics.Advances

theorem OrdMap.keys_mapValues {κ α β : Type} [Ord κ] (change : κ → α → β) (map : OrdMap κ α) :
    (map.mapValues change).keys = map.keys := by
  simp [keys, mapValues, Entries.map, Function.comp_def]

theorem Statics.Advances.keys {before after : Statics} (advances : before.Advances after) :
    OrdMap.keys after = OrdMap.keys before := by
  have same : OrdMap.mapValues (fun _ _ => ()) after =
      OrdMap.mapValues (fun _ _ => ()) before := by
    refine OrdMap.ext_find? fun type => ?_
    rw [OrdMap.find?_mapValues, OrdMap.find?_mapValues]
    cases found : before.find? type with
    | none => rw [advances.undefined found]
    | some state =>
        obtain ⟨later, foundLater, -⟩ := advances.defined found
        rw [foundLater]
        rfl
  rw [← OrdMap.keys_mapValues (fun _ _ => ()) after, same, OrdMap.keys_mapValues]

theorem Statics.pendingCount_eq (statics : Statics) :
    statics.pendingCount =
      (OrdMap.keys statics).countP fun type => !statics.isInitialized type := by
  rw [pendingCount, OrdMap.values, OrdMap.keys, List.countP_map, List.countP_map]
  refine List.countP_congr fun entry inside => ?_
  have found : statics.find? entry.1 = some entry.2 := OrdMap.find?_eq_some_iff.mpr inside
  simp [isInitialized, found]

theorem Statics.Advances.pendingCount_le {before after : Statics}
    (advances : before.Advances after) : after.pendingCount ≤ before.pendingCount := by
  rw [pendingCount_eq, pendingCount_eq, advances.keys]
  refine List.countP_mono_left fun type _ pending => ?_
  cases started : before.isInitialized type with
  | false => rfl
  | true =>
      rw [advances.isInitialized started] at pending
      cases pending

theorem Statics.isInitialized_markInitialized {statics : Statics} {type : TypeDescriptor}
    {state : ClassState} (found : statics.find? type = some state) :
    (statics.markInitialized type).isInitialized type = true := by
  rw [isInitialized, markInitialized, OrdMap.find?_modify, if_pos rfl, found]
  rfl

namespace Frame.Retains

variable {frame after : Frame}

theorem refl (frame : Frame) : frame.Retains frame := fun _ => id

theorem of_statics_eq (same : after.statics = frame.statics) : frame.Retains after := by
  intro field
  rw [static?, static?, same]
  exact id

theorem writeStatic (frame : Frame) (field : FieldRef) (value : Value) :
    frame.Retains (frame.writeStatic field value) := by
  intro other written
  rw [static?_writeStatic]
  split
  · rfl
  · exact written

theorem widenStaticArrays (frame : Frame) (type : TypeDescriptor) :
    frame.Retains (frame.widenStaticArrays type) := by
  intro field written
  rw [static?_widenStaticArrays, Option.isSome_map]
  exact written

end Frame.Retains

theorem Frame.statics_write {frame after : Frame} {register : Register} {value : Value}
    (written : frame.write register value = .ok after) : after.statics = frame.statics := by
  rw [Frame.eq_of_write written]

def Law.preservation : Law where
  frames := Frame.Retains
  worlds before after := before.statics.Advances after.statics
  faults fault := fault.isRecoverable = false

theorem Law.preservation_upheld : Law.preservation.Upheld where
  frame_refl := .refl
  frame_trans first second field written := second field (first field written)
  write written := .of_statics_eq (Frame.statics_write written)
  withResult _ _ := .of_statics_eq rfl
  writeStatic := .writeStatic
  widenArrays _ type _ := .widenStaticArrays _ type
  widenStaticArrays := .widenStaticArrays
  world_refl world := .refl world.statics
  world_trans := .trans
  remark world _ _ := .refl world.statics
  access _ world := .refl world.statics
  invalidRegister _ _ := rfl
  malformed _ := rfl
  visiting world _ _ _ := .refl world.statics
  marked {world type _} _ _ := .modify world.statics type .markInitialized
  executing world _ _ := .refl world.statics
  finished world graph strong := .commit world.statics graph strong
  abandoned world graph _ := .giveUp world.statics graph
  invalidAddress _ _ := rfl
  methodNotFound _ := rfl

def Law.staticsKept : Law where
  frames _ _ := True
  worlds before after := after.statics = before.statics
  faults _ := True

theorem Law.staticsKept_fair : Law.staticsKept.Fair where
  frame_refl _ := trivial
  frame_trans _ _ := trivial
  write _ := trivial
  withResult _ _ := trivial
  writeStatic _ _ _ := trivial
  widenArrays _ _ _ := trivial
  widenStaticArrays _ _ := trivial
  world_refl _ := rfl
  world_trans first second := second.trans first
  remark _ _ _ := rfl
  access _ _ := rfl
  invalidRegister _ _ := trivial
  malformed _ := trivial

theorem Execution.callsAt_preserve (setup : Setup) (depth : Nat) :
    (callsAt setup depth).Obey Law.preservation :=
  callsAt_obey Law.preservation_upheld setup depth

end Dexplore
