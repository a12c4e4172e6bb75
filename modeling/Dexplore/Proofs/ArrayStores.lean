import Dexplore.Proofs.Covering
import Dexplore.Proofs.Forgetting

/-!
# Stores into arrays

A store changes the array in its register, and makes the path forget every other known array of
the same declared type: in the registers, among its own static writes, and in the classes
(`Statics.afterStore`).  What is forgotten is chosen by the declared type of the value in the
register alone.  A path that knows less may have lost this type, and then forgets less: between
a path and another that covers it, a store keeps the order exactly if both have the same type in
the register or there is nothing to forget (`Instruction.stores_respect_precision`).
-/

set_option autoImplicit false

namespace Dexplore

/-! ## What a path reads after a store -/

namespace Value

variable {value : Value} {type : TypeDescriptor}

theorem isKnown_of_isArrayOf (isArray : value.isArrayOf type = true) :
    value.isKnown = true ∧ value.type = type := by
  rw [isArrayOf, Bool.and_eq_true, decide_eq_true_eq] at isArray
  exact ⟨isKnown_of_isMutable isArray.1, isArray.2⟩

theorem widen_of_isArrayOf (isArray : value.isArrayOf type = true) :
    value.widen = unknown type := by
  rw [widen, (isKnown_of_isArrayOf isArray).2]

end Value

namespace Frame

theorem forgetArrayOf_eq (type : TypeDescriptor) (value : Value) :
    forgetArrayOf type value = if value.isArrayOf type then .unknown type else value := by
  unfold forgetArrayOf
  split
  · next isArray => exact Value.widen_of_isArrayOf isArray
  · rfl

@[simp] theorem forgetArrayOf_forgetArrayOf (type : TypeDescriptor) (value : Value) :
    forgetArrayOf type (forgetArrayOf type value) = forgetArrayOf type value := by
  by_cases isArray : value.isArrayOf type = true
  · rw [forgetArrayOf_eq type value, if_pos isArray]
    rfl
  · rw [forgetArrayOf_eq type value, if_neg isArray, forgetArrayOf_eq, if_neg isArray]

/-- Steps that write one value to a field, each only if no step before it has. -/
theorem static?_foldl {α : Type} {change : Frame → α → Frame} {field : FieldRef} {value : Value}
    (hits : α → Bool)
    (each : ∀ frame item, (change frame item).static? field =
      (frame.static? field).or (if hits item then some value else none))
    (items : List α) (frame : Frame) :
    (items.foldl change frame).static? field =
      (frame.static? field).or (if items.any hits then some value else none) := by
  induction items generalizing frame with
  | nil => simp
  | cons first rest induction =>
      rw [List.foldl_cons, induction, each, List.any_cons]
      cases frame.static? field <;> cases hits first <;> simp

end Frame

namespace Statics

def holdsArray (statics : Statics) (type : TypeDescriptor) (field : FieldRef) : Bool :=
  ((statics.find? field.owner).bind fun state => state.fields.find? field.name).any fun held =>
    held.value.isArrayOf type && held.declared.getD type = field.type

/-- Whether a path finds an array of a type in a field, among its own writes or else in the
class. -/
def showsArray (statics : Statics) (frame : Frame) (type : TypeDescriptor)
    (field : FieldRef) : Bool :=
  (frame.static? field).elim (statics.holdsArray type field) (·.isArrayOf type)

variable {statics : Statics} {frame : Frame} {type : TypeDescriptor} {field : FieldRef}

theorem static?_hideArray (type owner : TypeDescriptor) (frame : Frame)
    (entry : String × StaticField) (field : FieldRef) :
    (hideArray type owner frame entry).static? field =
      (frame.static? field).or
        (if entry.2.value.isArrayOf type &&
            (⟨owner, entry.1, entry.2.declared.getD type⟩ : FieldRef) = field
          then some (.unknown type) else none) := by
  simp only [hideArray]
  by_cases isArray : entry.2.value.isArrayOf type = true
  · have isType := Value.widen_of_isArrayOf isArray
    by_cases same : (⟨owner, entry.1, entry.2.declared.getD type⟩ : FieldRef) = field
    · subst same
      cases written : frame.static? ⟨owner, entry.1, entry.2.declared.getD type⟩ <;>
        simp [isArray, isType, written]
    · split <;> simp [same]
  · simp [isArray]

theorem holdsArray_eq_any (statics : Statics) (type : TypeDescriptor) (field : FieldRef) :
    statics.holdsArray type field = statics.entries.any fun state =>
      state.2.fields.entries.any fun entry => entry.2.value.isArrayOf type &&
        (⟨state.1, entry.1, entry.2.declared.getD type⟩ : FieldRef) = field := by
  obtain ⟨owner, name, fieldType⟩ := field
  rw [Bool.eq_iff_iff]
  simp only [holdsArray, Option.any_eq_true, Option.bind_eq_some_iff, List.any_eq_true,
    OrdMap.find?_eq_some_iff, Bool.and_eq_true, decide_eq_true_eq, FieldRef.mk.injEq,
    Prod.exists]
  constructor
  · rintro ⟨held, ⟨state, isState, isHeld⟩, isArray, declared⟩
    exact ⟨owner, state, isState, name, held, isHeld, isArray, rfl, rfl, declared⟩
  · rintro ⟨_, state, isState, _, held, isHeld, isArray, rfl, rfl, declared⟩
    exact ⟨held, ⟨state, isState, isHeld⟩, isArray, declared⟩

/-- After the static arrays of a type are forgotten, a path has written what it had written,
without those arrays, and for the arrays that only a class holds that they are unknown. -/
theorem static?_forgetArrays (statics : Statics) (frame : Frame) (type : TypeDescriptor)
    (field : FieldRef) :
    (statics.forgetArrays frame type).static? field =
      ((frame.static? field).map (Frame.forgetArrayOf type)).or
        (if statics.holdsArray type field then some (.unknown type) else none) := by
  have eachClass : ∀ (frame : Frame) (state : TypeDescriptor × ClassState),
      (state.2.fields.entries.foldl (hideArray type state.1) frame).static? field =
        (frame.static? field).or (if state.2.fields.entries.any (fun entry =>
            entry.2.value.isArrayOf type &&
              (⟨state.1, entry.1, entry.2.declared.getD type⟩ : FieldRef) = field)
          then some (.unknown type) else none) := by
    intro frame state
    apply Frame.static?_foldl
    intro frame entry
    exact static?_hideArray type state.1 frame entry field
  rw [forgetArrays, Frame.static?_foldl _ eachClass, holdsArray_eq_any,
    Frame.static?_widenStaticArrays]

/-- A path forgets the fields in which it finds an array of the type, and no other. -/
theorem valueOn_forgetArrays (statics : Statics) (frame : Frame) (type : TypeDescriptor)
    (field : FieldRef) :
    statics.valueOn (statics.forgetArrays frame type) field =
      if statics.showsArray frame type field then .unknown type
      else statics.valueOn frame field := by
  rw [valueOn, valueOn, static?_forgetArrays, showsArray]
  cases frame.static? field with
  | none => cases statics.holdsArray type field <;> rfl
  | some value => exact Frame.forgetArrayOf_eq type value

theorem isArrayOf_of_showsArray (shows : statics.showsArray frame type field = true) :
    (statics.valueOn frame field).isArrayOf type = true := by
  rw [showsArray] at shows
  rw [valueOn]
  cases written : frame.static? field with
  | some value =>
      rw [written] at shows
      exact shows
  | none =>
      rw [written, Option.elim_none, holdsArray, Option.any_eq_true] at shows
      obtain ⟨held, isHeld, isArray⟩ := shows
      obtain ⟨state, isState, isHeld⟩ := Option.bind_eq_some_iff.mp isHeld
      rw [Option.getD_none, stored, isState, Option.bind_some, ClassState.value?, isHeld]
      exact ((Bool.and_eq_true _ _).mp isArray).1

def afterStore (statics : Statics) (frame : Frame) (array : Register)
    (target place stored : Value) : Frame :=
  let written : Frame :=
    { frame with registers := frame.registers.set array (target.storeElement place stored) }
  statics.forgetArrays (written.widenArrays target.type (some array)) target.type

theorem afterStore_eq (statics : Statics) (frame : Frame) (array : Register)
    (target place stored : Value) :
    ∃ own, statics.afterStore frame array target place stored =
      { frame with
        registers := (frame.registers.set array (target.storeElement place stored)).mapIdx
          fun index value =>
            if some array = some index then value else Frame.forgetArrayOf target.type value
        statics := own } := by
  obtain ⟨own, forgotten⟩ := statics.forgetArrays_statics (Frame.widenArrays
    { frame with registers := frame.registers.set array (target.storeElement place stored) }
    target.type (some array)) target.type
  exact ⟨own, forgotten⟩

theorem registers_afterStore (statics : Statics) (frame : Frame) (array : Register)
    (target place stored : Value) :
    (statics.afterStore frame array target place stored).registers =
      (frame.registers.set array (target.storeElement place stored)).mapIdx fun index value =>
        if some array = some index then value else Frame.forgetArrayOf target.type value := by
  obtain ⟨own, stores⟩ := statics.afterStore_eq frame array target place stored
  rw [stores]

theorem registerCount_afterStore (statics : Statics) (frame : Frame) (array : Register)
    (target place stored : Value) :
    (statics.afterStore frame array target place stored).registerCount = frame.registerCount := by
  simp [Frame.registerCount, registers_afterStore]

/-- A store changes the register of the array, and the others only by forgetting arrays. -/
theorem getElem?_afterStore (statics : Statics) (frame : Frame) (array : Register)
    (target place stored : Value) (register : Register) :
    (statics.afterStore frame array target place stored).registers[register]? =
      frame.registers[register]?.map fun value =>
        if register = array then target.storeElement place stored
        else Frame.forgetArrayOf target.type value := by
  rw [registers_afterStore, List.getElem?_mapIdx]
  by_cases same : register = array
  · subst same
    rw [List.getElem?_set]
    cases found : frame.registers[register]? with
    | none => simp [List.getElem?_eq_none_iff.mp found]
    | some value => simp [(List.getElem?_eq_some_iff.mp found).1]
  · rw [List.getElem?_set_ne (Ne.symm same)]
    simp [same, Ne.symm same]

theorem static?_afterStore (statics : Statics) (frame : Frame) (array : Register)
    (target place stored : Value) (field : FieldRef) :
    (statics.afterStore frame array target place stored).static? field =
      (statics.forgetArrays frame target.type).static? field := by
  rw [afterStore, static?_forgetArrays, static?_forgetArrays, Frame.widenArrays,
    Frame.static?_widenStaticArrays, Frame.static?, Frame.static?]
  cases frame.statics.find? field with
  | none => rfl
  | some value => simp

theorem valueOn_afterStore (statics : Statics) (frame : Frame) (array : Register)
    (target place stored : Value) (field : FieldRef) :
    statics.valueOn (statics.afterStore frame array target place stored) field =
      if statics.showsArray frame target.type field then .unknown target.type
      else statics.valueOn frame field := by
  rw [← valueOn_forgetArrays, valueOn, valueOn, static?_afterStore]

end Statics

namespace Step

variable {src array index : Register} {scene after : Scene} {stored target place : Value}

theorem arrayPut_eq (readSrc : scene.frame.read src = .ok stored)
    (readArray : scene.frame.read array = .ok target)
    (readIndex : scene.frame.read index = .ok place) :
    arrayPut src array index scene =
      .ok () ⟨scene.world.statics.afterStore scene.frame array target place stored,
        scene.world⟩ := by
  have inside : array < scene.frame.registerCount :=
    (scene.frame.read_isOk_iff array).mp ⟨target, readArray⟩
  refine bind_eq_ok.mpr ⟨stored, scene, read_eq_ok.mpr ⟨readSrc, rfl⟩, ?_⟩
  refine bind_eq_ok.mpr ⟨target, scene, read_eq_ok.mpr ⟨readArray, rfl⟩, ?_⟩
  refine bind_eq_ok.mpr ⟨place, scene, read_eq_ok.mpr ⟨readIndex, rfl⟩, ?_⟩
  refine bind_eq_ok.mpr ⟨(), _, write_eq_ok.mpr ⟨_, ?_, rfl⟩, rfl⟩
  rw [Frame.write, if_pos inside]

theorem arrayPut_eq_ok (run : arrayPut src array index scene = .ok () after) :
    ∃ stored target place, scene.frame.read src = .ok stored ∧
      scene.frame.read array = .ok target ∧ scene.frame.read index = .ok place ∧
      after = ⟨scene.world.statics.afterStore scene.frame array target place stored,
        scene.world⟩ := by
  obtain ⟨stored, _, first, afterSrc⟩ := bind_eq_ok.mp run
  obtain ⟨readSrc, rfl⟩ := read_eq_ok.mp first
  obtain ⟨target, _, second, afterArray⟩ := bind_eq_ok.mp afterSrc
  obtain ⟨readArray, rfl⟩ := read_eq_ok.mp second
  obtain ⟨place, _, third, -⟩ := bind_eq_ok.mp afterArray
  obtain ⟨readIndex, rfl⟩ := read_eq_ok.mp third
  rw [arrayPut_eq readSrc readArray readIndex] at run
  cases run
  exact ⟨stored, target, place, readSrc, readArray, readIndex, rfl⟩

end Step

/-! ## Stores and precision -/

namespace Value

variable {coarse fine place place' stored stored' : Value} {type : TypeDescriptor}
  {elements elements' : List Value}

namespace Covers

theorem isArrayOf_eq (covers : coarse.Covers fine) (known : coarse.isKnown = true) :
    fine.isArrayOf = coarse.isArrayOf := by
  cases covers with
  | refl | array => rfl
  | unknown => cases known

theorem isKnown_of_known (covers : coarse.Covers fine) (known : coarse.isKnown = true) :
    fine.isKnown = true := by
  cases covers with
  | refl => exact known
  | array => rfl
  | unknown => cases known

theorem asElement (covers : coarse.Covers fine) (component : TypeDescriptor) :
    (coarse.asElement component).Covers (fine.asElement component) := by
  cases covers with
  | refl => exact .refl _
  | unknown type => exact .unknown type _
  | array count each => exact .array count each

theorem storeElement_array (count : elements.length = elements'.length)
    (each : ∀ (index : Nat) element element', elements[index]? = some element →
      elements'[index]? = some element' → Covers element element')
    (coversPlace : place.Covers place') (coversStored : stored.Covers stored') :
    ((Value.array type elements).storeElement place stored).Covers
      ((Value.array type elements').storeElement place' stored') := by
  simp only [Value.storeElement, elements?]
  rcases coversPlace.index? elements.length with missing | same
  · rw [missing]
    exact .unknown _ _
  · rw [same, ← count]
    cases place'.index? elements.length with
    | none => exact .unknown _ _
    | some hit =>
        refine .array (by simpa using count) fun index element element' found found' => ?_
        rw [List.getElem?_set] at found found'
        by_cases here : hit = index
        · rw [if_pos here] at found found'
          split at found
          · rw [if_pos (by omega)] at found'
            cases found
            cases found'
            exact coversStored.asElement _
          · cases found
        · rw [if_neg here] at found found'
          exact each index element element' found found'

theorem storeElement (covers : coarse.Covers fine) (coversPlace : place.Covers place')
    (coversStored : stored.Covers stored') :
    (coarse.storeElement place stored).Covers (fine.storeElement place' stored') := by
  cases covers with
  | unknown type => exact .unknown type _
  | array count each => exact storeElement_array count each coversPlace coversStored
  | refl =>
      cases coarse with
      | unknown type | scalar type contents => exact .refl _
      | array type elements =>
          refine storeElement_array rfl ?_ coversPlace coversStored
          intro index element element' found found'
          cases found.symm.trans found'
          exact .refl _

/-- A value and one that it covers, after each was forgotten if it showed as an array of a type,
which is not the same type for both. The order is kept exactly if it is, or if the covering value
would not have been forgotten for the type of the other. -/
theorem forgotten_iff (covers : coarse.Covers fine) {shown shown' : TypeDescriptor → Bool}
    (isArray : ∀ type, shown type = true → coarse.isArrayOf type = true)
    (same : coarse.isKnown = true → shown' = shown) (type type' : TypeDescriptor) :
    Covers (if shown type' then .unknown type' else coarse)
        (if shown' type then .unknown type else fine) ↔
      type' = type ∨ shown type = false := by
  constructor
  · intro after
    by_contra! differ
    obtain ⟨different, shows⟩ := differ
    obtain ⟨known, isType⟩ := isKnown_of_isArrayOf (isArray type (by simpa using shows))
    have keeps : ¬shown type' = true := by
      intro forgotten
      exact different ((isKnown_of_isArrayOf (isArray type' forgotten)).2.symm.trans isType)
    rw [if_neg keeps, same known, if_pos (by simpa using shows)] at after
    cases after.isKnown_of_known known
  · intro either
    by_cases forgotten : shown type' = true
    · rw [if_pos forgotten]
      exact .unknown _ _
    · rw [if_neg forgotten]
      split
      · next shows =>
          apply of_unknown
          cases known : coarse.isKnown with
          | false => rfl
          | true =>
              rw [same known] at shows
              rcases either with rfl | hidden
              · exact absurd shows forgotten
              · cases shows.symm.trans hidden
      · exact covers

end Covers

end Value

theorem forall₂_iff_getElem? {α β : Type} {R : α → β → Prop} {left : List α} {right : List β} :
    List.Forall₂ R left right ↔ ∀ index : Nat, Option.Rel R left[index]? right[index]? := by
  refine ⟨forall₂_getElem?, fun each => ?_⟩
  induction left generalizing right with
  | nil =>
      cases right with
      | nil => exact .nil
      | cons head tail => cases each 0
  | cons head tail induction =>
      cases right with
      | nil => cases each 0
      | cons head' tail' =>
          refine .cons (by simpa using each 0) (induction fun index => ?_)
          simpa using each (index + 1)

namespace Statics

variable {statics : Statics} {coarse fine : Frame} {array register : Register} {field : FieldRef}
  {target target' place place' stored stored' : Value}

theorem covers_registers_afterStore_iff
    (registers : List.Forall₂ Value.Covers coarse.registers fine.registers)
    (covers : (target.storeElement place stored).Covers (target'.storeElement place' stored')) :
    Option.Rel Value.Covers
        (statics.afterStore coarse array target place stored).registers[register]?
        (statics.afterStore fine array target' place' stored').registers[register]? ↔
      register = array ∨ target.type = target'.type ∨
        ∀ value, coarse.read register = .ok value → value.isArrayOf target'.type = false := by
  have here := forall₂_getElem? registers register
  rw [getElem?_afterStore, getElem?_afterStore]
  simp only [Frame.read_eq_ok_iff]
  generalize coarse.registers[register]? = before, fine.registers[register]? = before' at here ⊢
  cases here with
  | none => exact iff_of_true .none (.inr (.inr (by simp)))
  | some coversHere =>
      rw [Option.map_some, Option.map_some, Option.rel_some_some]
      by_cases isArray : register = array
      · rw [if_pos isArray, if_pos isArray]
        exact iff_of_true covers (.inl isArray)
      · rw [if_neg isArray, if_neg isArray, or_iff_right isArray, Frame.forgetArrayOf_eq,
          Frame.forgetArrayOf_eq, coversHere.forgotten_iff (fun _ => id) coversHere.isArrayOf_eq]
        simp

theorem covers_valueOn
    (written : Option.Rel Value.Covers (coarse.static? field) (fine.static? field)) :
    (statics.valueOn coarse field).Covers (statics.valueOn fine field) := by
  rw [valueOn, valueOn]
  generalize coarse.static? field = own, fine.static? field = own' at written ⊢
  cases written with
  | none => exact .refl _
  | some covers => exact covers

theorem showsArray_eq
    (written : Option.Rel Value.Covers (coarse.static? field) (fine.static? field))
    (known : (statics.valueOn coarse field).isKnown = true) :
    (fun type => statics.showsArray fine type field) =
      fun type => statics.showsArray coarse type field := by
  rw [valueOn] at known
  simp only [showsArray]
  generalize coarse.static? field = own, fine.static? field = own' at written known ⊢
  cases written with
  | none => rfl
  | some covers => exact covers.isArrayOf_eq known

theorem covers_valueOn_afterStore_iff
    (written : Option.Rel Value.Covers (coarse.static? field) (fine.static? field)) :
    (statics.valueOn (statics.afterStore coarse array target place stored) field).Covers
        (statics.valueOn (statics.afterStore fine array target' place' stored') field) ↔
      target.type = target'.type ∨ statics.showsArray coarse target'.type field = false := by
  rw [valueOn_afterStore, valueOn_afterStore]
  exact (covers_valueOn written).forgotten_iff (fun _ => isArrayOf_of_showsArray)
    (showsArray_eq written) target'.type target.type

end Statics

namespace Instruction

variable {setup : Setup} {calls : Calls} {method : String} {instruction : Instruction}
  {src array index : Register} {coarse fine : Frame} {world : World}
  {coarseAfter fineAfter : Scene} {ways ways' : List Address}

theorem arrayPut_of_execute {scene after : Scene}
    (isStore : instruction.op = .arrayPut src array index)
    (run : instruction.execute setup calls method scene = .ok ways after) :
    Step.arrayPut src array index scene = .ok () after := by
  unfold execute at run
  rw [isStore] at run
  obtain ⟨_, _, stored, goesOn⟩ := Step.bind_eq_ok.mp run
  cases goesOn
  exact stored

/-- After a store on two paths of which one covers the other, all that is read still covers,
exactly if the values in the register of the array have one declared type, or the covering path
knows no other array of the type that the covered path stores into. -/
theorem stores_respect_precision (isStore : instruction.op = .arrayPut src array index)
    (registers : List.Forall₂ Value.Covers coarse.registers fine.registers)
    (written : ∀ field, Option.Rel Value.Covers (coarse.static? field) (fine.static? field))
    (runCoarse : instruction.execute setup calls method ⟨coarse, world⟩ = .ok ways coarseAfter)
    (runFine : instruction.execute setup calls method ⟨fine, world⟩ = .ok ways' fineAfter) :
    ∃ target target', coarse.read array = .ok target ∧ fine.read array = .ok target' ∧
      ((List.Forall₂ Value.Covers coarseAfter.frame.registers fineAfter.frame.registers ∧
          ∀ field, (coarseAfter.world.statics.valueOn coarseAfter.frame field).Covers
            (fineAfter.world.statics.valueOn fineAfter.frame field)) ↔
        target.type = target'.type ∨
          (∀ register value, register ≠ array → coarse.read register = .ok value →
            value.isArrayOf target'.type = false) ∧
          ∀ field, world.statics.showsArray coarse target'.type field = false) := by
  obtain ⟨stored, target, place, readSrc, readArray, readIndex, rfl⟩ :=
    Step.arrayPut_eq_ok (arrayPut_of_execute isStore runCoarse)
  obtain ⟨stored', target', place', readSrc', readArray', readIndex', rfl⟩ :=
    Step.arrayPut_eq_ok (arrayPut_of_execute isStore runFine)
  have covers : ∀ {register value value'}, coarse.read register = .ok value →
      fine.read register = .ok value' → value.Covers value' := by
    intro register value value' isRead isRead'
    have here := forall₂_getElem? registers register
    rwa [Frame.read_eq_ok_iff.mp isRead, Frame.read_eq_ok_iff.mp isRead',
      Option.rel_some_some] at here
  have coversStored := (covers readArray readArray').storeElement (covers readIndex readIndex')
    (covers readSrc readSrc')
  refine ⟨target, target', readArray, readArray', ?_⟩
  simp only [forall₂_iff_getElem?,
    Statics.covers_registers_afterStore_iff registers coversStored,
    Statics.covers_valueOn_afterStore_iff (written _)]
  constructor
  · rintro ⟨everywhere, inFields⟩
    by_cases sameType : target.type = target'.type
    · exact .inl sameType
    · refine .inr ⟨fun register value other isRead => ?_, fun field => ?_⟩
      · exact ((everywhere register).resolve_left other).resolve_left sameType value isRead
      · exact (inFields field).resolve_left sameType
  · rintro (sameType | ⟨noRegister, noField⟩)
    · exact ⟨fun _ => .inr (.inl sameType), fun _ => .inl sameType⟩
    · refine ⟨fun register => ?_, fun field => .inr (noField field)⟩
      by_cases isArray : register = array
      · exact .inl isArray
      · exact .inr (.inr fun value => noRegister register value isArray)

def aliasStore : Instruction := .ofOp 0 (.arrayPut 3 0 2)

def knownAlias : Frame :=
  ⟨[.array ⟨"[I"⟩ [.int 0], .array ⟨"[I"⟩ [.int 0], .int 0, .int 7], 0, none, .empty⟩

def lostAlias : Frame :=
  ⟨[.uninitialized, .array ⟨"[I"⟩ [.int 0], .int 0, .int 7], 0, none, .empty⟩

theorem knownAlias_covered : List.Forall₂ Value.Covers lostAlias.registers knownAlias.registers :=
  .cons (.unknown _ _) (.cons (.refl _) (.cons (.refl _) (.cons (.refl _) .nil)))

/-- With its type lost, a store through the first register leaves more known than without. -/
theorem stores_respect_precision_lost :
    ∃ lost known,
      aliasStore.execute ⟨{}, .empty⟩ ⟨fun _ => pure (), fun _ _ => pure none⟩
        "LApp;->main()V" ⟨lostAlias, ⟨.empty, []⟩⟩ = .ok [2] lost ∧
      aliasStore.execute ⟨{}, .empty⟩ ⟨fun _ => pure (), fun _ _ => pure none⟩
        "LApp;->main()V" ⟨knownAlias, ⟨.empty, []⟩⟩ = .ok [2] known ∧
      ¬(List.Forall₂ Value.Covers lost.frame.registers known.frame.registers ∧
        ∀ field, (lost.world.statics.valueOn lost.frame field).Covers
          (known.world.statics.valueOn known.frame field)) := by
  obtain ⟨lost, runLost⟩ : ∃ lost, aliasStore.execute ⟨{}, .empty⟩
      ⟨fun _ => pure (), fun _ _ => pure none⟩ "LApp;->main()V"
      ⟨lostAlias, ⟨.empty, []⟩⟩ = .ok [2] lost := ⟨_, rfl⟩
  obtain ⟨known, runKnown⟩ : ∃ known, aliasStore.execute ⟨{}, .empty⟩
      ⟨fun _ => pure (), fun _ _ => pure none⟩ "LApp;->main()V"
      ⟨knownAlias, ⟨.empty, []⟩⟩ = .ok [2] known := ⟨_, rfl⟩
  obtain ⟨target, target', isTarget, isTarget', kept_iff⟩ := stores_respect_precision
    (show aliasStore.op = .arrayPut 3 0 2 from rfl) knownAlias_covered (fun _ => .none) runLost
    runKnown
  cases isTarget
  cases isTarget'
  refine ⟨lost, known, runLost, runKnown, fun kept => ?_⟩
  rcases kept_iff.mp kept with sameType | ⟨noRegister, -⟩
  · exact absurd sameType (by decide)
  · exact absurd (noRegister 1 _ (by decide) rfl) (by decide)

/-- The second register, which may hold the same array, is forgotten on the path that knows the
first, and stays known on the path that does not. -/
theorem alias_known_after_store :
    List.Forall₂ Value.Covers lostAlias.registers knownAlias.registers ∧
      (Machine.executeInstruction ⟨⟨{}, .empty⟩, .empty, 0⟩ "LApp;->main()V" aliasStore
        lostAlias).2.registers =
          [.uninitialized, .array ⟨"[I"⟩ [.int 0], .int 0, .int 7] ∧
      (Machine.executeInstruction ⟨⟨{}, .empty⟩, .empty, 0⟩ "LApp;->main()V" aliasStore
        knownAlias).2.registers =
          [.array ⟨"[I"⟩ [.int 7], .unknown ⟨"[I"⟩, .int 0, .int 7] ∧
      ¬(Value.array ⟨"[I"⟩ [.int 0]).Covers (.unknown ⟨"[I"⟩) := by
  refine ⟨knownAlias_covered, by decide +kernel, by decide +kernel, ?_⟩
  intro covers
  cases covers.isKnown_of_known rfl

end Instruction

end Dexplore
