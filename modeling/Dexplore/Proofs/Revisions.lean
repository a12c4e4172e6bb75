import Mathlib.Data.List.Perm.Basic
import Dexplore.Proofs.Abandonment

/-!
# Revisions of static fields

A method that was executed and may or may not have run changes the classes field by field: a
field that it wrote is merged with what the paths agree on, and a field that it could have
written before it was given up is forgotten.  As long as the fields are declared, each such
revision changes the value of one field and nothing else (`Statics.Started.commit`,
`Statics.Started.giveUp`).  A merge that changes a field makes it unknown in the type of its
value and forgetting makes it unknown in its declared type, so merges never undo one another and
forgetting overrules them: revisions can be made in any order (`Statics.foldl_revise_perm`).
-/

set_option autoImplicit false

namespace Dexplore

/-! ## Changing entries of maps -/

namespace OrdMap

variable {κ α : Type} [Ord κ] [Std.TransOrd κ] [Std.LawfulEqOrd κ] [DecidableEq κ]

theorem modify_congr {map : OrdMap κ α} {key : κ} {change other : α → α}
    (same : ∀ value, map.find? key = some value → change value = other value) :
    map.modify key change = map.modify key other := by
  refine ext_find? fun wanted => ?_
  rw [find?_modify, find?_modify]
  by_cases hit : wanted = key
  · rw [if_pos hit, if_pos hit, hit]
    cases found : map.find? key with
    | none => rfl
    | some value => rw [Option.map_some, Option.map_some, same value found]
  · rw [if_neg hit, if_neg hit]

theorem modify_of_same {map : OrdMap κ α} {key : κ} {value : α} {change : α → α}
    (found : map.find? key = some value) (same : change value = value) :
    map.modify key change = map := by
  refine ext_find? fun wanted => ?_
  rw [find?_modify]
  by_cases hit : wanted = key
  · rw [if_pos hit, hit, found, Option.map_some, same]
  · rw [if_neg hit]

theorem insert_eq_modify {map : OrdMap κ α} {key : κ} {before : α}
    (found : map.find? key = some before) (change : α → α) :
    map.insert key (change before) = map.modify key change := by
  refine ext_find? fun wanted => ?_
  rw [find?_insert, find?_modify]
  by_cases hit : wanted = key
  · rw [if_pos hit.symm, if_pos hit, hit, found, Option.map_some]
  · rw [if_neg (Ne.symm hit), if_neg hit]

/-- Changes of two keys can be exchanged, and so can changes of one key that commute. -/
theorem modify_comm (map : OrdMap κ α) {first second : κ} {change other : α → α}
    (same : first = second → ∀ value, other (change value) = change (other value)) :
    (map.modify first change).modify second other =
      (map.modify second other).modify first change := by
  refine ext_find? fun wanted => ?_
  simp only [find?_modify]
  by_cases isFirst : wanted = first
  · subst isFirst
    by_cases isSecond : wanted = second
    · have one := same isSecond
      subst isSecond
      cases map.find? wanted with
      | none => simp
      | some value => simp [one value]
    · simp [isSecond]
  · simp [isFirst]

end OrdMap

/-! ## What an execution does to one field -/

/-- What an execution that may or may not have happened does to a field. -/
inductive Revision where
  | merge (graph : Graph) (field : FieldRef)
  | forget (field : FieldRef)

namespace Revision

def field : Revision → FieldRef
  | merge _ field => field
  | forget field => field

def apply : Revision → StaticField → StaticField
  | merge graph field, held =>
    if held.value = graph.staticConsensus field held.value then held
    else { held with value := held.value.widen }
  | forget _, held =>
    match held.declared with
    | some type => { held with value := .unknown type }
    | none => held

theorem declared_apply (revision : Revision) (held : StaticField) :
    (revision.apply held).declared = held.declared := by
  cases revision with
  | merge graph field =>
      rw [apply]
      split <;> rfl
  | forget field =>
      rw [apply]
      split <;> rfl

theorem merge_unknown (graph : Graph) (field : FieldRef) (declared : Option TypeDescriptor)
    (type : TypeDescriptor) :
    (merge graph field).apply ⟨declared, .unknown type⟩ = ⟨declared, .unknown type⟩ := by
  rw [apply]
  split <;> rfl

theorem merge_merge (graph other : Graph) (field place : FieldRef) (held : StaticField) :
    (merge graph field).apply ((merge other place).apply held) =
      if held.value = graph.staticConsensus field held.value ∧
          held.value = other.staticConsensus place held.value then held
      else { held with value := held.value.widen } := by
  by_cases agrees : held.value = other.staticConsensus place held.value
  · have kept : (merge other place).apply held = held := if_pos agrees
    rw [kept, apply]
    simp only [agrees.symm, and_true]
  · have widened : (merge other place).apply held = ⟨held.declared, .unknown held.value.type⟩ :=
      if_neg agrees
    rw [widened, merge_unknown, if_neg fun both => agrees both.2]
    rfl

theorem merge_forget (graph : Graph) (field place : FieldRef) (held : StaticField) :
    (merge graph field).apply ((forget place).apply held) =
      (forget place).apply ((merge graph field).apply held) := by
  have sameType := declared_apply (merge graph field) held
  cases known : held.declared with
  | none =>
      have idle : ∀ held : StaticField, held.declared = none →
          (forget place).apply held = held := by
        intro held undeclared
        simp only [apply, undeclared]
      rw [idle held known, idle _ (sameType.trans known)]
  | some type =>
      have forgotten : ∀ held : StaticField, held.declared = some type →
          (forget place).apply held = ⟨some type, .unknown type⟩ := by
        intro held isDeclared
        simp only [apply, isDeclared]
      rw [forgotten held known, forgotten _ (sameType.trans known), merge_unknown]

theorem apply_comm (first second : Revision) (held : StaticField) :
    first.apply (second.apply held) = second.apply (first.apply held) := by
  cases first with
  | merge graph field =>
      cases second with
      | merge other place =>
          rw [merge_merge, merge_merge]
          exact if_congr and_comm rfl rfl
      | forget place => exact merge_forget graph field place held
  | forget place =>
      cases second with
      | merge graph field => exact (merge_forget graph field place held).symm
      | forget other => rfl

end Revision

/-! ## What revisions do to the classes -/

/-- A field of an undefined class, or one of a name that its class declares. -/
def FieldRef.IsDeclared (classes : OrdMap TypeDescriptor ClassDef) (field : FieldRef) : Prop :=
  ∀ definition, classes.find? field.owner = some definition →
    ∃ declared ∈ definition.staticFields, declared.name = field.name

theorem ClassState.declared?_ofDefinition {definition : ClassDef} {declared : FieldDef}
    (inside : declared ∈ definition.staticFields) :
    ((ofDefinition definition).declared? declared.name).isSome := by
  unfold declared? ofDefinition
  simp only [OrdMap.find?_ofList]
  cases last : ((definition.staticFields.map fun field =>
      (field.name, (⟨some field.type, initialValue field⟩ : StaticField))).reverse.find?
        fun entry => entry.1 = declared.name) with
  | none =>
      have absent := List.find?_eq_none.mp last (declared.name, ⟨some declared.type, _⟩)
        (List.mem_reverse.mpr (List.mem_map.mpr ⟨declared, inside, rfl⟩))
      simp at absent
  | some entry =>
      have isEntry := List.mem_reverse.mp (List.mem_of_find?_eq_some last)
      obtain ⟨field, -, rfl⟩ := List.mem_map.mp isEntry
      rfl

namespace Statics

variable {statics : Statics} {classes : OrdMap TypeDescriptor ClassDef} {graph : Graph}
  {field : FieldRef}

def revise (statics : Statics) (revision : Revision) : Statics :=
  statics.modify revision.field.owner fun state =>
    { state with fields := state.fields.modify revision.field.name revision.apply }

theorem revise_comm (statics : Statics) (first second : Revision) :
    (statics.revise first).revise second = (statics.revise second).revise first := by
  refine OrdMap.modify_comm statics fun _ state => ?_
  simp only
  rw [OrdMap.modify_comm state.fields fun _ held => Revision.apply_comm second first held]

/-- The order of revisions does not matter. -/
theorem foldl_revise_perm {revisions others : List Revision} (reordered : revisions.Perm others)
    (statics : Statics) : revisions.foldl revise statics = others.foldl revise statics :=
  reordered.foldl_eq' (fun first _ second _ statics => revise_comm statics first second) statics

def Started (statics : Statics) (classes : OrdMap TypeDescriptor ClassDef) : Prop :=
  ∀ type, Option.Rel (fun definition state => state.initialized = true ∧
    ∀ name, state.declared? name = (ClassState.ofDefinition definition).declared? name)
      (classes.find? type) (statics.find? type)

theorem Started.definition (started : statics.Started classes) {type : TypeDescriptor}
    {state : ClassState} (found : statics.find? type = some state) :
    ∃ definition, classes.find? type = some definition ∧ state.initialized = true ∧
      ∀ name, state.declared? name = (ClassState.ofDefinition definition).declared? name := by
  have here := started type
  rw [found] at here
  cases defined : classes.find? type with
  | none =>
      rw [defined] at here
      cases here
  | some definition =>
      rw [defined] at here
      cases here with
      | some fits => exact ⟨definition, rfl, fits⟩

theorem Started.settled (started : statics.Started classes) (type : TypeDescriptor) :
    statics.Settled type := by
  intro state found
  obtain ⟨_, -, initialized, -⟩ := started.definition found
  exact initialized

theorem Started.held (started : statics.Started classes) (isDeclared : field.IsDeclared classes)
    {state : ClassState} (found : statics.find? field.owner = some state) :
    ∃ type value, state.fields.find? field.name = some ⟨some type, value⟩ := by
  obtain ⟨definition, defined, -, sameFields⟩ := started.definition found
  obtain ⟨declared, inside, named⟩ := isDeclared definition defined
  have present := ClassState.declared?_ofDefinition inside
  rw [named, ← sameFields] at present
  obtain ⟨type, isType⟩ := Option.isSome_iff_exists.mp present
  obtain ⟨⟨other, value⟩, held, rfl⟩ := Option.bind_eq_some_iff.mp isType
  exact ⟨type, value, held⟩

theorem Started.revise (started : statics.Started classes) (revision : Revision) :
    (statics.revise revision).Started classes := by
  intro type
  have here := started type
  rw [Statics.revise, OrdMap.find?_modify]
  split
  · cases defined : classes.find? type with
    | none =>
        rw [defined] at here
        rw [rel_none here]
        exact .none
    | some definition =>
        rw [defined] at here
        obtain ⟨state, found, initialized, sameFields⟩ := rel_some here
        rw [found]
        refine .some ⟨initialized, fun name => ?_⟩
        rw [← sameFields name]
        unfold ClassState.declared?
        simp only [OrdMap.find?_modify]
        split
        · cases state.fields.find? name with
          | none => rfl
          | some held => exact revision.declared_apply held
        · rfl
  · exact here

theorem Started.commitField (started : statics.Started classes)
    (isDeclared : field.IsDeclared classes) :
    commitField graph false statics field = statics.revise (.merge graph field) := by
  refine OrdMap.modify_congr fun state found => ?_
  obtain ⟨type, value, held⟩ := started.held isDeclared found
  have current : state.value? field.name = some value := by rw [ClassState.value?, held]; rfl
  have declared : state.declared? field.name = some type := by
    rw [ClassState.declared?, held]; rfl
  change state.merge field.name (graph.staticConsensus field
    ((state.value? field.name).getD (.unknown field.type))) = _
  rw [current, Option.getD_some, ClassState.merge, current]
  by_cases agrees : value = graph.staticConsensus field value
  · have kept : (Revision.merge graph field).apply ⟨some type, value⟩ = ⟨some type, value⟩ :=
      if_pos agrees
    simp only [if_pos agrees, Revision.field, OrdMap.modify_of_same held kept]
  · have widened : (Revision.merge graph field).apply ⟨some type, value⟩ =
        ⟨some type, value.widen⟩ := if_neg agrees
    have inserted := OrdMap.insert_eq_modify held (Revision.merge graph field).apply
    rw [widened] at inserted
    simp only [if_neg agrees, Revision.field, ← inserted, ClassState.set, declared]

theorem Started.widenField (started : statics.Started classes)
    (isDeclared : field.IsDeclared classes) :
    statics.widenField field = statics.revise (.forget field) := by
  refine OrdMap.modify_congr fun state found => ?_
  obtain ⟨type, value, held⟩ := started.held isDeclared found
  have declared : state.declared? field.name = some type := by
    rw [ClassState.declared?, held]; rfl
  have inserted := OrdMap.insert_eq_modify held (Revision.forget field).apply
  simp only [Revision.field, ← inserted, ClassState.widen, ClassState.set, declared]
  rfl

theorem Started.foldl_revise (started : statics.Started classes)
    (step : Statics → FieldRef → Statics) (revision : FieldRef → Revision)
    (steps : ∀ statics field, Started statics classes → field.IsDeclared classes →
      step statics field = statics.revise (revision field)) {fields : List FieldRef}
    (declared : ∀ field ∈ fields, field.IsDeclared classes) :
    fields.foldl step statics = (fields.map revision).foldl Statics.revise statics := by
  induction fields generalizing statics with
  | nil => rfl
  | cons field rest induction =>
      obtain ⟨here, later⟩ := List.forall_mem_cons.mp declared
      rw [List.foldl_cons, List.map_cons, List.foldl_cons, steps statics field started here]
      exact induction (started.revise _) later

theorem Started.commit (started : statics.Started classes)
    (declared : ∀ field ∈ graph.writtenStatics, field.IsDeclared classes) :
    statics.commit graph false =
      (graph.writtenStatics.map (.merge graph)).foldl Statics.revise statics :=
  started.foldl_revise (Statics.commitField graph false) (.merge graph)
    (fun _ _ started isDeclared => started.commitField isDeclared) declared

theorem Started.giveUp (started : statics.Started classes) (keeps : graph.mayStore = false)
    (declared : ∀ field ∈ graph.staticPuts, field.IsDeclared classes) :
    statics.giveUp graph = (graph.staticPuts.map .forget).foldl Statics.revise statics := by
  rw [giveUp_eq, keeps]
  exact started.foldl_revise Statics.widenField .forget
    (fun _ _ started isDeclared => started.widenField isDeclared) declared

theorem Started.foldl (started : statics.Started classes) (revisions : List Revision) :
    (revisions.foldl Statics.revise statics).Started classes := by
  induction revisions generalizing statics with
  | nil => exact started
  | cons revision rest induction => exact induction (started.revise revision)

end Statics

end Dexplore
