import Dexplore.Proofs.Forgetting
import Dexplore.Proofs.GraphShape
import Dexplore.Proofs.StaticWrites

/-!
# What is left after a callee was given up

A callee that is given up may have been through with some of its work, or may not have been
entered at all.  Afterwards the fields that its own code puts are unknown, in their classes and
on the path of the caller, and if the callee stores into arrays or calls anything, no static
array is known (`Statics.stored_giveUp`, `Invocation.valueOn_abandoned`).  The puts of the
methods that it calls are not looked for: what they would have made of a field that holds a
scalar stays hidden from the caller (`Machine.statics_after_abandonment`).
-/

set_option autoImplicit false

namespace Dexplore

/-! ## What code can write -/

namespace Graph

variable {graph code : Graph}

theorem mem_staticPuts_iff (graph : Graph) (field : FieldRef) :
    field ∈ graph.staticPuts ↔ ∃ address instruction,
      graph.instruction? address = some instruction ∧
        instruction.op.staticPut? = some field := by
  rw [staticPuts, mem_inFieldOrder_iff, List.mem_filterMap]
  simp only [mem_instructions_iff]
  constructor
  · rintro ⟨instruction, ⟨address, present⟩, puts⟩
    exact ⟨address, instruction, present, puts⟩
  · rintro ⟨address, instruction, present, puts⟩
    exact ⟨instruction, ⟨address, present⟩, puts⟩

theorem mayStore_iff (graph : Graph) :
    graph.mayStore = true ↔ ∃ address instruction,
      graph.instruction? address = some instruction ∧ instruction.op.mayStore = true := by
  rw [mayStore, List.any_eq_true]
  simp only [mem_instructions_iff]
  constructor
  · rintro ⟨instruction, ⟨address, present⟩, stores⟩
    exact ⟨address, instruction, present, stores⟩
  · rintro ⟨address, instruction, present, stores⟩
    exact ⟨instruction, ⟨address, present⟩, stores⟩

theorem SameCode.mem_staticPuts_iff (same : graph.SameCode code) (field : FieldRef) :
    field ∈ graph.staticPuts ↔ field ∈ code.staticPuts := by
  rw [Graph.mem_staticPuts_iff, Graph.mem_staticPuts_iff]
  simp only [same.instruction?]

theorem SameCode.mayStore_iff (same : graph.SameCode code) :
    graph.mayStore = true ↔ code.mayStore = true := by
  rw [Graph.mayStore_iff, Graph.mayStore_iff]
  simp only [same.instruction?]

theorem SameCode.mayStore_eq (same : graph.SameCode code) : graph.mayStore = code.mayStore :=
  Bool.eq_iff_iff.mpr same.mayStore_iff

end Graph

/-- A method can be entered from another one by calls, directly or through further methods. -/
inductive Program.Reaches (program : Program) (callee : String) : String → Prop
  | refl : Reaches program callee callee
  | call {caller : String} {template : Graph} {address : Address} {instruction : Instruction}
      {kind : InvokeKind} {reference : MethodRef} {args : List Register}
      (reached : Reaches program callee caller)
      (code : program.templates.find? caller = some template)
      (present : template.instruction? address = some instruction)
      (calls : instruction.op = .invoke kind reference args) :
      Reaches program callee reference.descriptor

theorem Program.Reaches.mayStore {program : Program} {callee other : String}
    (reaches : program.Reaches callee other) {template : Graph}
    (code : program.templates.find? callee = some template) :
    other = callee ∨ template.mayStore = true := by
  induction reaches with
  | refl => exact .inl rfl
  | @call caller above address instruction kind reference args reached foundAbove present calls
      induction =>
      refine .inr ?_
      rcases induction with rfl | stores
      · cases code.symm.trans foundAbove
        exact (template.mayStore_iff).mpr ⟨address, instruction, present, by rw [calls]; rfl⟩
      · exact stores

/-! ## Classes -/

namespace Statics

variable {statics : Statics} {graph : Graph} {field : FieldRef}

def widenField (statics : Statics) (put : FieldRef) : Statics :=
  statics.modify put.owner fun state => state.widen put.name put.type

def widenAllArrays (statics : Statics) : Statics :=
  statics.mapValues fun _ state => state.widenArrays

theorem giveUp_eq (statics : Statics) (graph : Graph) :
    statics.giveUp graph =
      if graph.mayStore then (graph.staticPuts.foldl widenField statics).widenAllArrays
      else graph.staticPuts.foldl widenField statics := rfl

theorem stored_widenField {put : FieldRef}
    (known : ((statics.widenField put).stored field).isKnown = true) :
    put ≠ field ∧ (statics.widenField put).stored field = statics.stored field := by
  rw [stored, widenField, OrdMap.find?_modify] at known ⊢
  by_cases atOwner : field.owner = put.owner
  · rw [if_pos atOwner] at known ⊢
    rw [stored]
    cases found : statics.find? field.owner with
    | none =>
        rw [found] at known
        cases known
    | some state =>
        rw [found] at known
        simp only [Option.map_some, Option.bind_some, ClassState.widen,
          ClassState.value?_set] at known ⊢
        by_cases named : put.name = field.name
        · rw [if_pos named] at known
          cases known
        · rw [if_neg named]
          exact ⟨fun same => named (congrArg FieldRef.name same), rfl⟩
  · rw [if_neg atOwner]
    exact ⟨fun same => atOwner (congrArg FieldRef.owner same).symm, rfl⟩

theorem stored_foldl_widenField {puts : List FieldRef}
    (known : ((puts.foldl widenField statics).stored field).isKnown = true) :
    field ∉ puts ∧ (puts.foldl widenField statics).stored field = statics.stored field := by
  induction puts generalizing statics with
  | nil => exact ⟨List.not_mem_nil, rfl⟩
  | cons put rest induction =>
      rw [List.foldl_cons] at known ⊢
      obtain ⟨notLater, sameLater⟩ := induction known
      rw [sameLater] at known
      obtain ⟨notNow, sameNow⟩ := stored_widenField known
      refine ⟨?_, sameLater.trans sameNow⟩
      intro inside
      rcases List.mem_cons.mp inside with isPut | later
      · exact notNow isPut.symm
      · exact notLater later

theorem stored_widenAllArrays (known : (statics.widenAllArrays.stored field).isKnown = true) :
    statics.widenAllArrays.stored field = statics.stored field ∧
      (statics.stored field).isMutable = false := by
  rw [stored, widenAllArrays, OrdMap.find?_mapValues] at known ⊢
  rw [stored]
  cases found : statics.find? field.owner with
  | none =>
      rw [found] at known
      cases known
  | some state =>
      rw [found] at known
      simp only [Option.map_some, Option.bind_some, ClassState.value?, ClassState.widenArrays,
        OrdMap.find?_mapValues, Option.map_map] at known ⊢
      cases held : state.fields.find? field.name with
      | none =>
          rw [held] at known
          cases known
      | some entry =>
          rw [held] at known
          simp only [Option.map_some, Function.comp_apply, Option.getD_some] at known ⊢
          split at known
          · cases known
          · next scalar =>
              rw [if_neg scalar]
              exact ⟨rfl, by simpa using scalar⟩

/-- After an execution was given up, a class knows nothing that the code puts, and no array if
the code may store. -/
theorem stored_giveUp (statics : Statics) (graph : Graph) (field : FieldRef) :
    (field ∈ graph.staticPuts → ((statics.giveUp graph).stored field).isKnown = false) ∧
      (graph.mayStore = true → ((statics.giveUp graph).stored field).isMutable = false) := by
  cases known : ((statics.giveUp graph).stored field).isKnown with
  | false => exact ⟨fun _ => rfl, fun _ => Value.isMutable_of_unknown known⟩
  | true =>
      rw [giveUp_eq] at known ⊢
      by_cases stores : graph.mayStore = true
      · rw [if_pos stores] at known ⊢
        obtain ⟨same, scalar⟩ := stored_widenAllArrays known
        rw [same] at known ⊢
        exact ⟨fun isPut => absurd isPut (stored_foldl_widenField known).1, fun _ => scalar⟩
      · rw [if_neg stores] at known
        exact ⟨fun isPut => absurd isPut (stored_foldl_widenField known).1,
          fun may => absurd may stores⟩

end Statics

/-! ## The path of the caller -/

theorem OrdMap.nodup_keys {κ α : Type} [Ord κ] [Std.ReflOrd κ] (map : OrdMap κ α) :
    (map.entries.map Prod.fst).Nodup := by
  rw [List.Nodup, List.pairwise_map]
  exact map.ascending.imp fun below => Entries.ne_of_compare below (by decide)

theorem OrdMap.ofList_of_perm {κ α : Type} [Ord κ] [Std.TransOrd κ] [Std.LawfulEqOrd κ]
    [DecidableEq κ] {map : OrdMap κ α} {order : List (κ × α)}
    (reordered : order.Perm map.entries) : OrdMap.ofList order = map := by
  have distinct : (order.map Prod.fst).Nodup := (reordered.map _).nodup_iff.mpr map.nodup_keys
  refine OrdMap.ext_find? fun key => ?_
  cases found : map.find? key with
  | some value =>
      exact find?_ofList_of_mem distinct
        (reordered.mem_iff.mpr (OrdMap.find?_eq_some_iff.mp found))
  | none =>
      refine Option.eq_none_iff_forall_not_mem.mpr fun value isValue => ?_
      have inside := reordered.mem_iff.mp (mem_of_find?_ofList (Option.mem_def.mp isValue))
      rw [OrdMap.find?_eq_some_iff.mpr inside] at found
      cases found

/-- Writes that come from a map are read before the earlier ones of the path. -/
theorem Frame.static?_writeAll (writes : OrdMap FieldRef Value) (frame : Frame)
    (field : FieldRef) :
    (writes.entries.foldl (fun frame write => frame.writeStatic write.1 write.2)
      frame).static? field = (writes.find? field).or (frame.static? field) := by
  have inserted : ∀ (entries : List (FieldRef × Value)) (frame : Frame),
      (entries.foldl (fun frame write => frame.writeStatic write.1 write.2) frame).statics =
        entries.foldl (fun map entry => map.insert entry.1 entry.2) frame.statics := by
    intro entries frame
    induction entries generalizing frame with
    | nil => rfl
    | cons head rest induction => exact induction _
  rw [static?, inserted, OrdMap.find?_foldl_insert, ← OrdMap.find?_ofList,
    OrdMap.ofList_of_perm (.refl _)]
  rfl

namespace Invocation

variable {template : Graph} {caller : Frame} {field : FieldRef} {value : Value}

theorem find?_puts (fields : List FieldRef) (field : FieldRef) :
    (OrdMap.ofList (fields.map fun put => (put, Value.unknown put.type))).find? field =
      if field ∈ fields then some (.unknown field.type) else none := by
  split
  · next inside =>
      cases found : (OrdMap.ofList (fields.map fun put =>
          (put, Value.unknown put.type))).find? field with
      | some value =>
          obtain ⟨put, -, same⟩ := List.mem_map.mp (OrdMap.mem_of_find?_ofList found)
          cases same
          rfl
      | none =>
          rw [OrdMap.find?_ofList, Option.map_eq_none_iff, List.find?_eq_none] at found
          have absent := found (field, .unknown field.type)
            (List.mem_reverse.mpr (List.mem_map.mpr ⟨field, inside, rfl⟩))
          simp at absent
  · next outside =>
      refine Option.eq_none_iff_forall_not_mem.mpr fun value isValue => outside ?_
      obtain ⟨put, isPut, same⟩ :=
        List.mem_map.mp (OrdMap.mem_of_find?_ofList (Option.mem_def.mp isValue))
      cases same
      exact isPut

theorem find?_arrays (caller : Frame) (field : FieldRef) :
    (OrdMap.ofList ((caller.statics.entries.filter fun entry => entry.2.isMutable).map
      fun entry => (entry.1, entry.2.widen))).find? field =
        ((caller.static? field).filter (·.isMutable)).map Value.widen := by
  have written : ∀ value, (OrdMap.ofList ((caller.statics.entries.filter
      fun entry => entry.2.isMutable).map fun entry => (entry.1, entry.2.widen))).find? field =
        some value → ∃ held, caller.static? field = some held ∧ held.isMutable = true := by
    intro value found
    obtain ⟨⟨other, held⟩, isHeld, same⟩ := List.mem_map.mp (OrdMap.mem_of_find?_ofList found)
    cases same
    obtain ⟨inside, isArray⟩ := List.mem_filter.mp isHeld
    exact ⟨held, OrdMap.find?_eq_some_iff.mpr inside, isArray⟩
  cases held : caller.static? field with
  | none =>
      refine Option.eq_none_iff_forall_not_mem.mpr fun value isValue => ?_
      obtain ⟨_, isHeld, -⟩ := written value isValue
      cases held.symm.trans isHeld
  | some value =>
      by_cases isArray : value.isMutable = true
      · rw [Option.filter_some_pos isArray, Option.map_some]
        apply OrdMap.find?_ofList_of_mem
        · rw [List.map_map]
          exact caller.statics.nodup_keys.sublist (List.filter_sublist.map _)
        · have inside := OrdMap.find?_eq_some_iff.mp held
          exact List.mem_map.mpr ⟨_, List.mem_filter.mpr ⟨inside, isArray⟩, rfl⟩
      · rw [Option.filter_some_neg (Bool.eq_false_iff.mpr isArray), Option.map_none]
        refine Option.eq_none_iff_forall_not_mem.mpr fun other isOther => ?_
        obtain ⟨_, isHeld, isArray'⟩ := written other isOther
        cases held.symm.trans isHeld
        exact isArray isArray'

/-- The fields that the code puts are written, and if the code may store, those that hold an
array on the path. -/
theorem find?_abandonedWrites (template : Graph) (caller : Frame) (field : FieldRef) :
    (abandonedWrites template caller).find? field =
      (if template.mayStore then ((caller.static? field).filter (·.isMutable)).map Value.widen
        else none).or
        (if field ∈ template.staticPuts then some (.unknown field.type) else none) := by
  have folded : ∀ (entries : List (FieldRef × Value)) (writes : OrdMap FieldRef Value),
      entries.foldl (fun writes entry => writes.insert entry.1 entry.2.widen) writes =
        (entries.map fun entry => (entry.1, entry.2.widen)).foldl
          (fun writes entry => writes.insert entry.1 entry.2) writes :=
    fun _ _ => by rw [List.foldl_map]
  unfold abandonedWrites
  by_cases stores : template.mayStore = true
  · simp only [if_pos stores]
    rw [folded, OrdMap.find?_foldl_insert, ← OrdMap.find?_ofList, find?_arrays, find?_puts]
  · rw [if_neg stores, if_neg stores, find?_puts]
    rfl

theorem unknown_of_abandonedWrites
    (written : (abandonedWrites template caller).find? field = some value) :
    value.isKnown = false ∧ (field ∈ template.staticPuts ∨
      ∃ held, caller.static? field = some held ∧ held.isMutable = true) := by
  rw [find?_abandonedWrites] at written
  rcases Option.or_eq_some_iff.mp written with asArray | ⟨-, asPut⟩
  · split at asArray
    · obtain ⟨held, isHeld, rfl⟩ := Option.map_eq_some_iff.mp asArray
      exact ⟨rfl, .inr ⟨held, Option.filter_eq_some_iff.mp isHeld⟩⟩
    · cases asArray
  · split at asPut
    · next isPut =>
        cases asPut
        exact ⟨rfl, .inl isPut⟩
    · cases asPut

theorem kept_of_abandonedWrites
    (unwritten : (abandonedWrites template caller).find? field = none) :
    field ∉ template.staticPuts ∧ (template.mayStore = true →
      ∀ held, caller.static? field = some held → held.isMutable = false) := by
  rw [find?_abandonedWrites] at unwritten
  obtain ⟨noArray, noPut⟩ := Option.or_eq_none_iff.mp unwritten
  constructor
  · intro isPut
    rw [if_pos isPut] at noPut
    cases noPut
  · intro stores held isHeld
    rw [if_pos stores, Option.map_eq_none_iff, isHeld, Option.filter_eq_none_iff] at noArray
    simpa using noArray

/-- What the caller reads after its callee was given up, before it forgets its arguments. -/
theorem valueOn_abandoned (method : MethodRef) (template : Graph) (caller : Frame)
    (statics : Statics) (field : FieldRef) :
    let after := (abandoned method caller template).writes.foldl
      (fun frame write => frame.writeStatic write.1 write.2)
      (caller.withResult (abandoned method caller template).result)
    (field ∈ template.staticPuts → (statics.valueOn after field).isKnown = false) ∧
      (template.mayStore = true → (statics.stored field).isMutable = false →
        (statics.valueOn after field).isMutable = false) ∧
      (field ∉ template.staticPuts →
        (statics.valueOn caller field).Kept (statics.valueOn after field)) := by
  intro after
  have reads : statics.valueOn after field =
      (((abandonedWrites template caller).find? field).or (caller.static? field)).getD
        (statics.stored field) :=
    congrArg (Option.getD · _) (Frame.static?_writeAll _ _ field)
  cases written : (abandonedWrites template caller).find? field with
  | some value =>
      obtain ⟨unknown, why⟩ := unknown_of_abandonedWrites written
      have isValue : statics.valueOn after field = value := by rw [reads, written]; rfl
      rw [isValue]
      refine ⟨fun _ => unknown, fun _ _ => Value.isMutable_of_unknown unknown, ?_⟩
      intro notPut
      obtain ⟨held, isHeld, isArray⟩ := why.resolve_left notPut
      refine .inr ⟨?_, unknown⟩
      rw [Statics.valueOn, isHeld]
      exact isArray
  | none =>
      obtain ⟨notPut, scalar⟩ := kept_of_abandonedWrites written
      have same : statics.valueOn after field = statics.valueOn caller field := by
        rw [reads, written]
        rfl
      rw [same]
      refine ⟨fun isPut => absurd isPut notPut, fun stores inClass => ?_, fun _ => .inl rfl⟩
      rw [Statics.valueOn]
      cases held : caller.static? field with
      | none => exact inClass
      | some value => exact scalar stores value held

end Invocation

/-! ## Executions that are given up -/

namespace Execution

open Exploration

theorem sameCode_explore (setup : Setup) (calls : Calls) {method : MethodDef} {template : Graph}
    (built : Graph.ofMethod method = .ok template) (frame : Frame) (world : World) :
    (lastState (explore setup calls ⟨template.setRootFrame frame, world⟩)).graph.SameCode
      template := by
  rw [explore, ← exploreFor_eq_lastState setup calls _ _ _ (Nat.le_refl _)]
  exact (isTree_exploreFor setup Law.shape_fair calls.obey_shape built frame world _ _).1

/-- Whenever a method is given up, what its code could have written is made unknown last. -/
theorem stored_of_none {setup : Setup} (consistent : setup.program.Consistent) {depth : Nat}
    {descriptor : String} {template : Graph} {frame : Frame} {world after : World}
    (code : setup.program.templates.find? descriptor = some template)
    (gaveUp : (callsAt setup depth).execute descriptor frame world = .ok none after)
    (field : FieldRef) :
    (field ∈ template.staticPuts → (after.statics.stored field).isKnown = false) ∧
      (template.mayStore = true → (after.statics.stored field).isMutable = false) := by
  cases start : (callsAt setup depth).start (classOfDescriptor descriptor) world with
  | error fault failed =>
      rw [execute_of_failed code start] at gaveUp
      cases gaveUp
  | ok done started =>
      by_cases room : depth < setup.config.maxDepth
      · obtain ⟨method, -, built⟩ := consistent.template code
        have same := sameCode_explore setup (callsAt setup (depth + 1)) built frame
          (entering template depth started)
        rw [execute_of_room code start room] at gaveUp
        obtain ⟨fault, stopped, recoverable, failed⟩ := (conclude_eq_none_iff _).mp ⟨_, gaveUp⟩
        rw [failed] at same gaveUp
        rw [conclude, if_pos recoverable] at gaveUp
        cases gaveUp
        rw [← Graph.SameCode.mem_staticPuts_iff same, ← Graph.SameCode.mayStore_iff same]
        exact Statics.stored_giveUp stopped.world.statics stopped.graph field
      · rw [execute_of_deep code start (Nat.le_of_not_lt room)] at gaveUp
        cases gaveUp
        exact Statics.stored_giveUp started.statics template field

end Execution

/-! ## Machines -/

namespace Machine

open Execution

variable {machine : Machine}

/-- After a call of a method that is given up, every field that the code of the method puts is
unknown, on the path of the caller and in its class.  Of a field that any method puts which can
be entered from there by calls, the path reads no known array.  What the path reads for the
fields that the code does not put is what it would read without the call, in the classes as the
callee left them, except that arrays may be forgotten. -/
theorem statics_after_abandonment (loaded : machine.Loaded) {depth : Nat} {callee : String}
    {entry frame : Frame} {world : World} {template : Graph} {instruction : Instruction}
    (gaveUp : GivesUp machine.toSetup depth callee entry world)
    (code : machine.template? callee = some template)
    (asked : instruction.request? machine.program frame = some (.execute callee entry))
    (method : String) :
    ∃ scene, instruction.execute machine.toSetup (callsAt machine.toSetup depth) method
        ⟨frame, world⟩ = .ok [instruction.next] scene ∧
      (∀ field ∈ template.staticPuts,
        (scene.world.statics.valueOn scene.frame field).isKnown = false ∧
        (scene.world.statics.stored field).isKnown = false) ∧
      (∀ other otherTemplate, machine.program.Reaches callee other →
        machine.template? other = some otherTemplate → ∀ field ∈ otherTemplate.staticPuts,
          (scene.world.statics.valueOn scene.frame field).isMutable = false) ∧
      ∀ field, field ∉ template.staticPuts →
        (scene.world.statics.valueOn frame field).Kept
          (scene.world.statics.valueOn scene.frame field) := by
  have consistent := loaded.consistent
  obtain ⟨after, executed⟩ := (givesUp_iff consistent _ _ _ _).mp gaveUp
  obtain ⟨scene, ran⟩ := Instruction.execute_of_none asked executed method
  refine ⟨scene, ran, ?_⟩
  obtain ⟨kind, reference, args, isCall, asked⟩ := Instruction.call_of_request? asked
  obtain ⟨outcome, isOutcome, forgets, -⟩ :=
    Step.invoke_eq_ok (Instruction.invoke_of_execute isCall ran)
  obtain ⟨-, _, own, found, invoked⟩ := Program.invoke_of_none asked executed
  cases code.symm.trans (Program.callee?_eq_some found).2
  cases isOutcome.symm.trans invoked
  have inClass := stored_of_none consistent code executed
  have onPath := Invocation.valueOn_abandoned reference template frame scene.world.statics
  have puts : ∀ field ∈ template.staticPuts,
      (scene.world.statics.valueOn scene.frame field).isKnown = false :=
    fun field isPut => (forgets field).unknown ((onPath field).1 isPut)
  refine ⟨fun field isPut => ⟨puts field isPut, (inClass field).1 isPut⟩, ?_, ?_⟩
  · intro other otherTemplate reaches otherCode field isPut
    -- A method that gets to another one calls something, so it counts as one that stores.
    rcases reaches.mayStore code with rfl | stores
    · cases code.symm.trans otherCode
      exact Value.isMutable_of_unknown (puts field isPut)
    · exact (forgets field).scalar ((onPath field).2.1 stores ((inClass field).2 stores))
  · intro field notPut
    exact ((onPath field).2.2 notPut).trans (forgets field)

/-! A method puts one field itself and leaves another to a method that it calls. -/

def relaySeen : FieldRef := ⟨⟨"LApp;"⟩, "seen", .int⟩

def relayFlag : FieldRef := ⟨⟨"LApp;"⟩, "flag", .int⟩

def storeMethod : MethodDef where
  reference := ⟨⟨"LApp;"⟩, "store", [], .void⟩
  flags := 8
  registers := 1
  instructions :=
    [.ofOp 0 (.const 0 (.int 1)), .ofOp 3 (.staticPut 0 relayFlag), .ofOp 5 (.giveBack none)]
  tries := []

def relayMethod : MethodDef where
  reference := ⟨⟨"LApp;"⟩, "relay", [], .void⟩
  flags := 8
  registers := 1
  instructions :=
    [.ofOp 0 (.const 0 (.int 1)), .ofOp 3 (.staticPut 0 relaySeen),
      .ofOp 5 (.invoke .static storeMethod.reference []), .ofOp 8 (.giveBack none)]
  tries := []

def relayClass : ClassDef :=
  ⟨⟨"LApp;"⟩, 0, [⟨"seen", .int, 8, none⟩, ⟨"flag", .int, 8, none⟩], [relayMethod, storeMethod]⟩

def relayCall : Instruction := .ofOp 0 (.invoke .static relayMethod.reference [])

theorem givesUp_relay {machine : Machine}
    (loaded : load [relayClass] { maxDepth := 1 } = .ok machine) :
    GivesUp machine.toSetup 1 relayMethod.descriptor (.new 1 0) machine.world := by
  have isClass : classOfDescriptor relayMethod.descriptor = ⟨"LApp;"⟩ := by decide +kernel
  have ⟨state, found, fresh⟩ : ∃ state, machine.world.statics.find? ⟨"LApp;"⟩ = some state ∧
      state.initialized = false := by
    cases loaded
    exact ⟨_, rfl, rfl⟩
  have ⟨template, code⟩ : ∃ template,
      machine.program.templates.find? relayMethod.descriptor = some template := by
    cases loaded
    exact ⟨_, rfl⟩
  have noCode : machine.program.templates.find? (initializerOf ⟨"LApp;"⟩) = none := by
    cases loaded
    rfl
  have started := startClass_of_fresh machine.toSetup
    (bodyAt machine.toSetup (machine.config.maxDepth - 1) 1) found fresh
  refine ⟨template, machine.world.marked ⟨"LApp;"⟩, code, ?_, .inl ?_⟩
  · rw [isClass]
    rw [noCode] at started
    exact started
  · cases loaded
    exact Nat.le_refl 1

theorem request?_relayCall {machine : Machine}
    (loaded : load [relayClass] { maxDepth := 1 } = .ok machine) :
    relayCall.request? machine.program (.new 0 0) =
      some (.execute relayMethod.descriptor (.new 1 0)) := by
  cases loaded
  rfl

/-- With one call level the callee is not entered; the field that it puts is unknown. -/
theorem statics_after_abandonment_relay :
    ∃ machine scene, load [relayClass] { maxDepth := 1 } = .ok machine ∧
      relayCall.execute machine.toSetup (callsAt machine.toSetup 1) "LApp;->main()V"
        ⟨.new 0 0, machine.world⟩ = .ok [3] scene ∧
      (scene.world.statics.valueOn scene.frame relaySeen).isKnown = false := by
  cases loaded : load [relayClass] { maxDepth := 1 } with
  | error fault => cases loaded
  | ok machine =>
      have isLoaded : machine.Loaded := ⟨machine, .load loaded trivial, rfl⟩
      have gaveUp := givesUp_relay loaded
      have ⟨template, code, isPut⟩ : ∃ template,
          machine.template? relayMethod.descriptor = some template ∧
            relaySeen ∈ template.staticPuts := by
        cases loaded
        exact ⟨_, rfl, by decide +kernel⟩
      obtain ⟨scene, ran, puts, -⟩ := statics_after_abandonment isLoaded gaveUp code
        (request?_relayCall loaded) "LApp;->main()V"
      exact ⟨machine, scene, rfl, ran, (puts relaySeen isPut).1⟩

/-- The field that the method behind the callee puts keeps its known value. -/
theorem relayed_put_known :
    ∃ machine template, load [relayClass] { maxDepth := 1 } = .ok machine ∧
      GivesUp machine.toSetup 1 relayMethod.descriptor (.new 1 0) machine.world ∧
      machine.program.Reaches relayMethod.descriptor storeMethod.descriptor ∧
      machine.template? storeMethod.descriptor = some template ∧
      relayFlag ∈ template.staticPuts ∧
      ∃ scene, relayCall.execute machine.toSetup (callsAt machine.toSetup 1) "LApp;->main()V"
        ⟨.new 0 0, machine.world⟩ = .ok [3] scene ∧
      scene.world.statics.valueOn scene.frame relayFlag = .int 0 := by
  cases loaded : load [relayClass] { maxDepth := 1 } with
  | error fault => cases loaded
  | ok machine =>
      have gaveUp := givesUp_relay loaded
      have ⟨template, code, isPut⟩ : ∃ template,
          machine.template? storeMethod.descriptor = some template ∧
            relayFlag ∈ template.staticPuts := by
        cases loaded
        exact ⟨_, rfl, by decide +kernel⟩
      have ⟨relay, relayCode, present⟩ : ∃ relay,
          machine.program.templates.find? relayMethod.descriptor = some relay ∧
            relay.instruction? 5 = some (.ofOp 5 (.invoke .static storeMethod.reference [])) := by
        cases loaded
        exact ⟨_, rfl, rfl⟩
      have isLoaded : machine.Loaded := ⟨machine, .load loaded trivial, rfl⟩
      obtain ⟨after, executed⟩ := (givesUp_iff isLoaded.consistent _ _ _ _).mp gaveUp
      obtain ⟨scene, ran⟩ := Instruction.execute_of_none (request?_relayCall loaded) executed
        "LApp;->main()V"
      have keeps : (lastState (relayCall.execute machine.toSetup (callsAt machine.toSetup 1)
          "LApp;->main()V" ⟨.new 0 0, machine.world⟩)).world.statics.valueOn
            (lastState (relayCall.execute machine.toSetup (callsAt machine.toSetup 1)
              "LApp;->main()V" ⟨.new 0 0, machine.world⟩)).frame relayFlag = .int 0 := by
        cases loaded
        decide +kernel
      rw [ran] at keeps
      exact ⟨machine, template, rfl, gaveUp, .call .refl relayCode present rfl, code, isPut,
        scene, ran, keeps⟩

end Machine

end Dexplore
