import Mathlib.Data.List.Perm.Basic
import Dexplore.Proofs.Abandonment

/-!
# Going through the classes in any order

Three loops go through all classes: forgetting arrays on a path after a store or a call, making
arrays unknown when a method is given up, and loading all classes again.  They are stated here for
classes that come in any order (`Traversal`), together with everything that runs them, and shown
to do what they do in the order of names.  No two classes get in each other's way: a path is
changed by each of them in the fields of that class only (`Statics.hideArray_comm`), and every
class is changed once.
-/

set_option autoImplicit false

namespace Dexplore

/-! ## Loops over a map -/

namespace OrdMap

variable {κ α : Type} [Ord κ] [DecidableEq κ] [Std.TransOrd κ] [Std.LawfulEqOrd κ]

theorem insert_comm (map : OrdMap κ α) {first second : κ} (different : first ≠ second)
    (value other : α) :
    (map.insert first value).insert second other =
      (map.insert second other).insert first value := by
  refine ext_find? fun key => ?_
  simp only [find?_insert]
  by_cases isFirst : first = key
  · rw [if_pos isFirst, if_pos isFirst, if_neg (isFirst ▸ different.symm)]
  · rw [if_neg isFirst, if_neg isFirst]

omit [Std.TransOrd κ] [Std.LawfulEqOrd κ] in
theorem find?_foldl_modify (change : α → α) {keys : List κ} (distinct : keys.Nodup)
    (map : OrdMap κ α) (wanted : κ) :
    (keys.foldl (fun map key => map.modify key change) map).find? wanted =
      if wanted ∈ keys then (map.find? wanted).map change else map.find? wanted := by
  induction keys generalizing map with
  | nil => simp
  | cons key rest induction =>
      obtain ⟨fresh, distinct⟩ := List.nodup_cons.mp distinct
      rw [List.foldl_cons, induction distinct, find?_modify]
      by_cases isKey : wanted = key
      · subst isKey
        simp [fresh]
      · simp [isKey]

/-- Every value is changed, in whatever order the keys come. -/
theorem foldl_modify_eq_mapValues (change : α → α) {map : OrdMap κ α} {order : List (κ × α)}
    (reordered : order.Perm map.entries) :
    order.foldl (fun map entry => map.modify entry.1 change) map =
      map.mapValues fun _ => change := by
  have keys : (order.map Prod.fst).Perm (map.entries.map Prod.fst) := reordered.map _
  refine ext_find? fun wanted => ?_
  rw [← List.foldl_map (f := Prod.fst) (g := fun map key => OrdMap.modify map key change),
    find?_foldl_modify change (keys.nodup_iff.mpr map.nodup_keys), find?_mapValues]
  by_cases inside : wanted ∈ order.map Prod.fst
  · rw [if_pos inside]
  · rw [if_neg inside]
    rw [keys.mem_iff] at inside
    cases found : map.find? wanted with
    | none => rfl
    | some value =>
        exact absurd (List.mem_map_of_mem (f := Prod.fst) (find?_eq_some_iff.mp found)) inside

end OrdMap

/-! ## Hiding arrays -/

theorem Frame.writeStatic_comm (frame : Frame) {first second : FieldRef}
    (different : first ≠ second) (value other : Value) :
    (frame.writeStatic first value).writeStatic second other =
      (frame.writeStatic second other).writeStatic first value :=
  congrArg (fun statics => { frame with statics }) (frame.statics.insert_comm different value other)

namespace Statics

variable (type : TypeDescriptor)

theorem hideArray_comm {first second : TypeDescriptor} (different : first ≠ second) (frame : Frame)
    (entry other : String × StaticField) :
    hideArray type second (hideArray type first frame entry) other =
      hideArray type first (hideArray type second frame other) entry := by
  let field : FieldRef := ⟨first, entry.1, entry.2.declared.getD type⟩
  let place : FieldRef := ⟨second, other.1, other.2.declared.getD type⟩
  have apart : field ≠ place := fun same => different (congrArg FieldRef.owner same)
  -- Whether a class hides its field does not depend on what the other one does.
  by_cases hides : entry.2.value.isArrayOf type = true ∧ frame.static? field = none <;>
    by_cases alsoHides : other.2.value.isArrayOf type = true ∧ frame.static? place = none <;>
    simp [hideArray, field, place, hides, alsoHides, apart, apart.symm, Frame.writeStatic_comm]

def hideArrays (frame : Frame) (state : TypeDescriptor × ClassState) : Frame :=
  state.2.fields.entries.foldl (hideArray type state.1) frame

theorem hideArrays_comm {first second : TypeDescriptor × ClassState}
    (different : first.1 ≠ second.1) (frame : Frame) :
    hideArrays type (hideArrays type frame first) second =
      hideArrays type (hideArrays type frame second) first := by
  -- Each field of the second class passes all fields of the first one.
  have passes : ∀ (frame : Frame) (other : String × StaticField),
      hideArrays type (hideArray type second.1 frame other) first =
        hideArray type second.1 (hideArrays type frame first) other :=
    fun frame other => List.foldl_hom (fun frame => hideArray type second.1 frame other)
      fun frame entry => hideArray_comm type different.symm frame other entry
  exact List.foldl_hom (fun frame => hideArrays type frame first) fun frame other =>
    (passes frame other).symm

theorem foldl_hideArrays {statics : Statics} {order : List (TypeDescriptor × ClassState)}
    (reordered : order.Perm statics.entries) (frame : Frame) :
    order.foldl (hideArrays type) frame = statics.entries.foldl (hideArrays type) frame := by
  refine reordered.foldl_eq' (fun first isFirst second isSecond frame => ?_) frame
  by_cases same : first.1 = second.1
  · have isFirst := OrdMap.find?_eq_some_iff.mpr (reordered.mem_iff.mp isFirst)
    have isSecond := OrdMap.find?_eq_some_iff.mpr (reordered.mem_iff.mp isSecond)
    rw [same, isSecond] at isFirst
    rw [Prod.ext same (Option.some.inj isFirst).symm]
  · exact hideArrays_comm type same frame

end Statics

/-! ## Runs in any order -/

/-- An order for every time that the entries of a map are gone through. It may be another one each
time. -/
structure Traversal where
  order : {α : Type} → List Event → OrdMap TypeDescriptor α → List (TypeDescriptor × α)
  reordered : ∀ {α : Type} (events : List Event) (map : OrdMap TypeDescriptor α),
    (order events map).Perm map.entries

namespace Traversal

variable (traversal : Traversal)

def forgetArrays (world : World) (frame : Frame) (type : TypeDescriptor) : Frame :=
  (traversal.order world.events world.statics).foldl (Statics.hideArrays type)
    (frame.widenStaticArrays type)

def widenAllArrays (events : List Event) (statics : Statics) : Statics :=
  (traversal.order events statics).foldl
    (fun statics state => statics.modify state.1 ClassState.widenArrays) statics

def giveUp (world : World) (graph : Graph) : Statics :=
  let written := graph.staticPuts.foldl Statics.widenField world.statics
  if graph.mayStore then traversal.widenAllArrays world.events written else written

/-- Loads all classes again, class by class, each under its own name. -/
def reload (classes : OrdMap TypeDescriptor ClassDef) : Statics :=
  .ofList ((traversal.order [] classes).map fun entry => (entry.2.name, .ofDefinition entry.2))

/-! ### Instructions -/

def forgetStaticArrays (type : TypeDescriptor) : Step Unit :=
  modify fun scene => { scene with frame := traversal.forgetArrays scene.world scene.frame type }

def arrayPut (src array index : Register) : Step Unit := do
  let stored ← Step.read src
  let target ← Step.read array
  let place ← Step.read index
  Step.write array (target.storeElement place stored)
  Step.modifyFrame fun frame => frame.widenArrays target.type (some array)
  traversal.forgetStaticArrays target.type

def forgetArgument (program : Program) (register : Register) : Step Unit := do
  let value ← Step.read register
  if value.isMutable && !program.isImmutable value.type then do
    Step.write register value.widen
    traversal.forgetStaticArrays value.type

def invoke (program : Program) (calls : Calls) (kind : InvokeKind) (method : MethodRef)
    (args : List Register) : Step Unit := do
  let caller := (← get).frame
  let outcome ← Step.outside (program.invoke calls kind method caller args)
  Step.modifyFrame fun frame => frame.withResult outcome.result
  Step.modifyFrame fun frame =>
    outcome.writes.foldl (fun frame write => frame.writeStatic write.1 write.2) frame
  args.forM (traversal.forgetArgument program)

def execute (setup : Setup) (calls : Calls) (method : String) (instruction : Instruction) :
    Step (List Address) :=
  match instruction.op with
  | .invoke kind callee args => do
    traversal.invoke setup.program calls kind callee args
    return [instruction.next]
  | .arrayPut src array index => do
    traversal.arrayPut src array index
    return [instruction.next]
  | _ => instruction.execute setup calls method

/-! ### Explorations -/

def executeNode (setup : Setup) (calls : Calls) (id : NodeId) (instruction : Instruction)
    (frame : Frame) : Explore (Frame × List Address) := fun exploration =>
  match traversal.execute setup calls exploration.graph.method instruction
      ⟨frame, exploration.world⟩ with
  | .ok successors scene =>
    .ok (scene.frame, successors) ⟨exploration.graph.setFrame id scene.frame, scene.world⟩
  | .error fault scene =>
    .error fault ⟨exploration.graph.setFrame id scene.frame, scene.world⟩

def visit (setup : Setup) (calls : Calls) (id : NodeId) (instruction : Instruction) :
    Explore (List NodeId) := do
  modify fun exploration =>
    { graph := exploration.graph.recordVisit id.address
      world := exploration.world.note (.visiting exploration.graph.method id instruction) }
  let graph := (← get).graph
  match (graph.node? id).bind (·.frame) with
  | none => throw (.malformed (.noFrame id graph.method))
  | some frame =>
    let (frame, successors) ← traversal.executeNode setup calls id instruction frame
    successors.mapM (Exploration.addChild id frame)

def exploreFrom (setup : Setup) (calls : Calls) (pending : List NodeId) (allowance : Allowance)
    (exploration : Exploration) : EStateM.Result Fault Exploration Unit :=
  match pending with
  | [] => .ok () exploration
  | id :: rest =>
    match exploration.graph.instruction? id.address with
    | none => .error (.invalidAddress exploration.graph.method id.address) exploration
    | some instruction =>
      match _spent :
          allowance.spend? (Exploration.entranceOf setup.config exploration.graph id) with
      | none =>
        .error
          (.revisitCeiling exploration.graph.method id.address instruction.op.text
            setup.config.maxVisits)
          exploration
      | some remaining =>
        match traversal.visit setup calls id instruction exploration with
        | .error fault exploration => .error fault exploration
        | .ok children exploration =>
          exploreFrom setup calls (children.reverse ++ rest) remaining exploration
termination_by allowance.total
decreasing_by
  have := Allowance.total_spend? _spent
  omega

def explore (setup : Setup) (calls : Calls) : Explore Unit := fun exploration =>
  traversal.exploreFrom setup calls [.root] (Allowance.full setup.config exploration.graph)
    exploration

/-! ### Executions -/

def abandon (graph : Graph) (cause : Fault) : Run (Option Graph) := do
  modify fun world =>
    { statics := traversal.giveUp world graph
      events := .abandoning graph.method cause :: world.events }
  return none

def runBody (setup : Setup) (calls : Calls) (depth : Nat) : Body := fun template frame => do
  Run.note (.executing template.method depth)
  let world ← get
  match traversal.explore setup calls ⟨template.setRootFrame frame, world⟩ with
  | .ok _ exploration => do
    set exploration.world
    Execution.finish setup exploration.graph
  | .error fault exploration => do
    set exploration.world
    if fault.isRecoverable then traversal.abandon exploration.graph fault else throw fault

def bodyAt (setup : Setup) : (levels depth : Nat) → Body
  | 0, depth, template, _ =>
    traversal.abandon template (.callDepth (depth + 1) setup.config.maxDepth)
  | levels + 1, depth, template, frame =>
    traversal.runBody setup (Execution.callsOf setup (bodyAt setup levels (depth + 1))) (depth + 1)
      template frame

def calls (machine : Machine) : Calls :=
  Execution.callsOf machine.toSetup
    (traversal.bodyAt machine.toSetup (machine.config.maxDepth - machine.callDepth)
      machine.callDepth)

/-! ## The order does not matter -/

theorem forgetArrays_eq (world : World) (frame : Frame) (type : TypeDescriptor) :
    traversal.forgetArrays world frame type = world.statics.forgetArrays frame type :=
  Statics.foldl_hideArrays type (traversal.reordered _ _) _

theorem widenAllArrays_eq (events : List Event) :
    traversal.widenAllArrays events = Statics.widenAllArrays := by
  funext statics
  exact OrdMap.foldl_modify_eq_mapValues _ (traversal.reordered _ _)

theorem giveUp_eq (world : World) (graph : Graph) :
    traversal.giveUp world graph = world.statics.giveUp graph := by
  unfold giveUp
  rewrite [widenAllArrays_eq]
  rfl

theorem forgetStaticArrays_eq : traversal.forgetStaticArrays = Step.forgetStaticArrays := by
  funext type scene
  exact congrArg (fun frame => EStateM.Result.ok () { scene with frame })
    (traversal.forgetArrays_eq scene.world scene.frame type)

theorem arrayPut_eq : traversal.arrayPut = Step.arrayPut := by
  unfold arrayPut
  rewrite [forgetStaticArrays_eq]
  rfl

theorem forgetArgument_eq : traversal.forgetArgument = Step.forgetArgument := by
  unfold forgetArgument
  rewrite [forgetStaticArrays_eq]
  rfl

theorem invoke_eq : traversal.invoke = Step.invoke := by
  unfold invoke
  rewrite [forgetArgument_eq]
  rfl

theorem execute_eq : traversal.execute = Instruction.execute := by
  funext setup calls method instruction
  obtain ⟨address, size, op⟩ := instruction
  cases op with
  | invoke kind callee args =>
      unfold execute
      rewrite [invoke_eq]
      rfl
  | arrayPut src array index =>
      unfold execute
      rewrite [arrayPut_eq]
      rfl
  | _ => rfl

theorem executeNode_eq : traversal.executeNode = Exploration.executeNode := by
  unfold executeNode
  rewrite [execute_eq]
  rfl

theorem visit_eq : traversal.visit = Exploration.visit := by
  unfold visit
  rewrite [executeNode_eq]
  rfl

theorem exploreFrom_eq (setup : Setup) (calls : Calls) (pending : List NodeId)
    (allowance : Allowance) (exploration : Exploration) :
    traversal.exploreFrom setup calls pending allowance exploration =
      Exploration.exploreFrom setup calls pending allowance exploration := by
  fun_induction exploreFrom traversal setup calls pending allowance exploration with
  | case1 allowance exploration => exact (Exploration.exploreFrom_nil _ _ _ _).symm
  | case2 allowance exploration id rest missing =>
      exact (Exploration.exploreFrom_of_noInstruction missing).symm
  | case3 allowance exploration id rest instruction present rejected =>
      exact (Exploration.exploreFrom_of_rejected present rejected).symm
  | case4 allowance exploration id rest instruction present remaining spent fault after failed =>
      rw [visit_eq] at failed
      rw [Exploration.exploreFrom_of_spent present spent, failed]
  | case5 allowance exploration id rest instruction present remaining spent children middle
      visited induction =>
      rw [visit_eq] at visited
      rw [Exploration.exploreFrom_of_spent present spent, visited]
      exact induction

theorem explore_eq : traversal.explore = Exploration.explore := by
  funext setup calls exploration
  exact traversal.exploreFrom_eq setup calls _ _ _

theorem abandon_eq : traversal.abandon = Execution.abandon := by
  funext graph cause world
  exact congrArg (fun statics => EStateM.Result.ok none
    (⟨statics, .abandoning graph.method cause :: world.events⟩ : World))
    (traversal.giveUp_eq world graph)

theorem runBody_eq : traversal.runBody = Execution.runBody := by
  unfold runBody
  rewrite [explore_eq, abandon_eq]
  rfl

theorem bodyAt_eq (setup : Setup) (levels : Nat) :
    traversal.bodyAt setup levels = Execution.bodyAt setup levels := by
  induction levels with
  | zero =>
      funext depth template frame
      rw [bodyAt, abandon_eq, Execution.bodyAt]
  | succ levels induction =>
      funext depth template frame
      rw [bodyAt, runBody_eq, induction, Execution.bodyAt]

/-- Whatever a program calls does the same in every order. -/
theorem calls_eq (machine : Machine) : traversal.calls machine = machine.calls := by
  unfold calls
  rewrite [bodyAt_eq]
  rfl

end Traversal

end Dexplore
