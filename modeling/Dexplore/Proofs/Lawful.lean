import Dexplore.Proofs.Discipline
import Dexplore.Proofs.Evaluation

/-!
# Laws of a whole analysis

A fair law that also allows what happens around instructions is respected by every visit, every
exploration, every class start and every execution of a method, however deep (`callsAt_obey`).
Faults of a visit that was refused are the one exception, and they do not leave the method.
-/

set_option autoImplicit false

namespace Dexplore

/-- A law that allows all that happens to a world, and every fault but the ceilings. -/
structure Law.Upheld (law : Law) : Prop extends law.Fair where
  visiting : ∀ (world : World) method id instruction,
    law.worlds world (world.note (.visiting method id instruction))
  marked : ∀ {world : World} {type : TypeDescriptor} {state : ClassState},
    world.statics.find? type = some state → state.initialized = false →
    law.worlds world (world.marked type)
  executing : ∀ (world : World) method depth,
    law.worlds world (world.note (.executing method depth))
  finished : ∀ (world : World) (graph : Graph) strong, law.worlds world
    ⟨world.statics.commit graph strong, .finished graph.method graph.nodeCount :: world.events⟩
  abandoned : ∀ (world : World) (graph : Graph) cause, law.worlds world
    ⟨world.statics.giveUp graph, .abandoning graph.method cause :: world.events⟩
  invalidAddress : ∀ method address, law.faults (.invalidAddress method address)
  methodNotFound : ∀ descriptor, law.faults (.methodNotFound descriptor)

variable {law : Law} {setup : Setup} {calls : Calls}

theorem Law.Mild.bindParameters (mild : law.Mild) (frame : Frame) (index : Nat)
    (values : List Value) : law.Admits (Program.bindParameters frame index values) := by
  induction values generalizing frame index with
  | nil => exact law.admits_ok _
  | cons value rest induction =>
      exact admits_bind (mild.bindParameter frame index value) fun bound =>
        induction bound (index + 1)

theorem Law.Mild.rootFrame (mild : law.Mild) (program : Program) {descriptor : String}
    (notFound : law.faults (.methodNotFound descriptor)) :
    law.Admits (program.rootFrame descriptor) := by
  unfold Program.rootFrame
  split
  · intro fault failed
    cases failed
    exact notFound
  · simp only
    split
    · exact admits_bind (law.admits_ok _) fun frame => mild.bindParameters frame _ _
    · exact admits_bind (mild.bindReceiver _ _) fun frame => mild.bindParameters frame _ _

theorem Law.Upheld.rootFrame (upheld : law.Upheld) (program : Program) (descriptor : String) :
    law.Admits (program.rootFrame descriptor) :=
  upheld.toMild.rootFrame program (upheld.methodNotFound descriptor)

/-! ## Explorations -/

namespace Exploration

theorem addChildren_obeys (upheld : law.Upheld) (parent : NodeId) (frame : Frame)
    (successors : List Address) (exploration : Exploration) :
    match successors.mapM (addChild parent frame) exploration with
    | .ok _ after => after.world = exploration.world
    | .error fault after => after.world = exploration.world ∧ law.faults fault := by
  induction successors generalizing exploration with
  | nil => rfl
  | cons address rest induction =>
      rw [List.mapM_cons]
      simp only [bind, EStateM.bind]
      cases added : addChild parent frame address exploration with
      | error fault after =>
          unfold addChild at added
          split at added
          · cases added
          · next failed =>
              cases added
              refine ⟨rfl, ?_⟩
              unfold Graph.addClone at failed
              split at failed
              · cases failed
                exact upheld.invalidAddress _ _
              · cases failed
      | ok id middle =>
          have same : middle.world = exploration.world := by
            unfold addChild at added
            split at added
            · cases added
              rfl
            · cases added
          have later := induction middle
          simp only
          cases more : rest.mapM (addChild parent frame) middle with
          | error fault after =>
              rw [more] at later
              exact ⟨later.1.trans same, later.2⟩
          | ok ids after =>
              rw [more] at later
              exact later.trans same

theorem visit_obeys (setup : Setup) (upheld : law.Upheld) (obey : calls.Obey law) (id : NodeId)
    (instruction : Instruction) (exploration : Exploration) :
    match visit setup calls id instruction exploration with
    | .ok _ after => law.worlds exploration.world after.world
    | .error fault after => law.worlds exploration.world after.world ∧ law.faults fault := by
  obtain ⟨graph, world⟩ := exploration
  have noted : law.worlds world (visiting graph world id instruction) :=
    upheld.visiting world graph.method id instruction
  cases framed : (graph.node? id).bind (·.frame) with
  | none =>
      rw [visit_of_noFrame framed]
      exact ⟨noted, upheld.malformed _⟩
  | some frame =>
      obtain ⟨node, found, framed⟩ := Option.bind_eq_some_iff.mp framed
      have allowed := instruction.execute_obeys upheld.toFair setup obey graph.method
        ⟨frame, visiting graph world id instruction⟩
      rw [visit_eq found framed]
      cases ran : instruction.execute setup calls graph.method
          ⟨frame, visiting graph world id instruction⟩ with
      | error fault scene =>
          rw [ran] at allowed
          exact ⟨upheld.world_trans noted allowed.2.1, allowed.2.2⟩
      | ok successors scene =>
          rw [ran] at allowed
          have executed := upheld.world_trans noted allowed.2
          have added := addChildren_obeys upheld id scene.frame successors
            ⟨(graph.recordVisit id.address).setFrame id scene.frame, scene.world⟩
          simp only
          cases more : successors.mapM (addChild id scene.frame)
              ⟨(graph.recordVisit id.address).setFrame id scene.frame, scene.world⟩ with
          | ok ids after =>
              rw [more] at added
              have same : after.world = scene.world := added
              simp only [same]
              exact executed
          | error fault after =>
              rw [more] at added
              have same : after.world = scene.world := added.1
              simp only [same]
              exact ⟨executed, added.2⟩

theorem exploreFrom_obeys (setup : Setup) (upheld : law.Upheld) (obey : calls.Obey law)
    (pending : List NodeId) (allowance : Allowance) (exploration : Exploration) :
    match exploreFrom setup calls pending allowance exploration with
    | .ok _ after => law.worlds exploration.world after.world
    | .error fault after => law.worlds exploration.world after.world ∧
        (law.faults fault ∨ fault.isRecoverable = true) := by
  fun_induction exploreFrom setup calls pending allowance exploration with
  | case1 allowance exploration => exact upheld.world_refl _
  | case2 allowance exploration id rest missing =>
      exact ⟨upheld.world_refl _, .inl (upheld.invalidAddress _ _)⟩
  | case3 allowance exploration id rest instruction present rejected =>
      exact ⟨upheld.world_refl _, .inr rfl⟩
  | case4 allowance exploration id rest instruction present remaining spent fault after failed =>
      have allowed := visit_obeys setup upheld obey id instruction exploration
      rw [failed] at allowed
      exact ⟨allowed.1, .inl allowed.2⟩
  | case5 allowance exploration id rest instruction present remaining spent children middle
      visited induction =>
      have allowed := visit_obeys setup upheld obey id instruction exploration
      rw [visited] at allowed
      split at induction
      · exact upheld.world_trans allowed induction
      · exact ⟨upheld.world_trans allowed induction.1, induction.2⟩

end Exploration

/-! ## Executions -/

def Body.Obeys (law : Law) (body : Body) : Prop :=
  ∀ template frame, Run.Obeys law (body template frame)

namespace Execution

variable {body : Body}

theorem startClass_obeys (upheld : law.Upheld) (obeys : body.Obeys law) (type : TypeDescriptor) :
    Run.Obeys law (startClass setup body type) := by
  intro world
  fun_induction startClass setup body type world with
  | case1 | case7 => exact upheld.world_refl _
  | case2 type world state found fresh marked => exact upheld.marked found fresh
  | case3 type world state found fresh marked descriptor template code fault noFrame =>
      exact ⟨upheld.marked found fresh, upheld.rootFrame _ _ fault noFrame⟩
  | case4 type world state found fresh marked descriptor template code frame isFrame fault
      after failed started =>
      rw [failed] at started
      exact ⟨upheld.world_trans (upheld.marked found fresh) started.1, started.2⟩
  | case5 type world state found fresh marked descriptor template code frame isFrame value
      middle isStarted fault after failed started =>
      rw [isStarted] at started
      have ran := obeys template frame middle
      rw [failed] at ran
      exact ⟨upheld.world_trans (upheld.world_trans (upheld.marked found fresh) started) ran.1,
        ran.2⟩
  | case6 type world state found fresh marked descriptor template code frame isFrame value
      middle isStarted graph after finished started =>
      rw [isStarted] at started
      have ran := obeys template frame middle
      rw [finished] at ran
      exact upheld.world_trans (upheld.world_trans (upheld.marked found fresh) started) ran

theorem callsOf_obey (upheld : law.Upheld) (obeys : body.Obeys law) :
    (callsOf setup body).Obey law where
  start := startClass_obeys upheld obeys
  execute := by
    intro descriptor frame
    simp only [callsOf, executeWith]
    split
    · exact .throw upheld.toMild (upheld.methodNotFound descriptor)
    · exact .bind upheld.toMild (startClass_obeys upheld obeys _) fun _ => obeys _ frame

theorem abandon_obeys (upheld : law.Upheld) (graph : Graph) (cause : Fault) :
    Run.Obeys law (abandon graph cause) :=
  fun world => upheld.abandoned world graph cause

theorem runBody_obeys (upheld : law.Upheld) (obey : calls.Obey law) (depth : Nat) :
    (runBody setup calls depth).Obeys law := by
  intro template frame world
  have noted := upheld.executing world template.method depth
  have explored := Exploration.exploreFrom_obeys setup upheld obey [.root]
    (Allowance.full setup.config (template.setRootFrame frame))
    ⟨template.setRootFrame frame, world.note (.executing template.method depth)⟩
  rw [runBody_eq, Exploration.explore]
  cases ran : Exploration.exploreFrom setup calls [.root]
      (Allowance.full setup.config (template.setRootFrame frame))
      ⟨template.setRootFrame frame, world.note (.executing template.method depth)⟩ with
  | ok value done =>
      rw [ran] at explored
      exact upheld.world_trans (upheld.world_trans noted explored) (upheld.finished _ _ _)
  | error fault done =>
      rw [ran] at explored
      have soFar := upheld.world_trans noted explored.1
      rw [conclude]
      by_cases recoverable : fault.isRecoverable = true
      · rw [if_pos recoverable]
        exact upheld.world_trans soFar (upheld.abandoned _ _ fault)
      · rw [if_neg recoverable]
        exact ⟨soFar, explored.2.resolve_right recoverable⟩

theorem bodyAt_obeys (upheld : law.Upheld) (levels depth : Nat) :
    (bodyAt setup levels depth).Obeys law := by
  induction levels generalizing depth with
  | zero => exact fun template frame => abandon_obeys upheld template _
  | succ levels induction =>
      exact runBody_obeys upheld (callsOf_obey upheld (induction (depth + 1))) (depth + 1)

/-- At every depth, calls respect the laws that are upheld. -/
theorem callsAt_obey (upheld : law.Upheld) (setup : Setup) (depth : Nat) :
    (callsAt setup depth).Obey law :=
  callsOf_obey upheld (bodyAt_obeys upheld _ _)

end Execution

end Dexplore
