import Dexplore.Proofs.Outcomes
import Dexplore.Proofs.Unnoticed

/-!
# The record has no influence

Events are recorded and never read.  So whatever is done in a world that recalls earlier events
is what is done in the world that does not, and the earlier events stay at the end of the record
(`Execution.callsAt_recall`).
-/

set_option autoImplicit false

namespace Dexplore

def World.recalling (earlier : List Event) (world : World) : World :=
  { world with events := world.events ++ earlier }

theorem World.recalling_overlooked (earlier : List Event) : Overlooked (recalling earlier) :=
  fun _ _ => rfl

theorem World.recalling_keepsStatics (earlier : List Event) : KeepsStatics (recalling earlier) :=
  fun _ => rfl

abbrev Calls.Recall (earlier : List Event) (calls : Calls) : Prop :=
  calls.Commute (World.recalling earlier)

variable {earlier : List Event} {calls : Calls}

theorem Exploration.exploreFrom_recall (recalls : calls.Recall earlier) (setup : Setup)
    (pending : List NodeId) (allowance : Allowance) :
    Commutes (changed (World.recalling earlier)) (exploreFrom setup calls pending allowance) :=
  fun exploration => exploreFrom_commutes (fun _ => True)
    (fun id instruction exploration _ _ =>
      visit_commutes (World.recalling_overlooked earlier) recalls id instruction
        (fun _ => World.recalling_keepsStatics earlier) exploration)
    (fun _ _ _ _ _ _ _ _ => trivial) pending allowance exploration trivial

namespace Execution

variable {setup : Setup} {body : Body}

theorem executeWith_recall (recalls : ∀ template frame,
      Commutes (World.recalling earlier) (body template frame))
    {descriptor : String} (frame : Frame) {world : World}
    (start : startClass setup body (classOfDescriptor descriptor) (world.recalling earlier) =
      mapState (World.recalling earlier)
        (startClass setup body (classOfDescriptor descriptor) world)) :
    executeWith setup body descriptor frame (world.recalling earlier) =
      mapState (World.recalling earlier) (executeWith setup body descriptor frame world) := by
  unfold executeWith
  cases setup.program.templates.find? descriptor with
  | none => rfl
  | some template =>
      simp only [Bind.bind, EStateM.bind, start]
      cases startClass setup body (classOfDescriptor descriptor) world with
      | error fault after => rfl
      | ok value after => exact recalls template frame after

theorem startClass_recall (recalls : ∀ template frame,
      Commutes (World.recalling earlier) (body template frame)) (type : TypeDescriptor) :
    Commutes (World.recalling earlier) (startClass setup body type) := by
  intro world
  induction pending : world.statics.pendingCount using Nat.strongRecOn
    generalizing type world with
  | ind count induction =>
      by_cases settled : world.statics.Settled type
      · have settledToo : (world.recalling earlier).statics.Settled type := settled
        rw [startClass_of_settled _ _ settled, startClass_of_settled _ _ settledToo]
        rfl
      · obtain ⟨state, found, fresh⟩ : ∃ state, world.statics.find? type = some state ∧
            state.initialized = false := by
          simpa [Statics.Settled] using settled
        have foundToo : (world.recalling earlier).statics.find? type = some state := found
        rw [startClass_of_fresh setup body found fresh,
          startClass_of_fresh setup body foundToo fresh]
        cases setup.program.templates.find? (initializerOf type) with
        | none => rfl
        | some template =>
            cases setup.program.rootFrame (initializerOf type) with
            | error fault => rfl
            | ok frame =>
                have fewer := Statics.pendingCount_markInitialized found fresh
                have executed := executeWith_recall recalls frame (induction
                  (world.marked type).statics.pendingCount (by simp only [World.marked]; omega)
                  (classOfDescriptor (initializerOf type)) (world.marked type) rfl)
                have marked : (world.recalling earlier).marked type =
                    (world.marked type).recalling earlier := rfl
                simp only [marked, executed]
                cases executeWith setup body (initializerOf type) frame (world.marked type) <;> rfl

theorem callsOf_recall (recalls : ∀ template frame,
      Commutes (World.recalling earlier) (body template frame)) :
    (callsOf setup body).Recall earlier where
  start := startClass_recall recalls
  execute descriptor frame world :=
    executeWith_recall recalls frame
      (startClass_recall recalls (classOfDescriptor descriptor) world)

theorem conclude_recall (setup : Setup) (result : EStateM.Result Fault Exploration Unit) :
    conclude setup (mapState (Exploration.changed (World.recalling earlier)) result) =
      mapState (World.recalling earlier) (conclude setup result) := by
  cases result with
  | ok value done => rfl
  | error fault done =>
      rw [mapState, conclude, conclude]
      split <;> rfl

theorem runBody_recall (recalls : calls.Recall earlier) (setup : Setup) (depth : Nat)
    (template : Graph) (frame : Frame) :
    Commutes (World.recalling earlier) (runBody setup calls depth template frame) := by
  intro world
  rw [runBody_eq, runBody_eq, ← conclude_recall]
  exact congrArg (conclude setup) (Exploration.exploreFrom_recall recalls setup [.root]
    (.full setup.config (template.setRootFrame frame))
    ⟨template.setRootFrame frame, world.note (.executing template.method depth)⟩)

theorem bodyAt_recall (setup : Setup) (levels depth : Nat) (template : Graph) (frame : Frame) :
    Commutes (World.recalling earlier) (bodyAt setup levels depth template frame) := by
  induction levels generalizing depth template frame with
  | zero => exact fun world => rfl
  | succ levels induction =>
      exact runBody_recall (callsOf_recall (induction (depth + 1))) setup (depth + 1) template frame

/-- At every depth, calls do the same after earlier events. -/
theorem callsAt_recall (setup : Setup) (depth : Nat) (earlier : List Event) :
    (callsAt setup depth).Recall earlier :=
  callsOf_recall (bodyAt_recall setup _ _)

end Execution

end Dexplore
