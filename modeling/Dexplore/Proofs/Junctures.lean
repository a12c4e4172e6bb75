import Mathlib.Logic.Relation
import Dexplore.Proofs.History
import Dexplore.Proofs.Outcomes

/-!
# The junctures of an analysis

A juncture is a point at which a class is about to be started, a method about to be executed, or
the nodes that wait about to be visited.  One juncture leads to another if the second lies inside
the first: the initializer inside the start of its class, the code of a method inside its
execution, a request inside the visit that makes it.  No chain of junctures goes on for ever, so
what holds of a juncture once it holds of those that it leads to holds of all of them
(`Juncture.induction`).  In this way what happens to the classes is told by what methods do to
them when they conclude (`Juncture.relates`).
-/

set_option autoImplicit false

namespace Dexplore

open Execution Exploration

/-- A point of an analysis: something is about to be done when `depth` methods have been
entered. -/
inductive Juncture where
  | request (depth : Nat) (wanted : Request) (world : World)
  | explore (depth : Nat) (pending : List NodeId) (allowance : Allowance)
      (exploration : Exploration)

namespace Juncture

def statics : Juncture → Statics
  | request _ _ world => world.statics
  | explore _ _ _ exploration => exploration.world.statics

def finalStatics (setup : Setup) : Juncture → Statics
  | request depth wanted world =>
    (lastState ((callsAt setup depth).ask (some wanted) world)).statics
  | explore depth pending allowance exploration =>
    (lastState (exploreFrom setup (callsAt setup depth) pending allowance
      exploration)).world.statics

/-- One juncture lies directly inside another. -/
inductive Leads (setup : Setup) : Juncture → Juncture → Prop
  | initializer {depth : Nat} {type : TypeDescriptor} {world : World} {state : ClassState}
      {template : Graph} {frame : Frame}
      (found : world.statics.find? type = some state) (fresh : state.initialized = false)
      (code : setup.program.templates.find? (initializerOf type) = some template)
      (isFrame : setup.program.rootFrame (initializerOf type) = .ok frame) :
      Leads setup (.request depth (.start type) world)
        (.request depth (.execute (initializerOf type) frame) (world.marked type))
  | start {depth : Nat} {descriptor : String} {frame : Frame} {world : World} {template : Graph}
      (code : setup.program.templates.find? descriptor = some template) :
      Leads setup (.request depth (.execute descriptor frame) world)
        (.request depth (.start (classOfDescriptor descriptor)) world)
  | enter {depth : Nat} {descriptor : String} {frame : Frame} {world started : World}
      {template : Graph}
      (code : setup.program.templates.find? descriptor = some template)
      (start : (callsAt setup depth).start (classOfDescriptor descriptor) world = .ok () started)
      (room : depth < setup.config.maxDepth) :
      Leads setup (.request depth (.execute descriptor frame) world)
        (.explore (depth + 1) [.root] (.full setup.config (template.setRootFrame frame))
          ⟨template.setRootFrame frame, entering template depth started⟩)
  | ask {depth : Nat} {id : NodeId} {rest : List NodeId} {allowance remaining : Allowance}
      {exploration : Exploration} {instruction : Instruction} {wanted : Request}
      (present : exploration.graph.instruction? id.address = some instruction)
      (spent : allowance.spend? (entranceOf setup.config exploration.graph id) = some remaining)
      (asked : exploration.request? setup id instruction = some wanted) :
      Leads setup (.explore depth (id :: rest) allowance exploration)
        (.request depth wanted (visiting exploration.graph exploration.world id instruction))
  | goOn {depth : Nat} {id : NodeId} {rest children : List NodeId}
      {allowance remaining : Allowance} {exploration after : Exploration}
      {instruction : Instruction}
      (present : exploration.graph.instruction? id.address = some instruction)
      (spent : allowance.spend? (entranceOf setup.config exploration.graph id) = some remaining)
      (visited : visit setup (callsAt setup depth) id instruction exploration =
        .ok children after) :
      Leads setup (.explore depth (id :: rest) allowance exploration)
        (.explore depth (children.reverse ++ rest) remaining after)

abbrev Reaches (setup : Setup) : Juncture → Juncture → Prop :=
  Relation.ReflTransGen (Leads setup)

/-! ## Nothing goes on for ever -/

/-- What is left to be done at a juncture: call levels, then visits, then classes. -/
def rank (setup : Setup) : Juncture → Nat × Nat × Nat
  | request depth (.start _) world =>
    (setup.config.maxDepth - depth, 0, 2 * world.statics.pendingCount)
  | request depth (.execute _ _) world =>
    (setup.config.maxDepth - depth, 0, 2 * world.statics.pendingCount + 1)
  | explore depth _ allowance _ => (setup.config.maxDepth - depth, 1, allowance.total)

theorem rank_request_lt_explore (setup : Setup) (depth : Nat) (wanted : Request) (world : World)
    (pending : List NodeId) (allowance : Allowance) (exploration : Exploration) :
    Prod.Lex (· < ·) (Prod.Lex (· < ·) (· < ·)) (rank setup (.request depth wanted world))
      (rank setup (.explore depth pending allowance exploration)) := by
  cases wanted <;> exact .right _ (.left _ _ Nat.zero_lt_one)

theorem Leads.rank_lt {setup : Setup} {juncture inner : Juncture}
    (leads : Leads setup juncture inner) :
    Prod.Lex (· < ·) (Prod.Lex (· < ·) (· < ·)) (inner.rank setup) (juncture.rank setup) := by
  cases leads with
  | initializer found fresh code isFrame =>
      have fewer := Statics.pendingCount_markInitialized found fresh
      refine .right _ (.right _ ?_)
      simp only [World.marked]
      omega
  | start code => exact .right _ (.right _ (Nat.lt_succ_self _))
  | enter code start room =>
      refine .left _ _ ?_
      omega
  | ask present spent asked => exact rank_request_lt_explore _ _ _ _ _ _ _
  | goOn present spent visited =>
      have fewer := Allowance.total_spend? spent
      refine .right _ (.right _ ?_)
      omega

/-- What is passed on from the junctures inside a juncture to it holds of every juncture. -/
theorem induction {setup : Setup} {motive : Juncture → Prop}
    (step : ∀ juncture, (∀ inner, Leads setup juncture inner → motive inner) → motive juncture)
    (juncture : Juncture) : motive juncture :=
  step juncture fun inner _leads => induction step inner
termination_by juncture.rank setup
decreasing_by exact _leads.rank_lt

end Juncture

/-! ## What is done at a juncture -/

section

variable (setup : Setup) (depth : Nat)

/-- A class start changes nothing, or marks the class and leaves the rest to the initializer. -/
theorem Execution.lastState_start (type : TypeDescriptor) (world : World) :
    lastState ((callsAt setup depth).start type world) = world ∨
      ∃ state, world.statics.find? type = some state ∧ state.initialized = false ∧
        (lastState ((callsAt setup depth).start type world) = world.marked type ∨
          ∃ template frame, setup.program.templates.find? (initializerOf type) = some template ∧
            setup.program.rootFrame (initializerOf type) = .ok frame ∧
            lastState ((callsAt setup depth).start type world) =
              lastState ((callsAt setup depth).execute (initializerOf type) frame
                (world.marked type))) := by
  by_cases settled : world.statics.Settled type
  · rw [start_of_settled setup depth settled]
    exact .inl rfl
  · obtain ⟨state, found, fresh⟩ : ∃ state, world.statics.find? type = some state ∧
        state.initialized = false := by
      simpa [Statics.Settled] using settled
    refine .inr ⟨state, found, fresh, ?_⟩
    have started := startClass_of_fresh setup
      (bodyAt setup (setup.config.maxDepth - depth) depth) found fresh
    simp only [callsAt, callsOf]
    rw [started]
    cases code : setup.program.templates.find? (initializerOf type) with
    | none => exact .inl rfl
    | some template =>
        cases isFrame : setup.program.rootFrame (initializerOf type) with
        | error fault => exact .inl rfl
        | ok frame =>
            refine .inr ⟨template, frame, rfl, rfl, ?_⟩
            simp only
            cases executeWith setup (bodyAt setup (setup.config.maxDepth - depth) depth)
              (initializerOf type) frame (world.marked type) <;> rfl

/-- To execute a method is to start its class and then to give it up or to explore its code. -/
theorem Execution.execute_cases (descriptor : String) (frame : Frame) (world : World) :
    (callsAt setup depth).execute descriptor frame world =
        .error (.methodNotFound descriptor) world ∨
      ∃ template, setup.program.templates.find? descriptor = some template ∧
        ((∃ fault failed, (callsAt setup depth).start (classOfDescriptor descriptor) world =
            .error fault failed ∧
            (callsAt setup depth).execute descriptor frame world = .error fault failed) ∨
          ∃ started, (callsAt setup depth).start (classOfDescriptor descriptor) world =
              .ok () started ∧
            ((callsAt setup depth).execute descriptor frame world =
                abandon template (.callDepth (depth + 1) setup.config.maxDepth) started ∨
              depth < setup.config.maxDepth ∧
                (callsAt setup depth).execute descriptor frame world =
                  conclude setup (explore setup (callsAt setup (depth + 1))
                    ⟨template.setRootFrame frame, entering template depth started⟩))) := by
  cases code : setup.program.templates.find? descriptor with
  | none =>
      refine .inl ?_
      simp only [callsAt, callsOf, executeWith, code]
      rfl
  | some template =>
      refine .inr ⟨template, rfl, ?_⟩
      cases start : (callsAt setup depth).start (classOfDescriptor descriptor) world with
      | error fault failed => exact .inl ⟨fault, failed, rfl, execute_of_failed code start⟩
      | ok value started =>
          refine .inr ⟨started, rfl, ?_⟩
          by_cases room : depth < setup.config.maxDepth
          · exact .inr ⟨room, execute_of_room code start room⟩
          · exact .inl (execute_of_deep code start (Nat.le_of_not_lt room))

end

/-- An exploration stops at once, or visits the first node that waits. -/
theorem Exploration.exploreFrom_cases (setup : Setup) (calls : Calls) (pending : List NodeId)
    (allowance : Allowance) (exploration : Exploration) :
    lastState (exploreFrom setup calls pending allowance exploration) = exploration ∨
      ∃ id rest instruction remaining, pending = id :: rest ∧
        exploration.graph.instruction? id.address = some instruction ∧
        allowance.spend? (entranceOf setup.config exploration.graph id) = some remaining ∧
        ((∃ fault after, visit setup calls id instruction exploration = .error fault after ∧
            exploreFrom setup calls pending allowance exploration = .error fault after) ∨
          ∃ children after, visit setup calls id instruction exploration = .ok children after ∧
            exploreFrom setup calls pending allowance exploration =
              exploreFrom setup calls (children.reverse ++ rest) remaining after) := by
  cases pending with
  | nil =>
      rw [exploreFrom_nil]
      exact .inl rfl
  | cons id rest =>
      cases present : exploration.graph.instruction? id.address with
      | none =>
          rw [exploreFrom_of_noInstruction present]
          exact .inl rfl
      | some instruction =>
          cases spent : allowance.spend? (entranceOf setup.config exploration.graph id) with
          | none =>
              rw [exploreFrom_of_rejected present spent]
              exact .inl rfl
          | some remaining =>
              refine .inr ⟨id, rest, instruction, remaining, rfl, present, spent, ?_⟩
              rw [exploreFrom_of_spent present spent]
              cases visit setup calls id instruction exploration with
              | error fault after => exact .inl ⟨fault, after, rfl, rfl⟩
              | ok children after => exact .inr ⟨children, after, rfl, rfl⟩

/-! ## Instructions leave the rest to their requests -/

section

variable {law : Law} (fair : law.Fair) (setup : Setup) (calls : Calls)

include fair

theorem Instruction.worlds_execute (method : String) (instruction : Instruction) (frame : Frame)
    (world : World) :
    law.worlds (lastState (calls.ask (instruction.request? setup.program frame) world))
      (lastState (instruction.execute setup calls method ⟨frame, world⟩)).world := by
  obtain ⟨rest, obeys, execute⟩ := instruction.execute_eq_ask setup method frame
  rw [execute calls world]
  simp only [bind, EStateM.bind, Step.outside]
  cases calls.ask (instruction.request? setup.program frame) world with
  | error fault after => exact fair.world_refl after
  | ok graph after =>
      have kept := obeys fair.toMild (fun field _ => fair.access field) graph ⟨frame, after⟩
      simp only
      cases ended : rest graph ⟨frame, after⟩ with
      | ok successors scene =>
          rw [ended] at kept
          exact kept.2
      | error fault scene =>
          rw [ended] at kept
          exact kept.2.1

theorem Exploration.worlds_visit (id : NodeId) (instruction : Instruction)
    (exploration : Exploration) :
    law.worlds
      (lastState (calls.ask (exploration.request? setup id instruction)
        (visiting exploration.graph exploration.world id instruction)))
      (lastState (visit setup calls id instruction exploration)).world := by
  obtain ⟨graph, world⟩ := exploration
  cases framed : (graph.node? id).bind (·.frame) with
  | none =>
      rw [visit_of_noFrame framed, Exploration.request?, framed]
      exact fair.world_refl _
  | some frame =>
      rw [Exploration.request?, framed]
      obtain ⟨node, found, framed⟩ := Option.bind_eq_some_iff.mp framed
      have executed := instruction.worlds_execute fair setup calls graph.method frame
        (visiting graph world id instruction)
      rw [visit_eq found framed]
      simp only [Option.bind_some]
      cases ran : instruction.execute setup calls graph.method
          ⟨frame, visiting graph world id instruction⟩ with
      | error fault scene =>
          rw [ran] at executed
          exact executed
      | ok successors scene =>
          rw [ran] at executed
          rewrite [world_addChildren]
          exact executed

end

theorem Instruction.statics_execute (setup : Setup) (calls : Calls) (method : String)
    (instruction : Instruction) (frame : Frame) (world : World) :
    (lastState (instruction.execute setup calls method ⟨frame, world⟩)).world.statics =
      (lastState (calls.ask (instruction.request? setup.program frame) world)).statics :=
  instruction.worlds_execute Law.staticsKept_fair setup calls method frame world

/-- A visit changes the classes only as its request does. -/
theorem Exploration.statics_visit (setup : Setup) (calls : Calls) (id : NodeId)
    (instruction : Instruction) (exploration : Exploration) :
    (lastState (visit setup calls id instruction exploration)).world.statics =
      (lastState (calls.ask (exploration.request? setup id instruction)
        (visiting exploration.graph exploration.world id instruction))).statics :=
  worlds_visit Law.staticsKept_fair setup calls id instruction exploration

/-! ## What becomes of the classes -/

namespace Juncture

/-- What a method does to the classes last, given up or not, is allowed. -/
def Concludes (setup : Setup) (allowed : Statics → Statics → Prop) : Juncture → Prop
  | request depth (.execute descriptor frame) world => ∀ template started,
    setup.program.templates.find? descriptor = some template →
    (callsAt setup depth).start (classOfDescriptor descriptor) world = .ok () started →
    allowed started.statics (started.statics.giveUp template) ∧
      (depth < setup.config.maxDepth →
        allowed
          (lastState (Exploration.explore setup (callsAt setup (depth + 1))
            ⟨template.setRootFrame frame, entering template depth started⟩)).world.statics
          (lastState ((callsAt setup depth).execute descriptor frame world)).statics)
  | _ => True

/-- The classes are changed when they are marked as started and when methods conclude, and never
else. -/
theorem relates {setup : Setup} {allowed : Statics → Statics → Prop}
    (refl : ∀ statics, allowed statics statics)
    (trans : ∀ {before middle after}, allowed before middle → allowed middle after →
      allowed before after)
    (marks : ∀ (statics : Statics) type, allowed statics (statics.markInitialized type))
    (juncture : Juncture)
    (concludes : ∀ inner, Reaches setup juncture inner → inner.Concludes setup allowed) :
    allowed juncture.statics (juncture.finalStatics setup) := by
  induction juncture using @Juncture.induction setup with | step juncture inside
  have related : ∀ inner, Leads setup juncture inner →
      allowed inner.statics (inner.finalStatics setup) :=
    fun inner leads => inside inner leads fun other reaches => concludes other (.head leads reaches)
  have here := concludes juncture .refl
  clear inside concludes
  cases juncture with
  | request depth wanted world =>
      cases wanted with
      | start type =>
          rw [finalStatics, Calls.lastState_ask_start]
          rcases lastState_start setup depth type world with
            same | ⟨state, found, fresh, same | ⟨template, frame, code, isFrame, same⟩⟩
          · rw [same]
            exact refl world.statics
          · rw [same]
            exact marks world.statics type
          · rw [same]
            exact trans (marks world.statics type)
              (related _ (.initializer found fresh code isFrame))
      | execute descriptor frame =>
          simp only [finalStatics, Calls.ask]
          rcases execute_cases setup depth descriptor frame world with
            missing | ⟨template, code, ⟨fault, failed, start, executed⟩ |
              ⟨started, start, executed | ⟨room, executed⟩⟩⟩
          · rw [missing]
            exact refl world.statics
          all_goals
            have starting := related _ (.start code)
            rw [finalStatics, Calls.lastState_ask_start, start] at starting
          · rw [executed]
            exact starting
          · rw [executed]
            exact trans starting (here template started code start).1
          · have exploring := related _ (.enter code start room)
            exact trans starting (trans exploring ((here template started code start).2 room))
  | explore depth pending allowance exploration =>
      rw [finalStatics]
      have visiting : ∀ {id rest instruction remaining}, pending = id :: rest →
          exploration.graph.instruction? id.address = some instruction →
          allowance.spend? (entranceOf setup.config exploration.graph id) = some remaining →
          allowed exploration.world.statics (lastState (visit setup (callsAt setup depth) id
            instruction exploration)).world.statics := by
        rintro id rest instruction remaining rfl present spent
        rw [statics_visit]
        cases asked : exploration.request? setup id instruction with
        | none => exact refl _
        | some wanted => exact related _ (.ask present spent asked)
      rcases exploreFrom_cases setup (callsAt setup depth) pending allowance exploration with
        same | ⟨id, rest, instruction, remaining, rfl, present, spent,
          ⟨fault, after, visited, same⟩ | ⟨children, after, visited, same⟩⟩
      · rw [same]
        exact refl _
      all_goals
        have first := visiting rfl present spent
        rw [visited] at first
        rw [same]
      · exact first
      · exact trans first (related _ (.goOn present spent visited))

end Juncture

end Dexplore
