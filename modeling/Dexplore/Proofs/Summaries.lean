import Dexplore.Proofs.Abandonment

/-!
# What a caller takes over from its callee

The paths of a callee that is through end at nodes of its graph, and the caller goes on with what
those ends agree on: the results of the paths that give one back, and the static fields that any
of them carries.  The callee was entered with the static writes of the caller, so the caller
loses none of them.  Afterwards the arguments are forgotten, which makes fields unknown and
changes none (`Machine.calls_summarised`).
-/

set_option autoImplicit false

namespace Dexplore

open Execution Exploration

/-! ## Where paths end -/

namespace Graph

variable {graph : Graph}

/-- A path has got to one of some addresses, and goes on with the given frame. -/
def StandsAt (graph : Graph) (addresses : List Address) (frame : Frame) : Prop :=
  ∃ id node, id.address ∈ addresses ∧ graph.node? id = some node ∧ node.frame = some frame

theorem IsTree.mem_frames_reached_iff {located : PathTree (NodeId × Frame)}
    (isTree : graph.IsTree located) (addresses : List Address) (frame : Frame) :
    frame ∈ graph.frames (addresses.filter graph.isReached) ↔ graph.StandsAt addresses frame := by
  rw [isTree.mem_frames_iff]
  constructor
  · rintro ⟨id, node, isAddress, found, framed⟩
    exact ⟨id, node, (List.mem_filter.mp isAddress).1, found, framed⟩
  · rintro ⟨id, node, isAddress, found, framed⟩
    have onPath : graph.OnPath id := ⟨node, found, by simp [framed]⟩
    have first := isTree.first id ((isTree.onPath id).mpr onPath)
    have reached := isReached_of_node? found first
    exact ⟨id, node, List.mem_filter.mpr ⟨isAddress, reached⟩, found, framed⟩

theorem IsTree.written_of_standsAt {located : PathTree (NodeId × Frame)}
    (isTree : graph.IsTree located) {last : Frame} (isEnd : graph.StandsAt graph.terminating last)
    {field : FieldRef} {value : Value} (carried : last.static? field = some value) :
    field ∈ graph.writtenStatics := by
  rw [mem_writtenStatics_iff]
  exact ⟨last, (isTree.mem_frames_reached_iff _ _).mpr isEnd, by rw [carried]; rfl⟩

/-- Paths agree on a known result exactly if one of them has a result and none has another. -/
theorem returnConsensus_eq_some_iff (graph : Graph) (addresses : List Address) {value : Value}
    (known : value.isKnown = true) :
    graph.returnConsensus addresses = some value ↔
      (∃ frame ∈ graph.frames addresses, frame.result.isSome) ∧
        ∀ frame ∈ graph.frames addresses, ∀ result, frame.result = some result →
          result = value := by
  unfold returnConsensus
  constructor
  · intro agreed
    have same := Value.eq_of_agree? agreed known
    refine ⟨?_, fun frame inside result isResult =>
      same result (List.mem_filterMap.mpr ⟨frame, inside, isResult⟩)⟩
    cases results : (graph.frames addresses).filterMap (·.result) with
    | nil =>
        rw [results] at agreed
        cases agreed
    | cons result rest =>
        have isResult : result ∈ (graph.frames addresses).filterMap (·.result) := by
          simp [results]
        obtain ⟨frame, inside, isResult⟩ := List.mem_filterMap.mp isResult
        exact ⟨frame, inside, by rw [isResult]; rfl⟩
  · rintro ⟨⟨frame, inside, filled⟩, same⟩
    obtain ⟨result, isResult⟩ := Option.isSome_iff_exists.mp filled
    refine Value.agree?_of_eq ?_
      (List.ne_nil_of_mem (List.mem_filterMap.mpr ⟨frame, inside, isResult⟩))
    intro other isOther
    obtain ⟨last, isLast, isOther⟩ := List.mem_filterMap.mp isOther
    exact same last isLast other isOther

end Graph

/-- The nodes of a method that is through hang together, and a path of it has come to an end. -/
theorem Execution.isTree_of_execute {setup : Setup} (consistent : setup.program.Consistent)
    {depth : Nat} {descriptor : String} {frame : Frame} {world after : World} {graph : Graph}
    (executed : (callsAt setup depth).execute descriptor frame world = .ok (some graph) after) :
    (∃ located, graph.IsTree located) ∧ ∃ last, graph.StandsAt graph.terminating last := by
  obtain ⟨template, started, done, code, -, -, explored, rfl, -⟩ := explored_of_execute executed
  obtain ⟨method, -, built⟩ := consistent.template code
  obtain ⟨-, located, isTree, -⟩ := isTree_of_explore built explored
  obtain ⟨node, found, framed⟩ := isTree.holds.node?_of_mem located.label_mem_toList
  obtain ⟨last, lastNode, there, -, ends, foundLast, framedLast, -⟩ :=
    exists_end_of_explore built explored Law.preservation_upheld.toFair
      (callsAt_preserve setup (depth + 1)) found framed
  exact ⟨⟨located, isTree⟩, there, last, lastNode, (List.mem_filter.mp ends).1, foundLast,
    framedLast⟩

/-! ## Outcomes of calls -/

theorem Frame.static?_writeEach (fields : List FieldRef) (value : FieldRef → Value)
    (frame : Frame) (field : FieldRef) :
    ((fields.map fun field => (field, value field)).foldl
      (fun frame write => frame.writeStatic write.1 write.2) frame).static? field =
        if field ∈ fields then some (value field) else frame.static? field := by
  induction fields generalizing frame with
  | nil => rfl
  | cons head rest induction =>
      rw [List.map_cons, List.foldl_cons, induction, static?_writeStatic]
      by_cases later : field ∈ rest
      · simp [later]
      · by_cases here : head = field
        · simp [here]
        · simp [later, here, Ne.symm here]

namespace Invocation

variable {graph : Graph} {located : PathTree (NodeId × Frame)}

theorem result_summarise (isTree : graph.IsTree located) (method : MethodRef) (caller : Frame)
    (statics : Statics) {value : Value} (known : value.isKnown = true) :
    (summarise method caller statics graph).result = some value ↔
      method.result.isVoid = false ∧
        (∃ last, graph.StandsAt graph.returns last ∧ last.result.isSome) ∧
        ∀ last result, graph.StandsAt graph.returns last → last.result = some result →
          result = value := by
  have agreed := graph.returnConsensus_eq_some_iff graph.connectedReturns known
  simp only [Graph.connectedReturns, isTree.mem_frames_reached_iff] at agreed
  simp only [summarise, MethodRef.unknownResult, Graph.connectedReturns]
  cases isVoid : method.result.isVoid with
  | true => simp
  | false =>
      cases given : graph.returnConsensus (graph.returns.filter graph.isReached) with
      | none =>
          rw [given] at agreed
          have unknown : Value.unknown method.result ≠ value := by
            rintro rfl
            cases known
          simp only [Bool.false_eq_true, if_false, Option.map_some, Option.getD_none,
            Option.some.injEq, true_and]
          exact ⟨fun same => absurd same unknown, fun all => nomatch agreed.mpr ⟨all.1,
            fun last stands result => all.2 last result stands⟩⟩
      | some common =>
          rw [given] at agreed
          simp only [Bool.false_eq_true, if_false, Option.map_some, Option.getD_some, true_and]
          rw [agreed]
          exact ⟨fun all => ⟨all.1, fun last result stands => all.2 last stands result⟩,
            fun all => ⟨all.1, fun last stands result => all.2 last result stands⟩⟩

theorem static?_summarise (method : MethodRef) (caller : Frame) (statics : Statics)
    (graph : Graph) (field : FieldRef) :
    let outcome := summarise method caller statics graph
    (outcome.writes.foldl (fun frame write => frame.writeStatic write.1 write.2)
      (caller.withResult outcome.result)).static? field =
        if field ∈ graph.writtenStatics then
          some (graph.staticConsensus field (statics.valueOn caller field))
        else caller.static? field :=
  Frame.static?_writeEach graph.writtenStatics _ _ field

theorem isSome_static?_summarise (method : MethodRef) {caller : Frame} (statics : Statics)
    (graph : Graph) {field : FieldRef} (before : (caller.static? field).isSome) :
    let outcome := summarise method caller statics graph
    ((outcome.writes.foldl (fun frame write => frame.writeStatic write.1 write.2)
      (caller.withResult outcome.result)).static? field).isSome := by
  intro outcome
  rw [static?_summarise]
  split
  · rfl
  · exact before

end Invocation

/-- After its arguments are forgotten, a path still has its result and all its static writes, and
of these only arrays may have become unknown. -/
theorem Step.forgetArguments_kept {program : Program} {args : List Register} {frame : Frame}
    {world : World} {after : Scene} {done : Unit}
    (run : args.forM (forgetArgument program) ⟨frame, world⟩ = .ok done after) :
    after.frame.result = frame.result ∧
      ∀ field value, frame.static? field = some value →
        ∃ held, after.frame.static? field = some held ∧ value.Kept held := by
  obtain ⟨-, sameResult, forgets, -⟩ := forgetArguments_eq_ok run
  refine ⟨sameResult, fun field value written => ?_⟩
  have mild := Law.preservation_upheld.toMild
  have obeys : Obeys Law.preservation (args.forM (forgetArgument program)) :=
    .forM mild args fun register => .forgetArgument mild program register
  have retained : frame.Retains after.frame := by
    have kept := obeys ⟨frame, world⟩
    rw [run] at kept
    exact kept.1
  obtain ⟨held, isHeld⟩ :=
    Option.isSome_iff_exists.mp (retained field (by rw [written]; rfl))
  have kept := forgets field
  rw [Statics.valueOn, Statics.valueOn, written, isHeld] at kept
  exact ⟨held, isHeld, kept⟩

namespace Machine

variable {machine : Machine}

/-- A call of a method that is through goes on at the next instruction.  The path is given a
known result exactly if the callee is to give one, some path of the callee that gives back has a
result, and no such path has another.  A static field that any path of the callee carries to its
end is carried on by the caller, as the same value or as an unknown one; if all of them carry the
same value, the caller has it too, unless it is an array, which may be forgotten.  And the caller
loses no static field that it carried before. -/
theorem calls_summarised (loaded : machine.Loaded) {depth : Nat} {callee : String}
    {entry frame : Frame} {world left : World} {graph : Graph} {instruction : Instruction}
    (asked : instruction.request? machine.program frame = some (.execute callee entry))
    (completed : (callsAt machine.toSetup depth).execute callee entry world =
      .ok (some graph) left)
    (method : String) :
    ∃ kind reference args scene, instruction.op = .invoke kind reference args ∧
      instruction.execute machine.toSetup (callsAt machine.toSetup depth) method
        ⟨frame, world⟩ = .ok [instruction.next] scene ∧
      (∀ value, value.isKnown = true → (scene.frame.result = some value ↔
        reference.result.isVoid = false ∧
          (∃ last, graph.StandsAt graph.returns last ∧ last.result.isSome) ∧
          ∀ last result, graph.StandsAt graph.returns last → last.result = some result →
            result = value)) ∧
      (∀ last field value, graph.StandsAt graph.terminating last →
        last.static? field = some value →
          ∃ held, scene.frame.static? field = some held ∧
            (held = value ∨ held.isKnown = false)) ∧
      (∀ field value, (∀ last, graph.StandsAt graph.terminating last →
        last.static? field = some value) →
          ∃ held, scene.frame.static? field = some held ∧ value.Kept held) ∧
      ∀ field, (frame.static? field).isSome → (scene.frame.static? field).isSome := by
  obtain ⟨scene, ran⟩ := Instruction.execute_of_executed asked completed method
  obtain ⟨kind, reference, args, isCall, asked⟩ := Instruction.call_of_request? asked
  obtain ⟨outcome, _, isOutcome, forgotten⟩ :=
    Step.forget_of_invoke (Instruction.invoke_of_execute isCall ran)
  obtain ⟨-, _, _, -, invoked⟩ := Program.invoke_of_executed asked completed
  cases isOutcome.symm.trans invoked
  obtain ⟨sameResult, kept⟩ := Step.forgetArguments_kept forgotten
  obtain ⟨⟨located, isTree⟩, final, isFinal⟩ := isTree_of_execute loaded.consistent completed
  have ends := isTree.mem_frames_reached_iff graph.terminating
  have written := Invocation.static?_summarise reference frame left.statics graph
  refine ⟨kind, reference, args, scene, isCall, ran, ?_, ?_, ?_, ?_⟩
  · intro value known
    obtain ⟨_, takenOver⟩ := Frame.foldl_writeStatic
      (Invocation.summarise reference frame left.statics graph).writes
      (frame.withResult (Invocation.summarise reference frame left.statics graph).result)
    rw [sameResult, takenOver]
    exact Invocation.result_summarise isTree reference frame left.statics known
  · intro last field value isEnd carried
    obtain ⟨held, isHeld, forgets⟩ := kept field _
      ((written field).trans (if_pos (isTree.written_of_standsAt isEnd carried)))
    refine ⟨held, isHeld, ?_⟩
    cases known : held.isKnown with
    | false => exact .inr rfl
    | true =>
        rcases forgets with rfl | ⟨-, unknown⟩
        · exact .inl (Graph.carried_of_staticConsensus rfl known ((ends last).mpr isEnd)
            carried).symm
        · cases known.symm.trans unknown
  · intro field value all
    have isWritten := isTree.written_of_standsAt isFinal (all final isFinal)
    have agreed := Graph.staticConsensus_of_carried isWritten
      fun last isLast => all last ((ends last).mp isLast)
    refine kept field value ((written field).trans ?_)
    rw [if_pos isWritten, agreed]
  · intro field before
    obtain ⟨carried, isCarried⟩ := Option.isSome_iff_exists.mp
      (Invocation.isSome_static?_summarise reference left.statics graph before)
    obtain ⟨held, isHeld, -⟩ := kept field carried isCarried
    rw [isHeld]
    rfl

/-! A callee that gives back the same number on both its paths and puts a field on one. -/

def pickField : FieldRef := ⟨⟨"LPick;"⟩, "last", .int⟩

def pickMethod : MethodDef where
  reference := ⟨⟨"LPick;"⟩, "pick", [.int], .int⟩
  flags := 8
  registers := 2
  instructions :=
    [.ofOp 0 (.const 0 (.int 7)), .ofOp 3 (.branch .eq 1 none 7),
      .ofOp 5 (.staticPut 0 pickField), .ofOp 7 (.giveBack (some 0))]
  tries := []

def pickClass : ClassDef :=
  ⟨⟨"LPick;"⟩, 0, [⟨"last", .int, 8, none⟩, ⟨"mode", .int, 8, none⟩], [pickMethod]⟩

def pickFrame : Frame :=
  ⟨[.unknown .int], 0, none, .ofList [(⟨⟨"LPick;"⟩, "mode", .int⟩, .int 3)]⟩

def pickCall : Instruction := .ofOp 0 (.invoke .static pickMethod.reference [0])

def pickEntry : Frame :=
  ⟨[.uninitialized, .unknown .int], 1, none, pickFrame.statics⟩

theorem calls_summarised_pick :
    ∃ machine graph left scene, load [pickClass] {} = .ok machine ∧
      pickCall.request? machine.program pickFrame =
        some (.execute pickMethod.descriptor pickEntry) ∧
      (callsAt machine.toSetup machine.callDepth).execute pickMethod.descriptor pickEntry
        machine.world = .ok (some graph) left ∧
      pickCall.execute machine.toSetup (callsAt machine.toSetup machine.callDepth)
        "LApp;->main()V" ⟨pickFrame, machine.world⟩ = .ok [3] scene ∧
      (∀ last result, graph.StandsAt graph.returns last → last.result = some result →
        result = .int 7) ∧
      (scene.frame.static? ⟨⟨"LPick;"⟩, "mode", .int⟩).isSome := by
  cases loaded : load [pickClass] {} with
  | error fault => cases loaded
  | ok machine =>
      have asked : pickCall.request? machine.program pickFrame =
          some (.execute pickMethod.descriptor pickEntry) := by
        cases loaded
        rfl
      have given : (lastState (pickCall.execute machine.toSetup
          (callsAt machine.toSetup machine.callDepth) "LApp;->main()V"
          ⟨pickFrame, machine.world⟩)).frame.result = some (.int 7) := by
        cases loaded
        decide +kernel
      have through : ((machine.executeFrom pickMethod.descriptor pickEntry).outcome.toOption.bind
          id).isSome = true := by
        cases loaded
        decide +kernel
      obtain ⟨graph, isGraph⟩ := Option.isSome_iff_exists.mp through
      have ⟨left, executed⟩ : ∃ left, (callsAt machine.toSetup machine.callDepth).execute
          pickMethod.descriptor pickEntry machine.world = .ok (some graph) left := by
        obtain ⟨result, isResult, rfl⟩ := Option.bind_eq_some_iff.mp isGraph
        exact executeFrom_eq_ok_iff.mp (Except.eq_ok_of_toOption isResult)
      obtain ⟨_, _, _, scene, isCall, ran, results, -, -, kept⟩ :=
        calls_summarised ⟨machine, .load loaded trivial, rfl⟩ asked executed "LApp;->main()V"
      cases isCall
      rw [ran] at given
      obtain ⟨-, -, same⟩ := (results (.int 7) rfl).mp given
      exact ⟨machine, graph, left, scene, rfl, asked, executed, ran, same,
        kept _ (by decide +kernel)⟩

end Machine

end Dexplore
