import Dexplore.Proofs.ExploredTree
import Dexplore.Proofs.Outcomes
import Dexplore.Proofs.Soundness

/-!
# Static writes are not lost

What a path writes to static fields stays written until the path ends, and the ends of the
paths decide what the classes hold afterwards.  A method that may or may not have run leaves a
field known only if it held that value before and every path that wrote the field wrote it
(`Statics.value?_commit`).  Together: `Machine.static_writes_kept`.
-/

set_option autoImplicit false

namespace Dexplore

/-! ## Taking over what a method has written -/

theorem Value.eq_nil_of_agree? {values : List Value} (agreed : Value.agree? values = none) :
    values = [] := by
  cases values with
  | nil => rfl
  | cons first rest =>
      rw [Value.agree?] at agreed
      repeat' split at agreed
      all_goals cases agreed

namespace Graph

theorem mem_inFieldOrder_iff (fields : List FieldRef) (field : FieldRef) :
    field ∈ inFieldOrder fields ↔ field ∈ fields := by
  rw [inFieldOrder, OrdMap.mem_keys_iff, OrdMap.find?_ofList, Option.isSome_map,
    List.find?_isSome]
  simp

theorem mem_writtenStatics_iff (graph : Graph) (field : FieldRef) :
    field ∈ graph.writtenStatics ↔
      ∃ frame ∈ graph.frames graph.connectedTerminating, (frame.static? field).isSome := by
  rw [writtenStatics, mem_inFieldOrder_iff, List.mem_flatMap]
  simp only [OrdMap.mem_keys_iff, Frame.static?]

/-- If the paths agree on a known value of a field, then every path that wrote the field wrote
that value. -/
theorem carried_of_staticConsensus {graph : Graph} {field : FieldRef} {baseline value : Value}
    (agreed : graph.staticConsensus field baseline = value) (known : value.isKnown = true)
    {frame : Frame} (ends : frame ∈ graph.frames graph.connectedTerminating) {carried : Value}
    (written : frame.static? field = some carried) : carried = value := by
  have isValue : carried ∈ (graph.frames graph.connectedTerminating).map fun frame =>
      (frame.static? field).getD baseline :=
    List.mem_map.mpr ⟨frame, ends, by rw [written]; rfl⟩
  rw [staticConsensus] at agreed
  cases agree : Value.agree? ((graph.frames graph.connectedTerminating).map fun frame =>
      (frame.static? field).getD baseline) with
  | none =>
      rw [Value.eq_nil_of_agree? agree] at isValue
      cases isValue
  | some common =>
      rw [agree] at agreed
      cases agreed
      exact Value.eq_of_agree? agree known carried isValue

theorem staticConsensus_of_carried {graph : Graph} {field : FieldRef} {value : Value}
    (written : field ∈ graph.writtenStatics)
    (carried : ∀ last ∈ graph.frames graph.connectedTerminating, last.static? field = some value)
    (baseline : Value) : graph.staticConsensus field baseline = value := by
  obtain ⟨frame, ends, -⟩ := (graph.mem_writtenStatics_iff field).mp written
  have agreed : Value.agree? ((graph.frames graph.connectedTerminating).map fun last =>
      (last.static? field).getD baseline) = some value := by
    refine Value.agree?_of_eq ?_ (List.ne_nil_of_mem (List.mem_map_of_mem ends))
    intro member inside
    obtain ⟨last, isLast, rfl⟩ := List.mem_map.mp inside
    rw [carried last isLast]
    rfl
  rw [staticConsensus, agreed]
  rfl

end Graph

namespace ClassState

variable {state : ClassState} {name : String} {value stored : Value}

theorem value?_merge_of_ne {other : String} (different : name ≠ other) :
    (state.merge name value).value? other = state.value? other := by
  unfold merge
  split
  · split
    · rfl
    · rw [value?_set, if_neg different]
  · rw [value?_set, if_neg different]

/-- After a merge a field is known only if it held the merged value before. -/
theorem value?_merge_of_known (found : (state.merge name value).value? name = some stored)
    (known : stored.isKnown = true) : state.value? name = some stored ∧ value = stored := by
  unfold merge at found
  split at found
  · next current isCurrent =>
      split at found
      · next same =>
          rw [isCurrent] at found
          cases found
          exact ⟨isCurrent, same.symm⟩
      · rw [value?_set, if_pos rfl] at found
        cases found
        cases known
  · rw [value?_set, if_pos rfl] at found
    cases found
    cases known

theorem value?_merge_isSome (state : ClassState) (name : String) (value : Value) :
    ((state.merge name value).value? name).isSome := by
  unfold merge
  split
  · next current isCurrent =>
      split
      · simp [isCurrent]
      · simp
  · simp

end ClassState

namespace Statics

variable (graph : Graph) {owner : TypeDescriptor} (name : String)

theorem value?_commitField (statics : Statics) (field : FieldRef) {before : ClassState}
    (found : statics.find? owner = some before) :
    ∃ after, (commitField graph false statics field).find? owner = some after ∧
      (∀ value, after.value? name = some value → value.isKnown = true →
        before.value? name = some value ∧
          (field.owner = owner → field.name = name →
            graph.staticConsensus field value = value)) ∧
      ((before.value? name).isSome ∨ (field.owner = owner ∧ field.name = name) →
        (after.value? name).isSome) := by
  by_cases atOwner : owner = field.owner
  · subst atOwner
    refine ⟨_, by rw [commitField, OrdMap.find?_modify, if_pos rfl, found]; rfl, ?_⟩
    simp only [Bool.false_eq_true, if_false]
    by_cases named : field.name = name
    · subst named
      refine ⟨?_, fun _ => ClassState.value?_merge_isSome _ _ _⟩
      intro value held known
      obtain ⟨held, agreed⟩ := ClassState.value?_merge_of_known held known
      refine ⟨held, fun _ _ => ?_⟩
      rw [held] at agreed
      exact agreed
    · rw [ClassState.value?_merge_of_ne named]
      refine ⟨fun value held _ => ⟨held, fun _ same => absurd same named⟩, ?_⟩
      rintro (held | ⟨-, same⟩)
      · exact held
      · exact absurd same named
  · refine ⟨before, by rw [commitField, OrdMap.find?_modify, if_neg atOwner, found], ?_, ?_⟩
    · exact fun value held _ => ⟨held, fun same => absurd same.symm atOwner⟩
    · rintro (held | ⟨same, -⟩)
      · exact held
      · exact absurd same.symm atOwner

theorem value?_foldl_commitField (fields : List FieldRef) (statics : Statics)
    {before : ClassState} (found : statics.find? owner = some before) :
    ∃ after, (fields.foldl (commitField graph false) statics).find? owner = some after ∧
      (∀ value, after.value? name = some value → value.isKnown = true →
        before.value? name = some value ∧
          ∀ field ∈ fields, field.owner = owner → field.name = name →
            graph.staticConsensus field value = value) ∧
      ((before.value? name).isSome ∨
          (∃ field ∈ fields, field.owner = owner ∧ field.name = name) →
        (after.value? name).isSome) := by
  induction fields generalizing statics before with
  | nil => exact ⟨before, found, fun value held _ => ⟨held, by simp⟩, by simp⟩
  | cons head rest induction =>
      obtain ⟨middle, foundMiddle, knownMiddle, heldMiddle⟩ :=
        value?_commitField graph name statics head found
      obtain ⟨after, foundAfter, knownAfter, heldAfter⟩ := induction _ foundMiddle
      refine ⟨after, foundAfter, ?_, ?_⟩
      · intro value held known
        obtain ⟨between, agreeRest⟩ := knownAfter value held known
        obtain ⟨start, agreeHead⟩ := knownMiddle value between known
        refine ⟨start, ?_⟩
        intro field inside
        rcases List.mem_cons.mp inside with rfl | later
        · exact agreeHead
        · exact agreeRest field later
      · rintro (held | ⟨field, inside, named⟩)
        · exact heldAfter (.inl (heldMiddle (.inl held)))
        · rcases List.mem_cons.mp inside with rfl | later
          · exact heldAfter (.inl (heldMiddle (.inr named)))
          · exact heldAfter (.inr ⟨field, later, named⟩)

/-- A method that may or may not have run leaves a field that it wrote unknown, or as it was;
in that case every path that wrote the field wrote what it held. -/
theorem value?_commit (statics : Statics) {field : FieldRef} {before : ClassState}
    (found : statics.find? field.owner = some before) (written : field ∈ graph.writtenStatics) :
    ∃ after value, (statics.commit graph false).find? field.owner = some after ∧
      after.value? field.name = some value ∧
      (value.isKnown = true → before.value? field.name = some value ∧
        ∀ frame ∈ graph.frames graph.connectedTerminating, ∀ carried,
          frame.static? field = some carried → carried = value) := by
  obtain ⟨after, foundAfter, knownAfter, heldAfter⟩ :=
    value?_foldl_commitField graph field.name graph.writtenStatics statics found
  obtain ⟨value, held⟩ :=
    Option.isSome_iff_exists.mp (heldAfter (.inr ⟨field, written, rfl, rfl⟩))
  refine ⟨after, value, foundAfter, held, fun known => ?_⟩
  obtain ⟨same, agreed⟩ := knownAfter value held known
  exact ⟨same, fun frame ends carried carries =>
    Graph.carried_of_staticConsensus (agreed field written rfl rfl) known ends carries⟩

end Statics

/-! ## Executions that come to their end -/

open Execution Exploration

theorem Execution.conclude_eq_some {setup : Setup}
    {result : EStateM.Result Fault Exploration Unit} {graph : Graph} {after : World}
    (concluded : conclude setup result = .ok (some graph) after) :
    ∃ done, result = .ok () done ∧ done.graph = graph ∧
      after.statics =
        done.world.statics.commit graph (setup.program.isInitializer graph.method) := by
  cases result with
  | ok value done =>
      cases concluded
      exact ⟨done, rfl, rfl, rfl⟩
  | error fault done =>
      rw [conclude] at concluded
      split at concluded <;> cases concluded

/-- A method that is through has had its class started, a call level, and its code explored. -/
theorem Execution.explored_of_execute {setup : Setup} {depth : Nat} {descriptor : String}
    {frame : Frame} {world after : World} {graph : Graph}
    (executed : (callsAt setup depth).execute descriptor frame world = .ok (some graph) after) :
    ∃ template started done, setup.program.templates.find? descriptor = some template ∧
      (callsAt setup depth).start (classOfDescriptor descriptor) world = .ok () started ∧
      depth < setup.config.maxDepth ∧
      explore setup (callsAt setup (depth + 1))
        ⟨template.setRootFrame frame, entering template depth started⟩ = .ok () done ∧
      done.graph = graph ∧
      after.statics =
        done.world.statics.commit graph (setup.program.isInitializer graph.method) := by
  cases code : setup.program.templates.find? descriptor with
  | none =>
      simp only [callsAt, callsOf, executeWith, code] at executed
      cases executed
  | some template =>
      cases start : (callsAt setup depth).start (classOfDescriptor descriptor) world with
      | error fault failed =>
          rw [execute_of_failed code start] at executed
          cases executed
      | ok value started =>
          by_cases room : depth < setup.config.maxDepth
          · rw [execute_of_room code start room] at executed
            obtain ⟨done, explored, isGraph, committed⟩ := conclude_eq_some executed
            exact ⟨template, started, done, rfl, rfl, room, explored, isGraph, committed⟩
          · rw [execute_of_deep code start (Nat.le_of_not_lt room)] at executed
            cases executed

namespace Machine

variable {machine : Machine} {descriptor : String} {frame : Frame} {graph : Graph}

/-- The execution of a method gets to its end, and has `done` before its writes are taken
over. -/
def Completes (machine : Machine) (descriptor : String) (frame : Frame) (done : Exploration) :
    Prop :=
  ∃ template started, machine.template? descriptor = some template ∧
    machine.calls.start (classOfDescriptor descriptor) machine.world = .ok () started ∧
    machine.callDepth < machine.config.maxDepth ∧
    Exploration.explore machine.toSetup (callsAt machine.toSetup (machine.callDepth + 1))
      ⟨template.setRootFrame frame, entering template machine.callDepth started⟩ = .ok () done

theorem completes_of_executeFrom
    (completed : (machine.executeFrom descriptor frame).outcome = .ok (some graph)) :
    ∃ done, machine.Completes descriptor frame done ∧ done.graph = graph ∧
      (machine.executeFrom descriptor frame).machine.statics =
        done.world.statics.commit graph (machine.program.isInitializer graph.method) := by
  obtain ⟨after, executed⟩ := executeFrom_eq_ok_iff.mp completed
  have afterwards : (machine.executeFrom descriptor frame).machine.statics = after.statics := by
    rw [executeFrom, perform, executed]
    rfl
  obtain ⟨template, started, done, code, start, room, explored, isGraph, committed⟩ :=
    explored_of_execute executed
  exact ⟨done, ⟨template, started, code, start, room, explored⟩, isGraph,
    afterwards.trans committed⟩

/-- No static write of a completed execution is lost. Below every node of the graph lies one
where a path ends that has written every field the node has, so that every field written on
any path counts as written. Of a field that was written, a defined class afterwards holds a
known value only if it held the same value before the writes were taken over, and every path
to its end that wrote the field wrote that value. -/
theorem static_writes_kept (loaded : machine.Loaded)
    (ordinary : machine.program.isInitializer descriptor = false)
    (completed : (machine.executeFrom descriptor frame).outcome = .ok (some graph)) :
    (∀ id node here, graph.node? id = some node → node.frame = some here →
      (∃ last lastNode there, graph.Descends id last ∧ last.address ∈ graph.terminating ∧
        graph.node? last = some lastNode ∧ lastNode.frame = some there ∧
        ∀ field, (here.static? field).isSome → (there.static? field).isSome) ∧
      ∀ field, (here.static? field).isSome → field ∈ graph.writtenStatics) ∧
    ∃ done, machine.Completes descriptor frame done ∧ done.graph = graph ∧
      (machine.executeFrom descriptor frame).machine.statics =
        done.world.statics.commit graph false ∧
      ∀ field ∈ graph.writtenStatics, ∀ before,
        done.world.statics.find? field.owner = some before →
        ∃ after value,
          (machine.executeFrom descriptor frame).machine.classState? field.owner = some after ∧
          after.value? field.name = some value ∧
          (value.isKnown = true → before.value? field.name = some value ∧
            ∀ id node there carried, id.address ∈ graph.terminating →
              graph.node? id = some node → node.frame = some there →
              there.static? field = some carried → carried = value) := by
  obtain ⟨done, completes, rfl, committed⟩ := completes_of_executeFrom completed
  have ⟨template, started, code, _, _, explored⟩ := completes
  obtain ⟨method, foundMethod, built⟩ := loaded.consistent.template code
  obtain ⟨same, located, isTree, -⟩ := isTree_of_explore built explored
  have isMethod : done.graph.method = descriptor :=
    same.method.trans (loaded.consistent.method_of_template code)
  rw [isMethod, ordinary] at committed
  have framesAt := isTree.mem_frames_iff done.graph.connectedTerminating
  refine ⟨?_, done, completes, rfl, committed, ?_⟩
  · intro id node here found framed
    obtain ⟨last, lastNode, there, below, ends, foundLast, framedLast, kept⟩ :=
      exists_end_of_explore built explored Law.preservation_upheld.toFair
        (callsAt_preserve machine.toSetup (machine.callDepth + 1)) found framed
    refine ⟨⟨last, lastNode, there, below, (List.mem_filter.mp ends).1, foundLast, framedLast,
      kept⟩, fun field written => ?_⟩
    rw [Graph.mem_writtenStatics_iff]
    exact ⟨there, (framesAt there).mpr ⟨last, lastNode, ends, foundLast, framedLast⟩,
      kept field written⟩
  · intro field written before found
    obtain ⟨after, value, foundAfter, held, agreed⟩ :=
      Statics.value?_commit done.graph done.world.statics found written
    rw [classState?, committed]
    refine ⟨after, value, foundAfter, held, fun known => ⟨(agreed known).1, ?_⟩⟩
    intro id node there carried ends foundNode framed carries
    have onPath : done.graph.OnPath id := ⟨node, foundNode, by simp [framed]⟩
    have first := isTree.first id ((isTree.onPath id).mpr onPath)
    have reached := Graph.isReached_of_node? foundNode first
    exact (agreed known).2 there ((framesAt there).mpr
      ⟨id, node, List.mem_filter.mpr ⟨ends, reached⟩, foundNode, framed⟩) carried carries

def tallyField : FieldRef := ⟨⟨"LTally;"⟩, "last", .int⟩

def tallyMethod : MethodDef where
  reference := ⟨⟨"LTally;"⟩, "note", [.int], .void⟩
  flags := 8
  registers := 1
  instructions :=
    [.ofOp 0 (.branch .eq 0 none 4), .ofOp 2 (.staticPut 0 tallyField), .ofOp 4 (.giveBack none)]
  tries := []

def tallyClass : ClassDef := ⟨⟨"LTally;"⟩, 0, [⟨"last", .int, 8, none⟩], [tallyMethod]⟩

def tallyFrame : Frame := ⟨[.unknown .int], 1, none, .empty⟩

theorem static_writes_kept_tally :
    ∃ machine graph, load [tallyClass] {} = .ok machine ∧
      machine.program.isInitializer tallyMethod.descriptor = false ∧
      (machine.executeFrom tallyMethod.descriptor tallyFrame).outcome = .ok (some graph) ∧
      tallyField ∈ graph.writtenStatics := by
  cases loaded : load [tallyClass] {} with
  | error fault => cases loaded
  | ok machine =>
      have ordinary : machine.program.isInitializer tallyMethod.descriptor = false := by
        cases loaded
        rfl
      have ran : ((machine.executeFrom tallyMethod.descriptor tallyFrame).outcome.toOption.bind
          id).any (fun graph => ((graph.node? ⟨2, 1⟩).bind (·.frame)).any fun frame =>
            (frame.static? tallyField).isSome) = true := by
        cases loaded
        decide +kernel
      cases outcome : (machine.executeFrom tallyMethod.descriptor tallyFrame).outcome with
      | error fault =>
          rw [outcome] at ran
          cases ran
      | ok result =>
          cases result with
          | none =>
              rw [outcome] at ran
              cases ran
          | some graph =>
              replace ran : ((graph.node? ⟨2, 1⟩).bind (·.frame)).any (fun frame =>
                  (frame.static? tallyField).isSome) = true := by
                rw [outcome] at ran
                exact ran
              cases framed : (graph.node? ⟨2, 1⟩).bind (·.frame) with
              | none =>
                  rw [framed] at ran
                  cases ran
              | some frame =>
                  rw [framed] at ran
                  obtain ⟨node, found, framed⟩ := Option.bind_eq_some_iff.mp framed
                  have kept := (static_writes_kept ⟨machine, .load loaded trivial, rfl⟩ ordinary
                    outcome).1 ⟨2, 1⟩ node frame found framed
                  exact ⟨machine, graph, rfl, ordinary, outcome, kept.2 tallyField ran⟩

end Machine

end Dexplore
