import Dexplore.Proofs.Embedding

/-!
# Knowing less loses no path

If an exploration succeeds on a frame, it succeeds on every frame that knows more, and the
second graph embeds in the first.  What the paths of the first graph agree on therefore covers
what the paths of the second have.
-/

set_option autoImplicit false

namespace Dexplore

/-! ## The smaller tree -/

theorem exists_between {α β γ : Type} {P : α → β → Prop} {Q : β → γ → Prop} {all : List α}
    {others : List γ}
    (each : List.Forall₂ (fun item other => ∃ middle, P item middle ∧ Q middle other) all others)
    {some : List α} (among : some.Sublist all) :
    ∃ middles chosen, List.Forall₂ P some middles ∧ chosen.Sublist others ∧
      List.Forall₂ Q middles chosen := by
  induction each generalizing some with
  | nil =>
      cases among
      exact ⟨[], [], .nil, .slnil, .nil⟩
  | cons head _ induction =>
      cases among with
      | cons _ among =>
          obtain ⟨middles, chosen, first, amongOthers, second⟩ := induction among
          exact ⟨middles, chosen, first, amongOthers.cons _, second⟩
      | cons_cons _ among =>
          obtain ⟨middle, start, stop⟩ := head
          obtain ⟨middles, chosen, first, amongOthers, second⟩ := induction among
          exact ⟨middle :: middles, _ :: chosen, .cons start first, amongOthers.cons_cons _,
            .cons stop second⟩

/-! ## What the paths agree on -/

theorem mapM_eq_ok_iff {α β ε : Type} {f : α → Except ε β} {items : List α} {values : List β} :
    items.mapM f = .ok values ↔
      List.Forall₂ (fun item value => f item = .ok value) items values := by
  induction items generalizing values with
  | nil => simp [pure, Except.pure, eq_comm]
  | cons head rest induction =>
      rw [List.mapM_cons, List.forall₂_cons_left_iff]
      cases first : f head with
      | error fault => simp [bind, Except.bind]
      | ok value =>
          cases others : rest.mapM f with
          | error fault =>
              constructor
              · intro run
                cases run
              · rintro ⟨_, later, -, each, -⟩
                rw [induction.mpr each] at others
                cases others
          | ok later =>
              constructor
              · intro run
                cases run
                exact ⟨value, later, rfl, induction.mp others, rfl⟩
              · rintro ⟨_, _, isFirst, each, rfl⟩
                cases isFirst
                rw [induction.mpr each] at others
                cases others
                rfl

theorem exists_forall₂ {α β : Type} {P : α → β → Prop} {items : List α}
    (each : ∀ item ∈ items, ∃ value, P item value) : ∃ values, List.Forall₂ P items values := by
  induction items with
  | nil => exact ⟨[], .nil⟩
  | cons head rest induction =>
      obtain ⟨value, isValue⟩ := each head List.mem_cons_self
      obtain ⟨values, areValues⟩ := induction fun item inside =>
        each item (List.mem_cons_of_mem _ inside)
      exact ⟨value :: values, .cons isValue areValues⟩

namespace Graph

variable {graph : Graph}

theorem exists_node?_of_mem_nodesAt {address : Address} {node : Node}
    (inside : node ∈ graph.nodesAt address) :
    ∃ index, graph.node? ⟨address, index⟩ = some node := by
  unfold nodesAt at inside
  cases found : graph.piles.find? address with
  | none => simp [found] at inside
  | some pile =>
      have inPile : node ∈ pile.nodes := by
        rw [found] at inside
        by_cases atEntry : address = 0
        · simpa [atEntry] using inside
        · exact List.mem_cons_of_mem _ (by simpa [atEntry] using inside)
      obtain ⟨index, isNode⟩ := List.mem_iff_getElem?.mp inPile
      exact ⟨index, by simp [node?, found, isNode]⟩

theorem AllFrames.of_mem_frames {property : Frame → Prop} (all : graph.AllFrames property)
    {addresses : List Address} {frame : Frame} (inside : frame ∈ graph.frames addresses) :
    property frame := by
  obtain ⟨node, isNode, framed⟩ := List.mem_filterMap.mp inside
  obtain ⟨address, -, atAddress⟩ := List.mem_flatMap.mp isNode
  obtain ⟨index, found⟩ := exists_node?_of_mem_nodesAt atAddress
  exact all _ node frame found framed

theorem mem_nodesAt_of_node? {id : NodeId} {node : Node} (found : graph.node? id = some node)
    (first : id.index = 0 → id = .root) : node ∈ graph.nodesAt id.address := by
  obtain ⟨pile, isPile, isNode⟩ := Option.bind_eq_some_iff.mp found
  rw [nodesAt, isPile]
  by_cases atEntry : id.address = 0
  · simpa [atEntry] using List.mem_of_getElem? isNode
  · cases place : id.index with
    | zero => exact absurd (congrArg NodeId.address (first place)) atEntry
    | succ above =>
        rw [place, Pile.nodes, List.getElem?_cons_succ] at isNode
        simpa [atEntry] using List.mem_of_getElem? isNode

theorem IsTree.mem_frames_iff {located : PathTree (NodeId × Frame)}
    (isTree : graph.IsTree located) (addresses : List Address) (frame : Frame) :
    frame ∈ graph.frames addresses ↔ ∃ id node, id.address ∈ addresses ∧
      graph.node? id = some node ∧ node.frame = some frame := by
  rw [frames, List.mem_filterMap]
  constructor
  · rintro ⟨node, inside, framed⟩
    obtain ⟨address, isAddress, atAddress⟩ := List.mem_flatMap.mp inside
    obtain ⟨index, found⟩ := exists_node?_of_mem_nodesAt atAddress
    exact ⟨⟨address, index⟩, node, isAddress, found, framed⟩
  · rintro ⟨id, node, isAddress, found, framed⟩
    have onPath : graph.OnPath id := ⟨node, found, by simp [framed]⟩
    have first := isTree.first id ((isTree.onPath id).mpr onPath)
    exact ⟨node, List.mem_flatMap.mpr ⟨_, isAddress, mem_nodesAt_of_node? found first⟩, framed⟩

theorem consensus_eq_ok_iff {addresses : List Address} {register : Register} {agreed : Value} :
    graph.consensus addresses register = .ok agreed ↔
      ∃ values, List.Forall₂ (fun frame value => Frame.read frame register = .ok value)
        (graph.frames addresses) values ∧
        (Value.agree? values).getD .uninitialized = agreed := by
  unfold consensus
  cases reads : (graph.frames addresses).mapM (fun frame => frame.read register) with
  | error fault =>
      have noValues : ¬ ∃ values, List.Forall₂
          (fun frame value => Frame.read frame register = .ok value)
          (graph.frames addresses) values := by
        rintro ⟨values, each⟩
        rw [mapM_eq_ok_iff.mpr each] at reads
        cases reads
      constructor
      · intro succeeded
        cases succeeded
      · rintro ⟨values, each, -⟩
        exact absurd ⟨values, each⟩ noValues
  | ok values =>
      constructor
      · intro succeeded
        cases succeeded
        exact ⟨values, mapM_eq_ok_iff.mp reads, rfl⟩
      · rintro ⟨others, each, rfl⟩
        rw [mapM_eq_ok_iff.mpr each] at reads
        cases reads
        rfl

/-- What the paths of a graph agree on covers what those of an embedded graph have. -/
theorem Embeds.consensus {fine coarse : Graph} {image : NodeId → NodeId}
    {located located' : PathTree (NodeId × Frame)} (embeds : fine.Embeds coarse image)
    (isTree : fine.IsTree located) (isTree' : coarse.IsTree located')
    {addresses : List Address} {register : Register} {agreed : Value}
    (succeeded : coarse.consensus addresses register = .ok agreed) :
    ∃ sharper, fine.consensus addresses register = .ok sharper ∧
      (∀ frame ∈ fine.frames addresses, ∃ value,
        frame.read register = .ok value ∧ agreed.Covers value) ∧
      (fine.frames addresses ≠ [] → agreed.isKnown = true →
        agreed.Covers sharper ∨ sharper = .unknown agreed.type) ∧
      (fine.frames addresses ≠ [] → agreed.Exact → sharper = agreed) := by
  obtain ⟨values', reads', isAgreed⟩ := consensus_eq_ok_iff.mp succeeded
  have covered : ∀ frame ∈ fine.frames addresses, ∃ value,
      frame.read register = .ok value ∧ agreed.Covers value := by
    intro frame inside
    obtain ⟨id, node, isAddress, found, framed⟩ := (isTree.mem_frames_iff _ _).mp inside
    have onPath : fine.OnPath id := ⟨node, found, by simp [framed]⟩
    obtain ⟨sameAddress, _, node', _, frame', found', framed', imageFound, imageFramed, -,
      covers, -⟩ := embeds.counterpart id onPath
    cases found.symm.trans found'
    cases framed.symm.trans framed'
    have insideCoarse : frame' ∈ coarse.frames addresses :=
      (isTree'.mem_frames_iff _ _).mpr
        ⟨image id, node', sameAddress ▸ isAddress, imageFound, imageFramed⟩
    obtain ⟨index, isInside, rfl⟩ := List.getElem_of_mem insideCoarse
    have readCoarse := reads'.get isInside (reads'.length_eq ▸ isInside)
    obtain ⟨value, readFine, coversValue⟩ := covers.read readCoarse
    refine ⟨value, readFine, ?_⟩
    cases known : agreed.isKnown with
    | false => exact .of_unknown known value
    | true =>
        cases isAgreement : Value.agree? values' with
        | none =>
            rw [isAgreement] at isAgreed
            rw [← isAgreed] at known
            cases known
        | some common =>
            rw [isAgreement] at isAgreed
            cases isAgreed
            have same := Value.eq_of_agree? isAgreement known _
              (List.getElem_mem (reads'.length_eq ▸ isInside))
            exact same ▸ coversValue
  obtain ⟨values, both⟩ := exists_forall₂ covered
  have reads : List.Forall₂ (fun frame value => Frame.read frame register = .ok value)
      (fine.frames addresses) values := both.imp fun _ _ facts => facts.1
  have coversEach : ∀ value ∈ values, agreed.Covers value := by
    intro value inside
    obtain ⟨index, isInside, rfl⟩ := List.getElem_of_mem inside
    exact (both.get (both.length_eq ▸ isInside) isInside).2
  have someValues : fine.frames addresses ≠ [] → values ≠ [] := by
    rintro someFrames rfl
    exact someFrames (List.forall₂_nil_right_iff.mp reads)
  refine ⟨_, consensus_eq_ok_iff.mpr ⟨values, reads, rfl⟩, covered, ?_, ?_⟩
  · intro someFrames known
    obtain ⟨sharper, isSharper, covers⟩ :=
      Value.agree?_of_covers known coversEach (someValues someFrames)
    rw [isSharper]
    exact covers
  · intro someFrames exactly
    have same := Value.agree?_of_eq
      (fun value inside => exactly.eq_of_covers (coversEach value inside)) (someValues someFrames)
    rw [same]
    rfl

end Graph

/-! ## Two runs -/

namespace Machine

variable {machine : Machine} {method : MethodDef} {template : Graph} {fine coarse : Frame}

/-- A frame that knows more has a path tree that embeds in that of a frame that knows less. -/
theorem exists_embedded {code : Graph}
    (stays : ∀ address instruction, code.instruction? address = some instruction →
      instruction.op.Local machine.statics)
    (noStore : ∀ address instruction, code.instruction? address = some instruction →
      ∀ src array index, instruction.op ≠ .arrayPut src array index)
    {address : Address} {tree' : PathTree (Address × Frame)}
    (unfolds : PathTree.Unfolds (machine.pathStep code) address coarse tree')
    (covers : coarse.Covers fine) :
    ∃ tree, PathTree.Unfolds (machine.pathStep code) address fine tree ∧
      PathTree.Embeds (fun label label' => label.1 = label'.1 ∧ label'.2.Covers label.2)
        tree tree' := by
  induction unfolds generalizing fine with
  | @node address coarse after successors branches executed count each induction =>
      obtain ⟨instruction, scene, present, run, rfl⟩ := pathStep_eq_some executed
      have relates : Step.Relates machine.statics Value.Covers
          (fun all some => some.Sublist all)
          (instruction.execute machine.toSetup machine.calls code.method)
          (instruction.execute machine.toSetup machine.calls code.method) :=
        instruction.execute_relates Value.Covers.precision (Execution.callsOf_idle _ _) code.method
          (stays _ _ present) (.inr (noStore _ _ present))
      obtain ⟨-, fewer, scene', run', -, coversAfter, among⟩ := relates covers [] [] _ _ run
      have below : List.Forall₂ (fun target branch => ∃ tree,
          PathTree.Unfolds (machine.pathStep code) target scene'.frame tree ∧
            PathTree.Embeds (fun label label' => label.1 = label'.1 ∧ label'.2.Covers label.2)
              tree branch) successors branches := by
        refine List.forall₂_iff_get.mpr ⟨count, ?_⟩
        intro index inside inside'
        exact induction index _ _ (List.getElem?_eq_getElem inside)
          (List.getElem?_eq_getElem inside') coversAfter
      obtain ⟨trees, chosen, unfoldsEach, amongBranches, embedsEach⟩ := exists_between below among
      exact ⟨_, .of_forall₂ (pathStep_of_ok present run') unfoldsEach,
        .of_forall₂ ⟨rfl, coversAfter⟩ amongBranches embedsEach⟩

theorem explore_embeds (built : Graph.ofMethod method = .ok template)
    (stays : ∀ instruction ∈ method.instructions, instruction.op.Local machine.statics)
    (noStore : ∀ instruction ∈ method.instructions, ∀ src array index,
      instruction.op ≠ .arrayPut src array index)
    (covers : coarse.Covers fine)
    (succeeded : (machine.explore (template.setRootFrame coarse)).1.outcome = .ok ()) :
    (machine.explore (template.setRootFrame fine)).1.outcome = .ok () ∧
      ∃ located located', (machine.explore (template.setRootFrame fine)).2.IsTree located ∧
        (machine.explore (template.setRootFrame coarse)).2.IsTree located' ∧
        PathTree.Embeds (fun label label' => label.1.address = label'.1.address ∧
          label'.2.Covers label.2) located located' := by
  have member : ∀ {address instruction}, template.instruction? address = some instruction →
      instruction ∈ method.instructions := fun present =>
    ((Graph.instruction?_iff_mem built _ _).mp present).1
  obtain ⟨tree', unfolds', within'⟩ := unfolds_of_explore built stays succeeded
  obtain ⟨tree, unfolds, embeds⟩ := exists_embedded
    (fun _ _ present => stays _ (member present))
    (fun _ _ present => noStore _ (member present)) unfolds' covers
  have within : ∀ entrance, (tree.entrances machine.config.budget none).count entrance ≤
      machine.config.maxVisits := fun entrance =>
    Nat.le_trans ((embeds.entrances_sublist (fun _ _ same => same.1) _ none).count_le entrance)
      (within' entrance)
  obtain ⟨-, -, located', isTree', rfl⟩ := explore_of_unfolds built stays unfolds' within'
  obtain ⟨fineSucceeded, -, located, isTree, rfl⟩ := explore_of_unfolds built stays unfolds within
  exact ⟨fineSucceeded, located, located', isTree, isTree', embeds.of_map⟩

/-- An analysis that knows less covers one that knows more. -/
theorem explore_covers (built : Graph.ofMethod method = .ok template)
    (stays : ∀ instruction ∈ method.instructions, instruction.op.Local machine.statics)
    (noStore : ∀ instruction ∈ method.instructions, ∀ src array index,
      instruction.op ≠ .arrayPut src array index)
    (covers : coarse.Covers fine)
    (succeeded : (machine.explore (template.setRootFrame coarse)).1.outcome = .ok ()) :
    (machine.explore (template.setRootFrame fine)).1.outcome = .ok () ∧
    (∃ image, (machine.explore (template.setRootFrame fine)).2.Embeds
      (machine.explore (template.setRootFrame coarse)).2 image) ∧
    ∀ addresses register agreed,
      (machine.explore (template.setRootFrame coarse)).2.consensus addresses register =
        .ok agreed →
      ∃ sharper,
        (machine.explore (template.setRootFrame fine)).2.consensus addresses register =
          .ok sharper ∧
        (∀ frame ∈ (machine.explore (template.setRootFrame fine)).2.frames addresses,
          ∃ value, frame.read register = .ok value ∧ agreed.Covers value) ∧
        ((machine.explore (template.setRootFrame fine)).2.frames addresses ≠ [] →
          (agreed.isKnown = true → agreed.Covers sharper ∨ sharper = .unknown agreed.type) ∧
          (agreed.Exact → sharper = agreed)) := by
  obtain ⟨fineSucceeded, located, located', isTree, isTree', embeds⟩ :=
    explore_embeds built stays noStore covers succeeded
  obtain ⟨image, embedded⟩ := exists_embeds isTree isTree' embeds
  refine ⟨fineSucceeded, ⟨image, embedded⟩, ?_⟩
  intro addresses register agreed isAgreed
  obtain ⟨sharper, isSharper, covered, known, exactly⟩ :=
    embedded.consensus isTree isTree' isAgreed
  exact ⟨sharper, isSharper, covered, fun someFrames =>
    ⟨known someFrames, exactly someFrames⟩⟩

def decidedFrame : Frame := ⟨[.int 0], 1, none, .empty⟩

theorem explore_decidedFrame :
    forkFrame.Covers decidedFrame ∧
      (vacant.explore (forkTemplate.setRootFrame forkFrame)).1.outcome = .ok () ∧
      (vacant.explore (forkTemplate.setRootFrame decidedFrame)).1.outcome = .ok () ∧
      ∃ image, (vacant.explore (forkTemplate.setRootFrame decidedFrame)).2.Embeds
        (vacant.explore (forkTemplate.setRootFrame forkFrame)).2 image := by
  have covers : forkFrame.Covers decidedFrame :=
    ⟨.cons (.unknown _ _) .nil, rfl, .none, fun _ => .none⟩
  have noStore : ∀ instruction ∈ forkMethod.instructions, ∀ src array index,
      instruction.op ≠ .arrayPut src array index := by
    simp [forkMethod, Instruction.ofOp]
  have succeeded := (explore_of_unfolds rfl local_forkMethod unfolds_forkTree within_forkTree).1
  obtain ⟨fineSucceeded, embeds, -⟩ :=
    explore_covers rfl local_forkMethod noStore covers succeeded
  exact ⟨covers, succeeded, fineSucceeded, embeds⟩

end Machine

end Dexplore
