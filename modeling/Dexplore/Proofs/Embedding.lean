import Mathlib.Data.List.Flatten
import Dexplore.Proofs.Covering
import Dexplore.Proofs.MethodPaths

/-!
# Embedding one run in another

A tree embeds in another if its root can be laid on the root of the other and its branches on
some of the branches of the other, in order.  If the graphs of two runs hold such trees, every
node of the first has an image in the second, with the image of its parent as its parent
(`Graph.Embeds`).
-/

set_option autoImplicit false

namespace Dexplore

theorem flatMap_sublist_of_forall₂ {α β γ : Type} {left : α → List γ} {right : β → List γ}
    {items : List α} {others : List β}
    (each : List.Forall₂ (fun item other => (left item).Sublist (right other)) items others) :
    (items.flatMap left).Sublist (others.flatMap right) := by
  induction each with
  | nil => exact .refl _
  | cons head _ induction =>
      rw [List.flatMap_cons, List.flatMap_cons]
      exact head.append induction

namespace PathTree

variable {α β γ δ : Type} {R : α → β → Prop}

/-- The first tree can be laid on the second, where labels are related by `R`. -/
inductive Embeds (R : α → β → Prop) : PathTree α → PathTree β → Prop
  | node {label : α} {label' : β} {branches : List (PathTree α)}
      {chosen branches' : List (PathTree β)} (same : R label label')
      (among : chosen.Sublist branches') (count : branches.length = chosen.length)
      (each : ∀ (index : Nat) branch branch', branches[index]? = some branch →
        chosen[index]? = some branch' → Embeds R branch branch') :
      Embeds R (.node label branches) (.node label' branches')

namespace Embeds

theorem of_forall₂ {label : α} {label' : β} {branches : List (PathTree α)}
    {chosen branches' : List (PathTree β)} (same : R label label')
    (among : chosen.Sublist branches') (each : List.Forall₂ (Embeds R) branches chosen) :
    Embeds R (.node label branches) (.node label' branches') := by
  refine .node same among each.length_eq ?_
  intro index branch branch' isBranch isBranch'
  obtain ⟨inside, rfl⟩ := List.getElem?_eq_some_iff.mp isBranch
  obtain ⟨inside', rfl⟩ := List.getElem?_eq_some_iff.mp isBranch'
  exact each.get inside inside'

theorem recursion {motive : PathTree α → PathTree β → Prop}
    (node : ∀ label label' branches chosen branches', R label label' →
      chosen.Sublist branches' → List.Forall₂ motive branches chosen →
      motive (.node label branches) (.node label' branches'))
    {tree : PathTree α} {tree' : PathTree β} (embeds : Embeds R tree tree') :
    motive tree tree' := by
  induction embeds with
  | @node label label' branches chosen branches' same among count each induction =>
      refine node label label' branches chosen branches' same among ?_
      refine List.forall₂_iff_get.mpr ⟨count, ?_⟩
      intro index inside inside'
      exact induction index _ _ (List.getElem?_eq_getElem inside)
        (List.getElem?_eq_getElem inside')

theorem of_map {S : γ → δ → Prop} {change : α → γ} {change' : β → δ} {tree : PathTree α}
    {tree' : PathTree β} (embeds : Embeds S (tree.map change) (tree'.map change')) :
    Embeds (fun label label' => S (change label) (change' label')) tree tree' := by
  induction tree generalizing tree' with
  | node label branches induction =>
      obtain ⟨label', branches'⟩ := tree'
      rw [map_node, map_node] at embeds
      cases embeds with
      | @node _ _ _ chosen _ same among count each =>
          obtain ⟨origin, amongOrigin, rfl⟩ := List.sublist_map_iff.mp among
          refine .node same amongOrigin (by simpa using count) ?_
          intro index branch branch' isBranch isBranch'
          refine induction branch (List.mem_of_getElem? isBranch) ?_
          exact each index _ _ (by simp [isBranch]) (by simp [isBranch'])

end Embeds

/-- An embedded tree takes no way more often. -/
theorem Embeds.entrances_sublist {R : Address × Frame → Address × Frame → Prop}
    {tree tree' : PathTree (Address × Frame)} (embeds : Embeds R tree tree')
    (sameAddress : ∀ label label', R label label' → label.1 = label'.1) (budget : VisitBudget)
    (origin : Option Address) :
    (tree.entrances budget origin).Sublist (tree'.entrances budget origin) := by
  refine Embeds.recursion (motive := fun tree tree' => ∀ origin,
    (tree.entrances budget origin).Sublist (tree'.entrances budget origin)) ?_ embeds origin
  rintro ⟨address, frame⟩ ⟨address', frame'⟩ branches chosen branches' same among each origin
  obtain rfl : address = address' := sameAddress _ _ same
  have below : (branches.flatMap (entrances budget (some address))).Sublist
      (chosen.flatMap (entrances budget (some address))) :=
    flatMap_sublist_of_forall₂ (each.imp fun _ _ shorter => shorter (some address))
  rw [entrances_node, entrances_node]
  exact (below.trans (among.flatMap _)).cons_cons _

end PathTree

/-! ## Images of nodes -/

structure Graph.Counterpart (fine coarse : Graph) (up : Option NodeId → Option NodeId → Prop)
    (link : NodeId × NodeId) : Prop where
  address : link.2.address = link.1.address
  nodes : ∃ node node' frame frame',
    fine.node? link.1 = some node ∧ node.frame = some frame ∧
    coarse.node? link.2 = some node' ∧ node'.frame = some frame' ∧
    node'.address = node.address ∧ frame'.Covers frame ∧ up node.parent node'.parent

theorem Graph.Counterpart.mono {fine coarse : Graph} {up up' : Option NodeId → Option NodeId → Prop}
    {link : NodeId × NodeId} (counterpart : fine.Counterpart coarse up link)
    (weaker : ∀ parent parent', up parent parent' → up' parent parent') :
    fine.Counterpart coarse up' link := by
  obtain ⟨address, node, node', frame, frame', found, framed, found', framed', same, covers,
    parents⟩ := counterpart
  exact ⟨address, node, node', frame, frame', found, framed, found', framed', same, covers,
    weaker _ _ parents⟩

/-- Pairs of nodes: the parents of a pair are the given ones, or a pair again. -/
def Graph.Linked (fine coarse : Graph) (parent parent' : Option NodeId)
    (links : List (NodeId × NodeId)) : Prop :=
  ∀ link ∈ links, fine.Counterpart coarse
    (fun upper upper' => upper = parent ∧ upper' = parent' ∨
      ∃ up ∈ links, upper = some up.1 ∧ upper' = some up.2) link

namespace Graph.Linked

variable {fine coarse : Graph} {parent parent' : Option NodeId}
  {links others : List (NodeId × NodeId)}

theorem append (linked : fine.Linked coarse parent parent' links)
    (linkedOthers : fine.Linked coarse parent parent' others) :
    fine.Linked coarse parent parent' (links ++ others) := by
  intro link inside
  rcases List.mem_append.mp inside with isFirst | isSecond
  · refine (linked link isFirst).mono fun upper upper' parents => parents.imp_right ?_
    exact fun ⟨up, isUp, parents⟩ => ⟨up, List.mem_append_left _ isUp, parents⟩
  · refine (linkedOthers link isSecond).mono fun upper upper' parents => parents.imp_right ?_
    exact fun ⟨up, isUp, parents⟩ => ⟨up, List.mem_append_right _ isUp, parents⟩

theorem cons {link : NodeId × NodeId}
    (top : fine.Counterpart coarse (fun upper upper' => upper = parent ∧ upper' = parent') link)
    (linked : fine.Linked coarse (some link.1) (some link.2) links) :
    fine.Linked coarse parent parent' (link :: links) := by
  intro other inside
  rcases List.mem_cons.mp inside with rfl | below
  · exact top.mono fun _ _ parents => .inl parents
  · refine (linked other below).mono fun upper upper' parents => .inr ?_
    rcases parents with parents | ⟨up, isUp, parents⟩
    · exact ⟨link, List.mem_cons_self, parents⟩
    · exact ⟨up, List.mem_cons_of_mem _ isUp, parents⟩

end Graph.Linked

section Links

variable {fine coarse : Graph}

theorem exists_linked_forest {parent parent' : Option NodeId}
    {trees trees' : List (PathTree (NodeId × Frame))}
    (each : List.Forall₂ (fun tree tree' => ∃ links, links.map Prod.fst = tree.ids ∧
      (links.map Prod.snd).Sublist tree'.ids ∧ fine.Linked coarse parent parent' links)
      trees trees') :
    ∃ links, links.map Prod.fst = trees.flatMap PathTree.ids ∧
      (links.map Prod.snd).Sublist (trees'.flatMap PathTree.ids) ∧
      fine.Linked coarse parent parent' links := by
  induction each with
  | nil => exact ⟨[], rfl, .refl _, by simp [Graph.Linked]⟩
  | cons head _ induction =>
      obtain ⟨links, names, images, linked⟩ := head
      obtain ⟨others, otherNames, otherImages, linkedOthers⟩ := induction
      refine ⟨links ++ others, ?_, ?_, linked.append linkedOthers⟩
      · rw [List.map_append, names, otherNames, List.flatMap_cons]
      · rw [List.map_append, List.flatMap_cons]
        exact images.append otherImages

/-- The nodes of an embedded tree have counterparts in the other tree. -/
theorem exists_linked {located located' : PathTree (NodeId × Frame)}
    (embeds : PathTree.Embeds (fun label label' =>
      label.1.address = label'.1.address ∧ label'.2.Covers label.2) located located')
    {parent parent' : Option NodeId} (holds : fine.Holds parent located)
    (holds' : coarse.Holds parent' located') :
    ∃ links, ((located.label.1, located'.label.1) :: links).map Prod.fst = located.ids ∧
      (((located.label.1, located'.label.1) :: links).map Prod.snd).Sublist located'.ids ∧
      fine.Linked coarse parent parent' ((located.label.1, located'.label.1) :: links) := by
  refine PathTree.Embeds.recursion (motive := fun located located' => ∀ parent parent',
    fine.Holds parent located → coarse.Holds parent' located' →
    ∃ links, ((located.label.1, located'.label.1) :: links).map Prod.fst = located.ids ∧
      (((located.label.1, located'.label.1) :: links).map Prod.snd).Sublist located'.ids ∧
      fine.Linked coarse parent parent' ((located.label.1, located'.label.1) :: links))
    ?_ embeds parent parent' holds holds'
  rintro ⟨id, frame⟩ ⟨id', frame'⟩ branches chosen branches' ⟨sameAddress, covers⟩ among each
    parent parent' holds holds'
  obtain ⟨found, below⟩ := holds.inv
  obtain ⟨found', below'⟩ := holds'.inv
  have belowPairs : List.Forall₂ (fun tree tree' => ∃ links, links.map Prod.fst = tree.ids ∧
      (links.map Prod.snd).Sublist tree'.ids ∧ fine.Linked coarse (some id) (some id') links)
      branches chosen := by
    refine List.forall₂_iff_get.mpr ⟨each.length_eq, ?_⟩
    intro index inside inside'
    obtain ⟨links, pairs⟩ := each.get inside inside' (some id) (some id')
      (below _ (List.getElem_mem inside)) (below' _ (among.subset (List.getElem_mem inside')))
    exact ⟨_, pairs⟩
  obtain ⟨links, names, images, linked⟩ := exists_linked_forest belowPairs
  refine ⟨links, ?_, ?_, .cons ⟨sameAddress.symm, ?_⟩ linked⟩
  · rw [List.map_cons, names, PathTree.ids_node]
    rfl
  · rw [List.map_cons, PathTree.ids_node]
    exact (images.trans (among.flatMap _)).cons_cons _
  · exact ⟨_, _, frame, frame', found, rfl, found', rfl, sameAddress.symm, covers, rfl, rfl⟩

end Links

/-- A map from the nodes on the paths of one graph to those of another: it sends the entry to
the entry, keeps nodes apart, and keeps addresses and parents; the frame of an image covers
that of the node. -/
structure Graph.Embeds (fine coarse : Graph) (image : NodeId → NodeId) : Prop where
  root : image .root = .root
  injective : ∀ id other, fine.OnPath id → fine.OnPath other → image id = image other → id = other
  counterpart : ∀ id, fine.OnPath id →
    fine.Counterpart coarse (fun parent parent' => parent' = parent.map image) (id, image id)

def imageOf (links : List (NodeId × NodeId)) (id : NodeId) : NodeId :=
  ((links.find? (·.1 = id)).map (·.2)).getD .root

theorem imageOf_of_mem {links : List (NodeId × NodeId)} (distinct : (links.map Prod.fst).Nodup)
    {link : NodeId × NodeId} (inside : link ∈ links) : imageOf links link.1 = link.2 := by
  cases found : links.find? (·.1 = link.1) with
  | none =>
      have missing := List.find?_eq_none.mp found link inside
      simp at missing
  | some other =>
      have same : other.1 = link.1 := by simpa using List.find?_some found
      have isLink := List.inj_on_of_nodup_map distinct (List.mem_of_find?_eq_some found) inside same
      simp [imageOf, found, isLink]

/-- If the nodes of two graphs form trees of which one embeds in the other, so do the graphs. -/
theorem exists_embeds {fine coarse : Graph} {located located' : PathTree (NodeId × Frame)}
    (isTree : fine.IsTree located) (isTree' : coarse.IsTree located')
    (embeds : PathTree.Embeds (fun label label' =>
      label.1.address = label'.1.address ∧ label'.2.Covers label.2) located located') :
    ∃ image, fine.Embeds coarse image := by
  obtain ⟨below, names, images, linked⟩ := exists_linked embeds isTree.holds isTree'.holds
  rw [isTree.root, isTree'.root] at names images linked
  generalize isLinks : ((.root, .root) :: below : List (NodeId × NodeId)) = links at *
  have distinct : (links.map Prod.fst).Nodup := names ▸ isTree.nodup
  have distinctImages : (links.map Prod.snd).Nodup := images.nodup isTree'.nodup
  have linkOf : ∀ id, fine.OnPath id → ∃ link ∈ links, link.1 = id := by
    intro id onPath
    have inside := (isTree.onPath id).mpr onPath
    rw [← names] at inside
    exact List.mem_map.mp inside
  refine ⟨imageOf links, ?_, ?_, ?_⟩
  · exact imageOf_of_mem distinct (by simp [← isLinks] : (.root, .root) ∈ links)
  · intro id other onPath onPath' same
    obtain ⟨link, inside, rfl⟩ := linkOf id onPath
    obtain ⟨link', inside', rfl⟩ := linkOf other onPath'
    rw [imageOf_of_mem distinct inside, imageOf_of_mem distinct inside'] at same
    rw [List.inj_on_of_nodup_map distinctImages inside inside' same]
  · intro id onPath
    obtain ⟨link, inside, rfl⟩ := linkOf id onPath
    rw [imageOf_of_mem distinct inside]
    refine (linked link inside).mono ?_
    rintro parent parent' (⟨rfl, rfl⟩ | ⟨up, isUp, rfl, rfl⟩)
    · rfl
    · rw [Option.map_some, imageOf_of_mem distinct isUp]

end Dexplore
