import Mathlib.Order.Bounds.Basic
import Dexplore.Proofs.Forgetting
import Dexplore.Proofs.StaticWrites

/-!
# What all paths agree on

A known value says more than the unknown value of its type, and that says more than the unknown
value of no particular type.  In this order some values, if there are any, have a least upper
bound, and it is what they agree on (`Value.agree?_eq_some_iff`).  So it matters neither in which
order paths are looked at nor how often, and what the paths at some addresses agree on can be put
together from parts.  All questions to a graph about its paths are answered in this way
(`Graph.consensus_isLUB`).
-/

set_option autoImplicit false

namespace Dexplore

/-! ## The order of values -/

namespace Value

/-- The second value says what the first says, or only its type, or nothing. -/
inductive Below : Value → Value → Prop
  | refl (value : Value) : Below value value
  | typed (value : Value) : Below value (.unknown value.type)
  | anything (value : Value) : Below value .uninitialized

theorem below_iff {value bound : Value} :
    Below value bound ↔
      bound = value ∨ bound = .unknown value.type ∨ bound = .uninitialized := by
  constructor
  · intro below
    cases below with
    | refl => exact .inl rfl
    | typed => exact .inr (.inl rfl)
    | anything => exact .inr (.inr rfl)
  · rintro (rfl | rfl | rfl)
    · exact .refl _
    · exact .typed _
    · exact .anything _

instance : PartialOrder Value where
  le := Below
  le_refl := .refl
  le_trans value middle bound below above := by
    cases below with
    | refl => exact above
    | typed =>
        cases above with
        | refl => exact .typed value
        | typed => exact .typed value
        | anything => exact .anything value
    | anything =>
        cases above <;> exact .anything value
  le_antisymm value bound below above := by
    cases below with
    | refl => rfl
    | typed =>
        rcases below_iff.mp above with same | same | same
        · exact same
        · exact same
        · rw [same]
          rfl
    | anything =>
        rcases below_iff.mp above with same | same | same <;> exact same

theorem le_iff {value bound : Value} :
    value ≤ bound ↔ bound = value ∨ bound = .unknown value.type ∨ bound = .uninitialized :=
  below_iff

theorem le_uninitialized (value : Value) : value ≤ .uninitialized := Below.anything value

theorem le_unknown_type (value : Value) : value ≤ .unknown value.type := Below.typed value

theorem eq_of_le_known {value bound : Value} (below : value ≤ bound)
    (known : bound.isKnown = true) : value = bound := by
  rcases le_iff.mp below with same | rfl | rfl
  · exact same.symm
  · cases known
  · cases known

theorem type_eq_of_le_unknown {value : Value} {type : TypeDescriptor}
    (below : value ≤ .unknown type) (typed : type ≠ .unknown) : value.type = type := by
  rcases le_iff.mp below with same | same | same
  · rw [← same]
    rfl
  · exact (Value.unknown.inj same).symm
  · exact absurd (Value.unknown.inj same) typed

/-- Above two values that differ there is nothing but unknown values. -/
theorem unknown_type_le_of_ne {value other bound : Value} (below : value ≤ bound)
    (belowToo : other ≤ bound) (different : other ≠ value) : .unknown value.type ≤ bound := by
  rcases le_iff.mp below with rfl | rfl | rfl
  · rcases le_iff.mp belowToo with same | rfl | rfl
    · exact absurd same.symm different
    · exact le_refl _
    · exact le_uninitialized _
  · exact le_refl _
  · exact le_uninitialized _

/-- Above two values of different types there is nothing but the unknown value of no particular
type. -/
theorem eq_uninitialized_of_type_ne {value other bound : Value} (below : value ≤ bound)
    (belowToo : other ≤ bound) (different : other.type ≠ value.type) :
    bound = .uninitialized := by
  rcases le_iff.mp below with rfl | rfl | rfl
  · rcases le_iff.mp belowToo with rfl | rfl | rfl
    · exact absurd rfl different
    · exact absurd rfl different
    · rfl
  · rcases le_iff.mp belowToo with rfl | same | same
    · exact absurd rfl different
    · exact absurd (Value.unknown.inj same).symm different
    · exact same
  · rfl

/-! ## Values that agree -/

/-- What some values agree on is their least upper bound. -/
theorem isLUB_of_agree? {values : List Value} {agreed : Value}
    (found : agree? values = some agreed) : IsLUB {value | value ∈ values} agreed := by
  cases values with
  | nil => cases found
  | cons first rest =>
      have isMember : first ∈ first :: rest := List.mem_cons_self
      rw [agree?] at found
      split at found
      · next same =>
          obtain rfl : first = agreed := Option.some.inj found
          refine ⟨fun member inside => ?_, fun bound above => above isMember⟩
          rcases List.mem_cons.mp inside with rfl | later
          · exact le_refl _
          · have isFirst : member = first := by simpa using List.all_eq_true.mp same member later
            exact le_of_eq isFirst
      · next differ =>
          split at found
          · next typed =>
              cases found
              obtain ⟨other, isOther, different⟩ : ∃ other ∈ rest, other ≠ first := by
                simpa using differ
              refine ⟨fun member inside => ?_, fun bound above => ?_⟩
              · rcases List.mem_cons.mp inside with rfl | later
                · exact le_unknown_type _
                · have sameType : member.type = first.type := by
                    simpa using List.all_eq_true.mp typed member later
                  rw [← sameType]
                  exact le_unknown_type _
              · exact unknown_type_le_of_ne (above isMember)
                  (above (List.mem_cons_of_mem _ isOther)) different
          · next untyped =>
              cases found
              obtain ⟨other, isOther, different⟩ : ∃ other ∈ rest, other.type ≠ first.type := by
                simpa using untyped
              refine ⟨fun member _ => le_uninitialized member, fun bound above => ?_⟩
              exact ge_of_eq (eq_uninitialized_of_type_ne (above isMember)
                (above (List.mem_cons_of_mem _ isOther)) different)

theorem exists_agree? {values : List Value} (some : values ≠ []) :
    ∃ agreed, agree? values = .some agreed := by
  cases found : agree? values with
  | none => exact absurd (eq_nil_of_agree? found) some
  | some agreed => exact ⟨agreed, rfl⟩

theorem agree?_eq_some_iff {values : List Value} {agreed : Value} :
    agree? values = some agreed ↔
      values ≠ [] ∧ IsLUB {value | value ∈ values} agreed := by
  constructor
  · intro found
    refine ⟨?_, isLUB_of_agree? found⟩
    rintro rfl
    cases found
  · rintro ⟨nonempty, least⟩
    obtain ⟨other, found⟩ := exists_agree? nonempty
    rw [found, (isLUB_of_agree? found).unique least]

/-- Only which values there are matters, not their order or number. -/
theorem agree?_congr {values others : List Value}
    (same : ∀ value, value ∈ values ↔ value ∈ others) : agree? values = agree? others := by
  have sameSet : {value | value ∈ values} = {value | value ∈ others} := Set.ext same
  cases found : agree? values with
  | none =>
      have noValue := eq_nil_of_agree? found
      have noOther : others = [] := by
        refine List.eq_nil_iff_forall_not_mem.mpr fun value inside => ?_
        rw [noValue] at same
        exact List.not_mem_nil ((same value).mpr inside)
      rw [noOther]
      rfl
  | some agreed =>
      obtain ⟨nonempty, least⟩ := agree?_eq_some_iff.mp found
      obtain ⟨value, inside⟩ := List.exists_mem_of_ne_nil _ nonempty
      refine (agree?_eq_some_iff.mpr ⟨?_, sameSet ▸ least⟩).symm
      exact List.ne_nil_of_mem ((same value).mp inside)

theorem agree?_append {values others : List Value} {left right : Value}
    (first : agree? values = some left) (second : agree? others = some right) :
    agree? (values ++ others) = agree? [left, right] := by
  obtain ⟨agreed, both⟩ : ∃ agreed, agree? [left, right] = some agreed :=
    exists_agree? (List.cons_ne_nil _ _)
  have nonempty := (agree?_eq_some_iff.mp first).1
  refine (agree?_eq_some_iff.mpr ⟨by simp [nonempty], ?_⟩).trans both.symm
  -- The upper bounds of all values are those of the two parts.
  refine isLUB_iff_le_iff.mpr fun bound => ?_
  rw [isLUB_iff_le_iff.mp (isLUB_of_agree? both) bound]
  have left_le := isLUB_iff_le_iff.mp (isLUB_of_agree? first) bound
  have right_le := isLUB_iff_le_iff.mp (isLUB_of_agree? second) bound
  simp only [mem_upperBounds, Set.mem_ofPred_eq, List.mem_cons, List.not_mem_nil, or_false,
    List.mem_append] at left_le right_le ⊢
  rw [forall_eq_or_imp, forall_eq, left_le, right_le]
  constructor
  · rintro ⟨ofValues, ofOthers⟩ value (inside | inside)
    · exact ofValues value inside
    · exact ofOthers value inside
  · intro ofAll
    exact ⟨fun value inside => ofAll value (.inl inside),
      fun value inside => ofAll value (.inr inside)⟩

/-- What is answered to a question about some values: if there are none, a value that is fixed
beforehand or nothing, and otherwise their least upper bound. -/
structure LeastAgreement (values : Set Value) (fallback answer : Option Value) : Prop where
  missing : values = ∅ → answer = fallback
  least : values.Nonempty → ∃ agreed, answer = some agreed ∧ IsLUB values agreed
  /-- The answer is known if and only if there is just one value, and known. -/
  known : values.Nonempty → ∀ value, value.isKnown = true →
    (answer = some value ↔ ∀ member ∈ values, member = value)
  /-- The answer is a type alone if and only if the values share the type and not more. -/
  typed : values.Nonempty → ∀ type, type ≠ .unknown →
    (answer = some (.unknown type) ↔ (∀ member ∈ values, member.type = type) ∧
      ¬∃ value, value.isKnown = true ∧ ∀ member ∈ values, member = value)
  single : ∀ value, values = {value} → answer = some value

section Bounds

variable {values : Set Value} {agreed : Value}

theorem eq_known_iff (least : IsLUB values agreed) (nonempty : values.Nonempty) {value : Value}
    (known : value.isKnown = true) : agreed = value ↔ ∀ member ∈ values, member = value := by
  constructor
  · rintro rfl member inside
    exact eq_of_le_known (least.1 inside) known
  · intro same
    have isSingle : values = {value} :=
      Set.eq_singleton_iff_nonempty_unique_mem.mpr ⟨nonempty, same⟩
    rw [isSingle] at least
    exact least.unique isLUB_singleton

theorem eq_unknown_iff (least : IsLUB values agreed) (nonempty : values.Nonempty)
    {type : TypeDescriptor} (typed : type ≠ .unknown) :
    agreed = .unknown type ↔ (∀ member ∈ values, member.type = type) ∧
      ¬∃ value, value.isKnown = true ∧ ∀ member ∈ values, member = value := by
  constructor
  · rintro rfl
    refine ⟨fun member inside => type_eq_of_le_unknown (least.1 inside) typed, ?_⟩
    rintro ⟨value, known, same⟩
    rw [← (eq_known_iff least nonempty known).mpr same] at known
    cases known
  · rintro ⟨sameType, notOne⟩
    have bounded : .unknown type ∈ upperBounds values := by
      intro member inside
      rw [← sameType member inside]
      exact le_unknown_type member
    have unknown : agreed.isKnown = false := by
      refine Bool.eq_false_iff.mpr fun known => notOne ⟨agreed, known, ?_⟩
      exact (eq_known_iff least nonempty known).mp rfl
    have agreedType := type_eq_of_le_unknown (least.2 bounded) typed
    cases agreed with
    | unknown other => exact congrArg Value.unknown agreedType
    | scalar | array => cases unknown

end Bounds

theorem leastAgreement_agree? (values : List Value) (fallback : Option Value) :
    LeastAgreement {value | value ∈ values} fallback ((agree? values).or fallback) := by
  have ofSome : {value | value ∈ values}.Nonempty → ∃ agreed,
      (agree? values).or fallback = some agreed ∧ IsLUB {value | value ∈ values} agreed := by
    rintro ⟨value, inside⟩
    obtain ⟨agreed, found⟩ := exists_agree? (List.ne_nil_of_mem inside)
    rw [found]
    exact ⟨agreed, rfl, isLUB_of_agree? found⟩
  refine ⟨?_, ofSome, ?_, ?_, ?_⟩
  · intro none
    have noValue : values = [] :=
      List.eq_nil_iff_forall_not_mem.mpr fun value => Set.eq_empty_iff_forall_notMem.mp none value
    rw [noValue]
    rfl
  · intro nonempty value known
    obtain ⟨agreed, found, least⟩ := ofSome nonempty
    rw [found, Option.some.injEq, eq_known_iff least nonempty known]
  · intro nonempty type typed
    obtain ⟨agreed, found, least⟩ := ofSome nonempty
    rw [found, Option.some.injEq, eq_unknown_iff least nonempty typed]
  · intro value isSingle
    rw [isSingle] at ofSome
    obtain ⟨agreed, found, least⟩ := ofSome (Set.singleton_nonempty value)
    rw [found, least.unique isLUB_singleton]

end Value

/-! ## Questions to a graph -/

namespace Graph

def shown (graph : Graph) (addresses : List Address) (look : Frame → Option Value) : Set Value :=
  {value | ∃ address ∈ addresses, ∃ node ∈ graph.nodesAt address, ∃ frame,
    node.frame = some frame ∧ look frame = some value}

theorem mem_frames_iff (graph : Graph) (addresses : List Address) (frame : Frame) :
    frame ∈ graph.frames addresses ↔
      ∃ address ∈ addresses, ∃ node ∈ graph.nodesAt address, node.frame = some frame := by
  rw [frames, List.mem_filterMap]
  constructor
  · rintro ⟨node, inside, framed⟩
    obtain ⟨address, isAddress, isNode⟩ := List.mem_flatMap.mp inside
    exact ⟨address, isAddress, node, isNode, framed⟩
  · rintro ⟨address, isAddress, node, isNode, framed⟩
    exact ⟨node, List.mem_flatMap.mpr ⟨address, isAddress, isNode⟩, framed⟩

theorem shown_eq (graph : Graph) (addresses : List Address) (look : Frame → Option Value) :
    graph.shown addresses look =
      {value | value ∈ (graph.frames addresses).filterMap look} := by
  ext value
  rw [shown, Set.mem_ofPred_eq, Set.mem_ofPred_eq, List.mem_filterMap]
  constructor
  · rintro ⟨address, isAddress, node, isNode, frame, framed, looked⟩
    exact ⟨frame, (graph.mem_frames_iff _ _).mpr ⟨address, isAddress, node, isNode, framed⟩,
      looked⟩
  · rintro ⟨frame, inside, looked⟩
    obtain ⟨address, isAddress, node, isNode, framed⟩ := (graph.mem_frames_iff _ _).mp inside
    exact ⟨address, isAddress, node, isNode, frame, framed, looked⟩

/-- A question to the nodes of some addresses is answered by the least upper bound of what they
show. -/
structure IsConsensus (fits : Frame → Prop) (look : Frame → Option Value)
    (fallback : Option Value) (answer : Graph → List Address → Option Value) : Prop where
  least : ∀ graph addresses, (∀ frame ∈ graph.frames addresses, fits frame) →
    Value.LeastAgreement (graph.shown addresses look) fallback (answer graph addresses)
  /-- Neither the order and repetition of addresses nor the order of piles matters. -/
  unordered : ∀ graph other addresses others, (∀ frame ∈ graph.frames addresses, fits frame) →
    (∀ address, address ∈ others ↔ address ∈ addresses) →
    (∀ address ∈ addresses, (other.nodesAt address).Perm (graph.nodesAt address)) →
    answer other others = answer graph addresses
  append : ∀ graph first second, (∀ frame ∈ graph.frames first, fits frame) →
    (∀ frame ∈ graph.frames second, fits frame) →
    (graph.shown first look).Nonempty → (graph.shown second look).Nonempty →
    ∃ left right, answer graph first = some left ∧ answer graph second = some right ∧
      answer graph (first ++ second) = Value.agree? [left, right]

theorem mem_frames_of_perm {graph other : Graph} {addresses others : List Address}
    (sameAddresses : ∀ address, address ∈ others ↔ address ∈ addresses)
    (reordered : ∀ address ∈ addresses, (other.nodesAt address).Perm (graph.nodesAt address))
    (frame : Frame) : frame ∈ other.frames others ↔ frame ∈ graph.frames addresses := by
  rw [mem_frames_iff, mem_frames_iff]
  constructor
  · rintro ⟨address, isAddress, node, isNode, framed⟩
    rw [sameAddresses] at isAddress
    exact ⟨address, isAddress, node, (reordered address isAddress).mem_iff.mp isNode, framed⟩
  · rintro ⟨address, isAddress, node, isNode, framed⟩
    exact ⟨address, (sameAddresses address).mpr isAddress, node,
      (reordered address isAddress).mem_iff.mpr isNode, framed⟩

variable {fits : Frame → Prop} {look : Frame → Option Value} {fallback : Option Value}
  {answer : Graph → List Address → Option Value}

/-- It is enough that the answer is what the paths agree on, or else the fallback. -/
theorem IsConsensus.of_agree?
    (agrees : ∀ graph addresses, (∀ frame ∈ graph.frames addresses, fits frame) →
      answer graph addresses =
        (Value.agree? ((graph.frames addresses).filterMap look)).or fallback) :
    IsConsensus fits look fallback answer := by
  refine ⟨?_, ?_, ?_⟩
  · intro graph addresses fitting
    rw [agrees graph addresses fitting, shown_eq]
    exact Value.leastAgreement_agree? _ fallback
  · intro graph other addresses others fitting sameAddresses reordered
    have sameFrames := mem_frames_of_perm sameAddresses reordered
    have fittingToo : ∀ frame ∈ other.frames others, fits frame := fun frame inside =>
      fitting frame ((sameFrames frame).mp inside)
    rw [agrees graph addresses fitting, agrees other others fittingToo]
    refine congrArg (·.or fallback) (Value.agree?_congr fun value => ?_)
    simp only [List.mem_filterMap, sameFrames]
  · intro graph first second fittingFirst fittingSecond someFirst someSecond
    have both : graph.frames (first ++ second) = graph.frames first ++ graph.frames second := by
      rw [frames, List.flatMap_append, List.filterMap_append]
      rfl
    have fittingBoth : ∀ frame ∈ graph.frames (first ++ second), fits frame := by
      intro frame inside
      rw [both] at inside
      rcases List.mem_append.mp inside with isFirst | isSecond
      · exact fittingFirst frame isFirst
      · exact fittingSecond frame isSecond
    rw [shown_eq] at someFirst someSecond
    obtain ⟨value, inFirst⟩ := someFirst
    obtain ⟨other, inSecond⟩ := someSecond
    obtain ⟨left, isLeft⟩ := Value.exists_agree? (List.ne_nil_of_mem inFirst)
    obtain ⟨right, isRight⟩ := Value.exists_agree? (List.ne_nil_of_mem inSecond)
    obtain ⟨agreed, isAgreed⟩ : ∃ agreed, Value.agree? [left, right] = some agreed :=
      Value.exists_agree? (List.cons_ne_nil _ _)
    refine ⟨left, right, ?_, ?_, ?_⟩
    · rw [agrees graph first fittingFirst, isLeft]
      rfl
    · rw [agrees graph second fittingSecond, isRight]
      rfl
    · rw [agrees graph _ fittingBoth, both, List.filterMap_append,
        Value.agree?_append isLeft isRight, isAgreed]
      rfl

theorem toOption_consensus {graph : Graph} {addresses : List Address} {register : Register}
    (inside : ∀ frame ∈ graph.frames addresses, register < frame.registerCount) :
    (graph.consensus addresses register).toOption =
      (Value.agree? ((graph.frames addresses).filterMap (·.registers[register]?))).or
        (some .uninitialized) := by
  have reads : List.Forall₂ (fun frame value => Frame.read frame register = .ok value)
      (graph.frames addresses)
      ((graph.frames addresses).filterMap (·.registers[register]?)) := by
    generalize graph.frames addresses = frames at inside
    induction frames with
    | nil => exact .nil
    | cons frame rest induction =>
        obtain ⟨value, isRead⟩ :=
          (frame.read_isOk_iff register).mpr (inside frame List.mem_cons_self)
        simp only [List.filterMap_cons, Frame.read_eq_ok_iff.mp isRead]
        exact .cons isRead (induction fun other later =>
          inside other (List.mem_cons_of_mem _ later))
  rw [consensus_eq_ok_iff.mpr ⟨_, reads, rfl⟩]
  cases Value.agree? ((graph.frames addresses).filterMap (·.registers[register]?)) <;> rfl

def staticConsensusAt (field : FieldRef) (baseline : Value) (graph : Graph)
    (addresses : List Address) : Value :=
  (Value.agree? ((graph.frames addresses).map fun frame =>
    (frame.static? field).getD baseline)).getD baseline

theorem isReached_eq (graph : Graph) (address : Address) :
    graph.isReached address = (decide (address = 0) || !(graph.nodesAt address).isEmpty) := by
  by_cases atEntry : address = 0
  · simp [isReached, atEntry]
  · cases found : graph.piles.find? address <;> simp [isReached, nodesAt, atEntry, found]

theorem connectedTerminating_of_perm {graph other : Graph}
    (sameCode : other.instructions = graph.instructions)
    (reordered : ∀ address, (other.nodesAt address).Perm (graph.nodesAt address)) :
    other.connectedTerminating = graph.connectedTerminating := by
  rw [connectedTerminating, connectedTerminating, terminating, terminating, sameCode]
  refine congrArg (fun reached => List.filter reached _) (funext fun address => ?_)
  rw [isReached_eq, isReached_eq, (reordered address).isEmpty_eq]

/-- What the paths at some addresses agree on about a register, about their results, if they have
any, and at their ends about a static field, is the least upper bound of what each of them
has. -/
theorem consensus_isLUB (register : Register) (field : FieldRef) (baseline : Value) :
    IsConsensus (register < ·.registerCount) (·.registers[register]?) (some .uninitialized)
      (fun graph addresses => (graph.consensus addresses register).toOption) ∧
    IsConsensus (fun _ => True) (·.result) none returnConsensus ∧
    IsConsensus (fun _ => True) (fun frame => some ((frame.static? field).getD baseline))
      (some baseline)
      (fun graph addresses => some (staticConsensusAt field baseline graph addresses)) ∧
    (∀ graph : Graph, graph.staticConsensus field baseline =
      staticConsensusAt field baseline graph graph.connectedTerminating) ∧
    ∀ graph other : Graph, other.instructions = graph.instructions →
      (∀ address, (other.nodesAt address).Perm (graph.nodesAt address)) →
      other.staticConsensus field baseline = graph.staticConsensus field baseline := by
  have ofStatics : IsConsensus (fun _ => True)
      (fun frame => some ((frame.static? field).getD baseline)) (some baseline)
      (fun graph addresses => some (staticConsensusAt field baseline graph addresses)) := by
    refine .of_agree? fun graph addresses _ => ?_
    rw [List.filterMap_eq_map', staticConsensusAt]
    cases Value.agree? ((graph.frames addresses).map fun frame =>
      (frame.static? field).getD baseline) <;> rfl
  refine ⟨.of_agree? fun graph addresses inside => toOption_consensus inside,
    .of_agree? fun graph addresses _ => (Option.or_none).symm, ofStatics, fun _ => rfl, ?_⟩
  intro graph other sameCode reordered
  have sameEnds := connectedTerminating_of_perm sameCode reordered
  have same := ofStatics.unordered graph other graph.connectedTerminating
    other.connectedTerminating (fun _ _ => trivial) (fun _ => by rw [sameEnds])
    (fun address _ => reordered address)
  exact Option.some.inj same

end Graph

end Dexplore
