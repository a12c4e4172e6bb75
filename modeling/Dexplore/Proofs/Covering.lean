import Dexplore.Graph.Consensus
import Dexplore.Proofs.Precision

/-!
# Values that cover others

A value covers another if it says the same or less: it is the same value, it is unknown, or
both are arrays of one type and length whose elements cover each other.  Every calculation
respects this order, so an instruction takes covering paths to covering paths.
-/

set_option autoImplicit false

namespace Dexplore

namespace Value

/-- The first value says nothing that the second does not. -/
inductive Covers : Value → Value → Prop
  | refl (value : Value) : Covers value value
  | unknown (type : TypeDescriptor) (value : Value) : Covers (.unknown type) value
  | array {type : TypeDescriptor} {elements elements' : List Value}
      (count : elements.length = elements'.length)
      (each : ∀ (index : Nat) element element', elements[index]? = some element →
        elements'[index]? = some element' → Covers element element') :
      Covers (.array type elements) (.array type elements')

def scalar? : Value → Option Scalar
  | scalar _ contents => some contents
  | _ => none

variable {value value' left left' right right' : Value}

namespace Covers

theorem scalar_or_eq (covers : Covers value value') : value.scalar? = none ∨ value = value' := by
  cases covers with
  | refl => exact .inr rfl
  | unknown | array => exact .inl rfl

end Covers

theorem integer?_eq (value : Value) : value.integer? = value.scalar?.bind Scalar.integer? := by
  cases value <;> rfl

theorem int?_eq (value : Value) :
    value.int? = value.scalar?.bind fun contents => contents.integer?.map (·.toInt32) := by
  cases value <;> rfl

theorem single?_eq (value : Value) : value.single? = value.scalar?.bind Scalar.single? := by
  cases value <;> rfl

theorem double?_eq (value : Value) : value.double? = value.scalar?.bind Scalar.double? := by
  cases value <;> rfl

/-! ## Calculations -/

theorem binary?_of_scalar (op : BinaryOp) (kind : NumericKind)
    (missing : left.scalar? = none ∨ right.scalar? = none) : binary? op kind left right = none := by
  cases kind <;> rcases missing with missing | missing <;>
    simp [binary?, int?_eq, integer?_eq, single?_eq, double?_eq, missing]

theorem result?_of_scalar (op : UnaryOp) (missing : value.scalar? = none) :
    op.result? value = none := by
  cases op <;> simp [UnaryOp.result?, int?_eq, integer?_eq, single?_eq, double?_eq, missing]

theorem order?_of_scalar (kind : ThreeWay)
    (missing : left.scalar? = none ∨ right.scalar? = none) : kind.order? left right = none := by
  cases kind <;> rcases missing with missing | missing <;>
    simp [ThreeWay.order?, integer?_eq, single?_eq, double?_eq, missing]

namespace Covers

/-- Two operands hold no two scalars, or cover only themselves. -/
theorem missing_or_eq (coversLeft : Covers left left') (coversRight : Covers right right') :
    (left.scalar? = none ∨ right.scalar? = none) ∨ left = left' ∧ right = right' := by
  rcases coversLeft.scalar_or_eq with missing | sameLeft
  · exact .inl (.inl missing)
  · rcases coversRight.scalar_or_eq with missing | sameRight
    · exact .inl (.inr missing)
    · exact .inr ⟨sameLeft, sameRight⟩

theorem binary (op : BinaryOp) (kind : NumericKind) (coversLeft : Covers left left')
    (coversRight : Covers right right') :
    Covers (.binary op kind left right) (.binary op kind left' right') := by
  rcases missing_or_eq coversLeft coversRight with missing | ⟨rfl, rfl⟩
  · rw [Value.binary, binary?_of_scalar op kind missing]
    exact .unknown _ _
  · exact .refl _

theorem unary (op : UnaryOp) (covers : Covers value value') :
    Covers (.unary op value) (.unary op value') := by
  rcases covers.scalar_or_eq with missing | rfl
  · rw [Value.unary, result?_of_scalar op missing]
    exact .unknown _ _
  · exact .refl _

theorem threeWay (kind : ThreeWay) (coversLeft : Covers left left')
    (coversRight : Covers right right') :
    Covers (.threeWay kind left right) (.threeWay kind left' right') := by
  rcases missing_or_eq coversLeft coversRight with missing | ⟨rfl, rfl⟩
  · rw [Value.threeWay, order?_of_scalar kind missing]
    exact .unknown _ _
  · exact .refl _

theorem int? (covers : Covers value value') : value.int? = none ∨ value.int? = value'.int? := by
  rcases covers.scalar_or_eq with missing | rfl
  · exact .inl (by simp [int?_eq, missing])
  · exact .inr rfl

theorem index? (covers : Covers value value') (length : Nat) :
    value.index? length = none ∨ value.index? length = value'.index? length := by
  rcases covers.scalar_or_eq with missing | rfl
  · exact .inl (by simp [Value.index?, int?_eq, missing])
  · exact .inr rfl

/-! ## Arrays -/

theorem newArray (type : TypeDescriptor) (maxLength : Nat) (covers : Covers value value') :
    Covers (.newArray type value maxLength) (.newArray type value' maxLength) := by
  rcases covers.index? (maxLength + 1) with missing | same
  · rw [Value.newArray, missing]
    exact .unknown _ _
  · rw [Value.newArray, same]
    exact .refl _

theorem arrayLength (covers : Covers value value') :
    Covers value.arrayLength value'.arrayLength := by
  cases covers with
  | refl => exact .refl _
  | unknown => exact .unknown _ _
  | array count =>
      simp only [Value.arrayLength, elements?, count]
      exact .refl _

theorem elementAt {index index' : Value} (covers : Covers value value')
    (coversIndex : Covers index index') :
    Covers (value.elementAt index) (value'.elementAt index') := by
  cases covers with
  | unknown => exact .unknown _ _
  | refl =>
      rcases coversIndex.scalar_or_eq with missing | rfl
      · cases value <;> simp only [Value.elementAt, elements?, Value.index?, int?_eq, missing] <;>
          exact .unknown _ _
      · exact .refl _
  | @array type elements elements' count each =>
      simp only [Value.elementAt, elements?, Option.bind_some, count]
      rcases coversIndex.index? elements'.length with missing | same
      · rw [missing]
        exact .unknown _ _
      · rw [same]
        cases index'.index? elements'.length with
        | none => exact .unknown _ _
        | some place =>
            cases found : elements[place]? with
            | none =>
                simp only [bind, Option.bind, found]
                exact .unknown _ _
            | some element =>
                have inside : place < elements'.length :=
                  count ▸ (List.getElem?_eq_some_iff.mp found).1
                have found' := List.getElem?_eq_getElem inside
                simp only [bind, Option.bind, found, found', Option.getD_some]
                exact each place element _ found found'

end Covers

/-! ## Comparisons -/

theorem compare?_unknown_left (type : TypeDescriptor) (right : Value) :
    (unknown type).compare? right = none := by
  simp [compare?, floating?, integer?, compareReferences?, isReference]

theorem compare?_unknown_right (left : Value) (type : TypeDescriptor) :
    left.compare? (unknown type) = none := by
  simp [compare?, floating?, integer?, compareReferences?, isReference]

/-- Of an array only that it is not null matters to a comparison. -/
theorem compare?_array_left (type : TypeDescriptor) (elements elements' : List Value)
    (right : Value) :
    (array type elements).compare? right = (array type elements').compare? right :=
  rfl

theorem compare?_array_right (left : Value) (type : TypeDescriptor)
    (elements elements' : List Value) :
    left.compare? (array type elements) = left.compare? (array type elements') := by
  simp [compare?, floating?, integer?, compareReferences?, isReference]

namespace Covers

theorem compare? (coversLeft : Covers left left') (coversRight : Covers right right') :
    left.compare? right = none ∨ left.compare? right = left'.compare? right' := by
  cases coversLeft with
  | unknown type => exact .inl (compare?_unknown_left type right)
  | refl =>
      cases coversRight with
      | unknown type => exact .inl (compare?_unknown_right left type)
      | refl => exact .inr rfl
      | array => exact .inr (compare?_array_right left _ _ _)
  | @array type elements elements' =>
      cases coversRight with
      | unknown type => exact .inl (compare?_unknown_right _ type)
      | refl => exact .inr (compare?_array_left type elements elements' right)
      | array =>
          rw [compare?_array_left type elements elements']
          exact .inr (compare?_array_right _ _ _ _)

theorem decide? (condition : Condition) (coversLeft : Covers left left')
    (coversRight : Covers right right') :
    condition.decide? left right = none ∨
      condition.decide? left right = condition.decide? left' right' := by
  rcases compare? coversLeft coversRight with unknown | same
  · exact .inl (by rw [Condition.decide?, unknown]; rfl)
  · exact .inr (by rw [Condition.decide?, same]; rfl)

/-- The calculations of the analysis respect covering. -/
theorem precision : Value.Precision Covers where
  refl := .refl
  binary op kind _ _ _ _ := binary op kind
  unary op _ _ := unary op
  threeWay kind _ _ _ _ := threeWay kind
  newArray type maxLength _ _ := newArray type maxLength
  arrayLength := arrayLength
  elementAt := elementAt
  decide? condition _ _ _ _ := decide? condition
  int? := int?

end Covers

/-! ## What covered values agree on -/

inductive Exact : Value → Prop
  | scalar (type : TypeDescriptor) (contents : Scalar) : Exact (.scalar type contents)
  | array (type : TypeDescriptor) (elements : List Value)
      (each : ∀ element ∈ elements, Exact element) : Exact (.array type elements)

theorem Exact.eq_of_covers (exact' : value.Exact) (covers : value.Covers value') :
    value' = value := by
  induction covers with
  | refl => rfl
  | unknown => cases exact'
  | @array type elements elements' count each induction =>
      cases exact' with
      | array _ _ exactEach =>
          have same : elements' = elements := by
            apply List.ext_getElem count.symm
            intro index inside' inside
            exact induction index _ _ (List.getElem?_eq_getElem inside)
              (List.getElem?_eq_getElem inside') (exactEach _ (List.getElem_mem inside))
          rw [same]

theorem Covers.of_unknown (unknown : value.isKnown = false) (other : Value) :
    value.Covers other := by
  cases value with
  | unknown type => exact .unknown type other
  | scalar | array => cases unknown

theorem Covers.type_eq (covers : value.Covers value') (known : value.isKnown = true) :
    value'.type = value.type := by
  cases covers with
  | refl | array => rfl
  | unknown => cases known

theorem agree?_of_eq {values : List Value} (same : ∀ member ∈ values, member = value)
    (some : values ≠ []) : agree? values = .some value := by
  cases values with
  | nil => exact absurd rfl some
  | cons first rest =>
      have isFirst : first = value := same first List.mem_cons_self
      have isRest : rest.all (fun member => member = first) = true := by
        rw [List.all_eq_true]
        intro member inside
        simpa [isFirst] using same member (List.mem_cons_of_mem _ inside)
      rw [agree?, if_pos isRest, isFirst]

/-- Values that a known value covers agree on a value that it covers, or at least on its
type. -/
theorem agree?_of_covers {values : List Value} (known : value.isKnown = true)
    (covered : ∀ member ∈ values, value.Covers member) (some : values ≠ []) :
    ∃ agreed, agree? values = .some agreed ∧
      (value.Covers agreed ∨ agreed = unknown value.type) := by
  cases values with
  | nil => exact absurd rfl some
  | cons first rest =>
      have coversFirst := covered first List.mem_cons_self
      have typed : rest.all (fun member => member.type = first.type) = true := by
        rw [List.all_eq_true]
        intro member inside
        have coversMember := covered member (List.mem_cons_of_mem _ inside)
        simp [coversMember.type_eq known, coversFirst.type_eq known]
      rw [agree?, if_pos typed, coversFirst.type_eq known]
      split
      · exact ⟨first, rfl, .inl coversFirst⟩
      · exact ⟨_, rfl, .inr rfl⟩

end Value

/-- A path that says nothing that another does not: both have the same shape, the same slots
are filled, and the values cover each other place by place. -/
abbrev Frame.Covers (left right : Frame) : Prop := Frame.Related Value.Covers left right

end Dexplore
