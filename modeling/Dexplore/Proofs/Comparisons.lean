import Dexplore.Value.Arithmetic
import Dexplore.Value.Comparison

/-!
# Comparing is a partial order

Values are compared through several views, which are tried one after another: as floating-point
numbers, as integers, as texts, as references beside zero.  The views never disagree, so the rules
can be stated without an order among them (`Value.Compares`).  Every value has a place on one line
(`Value.place`), and a comparison that is decided tells how two places lie
(`Value.Compares.order_eq`).  The laws of the comparison are then those of the line, except that
some pairs are left undecided (`Value.comparisons_consistent`).
-/

set_option autoImplicit false

namespace Dexplore

/-! ## A line with blocks -/

/-- A place on a line: the block first, in it the number, then the text. -/
structure Place where
  block : Nat
  number : Int
  text : String

namespace Place

instance : Ord Place :=
  ⟨compareLex (compareOn block) (compareLex (compareOn number) (compareOn text))⟩

instance : Std.TransOrd Place :=
  inferInstanceAs (Std.TransCmp
    (compareLex (compareOn block) (compareLex (compareOn number) (compareOn text))))

theorem compare_of_block_lt {left right : Place} (below : left.block < right.block) :
    compare left right = .lt := by
  have blocks : compare left.block right.block = .lt := Nat.compare_eq_lt.mpr below
  change (compare left.block right.block).then _ = _
  rw [blocks]
  rfl

theorem compare_of_block_gt {left right : Place} (above : right.block < left.block) :
    compare left right = .gt :=
  Std.OrientedCmp.gt_of_lt (compare_of_block_lt above)

theorem compare_numbers (block : Nat) (number number' : Int) (text : String) :
    compare (⟨block, number, text⟩ : Place) ⟨block, number', text⟩ = compare number number' := by
  change (compare block block).then ((compare number number').then (compare text text)) = _
  have sameBlock : compare block block = .eq := Std.ReflCmp.compare_self
  have sameText : compare text text = .eq := Std.ReflCmp.compare_self
  rw [sameBlock, sameText]
  cases compare number number' <;> rfl

theorem compare_texts (block : Nat) (number : Int) (text text' : String) :
    compare (⟨block, number, text⟩ : Place) ⟨block, number, text'⟩ = compare text text' := by
  change (compare block block).then ((compare number number).then (compare text text')) = _
  have sameBlock : compare block block = .eq := Std.ReflCmp.compare_self
  have sameNumber : compare number number = .eq := Std.ReflCmp.compare_self
  rw [sameBlock, sameNumber]
  rfl

end Place

namespace Value

/-! ## The rules of comparing -/

/-- How two values compare, by rules that can be applied in any order. -/
inductive Compares : Value → Value → Ordering → Prop
  | floating {left right : Value} {bits bits' : Nat} (isLeft : left.floating? = some bits)
      (isRight : right.floating? = some bits') :
      Compares left right (BinaryFormat.double.compareTotal bits bits')
  | integer {left right : Value} {integer integer' : Int64} (isLeft : left.integer? = some integer)
      (isRight : right.integer? = some integer') :
      Compares left right (compare integer.toInt integer'.toInt)
  | text (type type' : TypeDescriptor) (text text' : String) :
      Compares (scalar type (.string text)) (scalar type' (.string text')) (compare text text')
  | sameType (type type' named : TypeDescriptor) :
      Compares (scalar type (.type named)) (scalar type' (.type named)) .eq
  | aboveZero {reference zero : Value} (isReference : reference.isReference = true)
      (isZero : zero.integer? = some 0) : Compares reference zero .gt
  | belowReference {zero reference : Value} (isZero : zero.integer? = some 0)
      (isReference : reference.isReference = true) : Compares zero reference .lt

variable {left right value : Value} {order : Ordering}

theorem floating?_of_integer? {integer : Int64} (isInteger : value.integer? = some integer) :
    value.floating? = none := by
  cases value with
  | unknown | array => rfl
  | scalar type contents => cases contents <;> first | rfl | cases isInteger

theorem views_of_isReference (isReference : value.isReference = true) :
    value.floating? = none ∧ value.integer? = none := by
  cases value with
  | unknown => cases isReference
  | array => exact ⟨rfl, rfl⟩
  | scalar type contents => cases contents <;> first | exact ⟨rfl, rfl⟩ | cases isReference

theorem compareReferences?_of_aboveZero (isReference : left.isReference = true)
    (isZero : right.integer? = some 0) : compareReferences? left right = some .gt := by
  unfold compareReferences?
  split
  · cases isZero
  · cases isZero
  · rw [isReference, isZero]
    rfl

theorem compareReferences?_of_belowReference (isZero : left.integer? = some 0)
    (isReference : right.isReference = true) : compareReferences? left right = some .lt := by
  have noReference : left.isReference = false := by
    cases isReference : left.isReference with
    | false => rfl
    | true => cases isZero.symm.trans (views_of_isReference isReference).2
  unfold compareReferences?
  split
  · cases isZero
  · cases isZero
  · rw [noReference, isReference, isZero]
    rfl

theorem compares_of_compareReferences? (decided : compareReferences? left right = some order) :
    Compares left right order := by
  unfold compareReferences? at decided
  split at decided
  · cases decided
    exact .text _ _ _ _
  · split at decided
    · next same =>
        cases decided
        subst same
        exact .sameType _ _ _
    · cases decided
  · split at decided
    · next above =>
        cases decided
        rw [Bool.and_eq_true, decide_eq_true_eq] at above
        exact .aboveZero above.1 above.2
    · split at decided
      · next below =>
          cases decided
          rw [Bool.and_eq_true, decide_eq_true_eq] at below
          exact .belowReference below.2 below.1
      · cases decided

theorem compare?_of_floating {bits bits' : Nat} (isLeft : left.floating? = some bits)
    (isRight : right.floating? = some bits') :
    left.compare? right = some (BinaryFormat.double.compareTotal bits bits') := by
  simp only [compare?, isLeft, isRight]

theorem compare?_of_integer {integer integer' : Int64} (isLeft : left.integer? = some integer)
    (isRight : right.integer? = some integer') :
    left.compare? right = some (compare integer.toInt integer'.toInt) := by
  simp only [compare?, floating?_of_integer? isLeft, isLeft, isRight]

theorem compare?_of_reference (isReference : left.isReference = true ∨ right.isReference = true) :
    left.compare? right = compareReferences? left right := by
  rcases isReference with isLeft | isRight
  · obtain ⟨noFloating, noInteger⟩ := views_of_isReference isLeft
    simp only [compare?, noFloating, noInteger]
  · obtain ⟨noFloating, noInteger⟩ := views_of_isReference isRight
    cases floating : left.floating? <;> cases integer : left.integer? <;>
      simp only [compare?, noFloating, noInteger, floating, integer]

/-- The views are tried in an order that does not matter. -/
theorem compare?_eq_some_iff : left.compare? right = some order ↔ Compares left right order := by
  constructor
  · intro decided
    unfold compare? at decided
    split at decided
    · next floating floating' =>
        cases decided
        exact .floating floating floating'
    · split at decided
      · next integer integer' =>
          cases decided
          exact .integer integer integer'
      · exact compares_of_compareReferences? decided
  · intro compares
    cases compares with
    | floating isLeft isRight => exact compare?_of_floating isLeft isRight
    | integer isLeft isRight => exact compare?_of_integer isLeft isRight
    | text => rfl
    | sameType type type' named =>
        rw [compare?_of_reference (.inl rfl), compareReferences?, if_pos rfl]
    | aboveZero isReference isZero =>
        rw [compare?_of_reference (.inl isReference)]
        exact compareReferences?_of_aboveZero isReference isZero
    | belowReference isZero isReference =>
        rw [compare?_of_reference (.inr isReference)]
        exact compareReferences?_of_belowReference isZero isReference

/-! ## The place of a value -/

/-- The place of a double: what is no number lies above all numbers. -/
def floatingPlace (bits : Nat) : Place :=
  if BinaryFormat.double.isNaN bits then ⟨1, 0, ""⟩ else ⟨0, BinaryFormat.double.rank bits, ""⟩

/-- The place of a reference: texts first, then types, then all other objects alike. -/
def referencePlace : Value → Place
  | scalar _ (.string text) => ⟨3, 0, text⟩
  | scalar _ (.type named) => ⟨4, 0, named.text⟩
  | _ => ⟨5, 0, ""⟩

/-- The place of a value on one line with all others: floating-point numbers, then integers, then
references. -/
def place (value : Value) : Place :=
  match value.floating?, value.integer? with
  | some bits, _ => floatingPlace bits
  | none, some integer => ⟨2, integer.toInt, ""⟩
  | none, none => value.referencePlace

theorem compare_floatingPlace (bits bits' : Nat) :
    compare (floatingPlace bits) (floatingPlace bits') =
      BinaryFormat.double.compareTotal bits bits' := by
  unfold floatingPlace BinaryFormat.compareTotal
  cases BinaryFormat.double.isNaN bits <;> cases BinaryFormat.double.isNaN bits'
  · exact Place.compare_numbers _ _ _ _
  · exact Place.compare_of_block_lt Nat.zero_lt_one
  · exact Place.compare_of_block_gt Nat.zero_lt_one
  · exact Std.ReflCmp.compare_self

theorem place_of_floating? {bits : Nat} (isFloating : value.floating? = some bits) :
    value.place = floatingPlace bits := by
  simp only [place, isFloating]

theorem place_of_integer? {integer : Int64} (isInteger : value.integer? = some integer) :
    value.place = ⟨2, integer.toInt, ""⟩ := by
  simp only [place, floating?_of_integer? isInteger, isInteger]

theorem block_of_isReference (isReference : value.isReference = true) : 2 < value.place.block := by
  obtain ⟨noFloating, noInteger⟩ := views_of_isReference isReference
  simp only [place, noFloating, noInteger]
  unfold referencePlace
  split <;> simp

namespace Compares

/-- What is decided is how the places lie. -/
theorem order_eq (compares : Compares left right order) :
    order = compare left.place right.place := by
  cases compares with
  | floating isLeft isRight =>
      rw [place_of_floating? isLeft, place_of_floating? isRight, compare_floatingPlace]
  | integer isLeft isRight =>
      rw [place_of_integer? isLeft, place_of_integer? isRight, Place.compare_numbers]
  | text => exact (Place.compare_texts _ _ _ _).symm
  | sameType => exact Std.ReflCmp.compare_self.symm
  | aboveZero isReference isZero =>
      apply Eq.symm
      apply Place.compare_of_block_gt
      rw [place_of_integer? isZero]
      exact block_of_isReference isReference
  | belowReference isZero isReference =>
      apply Eq.symm
      apply Place.compare_of_block_lt
      rw [place_of_integer? isZero]
      exact block_of_isReference isReference

theorem swap (compares : Compares left right order) : Compares right left order.swap := by
  have mirrored : order.swap = compare right.place left.place := by
    rw [compares.order_eq, ← Std.OrientedCmp.eq_swap]
  cases compares with
  | floating isLeft isRight =>
      rw [mirrored, place_of_floating? isLeft, place_of_floating? isRight, compare_floatingPlace]
      exact .floating isRight isLeft
  | integer isLeft isRight =>
      rw [← Std.OrientedCmp.eq_swap]
      exact .integer isRight isLeft
  | text type type' text text' =>
      rw [← Std.OrientedCmp.eq_swap]
      exact .text type' type text' text
  | sameType type type' named => exact .sameType type' type named
  | aboveZero isReference isZero => exact .belowReference isZero isReference
  | belowReference isZero isReference => exact .aboveZero isReference isZero

theorem isKnown_left (compares : Compares left right order) : left.isKnown = true := by
  cases left with
  | scalar | array => rfl
  | unknown type =>
      cases compares with
      | floating isLeft _ => cases isLeft
      | integer isLeft _ => cases isLeft
      | aboveZero isReference _ => cases isReference
      | belowReference isZero _ => cases isZero

end Compares

/-! ## The laws -/

theorem compare?_swap (left right : Value) :
    right.compare? left = (left.compare? right).map Ordering.swap := by
  cases decided : left.compare? right with
  | some order => exact compare?_eq_some_iff.mpr (compare?_eq_some_iff.mp decided).swap
  | none =>
      cases decided' : right.compare? left with
      | none => rfl
      | some order =>
          have back := compare?_eq_some_iff.mpr (compare?_eq_some_iff.mp decided').swap
          cases decided.symm.trans back

theorem order_of_compare? (decided : left.compare? right = some order) :
    order = compare left.place right.place :=
  (compare?_eq_some_iff.mp decided).order_eq

theorem compare?_self (decided : value.compare? value = some order) : order = .eq := by
  rw [order_of_compare? decided]
  exact Std.ReflCmp.compare_self

theorem compare?_of_unknown (unknown : left.isKnown = false ∨ right.isKnown = false) :
    left.compare? right = none := by
  cases decided : left.compare? right with
  | none => rfl
  | some order =>
      have compares := compare?_eq_some_iff.mp decided
      rcases unknown with isLeft | isRight
      · cases isLeft.symm.trans compares.isKnown_left
      · cases isRight.symm.trans compares.swap.isKnown_left

/-- Decided comparisons that do not go down lead up, as far as they can be compared at all. -/
theorem compare?_trans {a b c : Value} {first second third : Ordering}
    (isFirst : a.compare? b = some first) (isSecond : b.compare? c = some second)
    (isThird : a.compare? c = some third) (up : first ≠ .gt) (up' : second ≠ .gt) :
    third ≠ .gt ∧ (first = .lt ∨ second = .lt → third = .lt) := by
  cases order_of_compare? isFirst
  cases order_of_compare? isSecond
  cases order_of_compare? isThird
  have below := Ordering.ne_gt_iff_isLE.mp up
  have below' := Ordering.ne_gt_iff_isLE.mp up'
  refine ⟨Ordering.ne_gt_iff_isLE.mpr (Std.TransCmp.isLE_trans below below'), ?_⟩
  rintro (less | less)
  · exact Std.TransCmp.lt_of_lt_of_isLE less below'
  · exact Std.TransCmp.lt_of_isLE_of_lt below less

end Value

/-! ## Conditions -/

namespace Condition

def negation : Condition → Condition
  | eq => ne
  | ne => eq
  | lt => ge
  | ge => lt
  | gt => le
  | le => gt

def mirrored : Condition → Condition
  | eq => eq
  | ne => ne
  | lt => gt
  | gt => lt
  | le => ge
  | ge => le

theorem holds_negation (condition : Condition) (order : Ordering) :
    condition.negation.holds order = !condition.holds order := by
  cases condition <;> cases order <;> rfl

theorem holds_mirrored (condition : Condition) (order : Ordering) :
    condition.mirrored.holds order.swap = condition.holds order := by
  cases condition <;> cases order <;> rfl

theorem decide?_negation (condition : Condition) (left right : Value) :
    condition.negation.decide? left right = (condition.decide? left right).map (!·) := by
  unfold decide?
  cases left.compare? right with
  | none => rfl
  | some order => exact congrArg some (condition.holds_negation order)

theorem decide?_mirrored (condition : Condition) (left right : Value) :
    condition.mirrored.decide? right left = condition.decide? left right := by
  unfold decide?
  rw [Value.compare?_swap left right]
  cases left.compare? right with
  | none => rfl
  | some order => exact congrArg some (condition.holds_mirrored order)

end Condition

namespace Value

theorem compare?_code (kind : ThreeWay) (order : Ordering) :
    (int (kind.code (some order))).compare? (int 0) = some order := by
  cases order <;> rfl

/-- A comparison of longs that has a known result tells what comparing directly does. -/
theorem compare?_threeWay {left right : Value}
    (known : (threeWay .cmpLong left right).isKnown = true) :
    ∃ order, left.compare? right = some order ∧
      (threeWay .cmpLong left right).compare? (int 0) = some order := by
  cases isLeft : left.integer? with
  | none =>
      simp only [threeWay, ThreeWay.order?, isLeft] at known
      cases known
  | some integer =>
      cases isRight : right.integer? with
      | none =>
          simp only [threeWay, ThreeWay.order?, isLeft, isRight] at known
          cases known
      | some integer' =>
          refine ⟨_, compare?_of_integer isLeft isRight, ?_⟩
          simp only [threeWay, ThreeWay.order?, isLeft, isRight]
          exact compare?_code _ _

/-- Comparing is a partial order that branches rely on. The other way round it gives the mirror
image; what does not go down leads up, as far as it can be compared; nothing lies below or above
itself; and an unknown compares with nothing. So a condition is undecided exactly if the comparison
is, its negation answers the opposite, and with the operands exchanged the mirrored condition
answers the same. A three-way comparison of longs that has a known result answers against zero what
its operands answer. -/
theorem comparisons_consistent (a b c : Value) :
    b.compare? a = (a.compare? b).map Ordering.swap ∧
    (∀ first second, a.compare? b = some first → b.compare? c = some second →
      first ≠ .gt → second ≠ .gt → ∀ third, a.compare? c = some third →
        third ≠ .gt ∧ (first = .lt ∨ second = .lt → third = .lt)) ∧
    (a = b → ∀ order, a.compare? b = some order → order = .eq) ∧
    (a.isKnown = false ∨ b.isKnown = false → a.compare? b = none) ∧
    ∀ condition : Condition,
      (condition.decide? a b = none ↔ a.compare? b = none) ∧
      condition.negation.decide? a b = (condition.decide? a b).map (!·) ∧
      condition.mirrored.decide? b a = condition.decide? a b ∧
      ((threeWay .cmpLong a b).isKnown = true →
        ∃ answer, condition.decide? (threeWay .cmpLong a b) (int 0) = some answer ∧
          condition.decide? a b = some answer) := by
  refine ⟨compare?_swap a b, ?_, ?_, compare?_of_unknown, fun condition => ⟨?_,
    condition.decide?_negation a b, condition.decide?_mirrored a b, ?_⟩⟩
  · intro first second isFirst isSecond up up' third isThird
    exact compare?_trans isFirst isSecond isThird up up'
  · rintro rfl order decided
    exact compare?_self decided
  · exact Option.map_eq_none_iff
  · intro known
    obtain ⟨order, direct, coded⟩ := compare?_threeWay known
    refine ⟨condition.holds order, ?_, ?_⟩
    · rw [Condition.decide?, coded, Option.map_some]
    · rw [Condition.decide?, direct, Option.map_some]

/-- Null lies above minus five and below a text, which cannot be compared with minus five. -/
theorem comparisons_consistent_null :
    (int (-5)).compare? (scalar .object .null) = some .lt ∧
      (scalar .object .null).compare? (string "key") = some .lt ∧
      (int (-5)).compare? (string "key") = none ∧
      ∀ third, (int 0).compare? (string "key") = some third → third = .lt := by
  refine ⟨rfl, rfl, rfl, fun third decided => ?_⟩
  have laws := comparisons_consistent (int 0) (scalar .object .null) (string "key")
  exact (laws.2.1 .eq .lt rfl rfl (by decide) (by decide) third decided).2 (.inr rfl)

end Value

end Dexplore
