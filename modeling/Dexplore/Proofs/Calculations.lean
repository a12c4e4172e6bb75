import Dexplore.Value.Arithmetic
import Mathlib.Algebra.Ring.Int.Defs
import Mathlib.Algebra.Ring.Nat

/-!
# Calculating with integers

The rules of integer arithmetic are stated over the integers (`BinaryOp.Computes`,
`UnaryOp.Converts`): a result is the exact one, reduced to the balanced residue of its width.
A word of any width follows them (`BinaryOp.computes_onWord`), and the two word types of the
machine are words of 32 and 64 bits.  An operand may be any value that stands for an integer
(`Value.StandsFor`), and what comes out is a known value of the wanted type (`Value.Holds`), except
that nothing is known of a division by zero (`Value.integers_calculated`).
-/

set_option autoImplicit false

namespace Dexplore

/-! ## The rules -/

/-- Division toward zero, with a rest that is smaller than the divisor and has the sign of the
dividend. -/
structure IsDivision (a b quotient rest : Int) : Prop where
  sum : a = b * quotient + rest
  small : rest.natAbs < b.natAbs
  sign : rest = 0 ∨ rest.sign = a.sign

/-- The low bits of an integer, read without a sign. -/
def lowBits (width : Nat) (a : Int) : Nat := (a % 2 ^ width).toNat

def shiftDistance (width : Nat) (b : Int) : Nat := (b % width).toNat

/-- What an operation gives in signed integers of some width. The divisor of a right shift is
positive, so the quotient is the floor. -/
inductive BinaryOp.Computes (width : Nat) (a b : Int) : BinaryOp → Int → Prop
  | add : Computes width a b .add ((a + b).bmod (2 ^ width))
  | sub : Computes width a b .sub ((a - b).bmod (2 ^ width))
  | rsub : Computes width a b .rsub ((b - a).bmod (2 ^ width))
  | mul : Computes width a b .mul ((a * b).bmod (2 ^ width))
  | div {quotient rest : Int} (division : IsDivision a b quotient rest) :
      Computes width a b .div (quotient.bmod (2 ^ width))
  | rem {quotient rest : Int} (division : IsDivision a b quotient rest) :
      Computes width a b .rem rest
  | and : Computes width a b .and
      (Int.bmod (lowBits width a &&& lowBits width b : Nat) (2 ^ width))
  | or : Computes width a b .or
      (Int.bmod (lowBits width a ||| lowBits width b : Nat) (2 ^ width))
  | xor : Computes width a b .xor
      (Int.bmod (lowBits width a ^^^ lowBits width b : Nat) (2 ^ width))
  | shl : Computes width a b .shl ((a * 2 ^ shiftDistance width b).bmod (2 ^ width))
  | shr : Computes width a b .shr (a / 2 ^ shiftDistance width b)
  | ushr : Computes width a b .ushr
      (Int.bmod (lowBits width a / 2 ^ shiftDistance width b : Nat) (2 ^ width))

inductive UnaryOp.Converts (a : Int) : UnaryOp → Primitive → Int → Prop
  | negInt : Converts a .negInt .int ((-a).bmod (2 ^ 32))
  | notInt : Converts a .notInt .int ((-a - 1).bmod (2 ^ 32))
  | negLong : Converts a .negLong .long ((-a).bmod (2 ^ 64))
  | notLong : Converts a .notLong .long ((-a - 1).bmod (2 ^ 64))
  | intToLong : Converts a .intToLong .long (a.bmod (2 ^ 32))
  | longToInt : Converts a .longToInt .int (a.bmod (2 ^ 32))
  | intToByte : Converts a .intToByte .byte (a.bmod (2 ^ 8))
  | intToShort : Converts a .intToShort .short (a.bmod (2 ^ 16))
  | intToChar : Converts a .intToChar .char (a % 2 ^ 16)

inductive NumericKind.IsInteger : NumericKind → Primitive → Nat → Prop
  | int : IsInteger .int .int 32
  | long : IsInteger .long .long 64

/-- The integer that a known value stands for, whatever its declared type. -/
inductive Value.StandsFor : Value → Int → Prop
  | boolean (type : TypeDescriptor) (bit : Bool) :
      StandsFor (.scalar type (.boolean bit)) (if bit then 1 else 0)
  | byte (type : TypeDescriptor) (value : Int8) :
      StandsFor (.scalar type (.byte value)) value.toInt
  | short (type : TypeDescriptor) (value : Int16) :
      StandsFor (.scalar type (.short value)) value.toInt
  | char (type : TypeDescriptor) (unit : UInt16) :
      StandsFor (.scalar type (.char unit)) unit.toNat
  | int (type : TypeDescriptor) (value : Int32) :
      StandsFor (.scalar type (.int value)) value.toInt
  | long (type : TypeDescriptor) (value : Int64) :
      StandsFor (.scalar type (.long value)) value.toInt
  | null (type : TypeDescriptor) : StandsFor (.scalar type .null) 0

inductive Value.Holds : Primitive → Value → Int → Prop
  | byte (value : Int8) : Holds .byte (.scalar .byte (.byte value)) value.toInt
  | short (value : Int16) : Holds .short (.scalar .short (.short value)) value.toInt
  | char (unit : UInt16) : Holds .char (.scalar .char (.char unit)) unit.toNat
  | int (value : Int32) : Holds .int (.scalar .int (.int value)) value.toInt
  | long (value : Int64) : Holds .long (.scalar .long (.long value)) value.toInt

theorem NumericKind.IsInteger.width_dvd {kind : NumericKind} {primitive : Primitive} {width : Nat}
    (isInteger : kind.IsInteger primitive width) : width ∣ 2 ^ width := by
  cases isInteger <;> decide

/-! ## The rules give one result -/

namespace IsDivision

variable {a b quotient rest : Int}

theorem eq_tdiv_tmod (division : IsDivision a b quotient rest) :
    quotient = a.tdiv b ∧ rest = a.tmod b := by
  obtain ⟨sum, small, sign⟩ := division
  have nonzero : b ≠ 0 := by omega
  have total : rest + b * quotient = a := by omega
  have unique : a.tdiv b = quotient ∧ a.tmod b = rest := by
    rcases Int.le_total 0 a with above | below
    · have restAbove : 0 ≤ rest := by
        rcases sign with zero | same
        · omega
        · rwa [← Int.sign_nonneg_iff, same, Int.sign_nonneg_iff]
      exact (Int.tdiv_tmod_unique above nonzero).mpr ⟨total, restAbove, by omega⟩
    · have restBelow : rest ≤ 0 := by
        rcases sign with zero | same
        · omega
        · rwa [← Int.sign_nonpos_iff, same, Int.sign_nonpos_iff]
      exact (Int.tdiv_tmod_unique' below nonzero).mpr ⟨total, by omega, restBelow⟩
  exact ⟨unique.1.symm, unique.2.symm⟩

theorem tdiv_tmod (a : Int) (nonzero : b ≠ 0) : IsDivision a b (a.tdiv b) (a.tmod b) where
  sum := (Int.mul_tdiv_add_tmod a b).symm
  small := by
    rw [Int.natAbs_tmod]
    exact Nat.mod_lt _ (Int.natAbs_pos.mpr nonzero)
  sign := by
    rw [← Int.sign_eq_zero_iff_zero, Int.sign_tmod]
    split
    · exact .inl rfl
    · exact .inr rfl

end IsDivision

theorem BinaryOp.Computes.unique {width : Nat} {a b result result' : Int} {op : BinaryOp}
    (computes : op.Computes width a b result) (computes' : op.Computes width a b result') :
    result = result' := by
  cases computes with
  | div division =>
      cases computes' with
      | div division' => rw [division.eq_tdiv_tmod.1, division'.eq_tdiv_tmod.1]
  | rem division =>
      cases computes' with
      | rem division' => rw [division.eq_tdiv_tmod.2, division'.eq_tdiv_tmod.2]
  | _ =>
      cases computes'
      rfl

theorem BinaryOp.not_computes_of_zero {width : Nat} {a result : Int} {op : BinaryOp}
    (divides : op = .div ∨ op = .rem) : ¬ op.Computes width a 0 result := by
  have impossible : ∀ quotient rest, ¬ IsDivision a 0 quotient rest := by
    intro quotient rest division
    have := division.small
    omega
  rcases divides with rfl | rfl
  · intro computes
    cases computes with
    | div division => exact impossible _ _ division
  · intro computes
    cases computes with
    | rem division => exact impossible _ _ division

theorem Value.Holds.unique {primitive : Primitive} {value : Value} {n n' : Int}
    (holds : Holds primitive value n) (holds' : Holds primitive value n') : n = n' := by
  cases holds <;> cases holds' <;> rfl

/-! ## Words of any width -/

theorem toInt_emod_two_pow {width : Nat} (x : BitVec width) :
    x.toInt % (2 ^ width : Nat) = x.toNat := by
  rw [BitVec.toInt_eq_toNat_bmod, Int.bmod_emod]
  exact Int.emod_eq_of_lt (Int.natCast_nonneg _) (Int.ofNat_lt.mpr x.isLt)

namespace BinaryOp

def onWord {width : Nat} (op : BinaryOp) (a b : BitVec width) : Option (BitVec width) :=
  match op with
  | add => some (a + b)
  | sub => some (a - b)
  | rsub => some (b - a)
  | mul => some (a * b)
  | div => if b = 0 then none else some (a.sdiv b)
  | rem => if b = 0 then none else some (a.srem b)
  | and => some (a &&& b)
  | or => some (a ||| b)
  | xor => some (a ^^^ b)
  | shl => some (a <<< (b.toNat % width))
  | shr => some (a.sshiftRight (b.toNat % width))
  | ushr => some (a >>> (b.toNat % width))

theorem smod_of_lt {width : Nat} {x y : BitVec width} (below : x.toNat < y.toNat)
    (positive : 2 * y.toNat < 2 ^ width) : x.smod y = x := by
  have noSign : x.msb = false := BitVec.msb_eq_false_iff_two_mul_lt.mpr (by omega)
  have noSign' : y.msb = false := BitVec.msb_eq_false_iff_two_mul_lt.mpr positive
  apply BitVec.eq_of_toNat_eq
  rw [BitVec.smod_eq, noSign, noSign']
  exact Nat.mod_eq_of_lt below

/-- A mask of as many bits as a width needs takes a distance modulo the width. -/
theorem masked_distance {width : Nat} (power : Nat) (isPower : width = 2 ^ power)
    (wide : 2 * width < 2 ^ width) (b : BitVec width) :
    (b &&& .ofNat width (width - 1)).toNat = b.toNat % width ∧
      (b &&& .ofNat width (width - 1)).smod (.ofNat width width) =
        b &&& .ofNat width (width - 1) := by
  have whole : (BitVec.ofNat width width).toNat = width := by
    rw [BitVec.toNat_ofNat]
    exact Nat.mod_eq_of_lt (by omega)
  have masked : (b &&& .ofNat width (width - 1)).toNat = b.toNat % width := by
    rw [BitVec.toNat_and, BitVec.toNat_ofNat, Nat.mod_eq_of_lt (by omega)]
    have lowest := Nat.and_two_pow_sub_one_eq_mod b.toNat power
    rwa [← isPower] at lowest
  refine ⟨masked, smod_of_lt ?_ (by omega)⟩
  rw [masked, whole]
  exact Nat.mod_lt _ (by rw [isPower]; exact Nat.two_pow_pos power)

theorem onInt_eq_onWord (op : BinaryOp) (a b : Int32) :
    (op.onInt a b).map Int32.toBitVec = op.onWord a.toBitVec b.toBitVec := by
  have zero : b.toBitVec = 0 ↔ b = 0 := Int32.toBitVec_inj (b := 0)
  obtain ⟨masked, inside⟩ := masked_distance 5 (by decide) (by decide) b.toBitVec
  cases op with
  | div | rem =>
      simp only [onInt, onWord, zero, apply_ite (Option.map Int32.toBitVec)]
      rfl
  | shl =>
      change some (a.toBitVec <<< ((b.toBitVec &&& 31#32).smod 32#32).toNat) = _
      rw [inside, masked]
      rfl
  | shr =>
      change some (a.toBitVec.sshiftRight ((b.toBitVec &&& 31#32).smod 32#32).toNat) = _
      rw [inside, masked]
      rfl
  | ushr =>
      change some (a.toBitVec >>> ((b.toBitVec &&& 31#32).toNat % 32)) = _
      rw [masked, Nat.mod_mod]
      rfl
  | _ => rfl

theorem onLong_eq_onWord (op : BinaryOp) (a b : Int64) :
    (op.onLong a b).map Int64.toBitVec = op.onWord a.toBitVec b.toBitVec := by
  have zero : b.toBitVec = 0 ↔ b = 0 := Int64.toBitVec_inj (b := 0)
  obtain ⟨masked, inside⟩ := masked_distance 6 (by decide) (by decide) b.toBitVec
  cases op with
  | div | rem =>
      simp only [onLong, onWord, zero, apply_ite (Option.map Int64.toBitVec)]
      rfl
  | shl =>
      change some (a.toBitVec <<< ((b.toBitVec &&& 63#64).smod 64#64).toNat) = _
      rw [inside, masked]
      rfl
  | shr =>
      change some (a.toBitVec.sshiftRight ((b.toBitVec &&& 63#64).smod 64#64).toNat) = _
      rw [inside, masked]
      rfl
  | ushr =>
      change some (a.toBitVec >>> ((b.toBitVec &&& 63#64).toNat % 64)) = _
      rw [masked, Nat.mod_mod]
      rfl
  | _ => rfl

variable {width : Nat}

theorem toInt_eq_zero_iff {x : BitVec width} : x.toInt = 0 ↔ x = 0 := by
  rw [← BitVec.toInt_inj]
  exact iff_of_eq (congrArg (x.toInt = ·) BitVec.toInt_zero.symm)

theorem lowBits_toInt (x : BitVec width) : lowBits width x.toInt = x.toNat := by
  have residue := toInt_emod_two_pow x
  push_cast at residue
  rw [lowBits, residue, Int.toNat_natCast]

theorem shiftDistance_toInt (divides : width ∣ 2 ^ width) (x : BitVec width) :
    shiftDistance width x.toInt = x.toNat % width := by
  have same : x.toInt % width = x.toNat % width := by
    rw [← Int.emod_emod_of_dvd x.toInt (Int.natCast_dvd_natCast.mpr divides), toInt_emod_two_pow]
  rw [shiftDistance, same]
  exact Int.toNat_natCast (x.toNat % width)

theorem computes_onWord (divides : width ∣ 2 ^ width) {op : BinaryOp}
    {a b result : BitVec width} (computed : op.onWord a b = some result) :
    op.Computes width a.toInt b.toInt result.toInt := by
  have distance := shiftDistance_toInt divides b
  cases op with
  | add =>
      cases computed
      rw [BitVec.toInt_add]
      exact .add
  | sub =>
      cases computed
      rw [BitVec.toInt_sub]
      exact .sub
  | rsub =>
      cases computed
      rw [BitVec.toInt_sub]
      exact .rsub
  | mul =>
      cases computed
      rw [BitVec.toInt_mul]
      exact .mul
  | div =>
      simp only [onWord] at computed
      split at computed
      · cases computed
      · next nonzero =>
          cases computed
          rw [BitVec.toInt_sdiv]
          exact .div (.tdiv_tmod _ fun isZero => nonzero (toInt_eq_zero_iff.mp isZero))
  | rem =>
      simp only [onWord] at computed
      split at computed
      · cases computed
      · next nonzero =>
          cases computed
          rw [BitVec.toInt_srem]
          exact .rem (.tdiv_tmod _ fun isZero => nonzero (toInt_eq_zero_iff.mp isZero))
  | and =>
      cases computed
      rw [BitVec.toInt_and, ← lowBits_toInt a, ← lowBits_toInt b]
      exact .and
  | or =>
      cases computed
      rw [BitVec.toInt_or, ← lowBits_toInt a, ← lowBits_toInt b]
      exact .or
  | xor =>
      cases computed
      rw [BitVec.toInt_xor, ← lowBits_toInt a, ← lowBits_toInt b]
      exact .xor
  | shl =>
      cases computed
      rw [BitVec.toInt_shiftLeft, ← distance, Nat.shiftLeft_eq, Int.natCast_mul,
        ← Int.bmod_mul_bmod, ← BitVec.toInt_eq_toNat_bmod]
      exact .shl
  | shr =>
      cases computed
      rw [BitVec.toInt_sshiftRight, Int.shiftRight_eq_div_pow, ← distance]
      exact .shr
  | ushr =>
      cases computed
      rw [BitVec.toInt_eq_toNat_bmod (a >>> _), BitVec.toNat_ushiftRight,
        Nat.shiftRight_eq_div_pow, ← distance, ← lowBits_toInt a]
      exact .ushr

theorem onWord_eq_none_iff (op : BinaryOp) (a b : BitVec width) :
    op.onWord a b = none ↔ (op = .div ∨ op = .rem) ∧ b.toInt = 0 := by
  cases op <;> simp [onWord, toInt_eq_zero_iff]

/-- These operations only look at low bits to give low bits. -/
theorem onInt_toInt32 {op : BinaryOp} (isLow : op ∈ [add, sub, rsub, mul, and, or, xor])
    (a b : Int64) : op.onInt a.toInt32 b.toInt32 = (op.onLong a b).map Int64.toInt32 := by
  cases op with
  | add | sub | rsub | mul | and | or | xor => simp [onInt, onLong]
  | _ => simp at isLow

end BinaryOp

/-! ## Values -/

theorem toNat_toUInt16_toUInt32 (value : Int32) :
    (value.toUInt32.toUInt16.toNat : Int) = value.toInt % 65536 := by
  have cut : value.toUInt32.toUInt16.toNat = value.toBitVec.toNat % 65536 :=
    UInt32.toNat_toUInt16 _
  have sameLow : value.toInt % 4294967296 = value.toBitVec.toNat :=
    toInt_emod_two_pow value.toBitVec
  omega

namespace Value

variable {left right operand : Value} {m n : Int}

theorem toInt_of_unit (unit : UInt16) : unit.toUInt64.toInt64.toInt = unit.toNat := by
  have bound := unit.toNat_lt
  have sameBits : unit.toUInt64.toInt64.toInt = unit.toUInt64.toBitVec.toInt := rfl
  have sameNat : unit.toUInt64.toBitVec.toNat = unit.toNat := UInt16.toNat_toUInt64 unit
  rw [sameBits, BitVec.toInt_eq_toNat_of_lt (by omega), sameNat]

theorem StandsFor.integer? (isInteger : operand.StandsFor n) :
    ∃ view : Int64, operand.integer? = some view ∧ view.toInt = n := by
  cases isInteger with
  | boolean type bit => exact ⟨_, rfl, by cases bit <;> rfl⟩
  | byte type value => exact ⟨_, rfl, value.toInt_toInt64⟩
  | short type value => exact ⟨_, rfl, value.toInt_toInt64⟩
  | char type unit => exact ⟨_, rfl, toInt_of_unit unit⟩
  | int type value => exact ⟨_, rfl, value.toInt_toInt64⟩
  | long type value => exact ⟨_, rfl, rfl⟩
  | null type => exact ⟨_, rfl, rfl⟩

theorem int?_of_integer? {view : Int64} (isView : operand.integer? = some view) :
    operand.int? = some view.toInt32 := by
  rw [int?, isView]
  rfl

theorem binary_int {view view' : Int64} (isLeft : left.integer? = some view)
    (isRight : right.integer? = some view') (op : BinaryOp) :
    binary op .int left right =
      ((op.onInt view.toInt32 view'.toInt32).map int).getD (unknown .int) := by
  have stepwise : binary op .int left right =
      (left.int?.bind fun a => right.int?.bind fun b => (op.onInt a b).bind fun result =>
        some (int result)).getD (unknown .int) := rfl
  rw [stepwise, int?_of_integer? isLeft, int?_of_integer? isRight]
  cases computed : op.onInt view.toInt32 view'.toInt32 <;>
    simp only [Option.bind_some, computed] <;> rfl

theorem binary_long {view view' : Int64} (isLeft : left.integer? = some view)
    (isRight : right.integer? = some view') (op : BinaryOp) :
    binary op .long left right = ((op.onLong view view').map long).getD (unknown .long) := by
  have stepwise : binary op .long left right =
      (left.integer?.bind fun a => right.integer?.bind fun b => (op.onLong a b).bind fun result =>
        some (long result)).getD (unknown .long) := rfl
  rw [stepwise, isLeft, isRight]
  cases computed : op.onLong view view' <;>
    simp only [Option.bind_some, computed] <;> rfl

/-- Operands that stand for integers are words, and a calculation is one on words. -/
theorem exists_words {kind : NumericKind} {primitive : Primitive} {width : Nat}
    (isInteger : kind.IsInteger primitive width) (isLeft : left.StandsFor m)
    (isRight : right.StandsFor n) :
    ∃ a b : BitVec width, a.toInt = m.bmod (2 ^ width) ∧ b.toInt = n.bmod (2 ^ width) ∧
      ∀ op : BinaryOp,
        (∀ result, op.onWord a b = some result →
          Holds primitive (binary op kind left right) result.toInt) ∧
        (op.onWord a b = none → binary op kind left right = unknown kind.type) := by
  obtain ⟨view, isView, rfl⟩ := isLeft.integer?
  obtain ⟨view', isView', rfl⟩ := isRight.integer?
  cases isInteger with
  | int =>
      refine ⟨view.toInt32.toBitVec, view'.toInt32.toBitVec, view.toInt_toInt32,
        view'.toInt_toInt32, fun op => ?_⟩
      rw [← op.onInt_eq_onWord, binary_int isView isView']
      cases op.onInt view.toInt32 view'.toInt32 with
      | none => exact ⟨fun _ isResult => (by cases isResult), fun _ => rfl⟩
      | some computed =>
          refine ⟨fun result isResult => ?_, fun isNone => (by cases isNone)⟩
          cases isResult
          exact .int computed
  | long =>
      refine ⟨view.toBitVec, view'.toBitVec, view.toInt_bmod_size.symm,
        view'.toInt_bmod_size.symm, fun op => ?_⟩
      rw [← op.onLong_eq_onWord, binary_long isView isView']
      cases op.onLong view view' with
      | none => exact ⟨fun _ isResult => (by cases isResult), fun _ => rfl⟩
      | some computed =>
          refine ⟨fun result isResult => ?_, fun isNone => (by cases isNone)⟩
          cases isResult
          exact .long computed

theorem holds_unary {op : UnaryOp} {primitive : Primitive} {result : Int}
    (isOperand : operand.StandsFor m) (converts : op.Converts m primitive result) :
    Holds primitive (unary op operand) result := by
  obtain ⟨view, isView, rfl⟩ := isOperand.integer?
  have isInt := int?_of_integer? isView
  unfold unary
  cases converts with
  | negInt =>
      have reduced : (-view.toInt).bmod (2 ^ 32) = (-view.toInt32).toInt := by
        simp [Int32.toInt_neg]
      simp only [UnaryOp.result?, isInt, Option.map_some, reduced]
      exact .int _
  | notInt =>
      have reduced : (-view.toInt - 1).bmod (2 ^ 32) = (~~~view.toInt32).toInt := by
        have turned : ∀ a : Int, -a - 1 = -1 - a := by omega
        rw [Int32.toInt_not, Int64.toInt_toInt32, turned, turned, Int.sub_bmod_bmod]
      simp only [UnaryOp.result?, isInt, Option.map_some, reduced]
      exact .int _
  | negLong =>
      simp only [UnaryOp.result?, isView, Option.map_some, ← Int64.toInt_neg]
      exact .long _
  | notLong =>
      simp only [UnaryOp.result?, isView, Option.map_some, ← Int64.toInt_not]
      exact .long _
  | intToLong =>
      have reduced : view.toInt.bmod (2 ^ 32) = view.toInt32.toInt64.toInt := by
        rw [Int32.toInt_toInt64, Int64.toInt_toInt32]
      simp only [UnaryOp.result?, isInt, Option.map_some, reduced]
      exact .long _
  | longToInt =>
      simp only [UnaryOp.result?, isView, Option.map_some, ← Int64.toInt_toInt32]
      exact .int _
  | intToByte =>
      have reduced : view.toInt.bmod (2 ^ 8) = view.toInt32.toInt8.toInt := by
        rw [Int32.toInt_toInt8, Int64.toInt_toInt32]
        exact (Int.bmod_bmod_of_dvd (by decide)).symm
      simp only [UnaryOp.result?, isInt, Option.map_some, reduced]
      exact .byte _
  | intToShort =>
      have reduced : view.toInt.bmod (2 ^ 16) = view.toInt32.toInt16.toInt := by
        rw [Int32.toInt_toInt16, Int64.toInt_toInt32]
        exact (Int.bmod_bmod_of_dvd (by decide)).symm
      simp only [UnaryOp.result?, isInt, Option.map_some, reduced]
      exact .short _
  | intToChar =>
      have reduced : view.toInt % 2 ^ 16 = view.toInt32.toUInt32.toUInt16.toNat := by
        have sameLow : view.toInt32.toInt % 4294967296 = view.toInt % 4294967296 := by
          rw [Int64.toInt_toInt32]
          exact Int.bmod_emod
        rw [toNat_toUInt16_toUInt32]
        omega
      simp only [UnaryOp.result?, isInt, Option.map_some, reduced]
      exact .char _

theorem longToInt_binary {op : BinaryOp} (isLow : op ∈ [.add, .sub, .rsub, .mul, .and, .or, .xor])
    (isLeft : left.StandsFor m) (isRight : right.StandsFor n) :
    unary .longToInt (binary op .long left right) = binary op .int left right := by
  obtain ⟨view, isView, rfl⟩ := isLeft.integer?
  obtain ⟨view', isView', rfl⟩ := isRight.integer?
  rw [binary_int isView isView', binary_long isView isView', BinaryOp.onInt_toInt32 isLow]
  cases op.onLong view view' <;> rfl

/-- Calculating with operands that stand for integers follows the rules of signed integers of
32 or 64 bits, to which the operands are reduced first: the result is the one known value that
the rules give, and unknown exactly after a division by zero. So do negation and conversion. Where
low bits only depend on low bits, a calculation in 32 bits is one in 64 bits, cut. -/
theorem integers_calculated (isLeft : left.StandsFor m) (isRight : right.StandsFor n) :
    (∀ kind primitive width, NumericKind.IsInteger kind primitive width → ∀ op : BinaryOp,
      (∀ result, Holds primitive (binary op kind left right) result ↔
        op.Computes width (m.bmod (2 ^ width)) (n.bmod (2 ^ width)) result) ∧
      (binary op kind left right = unknown kind.type ↔
        (op = .div ∨ op = .rem) ∧ n.bmod (2 ^ width) = 0)) ∧
    (∀ op primitive result, UnaryOp.Converts m op primitive result →
      Holds primitive (unary op left) result) ∧
    ∀ op ∈ [BinaryOp.add, .sub, .rsub, .mul, .and, .or, .xor],
      unary .longToInt (binary op .long left right) = binary op .int left right := by
  refine ⟨?_, fun op primitive result => holds_unary isLeft,
    fun op isLow => longToInt_binary isLow isLeft isRight⟩
  intro kind primitive width isInteger op
  obtain ⟨a, b, isA, isB, calculated⟩ := exists_words isInteger isLeft isRight
  obtain ⟨known, undefined⟩ := calculated op
  rw [← isA, ← isB]
  cases computed : op.onWord a b with
  | none =>
      obtain ⟨divides, isZero⟩ := (op.onWord_eq_none_iff a b).mp computed
      rw [undefined computed, isZero]
      refine ⟨fun result => ⟨fun holds => (by cases holds), fun computes => ?_⟩, ?_⟩
      · exact absurd computes (BinaryOp.not_computes_of_zero divides)
      · exact ⟨fun _ => ⟨divides, rfl⟩, fun _ => rfl⟩
  | some word =>
      have computes := BinaryOp.computes_onWord isInteger.width_dvd computed
      have holds := known word computed
      refine ⟨fun result => ⟨fun holds' => ?_, fun computes' => ?_⟩, ?_⟩
      · rw [holds'.unique holds]
        exact computes
      · rw [computes'.unique computes]
        exact holds
      · rw [← op.onWord_eq_none_iff a b, computed]
        constructor
        · intro isUnknown
          rw [isUnknown] at holds
          cases holds
        · intro isNone
          cases isNone

/-- The least integer is its own quotient by minus one, and a multiple of the modulus is zero. -/
theorem integers_calculated_least :
    Holds .int (binary .div .int (.int Int32.minValue) (.long (-1))) (-2147483648) ∧
      Holds .int (binary .rem .int (.int Int32.minValue) (.long (-1))) 0 ∧
      binary .div .int (.int Int32.minValue) (.long 4294967296) = unknown .int := by
  have isLeast : (Value.int Int32.minValue).StandsFor (-2147483648) := .int .int Int32.minValue
  have isMinusOne : (Value.long (-1)).StandsFor (-1) := .long .long (-1)
  have isModulus : (Value.long 4294967296).StandsFor 4294967296 := .long .long 4294967296
  have division : IsDivision (-2147483648) (-1) 2147483648 0 := ⟨by decide, by decide, .inl rfl⟩
  have byMinusOne := (integers_calculated isLeast isMinusOne).1 _ _ _ .int
  refine ⟨((byMinusOne .div).1 _).mpr (.div division),
    ((byMinusOne .rem).1 _).mpr (.rem division), ?_⟩
  exact (((integers_calculated isLeast isModulus).1 _ _ _ .int) .div).2.mpr ⟨.inl rfl, by decide⟩

end Value

end Dexplore
