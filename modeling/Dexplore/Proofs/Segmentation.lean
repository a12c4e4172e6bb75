import Dexplore.Proofs.Grammar
import Dexplore.Value

/-!
# Texts that are types one after another

A text is cut into types exactly if it consists of them, and it consists of types in one way only.
Each of the types is void, primitive, an array or a class, and no two of these; the component of an
array is again one type, and a variable of it has a value from the start.

A text can also be cut by its bytes: a round looks at single bytes, finds how many of them the first
type has, and goes on behind it.  This could tear a character that takes several bytes, or never
end.  It does neither, because the bytes of such a character are unlike those that a round looks for
(`mem_utf8EncodeChar_iff`) and because every round takes something off
(`IsRound.utf8ByteSize_lt`).  So it comes to the same types (`cutTypes_eq`).
-/

set_option autoImplicit false

namespace Dexplore

namespace TypeDescriptor

/-! ## Kinds of types -/

inductive Kind where
  | void | primitive | array | named
  deriving DecidableEq

/-- Whether a type passes the test of a kind. Class types are the reference types that are no
array types. -/
def isOf (type : TypeDescriptor) : Kind → Bool
  | .void => type.isVoid
  | .primitive => type.isPrimitive
  | .array => type.isArray
  | .named => type.isReference && !type.isArray

section

variable {type : TypeDescriptor}

theorem isOf_primitive {primitive : Primitive} (spelling : type.text.toList = [primitive.letter])
    (kind : Kind) : type.isOf kind = true ↔ kind = .primitive := by
  have notVoid := (valueText_iff.mp (spelling ▸ ValueText.primitive primitive)).2
  have isPrimitive : type.isPrimitive = true := by
    simp [isPrimitive, primitive?, spelling, Primitive.ofLetter?_letter]
  obtain ⟨noBracket, noName, -⟩ := Primitive.letter_cases primitive
  have notReference : type.isArray = false ∧ type.isReference = false := by
    simp [isReference, isArray, spelling, noBracket, noName]
  cases kind <;> simp [isOf, notVoid, isPrimitive, notReference]

theorem isOf_named {name : List Char} (closed : ';' ∉ name)
    (spelling : type.text.toList = 'L' :: (name ++ [';'])) (kind : Kind) :
    type.isOf kind = true ↔ kind = .named := by
  have notVoid := (valueText_iff.mp (spelling ▸ ValueText.named closed)).2
  have notPrimitive : type.isPrimitive = false := by simp [isPrimitive, primitive?, spelling]
  have isEnd : type.text.toList.getLast? = some ';' := by
    rw [spelling, ← List.cons_append, List.getLast?_concat]
  have isReference : type.isArray = false ∧ type.isReference = true := by
    rw [isReference, isEnd]
    simp [isArray, spelling]
  cases kind <;> simp [isOf, notVoid, notPrimitive, isReference]

theorem isOf_array {text : List Char} (component : ValueText text)
    (spelling : type.text.toList = '[' :: text) (kind : Kind) :
    type.isOf kind = true ↔ kind = .array := by
  have notVoid := (valueText_iff.mp (spelling ▸ ValueText.array component)).2
  have notPrimitive : type.isPrimitive = false := by
    cases text with
    | nil => cases component
    | cons c rest => simp [isPrimitive, primitive?, spelling]
  have isArray : type.isArray = true := by simp [isArray, spelling]
  cases kind <;> simp [isOf, notVoid, notPrimitive, isArray]

theorem isOf_void (kind : Kind) : void.isOf kind = true ↔ kind = .void := by
  cases kind <;> decide

/-- Every type is of one kind. -/
theorem existsUnique_isOf (isType : TypeText type.text.toList) :
    ∃! kind, type.isOf kind = true := by
  have only : ∃ kind, ∀ other, type.isOf other = true ↔ other = kind := by
    rcases isType with isValue | isVoid
    · generalize spelling : type.text.toList = text at isValue
      cases isValue with
      | primitive primitive => exact ⟨_, isOf_primitive spelling⟩
      | named closed => exact ⟨_, isOf_named closed spelling⟩
      | array component => exact ⟨_, isOf_array component spelling⟩
    · have isVoid : type = void := by
        cases type
        exact congrArg TypeDescriptor.mk (String.toList_inj.mp isVoid)
      rw [isVoid]
      exact ⟨_, isOf_void⟩
  obtain ⟨kind, only⟩ := only
  exact ⟨kind, (only kind).mpr rfl, fun other passes => (only other).mp passes⟩

theorem exists_component (isType : TypeText type.text.toList) (isArray : type.isArray = true) :
    ∃ component, type.component? = some component ∧ ValueText component.text.toList := by
  have first : type.text.toList.head? = some '[' := of_decide_eq_true isArray
  rcases isType with isValue | isVoid
  · generalize spelling : type.text.toList = text at isValue first
    cases isValue with
    | primitive primitive =>
        exact absurd (Option.some.inj first) (Primitive.letter_cases primitive).1
    | named closed => simp at first
    | @array text component =>
        refine ⟨⟨String.ofList text⟩, ?_, ?_⟩
        · rewrite [component?, spelling]
          rfl
        · rwa [String.toList_ofList]
  · rw [isVoid] at first
    simp at first

theorem isKnown_defaultFor (isValue : ValueText type.text.toList) :
    (Value.defaultFor type).isKnown = true := by
  obtain ⟨isType, notVoid⟩ := valueText_iff.mp isValue
  obtain ⟨kind, passes, -⟩ := existsUnique_isOf isType
  have hasDefault : type.isPrimitive = true ∨ type.isReference = true := by
    cases kind with
    | void => cases notVoid.symm.trans passes
    | primitive => exact .inl passes
    | array => exact .inr (Bool.or_eq_true_iff.mpr (.inl passes))
    | named => exact .inr (Bool.and_eq_true_iff.mp passes).1
  unfold Value.defaultFor
  cases isPrimitive : type.primitive? with
  | some primitive => rfl
  | none =>
      have isReference : type.isReference = true := by
        simpa [TypeDescriptor.isPrimitive, isPrimitive] using hasDefault
      simp [isReference, Value.isKnown]

end

/-! ## Types one after another -/

def Consists (text : String) (types : List TypeDescriptor) : Prop :=
  (∀ type ∈ types, TypeText type.text.toList) ∧ text.toList = spelled types

theorem split?_eq_some_iff_consists {text : String} {types : List TypeDescriptor} :
    split? text.toList = some types ↔ Consists text types :=
  split?_eq_some_iff

theorem consists_singleton {type : TypeDescriptor} (isType : TypeText type.text.toList) :
    Consists type.text [type] := by
  refine ⟨?_, ?_⟩
  · intro other inside
    rwa [List.mem_singleton.mp inside]
  · simp only [spelled, List.flatMap_singleton]

theorem Consists.append {left right : String} {types others : List TypeDescriptor}
    (isLeft : Consists left types) (isRight : Consists right others) :
    Consists (left ++ right) (types ++ others) := by
  refine ⟨?_, ?_⟩
  · intro type inside
    rcases List.mem_append.mp inside with isFirst | isLater
    · exact isLeft.1 type isFirst
    · exact isRight.1 type isLater
  · rw [String.toList_append, isLeft.2, isRight.2]
    simp only [spelled, List.flatMap_append]

end TypeDescriptor

/-! ## Texts by their bytes -/

def bytes (text : String) : List UInt8 := text.toByteArray.data.toList

theorem length_bytes (text : String) : (bytes text).length = text.utf8ByteSize :=
  Array.length_toList

theorem bytes_ofList (chars : List Char) :
    bytes (String.ofList chars) = chars.flatMap String.utf8EncodeChar := by
  have encoded : (chars.flatMap String.utf8EncodeChar).toByteArray.data =
      (chars.flatMap String.utf8EncodeChar).toArray := List.data_toByteArray
  rw [bytes, String.toByteArray_ofList]
  exact congrArg Array.toList encoded

theorem bytes_ofList_append (before after : List Char) :
    bytes (String.ofList (before ++ after)) =
      bytes (String.ofList before) ++ bytes (String.ofList after) := by
  simp only [bytes_ofList, List.flatMap_append]

theorem bytes_ofList_cons (c : Char) (rest : List Char) :
    bytes (String.ofList (c :: rest)) = String.utf8EncodeChar c ++ bytes (String.ofList rest) := by
  simp only [bytes_ofList, List.flatMap_cons]

/-- A character takes one byte, or several that are all above those of the characters that take
one. -/
theorem utf8EncodeChar_cases (c : Char) :
    (c.val.toNat ≤ 127 ∧ String.utf8EncodeChar c = [c.toUInt8]) ∨
      (127 < c.val.toNat ∧ ∀ byte ∈ String.utf8EncodeChar c, 127 < byte.toNat) := by
  by_cases small : c.val.toNat ≤ 127
  · left
    refine ⟨small, ?_⟩
    simp only [String.utf8EncodeChar, small, if_true, Char.toUInt8]
    rfl
  · right
    refine ⟨by omega, ?_⟩
    intro byte inside
    simp only [String.utf8EncodeChar, small, if_false] at inside
    split at inside
    · simp only [List.mem_cons, List.not_mem_nil, or_false] at inside
      rcases inside with rfl | rfl <;> simp only [UInt8.toNat_ofNat'] <;> omega
    split at inside
    · simp only [List.mem_cons, List.not_mem_nil, or_false] at inside
      rcases inside with rfl | rfl | rfl <;> simp only [UInt8.toNat_ofNat'] <;> omega
    · simp only [List.mem_cons, List.not_mem_nil, or_false] at inside
      rcases inside with rfl | rfl | rfl | rfl <;> simp only [UInt8.toNat_ofNat'] <;> omega

theorem toNat_toUInt8 {c : Char} (small : c.val.toNat ≤ 127) : c.toUInt8.toNat = c.val.toNat := by
  rw [Char.toUInt8, UInt32.toNat_toUInt8]
  omega

/-- The byte of a mark that takes one byte is among the bytes of no other character. -/
theorem mem_utf8EncodeChar_iff {mark c : Char} (small : mark.val.toNat ≤ 127) :
    mark.toUInt8 ∈ String.utf8EncodeChar c ↔ c = mark := by
  have markByte := toNat_toUInt8 small
  constructor
  · intro inside
    rcases utf8EncodeChar_cases c with ⟨smallToo, single⟩ | ⟨-, large⟩
    · rw [single, List.mem_singleton] at inside
      have same : mark.val.toNat = c.val.toNat := by
        rw [← markByte, inside, toNat_toUInt8 smallToo]
      exact (Char.val_inj.mp (UInt32.toNat_inj.mp same)).symm
    · have := large _ inside
      omega
  · rintro rfl
    rcases utf8EncodeChar_cases c with ⟨-, single⟩ | ⟨large, -⟩
    · rw [single]
      exact List.mem_singleton_self _
    · omega

theorem mem_bytes_iff {mark : Char} {chars : List Char} (small : mark.val.toNat ≤ 127) :
    mark.toUInt8 ∈ bytes (String.ofList chars) ↔ mark ∈ chars := by
  rw [bytes_ofList, List.mem_flatMap]
  constructor
  · rintro ⟨c, inside, byte⟩
    rwa [← (mem_utf8EncodeChar_iff small).mp byte]
  · intro inside
    exact ⟨mark, inside, (mem_utf8EncodeChar_iff small).mpr rfl⟩

/-- The first byte of a text says of every mark whether the first character is that mark. -/
theorem exists_first_byte (c : Char) (rest : List Char) :
    ∃ first others, bytes (String.ofList (c :: rest)) = first :: others ∧
      ∀ mark : Char, mark.val.toNat ≤ 127 → (first = mark.toUInt8 ↔ c = mark) := by
  obtain ⟨first, others, encoded⟩ := List.exists_cons_of_length_pos
    (Nat.lt_of_lt_of_eq c.utf8Size_pos (String.length_utf8EncodeChar c).symm)
  refine ⟨first, others ++ bytes (String.ofList rest), ?_, ?_⟩
  · rw [bytes_ofList_cons, encoded, List.cons_append]
  intro mark small
  constructor
  · rintro rfl
    apply (mem_utf8EncodeChar_iff small).mp
    rw [encoded]
    exact List.mem_cons_self
  · rintro rfl
    rcases utf8EncodeChar_cases c with ⟨-, single⟩ | ⟨large, -⟩
    · rw [single] at encoded
      exact (List.cons.inj encoded).1.symm
    · omega

inductive Mishap where
  /-- A place to cut lies inside a character, or behind the text. -/
  | torn
  /-- There is more to cut than there are rounds. -/
  | unfinished
  deriving DecidableEq

def cutAt (size : Nat) (text : String) : Except Mishap (String × String) :=
  if boundary : String.Pos.Raw.IsValid text ⟨size⟩ then
    .ok ((text.sliceTo ⟨⟨size⟩, boundary⟩).copy, (text.sliceFrom ⟨⟨size⟩, boundary⟩).copy)
  else .error .torn

theorem cutAt_append (before after : String) :
    cutAt before.utf8ByteSize (before ++ after) = .ok (before, after) := by
  have boundary : String.Pos.Raw.IsValid (before ++ after) ⟨before.utf8ByteSize⟩ :=
    String.Pos.Raw.isValid_iff_exists_append.mpr ⟨before, after, rfl, rfl⟩
  have meant : String.Pos.Splits (s := before ++ after) ⟨⟨before.utf8ByteSize⟩, boundary⟩
      before after := ⟨rfl, rfl⟩
  obtain ⟨left, right⟩ := (String.Pos.splits _).eq meant
  rw [cutAt, dif_pos boundary, left, right]

-- The letter takes two bytes.
example : cutAt 2 "Lé;" = .error .torn := by decide +kernel

namespace TypeDescriptor

/-! ## Cutting by bytes -/

def letters : List Char := ['Z', 'B', 'S', 'C', 'I', 'J', 'F', 'D', 'V']

def depthOf (text : String) : Nat := ((bytes text).takeWhile (· = '['.toUInt8)).length

/-- The number of bytes of a type without `[`, judged by its first byte. -/
def bareSize? : List UInt8 → Option Nat
  | [] => none
  | first :: others =>
    if first ∈ letters.map Char.toUInt8 then some 1
    else if first = 'L'.toUInt8 then ((first :: others).idxOf? ';'.toUInt8).map (· + 1)
    else none

/-- The number of bytes of a type, given how many `[` it has and the bytes behind them. -/
def typeSize? (depth : Nat) (bare : List UInt8) : Option Nat :=
  if 0 < depth ∧ bare.head? = some 'V'.toUInt8 then none
  else (bareSize? bare).map (depth + ·)

def takeOff (text : String) : Option Nat → Except Mishap (Option (TypeDescriptor × String))
  | none => .ok none
  | some size => do
    let parts ← cutAt size text
    return some (⟨parts.1⟩, parts.2)

def firstType (text : String) : Except Mishap (Option (TypeDescriptor × String)) := do
  let parts ← cutAt (depthOf text) text
  takeOff text (typeSize? (depthOf text) (bytes parts.2))

def cutTypes : Nat → String → Except Mishap (Option (List TypeDescriptor))
  | 0, text => if text = "" then .ok (some []) else .error .unfinished
  | rounds + 1, text =>
    if text = "" then .ok (some [])
    else do
      match ← firstType text with
      | none => return none
      | some (type, rest) => return (← cutTypes rounds rest).map (type :: ·)

variable {depth : Nat} {bare rest : List Char}

theorem mem_letters_iff {c : Char} :
    c ∈ letters ↔ c = 'V' ∨ (Primitive.ofLetter? c).isSome = true := by
  constructor
  · intro inside
    simp only [letters, List.mem_cons, List.not_mem_nil, or_false] at inside
    rcases inside with rfl | rfl | rfl | rfl | rfl | rfl | rfl | rfl | rfl <;> decide
  · rintro (rfl | isLetter)
    · decide
    · obtain ⟨primitive, named⟩ := Option.isSome_iff_exists.mp isLetter
      rw [Primitive.letter_of_ofLetter? named]
      cases primitive <;> decide

theorem small_of_mem_letters {c : Char} (isLetter : c ∈ letters) : c.val.toNat ≤ 127 := by
  have small : letters.all (·.val.toNat ≤ 127) = true := by decide
  exact of_decide_eq_true (List.all_eq_true.mp small c isLetter)

theorem exists_brackets (text : List Char) :
    ∃ depth bare, text = List.replicate depth '[' ++ bare ∧ bare.head? ≠ some '[' := by
  induction text with
  | nil => exact ⟨0, [], rfl, nofun⟩
  | cons c rest induction =>
      by_cases isBracket : c = '['
      · obtain ⟨depth, bare, rfl, other⟩ := induction
        exact ⟨depth + 1, bare, by rw [isBracket, List.replicate_succ, List.cons_append], other⟩
      · exact ⟨0, c :: rest, rfl, by simpa using isBracket⟩

/-! ### What the bytes say -/

theorem utf8ByteSize_brackets (depth : Nat) :
    (String.ofList (List.replicate depth '[')).utf8ByteSize = depth := by
  induction depth with
  | zero => rfl
  | succ depth induction =>
      rw [List.replicate_succ, ← length_bytes, bytes_ofList_cons, List.length_append, length_bytes,
        induction]
      exact Nat.add_comm 1 depth

theorem utf8ByteSize_letter {c : Char} (isLetter : c ∈ letters) :
    (String.ofList [c]).utf8ByteSize = 1 := by
  have small := small_of_mem_letters isLetter
  rcases utf8EncodeChar_cases c with ⟨-, single⟩ | ⟨large, -⟩
  · rewrite [← length_bytes, bytes_ofList_cons, single]
    rfl
  · omega

theorem depthOf_brackets (other : bare.head? ≠ some '[') :
    depthOf (String.ofList (List.replicate depth '[' ++ bare)) = depth := by
  have within : ∀ byte ∈ bytes (String.ofList (List.replicate depth '[')),
      decide (byte = '['.toUInt8) = true := by
    intro byte inside
    rw [bytes_ofList, List.mem_flatMap] at inside
    obtain ⟨c, among, isByte⟩ := inside
    rw [List.eq_of_mem_replicate among] at isByte
    exact decide_eq_true (List.mem_singleton.mp isByte)
  have behind : (bytes (String.ofList bare)).takeWhile (· = '['.toUInt8) = [] := by
    cases bare with
    | nil => rfl
    | cons c rest =>
        obtain ⟨first, others, isFirst, isMark⟩ := exists_first_byte c rest
        have different : ¬first = '['.toUInt8 := by
          intro same
          exact other (congrArg some ((isMark '[' (by decide)).mp same))
        rw [isFirst, List.takeWhile_cons_of_neg]
        simpa using different
  rw [depthOf, bytes_ofList_append, List.takeWhile_append_of_pos within, behind, List.append_nil,
    length_bytes, utf8ByteSize_brackets]

theorem bareSize?_cons (c : Char) (rest : List Char) :
    bareSize? (bytes (String.ofList (c :: rest))) =
      if c ∈ letters then some 1
      else if c = 'L' then ((bytes (String.ofList (c :: rest))).idxOf? ';'.toUInt8).map (· + 1)
      else none := by
  obtain ⟨first, others, isFirst, isMark⟩ := exists_first_byte c rest
  have isLetter : first ∈ letters.map Char.toUInt8 ↔ c ∈ letters := by
    rw [List.mem_map]
    constructor
    · rintro ⟨letter, inside, same⟩
      rwa [(isMark letter (small_of_mem_letters inside)).mp same.symm]
    · intro inside
      exact ⟨c, inside, ((isMark c (small_of_mem_letters inside)).mpr rfl).symm⟩
  rw [isFirst, bareSize?]
  simp only [isLetter, isMark 'L' (by decide)]

theorem typeSize?_cons (depth : Nat) (c : Char) (rest : List Char) :
    typeSize? depth (bytes (String.ofList (c :: rest))) =
      if c = 'L' then
        ((bytes (String.ofList (c :: rest))).idxOf? ';'.toUInt8).map (depth + 1 + ·)
      else if c ∈ letters ∧ ¬(0 < depth ∧ c = 'V') then some (depth + 1)
      else none := by
  have isVoid : (bytes (String.ofList (c :: rest))).head? = some 'V'.toUInt8 ↔ c = 'V' := by
    obtain ⟨first, others, isFirst, isMark⟩ := exists_first_byte c rest
    rw [isFirst, List.head?_cons, Option.some.injEq, isMark 'V' (by decide)]
  simp only [typeSize?, isVoid, bareSize?_cons]
  by_cases isName : c = 'L'
  · subst isName
    have notLetter : 'L' ∉ letters := by decide
    have sum : (depth + ·) ∘ (· + 1) = (depth + 1 + ·) := by
      funext place
      exact (Nat.add_right_comm depth 1 place).symm
    simp [notLetter, sum]
  by_cases isLetter : c ∈ letters
  · by_cases isArray : 0 < depth ∧ c = 'V'
    · simp [isArray]
    · simp [isArray, isLetter, isName]
  · simp [isLetter, isName]

theorem idxOf?_bytes_eq_none (unclosed : ';' ∉ bare) :
    (bytes (String.ofList bare)).idxOf? ';'.toUInt8 = none :=
  List.idxOf?_eq_none_iff.mpr (mt (mem_bytes_iff (by decide)).mp unclosed)

theorem idxOf?_bytes {name : List Char} (closed : ';' ∉ name) (rest : List Char) :
    (bytes (String.ofList (name ++ ';' :: rest))).idxOf? ';'.toUInt8 =
      some (String.ofList name).utf8ByteSize := by
  have absent := idxOf?_bytes_eq_none closed
  have here : (bytes (String.ofList (';' :: rest))).idxOf? ';'.toUInt8 = some 0 := by
    rw [bytes_ofList_cons]
    exact List.idxOf?_cons
  unfold List.idxOf? at absent here ⊢
  rw [bytes_ofList_append, List.findIdx?_append, absent, here, length_bytes, Option.none_or,
    Option.map_some, Nat.zero_add]

theorem typeSize?_named {name : List Char} (closed : ';' ∉ name) (depth : Nat) (rest : List Char) :
    typeSize? depth (bytes (String.ofList ('L' :: (name ++ ';' :: rest)))) =
      some (depth + (String.ofList ('L' :: (name ++ [';']))).utf8ByteSize) := by
  have size : (String.ofList ('L' :: (name ++ [';']))).utf8ByteSize =
      (String.ofList ('L' :: name)).utf8ByteSize + 1 := by
    rw [← List.cons_append, String.ofList_append, String.utf8ByteSize_append]
    rfl
  have closedToo : ';' ∉ 'L' :: name := by simpa using closed
  have found := idxOf?_bytes closedToo rest
  rw [List.cons_append] at found
  rw [typeSize?_cons, if_pos rfl, found, size, Option.map_some, Nat.add_right_comm, Nat.add_assoc]

/-! ### What the characters say -/

def Reading.opened : Nat → Reading
  | 0 => .fresh
  | depth + 1 => .brackets (List.replicate (depth + 1) '[')

theorem scan?_opened_bracket (depth : Nat) (bare : List Char) :
    scan? (.opened depth) ('[' :: bare) = scan? (.opened (depth + 1)) bare := by
  cases depth with
  | zero | succ depth =>
      rewrite [Reading.opened, scan?, if_pos rfl]
      rfl

theorem scan?_opened_brackets (depth count : Nat) (bare : List Char) :
    scan? (.opened depth) (List.replicate count '[' ++ bare) =
      scan? (.opened (depth + count)) bare := by
  induction count generalizing depth with
  | zero => rfl
  | succ count induction =>
      rw [List.replicate_succ, List.cons_append, scan?_opened_bracket, induction, Nat.add_assoc,
        Nat.add_comm 1 count]

theorem split?_brackets (depth : Nat) (bare : List Char) :
    split? (List.replicate depth '[' ++ bare) = scan? (.opened depth) bare := by
  have scanned := scan?_opened_brackets 0 depth bare
  rwa [Nat.zero_add] at scanned

/-- Behind any number of `[` the next character decides as the next byte does. -/
theorem scan?_opened_cons {c : Char} (other : c ≠ '[') (depth : Nat) (rest : List Char) :
    scan? (.opened depth) (c :: rest) =
      if c = 'L' then scan? (.name ('L' :: List.replicate depth '[')) rest
      else if c ∈ letters ∧ ¬(0 < depth ∧ c = 'V') then
        (scan? .fresh rest).map (⟨String.ofList (List.replicate depth '[' ++ [c])⟩ :: ·)
      else none := by
  by_cases isName : c = 'L'
  · subst isName
    cases depth with
    | zero | succ depth =>
        rewrite [Reading.opened, scan?, if_neg other, if_pos rfl, if_pos rfl]
        rfl
  cases depth with
  | zero =>
      rw [Reading.opened, scan?, if_neg other, if_neg isName, if_neg isName]
      simp [mem_letters_iff]
  | succ depth =>
      have isPrimitive : (c ∈ letters ∧ ¬(0 < depth + 1 ∧ c = 'V')) ↔
          (Primitive.ofLetter? c).isSome = true := by
        rw [mem_letters_iff]
        constructor
        · rintro ⟨isVoid | isPrimitive, notVoid⟩
          · exact absurd ⟨Nat.succ_pos depth, isVoid⟩ notVoid
          · exact isPrimitive
        · intro isPrimitive
          refine ⟨.inr isPrimitive, ?_⟩
          rintro ⟨-, rfl⟩
          cases isPrimitive
      rw [Reading.opened, scan?, if_neg other, if_neg isName, if_neg isName]
      simp only [isPrimitive]
      simp

theorem scan?_name_unclosed {taken : List Char} (unclosed : ';' ∉ rest) :
    scan? (.name taken) rest = none := by
  induction rest generalizing taken with
  | nil => rfl
  | cons c rest induction =>
      rw [List.mem_cons, not_or] at unclosed
      rw [scan?, if_neg (Ne.symm unclosed.1), induction unclosed.2]

theorem ValueText.brackets {text : List Char} (isValue : ValueText text) (depth : Nat) :
    ValueText (List.replicate depth '[' ++ text) := by
  induction depth with
  | zero => exact isValue
  | succ depth induction => exact .array induction

theorem typeText_letter {c : Char} (isLetter : c ∈ letters) (notArray : ¬(0 < depth ∧ c = 'V')) :
    TypeText (List.replicate depth '[' ++ [c]) := by
  rcases mem_letters_iff.mp isLetter with rfl | isPrimitive
  · have single : depth = 0 := Nat.eq_zero_of_not_pos fun several => notArray ⟨several, rfl⟩
    rw [single]
    exact .inr rfl
  · exact .inl ((valueText_letter isPrimitive).brackets depth)

/-! ### One round -/

/-- What a round should come to: the first type and what is behind it, or nothing, if the text
does not consist of types. -/
def IsRound (text : String) : Option (TypeDescriptor × String) → Prop
  | none => split? text.toList = none
  | some (type, rest) => text = type.text ++ rest ∧ TypeText type.text.toList

/-- A round tears no character and comes to what it should. -/
def GoesThrough (text : String) : Prop :=
  ∃ outcome, firstType text = .ok outcome ∧ IsRound text outcome

theorem firstType_brackets (other : bare.head? ≠ some '[') :
    firstType (String.ofList (List.replicate depth '[' ++ bare)) =
      takeOff (String.ofList (List.replicate depth '[' ++ bare))
        (typeSize? depth (bytes (String.ofList bare))) := by
  have cut := cutAt_append (String.ofList (List.replicate depth '[')) (String.ofList bare)
  rw [utf8ByteSize_brackets, ← String.ofList_append] at cut
  rewrite [firstType, depthOf_brackets other, cut]
  rfl

theorem takeOff_append (chars rest : List Char) :
    takeOff (String.ofList (chars ++ rest)) (some (String.ofList chars).utf8ByteSize) =
      .ok (some (⟨String.ofList chars⟩, String.ofList rest)) := by
  rewrite [takeOff, String.ofList_append, cutAt_append]
  rfl

theorem goesThrough_of_sized {chars : List Char} (other : (chars ++ rest).head? ≠ some '[')
    (isType : TypeText (List.replicate depth '[' ++ chars))
    (sized : typeSize? depth (bytes (String.ofList (chars ++ rest))) =
      some (depth + (String.ofList chars).utf8ByteSize)) :
    GoesThrough (String.ofList (List.replicate depth '[' ++ (chars ++ rest))) := by
  have size : (String.ofList (List.replicate depth '[' ++ chars)).utf8ByteSize =
      depth + (String.ofList chars).utf8ByteSize := by
    rw [String.ofList_append, String.utf8ByteSize_append, utf8ByteSize_brackets]
  refine ⟨some (⟨String.ofList (List.replicate depth '[' ++ chars)⟩, String.ofList rest),
    ?_, ?_, ?_⟩
  · rw [firstType_brackets other, sized, ← size, ← List.append_assoc, takeOff_append]
  · rw [← List.append_assoc, String.ofList_append]
  · rwa [String.toList_ofList]

theorem goesThrough_of_unsized (other : bare.head? ≠ some '[')
    (unsized : typeSize? depth (bytes (String.ofList bare)) = none)
    (unread : scan? (.opened depth) bare = none) :
    GoesThrough (String.ofList (List.replicate depth '[' ++ bare)) := by
  refine ⟨none, ?_, ?_⟩
  · rw [firstType_brackets other, unsized, takeOff]
  · rw [IsRound, String.toList_ofList, split?_brackets, unread]

theorem goesThrough_name (depth : Nat) (rest : List Char) :
    GoesThrough (String.ofList (List.replicate depth '[' ++ 'L' :: rest)) := by
  have other : ('L' :: rest).head? ≠ some '[' := by simp
  by_cases closed : ';' ∈ rest
  · obtain ⟨name, behind, rfl, inside⟩ := List.eq_append_cons_of_mem closed
    have parts : 'L' :: (name ++ ';' :: behind) = 'L' :: (name ++ [';']) ++ behind := by simp
    have sized := typeSize?_named inside depth behind
    rw [parts] at other sized ⊢
    exact goesThrough_of_sized other (.inl ((ValueText.named inside).brackets depth)) sized
  · refine goesThrough_of_unsized other ?_ ?_
    · rw [typeSize?_cons, if_pos rfl, idxOf?_bytes_eq_none (by simpa using closed), Option.map_none]
    · rw [scan?_opened_cons (by decide), if_pos rfl]
      exact scan?_name_unclosed closed

theorem goesThrough {text : String} (nonempty : text ≠ "") : GoesThrough text := by
  -- A `[` takes one byte, so as many of them are counted as there are, and the next byte that is
  -- looked at is the first of a character.
  obtain ⟨depth, bare, spelling, other⟩ := exists_brackets text.toList
  rw [← String.ofList_toList (s := text), spelling]
  cases bare with
  | nil =>
      cases depth with
      | zero => exact absurd (String.toList_inj.mp spelling) nonempty
      | succ depth => exact goesThrough_of_unsized other rfl rfl
  | cons c rest =>
      by_cases isName : c = 'L'
      · rw [isName]
        exact goesThrough_name depth rest
      have sized := typeSize?_cons depth c rest
      have scanned := scan?_opened_cons (by simpa using other) depth rest
      rw [if_neg isName] at sized scanned
      by_cases isLetter : c ∈ letters ∧ ¬(0 < depth ∧ c = 'V')
      · rw [if_pos isLetter, ← utf8ByteSize_letter isLetter.1] at sized
        rw [← List.singleton_append] at other sized ⊢
        exact goesThrough_of_sized other (typeText_letter isLetter.1 isLetter.2) sized
      · rw [if_neg isLetter] at sized scanned
        exact goesThrough_of_unsized other sized scanned

/-! ### All rounds -/

theorem TypeText.ne_nil {text : List Char} (isType : TypeText text) : text ≠ [] := by
  rcases isType with isValue | rfl
  · cases isValue <;> nofun
  · nofun

theorem IsRound.utf8ByteSize_lt {text rest : String} {type : TypeDescriptor}
    (isRound : IsRound text (some (type, rest))) : rest.utf8ByteSize < text.utf8ByteSize := by
  obtain ⟨rfl, isType⟩ := isRound
  have nonempty : type.text.utf8ByteSize ≠ 0 := by
    intro zero
    apply isType.ne_nil
    rw [String.utf8ByteSize_eq_zero_iff.mp zero]
    rfl
  rw [String.utf8ByteSize_append]
  omega

theorem IsRound.split?_eq {text rest : String} {type : TypeDescriptor}
    (isRound : IsRound text (some (type, rest))) :
    split? text.toList = (split? rest.toList).map (type :: ·) := by
  obtain ⟨rfl, isType⟩ := isRound
  have scanned : split? (type.text.toList ++ rest.toList) =
      (split? rest.toList).map (⟨String.ofList type.text.toList⟩ :: ·) := scan?_fresh isType
  rwa [String.ofList_toList, ← String.toList_append] at scanned

/-- As many rounds as a text has bytes are enough to cut it into its types. -/
theorem cutTypes_eq {rounds : Nat} {text : String} (enough : text.utf8ByteSize ≤ rounds) :
    cutTypes rounds text = .ok (split? text.toList) := by
  induction rounds generalizing text with
  | zero =>
      have empty : text = "" := String.utf8ByteSize_eq_zero_iff.mp (Nat.le_zero.mp enough)
      subst empty
      rfl
  | succ rounds induction =>
      by_cases empty : text = ""
      · subst empty
        rfl
      -- What a round leaves is shorter, so the other rounds are enough for it.
      obtain ⟨outcome, taken, isRound⟩ := goesThrough empty
      rw [cutTypes, if_neg empty, taken]
      cases outcome with
      | none =>
          have unread : split? text.toList = none := isRound
          rewrite [unread]
          rfl
      | some parts =>
          obtain ⟨type, rest⟩ := parts
          have shorter : rest.utf8ByteSize ≤ rounds :=
            Nat.le_of_lt_succ (Nat.lt_of_lt_of_le isRound.utf8ByteSize_lt enough)
          have behind := induction shorter
          rewrite [isRound.split?_eq]
          change Except.bind (cutTypes rounds rest) _ = _
          rewrite [behind]
          rfl

/-! ## Exactness -/

/-- A text is cut into types exactly if it consists of types, and then into the only types that it
consists of. Texts of types can be joined before or after they are cut. Cutting by bytes ends, tears
no character and comes to the same. Each type is of one kind, and the component of an array type is
one type, with a default value that is known. -/
theorem texts_split_exactly (text : String) :
    ((∃ types, split? text.toList = some types) ↔ ∃ types, Consists text types) ∧
    (∀ types, split? text.toList = some types →
      Consists text types ∧ ∀ others, Consists text others → others = types) ∧
    (∀ more types others, split? text.toList = some types → split? more.toList = some others →
      split? (text ++ more).toList = some (types ++ others)) ∧
    (∀ rounds, text.utf8ByteSize ≤ rounds → cutTypes rounds text = .ok (split? text.toList)) ∧
    ∀ types, split? text.toList = some types → ∀ type ∈ types,
      (∃! kind, type.isOf kind = true) ∧
      (type.isArray = true → ∃ component, type.component? = some component ∧
        split? component.text.toList = some [component] ∧ component.isVoid = false ∧
        (Value.defaultFor component).isKnown = true) := by
  refine ⟨?_, ?_, ?_, fun rounds => cutTypes_eq, ?_⟩
  · exact exists_congr fun types => split?_eq_some_iff_consists
  · intro types found
    refine ⟨split?_eq_some_iff_consists.mp found, ?_⟩
    intro others consists
    have foundToo := split?_eq_some_iff_consists.mpr consists
    exact Option.some.inj (foundToo.symm.trans found)
  · intro more types others found foundMore
    apply split?_eq_some_iff_consists.mpr
    exact (split?_eq_some_iff_consists.mp found).append (split?_eq_some_iff_consists.mp foundMore)
  · intro types found type inside
    have isType := (split?_eq_some_iff_consists.mp found).1 type inside
    refine ⟨existsUnique_isOf isType, ?_⟩
    intro isArray
    obtain ⟨component, isComponent, isValue⟩ := exists_component isType isArray
    obtain ⟨isTypeToo, notVoid⟩ := valueText_iff.mp isValue
    exact ⟨component, isComponent, split?_eq_some_iff_consists.mpr (consists_singleton isTypeToo),
      notVoid, isKnown_defaultFor isValue⟩

theorem texts_split_exactly_accented :
    (∀ others, Consists "[Lé;V" others → others = [⟨"[Lé;"⟩, ⟨"V"⟩]) ∧
    split? ("[Lé;V" ++ "[[J").toList = some [⟨"[Lé;"⟩, ⟨"V"⟩, ⟨"[[J"⟩] ∧
    cutTypes 6 "[Lé;V" = .ok (some [⟨"[Lé;"⟩, ⟨"V"⟩]) ∧
    ∃ component, component? ⟨"[Lé;"⟩ = some component ∧
      (Value.defaultFor component).isKnown = true := by
  have found : split? "[Lé;V".toList = some [⟨"[Lé;"⟩, ⟨"V"⟩] := by decide +kernel
  have foundMore : split? "[[J".toList = some [⟨"[[J"⟩] := by decide +kernel
  obtain ⟨-, unique, joined, cut, kinds⟩ := texts_split_exactly "[Lé;V"
  obtain ⟨-, arrays⟩ := kinds _ found ⟨"[Lé;"⟩ List.mem_cons_self
  obtain ⟨component, isComponent, -, -, isKnown⟩ := arrays (by decide +kernel)
  refine ⟨(unique _ found).2, joined _ _ _ found foundMore, ?_, component, isComponent, isKnown⟩
  have cutAll := cut 6 (by decide +kernel)
  rwa [found] at cutAll

end TypeDescriptor

end Dexplore
