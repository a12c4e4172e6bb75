import Mathlib.Data.List.Infix
import Mathlib.Data.Option.Basic
import Dexplore.Proofs.References

/-!
# The grammar of descriptors

The text of a type that has values is `[`, any number of times, before the letter of a primitive
type or the name of a class (`ValueText`); a type is one of these or `V` (`TypeText`).  A text is
cut into types exactly if it consists of such texts one after another, and in one way only
(`TypeDescriptor.split?_eq_some_iff`).  The texts of methods and fields are cut at the first mark
of each kind.  A mark may stand again further on, so a part must be free only of the mark that
ends it (`MethodText.Proper`, `FieldText.Proper`).  Reading accepts just these texts and gives
their parts (`references_round_trip`).
-/

set_option autoImplicit false

namespace Dexplore

/-! ## Cutting at the first mark -/

theorem cut?_of_first {mark before after : List Char} (proper : mark ≠ [])
    (first : ∀ earlier later, before = earlier ++ later → later ≠ [] →
      ¬mark <+: later ++ mark ++ after) :
    cut? mark (before ++ mark ++ after) = some (before, after) := by
  induction before with
  | nil =>
      obtain ⟨c, rest, rfl⟩ := List.exists_cons_of_ne_nil proper
      have here : (c :: rest).isPrefixOf (c :: rest ++ after) = true :=
        List.isPrefixOf_iff_prefix.mpr (List.prefix_append _ _)
      simp only [List.nil_append, List.cons_append] at here ⊢
      rw [cut?, if_pos here]
      have tail : List.drop (c :: rest).length (c :: rest ++ after) = after := List.drop_left
      exact congrArg (fun tail => some ([], tail)) tail
  | cons c rest induction =>
      have notHere : ¬mark.isPrefixOf (c :: (rest ++ mark ++ after)) = true := by
        rw [List.isPrefixOf_iff_prefix]
        exact first [] (c :: rest) rfl (List.cons_ne_nil _ _)
      have later := induction fun earlier later split =>
        first (c :: earlier) later (congrArg (c :: ·) split)
      simp only [List.cons_append]
      rw [cut?, if_neg notHere, later]
      rfl

theorem not_infix_of_cut? {mark text before after : List Char} (proper : mark ≠ [])
    (cut : cut? mark text = some (before, after)) : ¬mark <:+: before := by
  induction text generalizing before with
  | nil => cases cut
  | cons c rest induction =>
      rw [cut?] at cut
      by_cases here : mark.isPrefixOf (c :: rest)
      · simp only [here, if_true, Option.some.injEq, Prod.mk.injEq] at cut
        obtain ⟨rfl, -⟩ := cut
        simpa using proper
      · simp only [here, Bool.false_eq_true, if_false, Option.map_eq_some_iff] at cut
        obtain ⟨⟨shorter, tail⟩, cutRest, same⟩ := cut
        cases same
        intro inside
        rcases List.infix_cons_iff.mp inside with atStart | later
        · -- The mark would then stand at the start of the whole text.
          have whole : c :: shorter <+: c :: rest := by
            rw [← append_of_cut? cutRest, List.append_assoc, ← List.cons_append]
            exact List.prefix_append _ _
          exact here (List.isPrefixOf_iff_prefix.mpr (atStart.trans whole))
        · exact induction cutRest later

theorem cut?_char_eq_some_iff {c : Char} {text before after : List Char} :
    cut? [c] text = some (before, after) ↔ text = before ++ [c] ++ after ∧ c ∉ before := by
  constructor
  · intro cut
    refine ⟨(append_of_cut? cut).symm, fun inside => ?_⟩
    exact not_infix_of_cut? (List.cons_ne_nil _ _) cut
      ((List.singleton_infix_iff c before).mpr inside)
  · rintro ⟨rfl, absent⟩
    refine cut?_of_first (List.cons_ne_nil _ _) ?_
    rintro earlier later rfl nonempty atStart
    obtain ⟨d, rest, rfl⟩ := List.exists_cons_of_ne_nil nonempty
    have same : c = d := (List.cons_prefix_cons.mp atStart).1
    apply absent
    simp [same]

/-- A text is cut at the first member mark. The two characters of the mark differ, so a mark
cannot begin in what stands before it and end behind. -/
theorem cut?_member_eq_some_iff {text before after : List Char} :
    cut? memberMark text = some (before, after) ↔
      text = before ++ memberMark ++ after ∧ ¬memberMark <:+: before := by
  constructor
  · intro cut
    exact ⟨(append_of_cut? cut).symm, not_infix_of_cut? (List.cons_ne_nil _ _) cut⟩
  · rintro ⟨rfl, absent⟩
    refine cut?_of_first (List.cons_ne_nil _ _) ?_
    rintro earlier later rfl nonempty atStart
    match later, nonempty with
    | [c], _ =>
        obtain ⟨-, atNext⟩ := List.cons_prefix_cons.mp atStart
        have same := (List.cons_prefix_cons.mp atNext).1
        cases same
    | c :: d :: rest, _ =>
        obtain ⟨rfl, atNext⟩ := List.cons_prefix_cons.mp atStart
        obtain ⟨rfl, -⟩ := List.cons_prefix_cons.mp atNext
        exact absent ⟨earlier, rest, by simp [memberMark]⟩

/-! ## Types -/

theorem Primitive.letter_cases (primitive : Primitive) :
    primitive.letter ≠ '[' ∧ primitive.letter ≠ 'L' ∧
      (ofLetter? primitive.letter).isSome = true := by
  cases primitive <;> decide

namespace TypeDescriptor

inductive ValueText : List Char → Prop
  | primitive (primitive : Primitive) : ValueText [primitive.letter]
  | named {name : List Char} (closed : ';' ∉ name) : ValueText ('L' :: (name ++ [';']))
  | array {text : List Char} (component : ValueText text) : ValueText ('[' :: text)

def TypeText (text : List Char) : Prop := ValueText text ∨ text = ['V']

theorem valueText_iff {type : TypeDescriptor} :
    ValueText type.text.toList ↔ TypeText type.text.toList ∧ type.isVoid = false := by
  have isVoid : type.isVoid = true ↔ type.text.toList = ['V'] := by
    cases type with
    | mk text =>
        have sameText : text.toList = ['V'] ↔ text = "V" := by
          rw [← String.toList_inj]
          rfl
        simp [TypeDescriptor.isVoid, void, sameText]
  have notVoid : ¬ValueText ['V'] := by
    intro isValue
    generalize spelled : ['V'] = text at isValue
    cases isValue with
    | primitive primitive => cases primitive <;> simp [Primitive.letter] at spelled
    | named closed | array component => simp at spelled
  cases void : type.isVoid with
  | true =>
      rw [isVoid.mp void]
      simp [notVoid]
  | false =>
      have other : type.text.toList ≠ ['V'] := fun same => by simp [isVoid.mpr same] at void
      simp [TypeText, other]

variable {text : List Char} {types : List TypeDescriptor}

/-! ### Texts that are read -/

theorem scan?_name {name taken rest : List Char} (closed : ';' ∉ name) :
    scan? (.name taken) (name ++ ';' :: rest) =
      (scan? .fresh rest).map (⟨String.ofList (taken.reverse ++ (name ++ [';']))⟩ :: ·) := by
  induction name generalizing taken with
  | nil => simp [scan?]
  | cons c name induction =>
      rw [List.mem_cons, not_or] at closed
      have different : c ≠ ';' := Ne.symm closed.1
      rw [List.cons_append, scan?, if_neg different, induction closed.2]
      simp

theorem scan?_brackets {rest : List Char} (isValue : ValueText text) (taken : List Char) :
    scan? (.brackets taken) (text ++ rest) =
      (scan? .fresh rest).map (⟨String.ofList (taken.reverse ++ text)⟩ :: ·) := by
  induction isValue generalizing taken with
  | primitive primitive =>
      obtain ⟨noBracket, noName, isLetter⟩ := Primitive.letter_cases primitive
      rw [List.singleton_append, scan?, if_neg noBracket, if_neg noName, if_pos isLetter]
      simp
  | named closed =>
      rw [List.cons_append, scan?, if_neg (by decide), if_pos rfl, List.append_assoc,
        List.singleton_append, scan?_name closed]
      simp
  | array component induction =>
      rw [List.cons_append, scan?, if_pos rfl, induction]
      simp

theorem scan?_fresh {rest : List Char} (isType : TypeText text) :
    scan? .fresh (text ++ rest) = (scan? .fresh rest).map (⟨String.ofList text⟩ :: ·) := by
  rcases isType with isValue | rfl
  · cases isValue with
    | primitive primitive =>
        obtain ⟨noBracket, noName, isLetter⟩ := Primitive.letter_cases primitive
        rw [List.singleton_append, scan?, if_neg noBracket, if_neg noName,
          if_pos (by rw [isLetter, Bool.or_true])]
    | named closed =>
        rw [List.cons_append, scan?, if_neg (by decide), if_pos rfl, List.append_assoc,
          List.singleton_append, scan?_name closed]
        simp
    | array component =>
        rw [List.cons_append, scan?, if_pos rfl, scan?_brackets component]
        simp
  · rw [List.singleton_append, scan?, if_neg (by decide), if_neg (by decide), if_pos (by rfl)]

/-! ### Texts that were read -/

/-- What reading gives after a part of a type has been taken: that type, and types after it. -/
def Reading.Gives : Reading → List TypeDescriptor → Prop
  | .fresh, types => ∀ type ∈ types, TypeText type.text.toList
  | .brackets taken, types => ∃ more others,
      types = ⟨String.ofList (taken.reverse ++ more)⟩ :: others ∧ ValueText more ∧
        ∀ type ∈ others, TypeText type.text.toList
  | .name taken, types => ∃ name others,
      types = ⟨String.ofList (taken.reverse ++ (name ++ [';']))⟩ :: others ∧ ';' ∉ name ∧
        ∀ type ∈ others, TypeText type.text.toList

theorem valueText_letter {c : Char} (isLetter : (Primitive.ofLetter? c).isSome = true) :
    ValueText [c] := by
  obtain ⟨primitive, named⟩ := Option.isSome_iff_exists.mp isLetter
  rw [Primitive.letter_of_ofLetter? named]
  exact .primitive primitive

theorem gives_of_scan? {reading : Reading} (scanned : scan? reading text = some types) :
    reading.Gives types := by
  induction text generalizing reading types with
  | nil =>
      cases reading with
      | fresh =>
          cases scanned
          intro type inside
          cases inside
      | brackets taken | name taken => cases scanned
  | cons c rest induction =>
      -- A type is complete; what follows it is read afresh.
      have complete : ∀ {chars : List Char},
          (scan? .fresh rest).map (⟨String.ofList chars⟩ :: ·) = some types →
            ∃ others, types = ⟨String.ofList chars⟩ :: others ∧
              ∀ type ∈ others, TypeText type.text.toList := by
        intro chars mapped
        obtain ⟨others, scannedRest, rfl⟩ := Option.map_eq_some_iff.mp mapped
        exact ⟨others, rfl, induction scannedRest⟩
      cases reading with
      | fresh =>
          rw [scan?] at scanned
          split at scanned
          · next isBracket =>
              obtain ⟨more, others, rfl, isValue, areTypes⟩ := induction scanned
              refine List.forall_mem_cons.mpr ⟨.inl ?_, areTypes⟩
              simpa [isBracket] using ValueText.array isValue
          split at scanned
          · next isName =>
              obtain ⟨name, others, rfl, closed, areTypes⟩ := induction scanned
              refine List.forall_mem_cons.mpr ⟨.inl ?_, areTypes⟩
              simpa [isName] using ValueText.named closed
          split at scanned
          · next isLetter =>
              obtain ⟨others, rfl, areTypes⟩ := complete scanned
              refine List.forall_mem_cons.mpr ⟨?_, areTypes⟩
              rw [String.toList_ofList]
              rcases Bool.or_eq_true_iff.mp isLetter with isVoid | isPrimitive
              · exact .inr (by rw [of_decide_eq_true isVoid])
              · exact .inl (valueText_letter isPrimitive)
          · cases scanned
      | brackets taken =>
          rw [scan?] at scanned
          split at scanned
          · next isBracket =>
              obtain ⟨more, others, rfl, isValue, areTypes⟩ := induction scanned
              exact ⟨c :: more, others, by simp, isBracket ▸ .array isValue, areTypes⟩
          split at scanned
          · next isName =>
              obtain ⟨name, others, rfl, closed, areTypes⟩ := induction scanned
              exact ⟨c :: (name ++ [';']), others, by simp, isName ▸ .named closed, areTypes⟩
          split at scanned
          · next isLetter =>
              obtain ⟨others, rfl, areTypes⟩ := complete scanned
              exact ⟨[c], others, by simp, valueText_letter isLetter, areTypes⟩
          · cases scanned
      | name taken =>
          rw [scan?] at scanned
          split at scanned
          · next isEnd =>
              obtain ⟨others, rfl, areTypes⟩ := complete scanned
              exact ⟨[], others, by simp [isEnd], List.not_mem_nil, areTypes⟩
          · next isInside =>
              obtain ⟨name, others, rfl, closed, areTypes⟩ := induction scanned
              refine ⟨c :: name, others, by simp, ?_, areTypes⟩
              rw [List.mem_cons, not_or]
              exact ⟨Ne.symm isInside, closed⟩

/-- A text is cut into the types that it consists of. -/
theorem split?_eq_some_iff :
    split? text = some types ↔
      (∀ type ∈ types, TypeText type.text.toList) ∧ text = spelled types := by
  constructor
  · intro found
    exact ⟨gives_of_scan? found, (spelled_of_split? found).symm⟩
  · rintro ⟨areTypes, rfl⟩
    induction types with
    | nil => rfl
    | cons type others induction =>
        obtain ⟨isType, areOthers⟩ := List.forall_mem_cons.mp areTypes
        have rest : scan? .fresh (spelled others) = some others := induction areOthers
        rw [spelled, List.flatMap_cons, split?, scan?_fresh isType]
        change Option.map _ (scan? .fresh (spelled others)) = _
        rw [rest, String.ofList_toList]
        rfl

theorem single?_eq_some_iff {type : TypeDescriptor} :
    single? text = some type ↔ TypeText text ∧ text = type.text.toList := by
  have only : single? text = some type ↔ split? text = some [type] := by
    unfold single?
    split
    · next found => simp [found]
    · next other => simpa using other type
  rw [only, split?_eq_some_iff]
  simp only [List.mem_singleton, forall_eq, spelled, List.flatMap_singleton]
  constructor
  · rintro ⟨isType, rfl⟩
    exact ⟨isType, rfl⟩
  · rintro ⟨isType, rfl⟩
    exact ⟨isType, rfl⟩

end TypeDescriptor

open TypeDescriptor

/-! ## Methods -/

structure MethodText where
  owner : List Char
  name : List Char
  parameters : List Char
  result : List Char

namespace MethodText

def text (parts : MethodText) : List Char :=
  parts.owner ++ ['-', '>'] ++ parts.name ++ ['('] ++ parts.parameters ++ [')'] ++ parts.result

structure Proper (parts : MethodText) : Prop where
  owner : TypeText parts.owner
  unmarked : ¬['-', '>'] <:+: parts.owner
  named : parts.name ≠ []
  unopened : '(' ∉ parts.name
  parameters : ∃ types : List TypeDescriptor,
    (∀ type ∈ types, ValueText type.text.toList) ∧ parts.parameters = spelled types
  unclosed : ')' ∉ parts.parameters
  result : TypeText parts.result

end MethodText

namespace MethodRef

variable {text : String} {reference : MethodRef}

def parts (reference : MethodRef) : MethodText where
  owner := reference.owner.text.toList
  name := reference.name.toList
  parameters := spelled reference.parameters
  result := reference.result.text.toList

/-- A reference with proper parts, each parameter being one type. -/
structure WellSpelled (reference : MethodRef) : Prop where
  parts : reference.parts.Proper
  parameters : ∀ type ∈ reference.parameters, ValueText type.text.toList

theorem toList_descriptor (reference : MethodRef) :
    reference.descriptor.toList = reference.parts.text := by
  simp [descriptor, parts, MethodText.text, spelled, String.toList_join, List.flatMap_map]

/-- Reading a text gives the reference whose parts, well spelled, make the text. -/
theorem parse?_eq_some_iff :
    parse? text = some reference ↔
      reference.WellSpelled ∧ reference.parts.text = text.toList := by
  constructor
  · intro parsed
    have whole : reference.parts.text = text.toList := by
      rw [← toList_descriptor, descriptor_of_parse? parsed]
    refine ⟨?_, whole⟩
    unfold parse? at parsed
    obtain ⟨⟨owner, member⟩, cutOwner, parsed⟩ := Option.bind_eq_some_iff.mp parsed
    obtain ⟨⟨name, signature⟩, cutName, parsed⟩ := Option.bind_eq_some_iff.mp parsed
    obtain ⟨⟨parameters, result⟩, cutParameters, parsed⟩ := Option.bind_eq_some_iff.mp parsed
    obtain ⟨ownerType, isOwner, parsed⟩ := Option.bind_eq_some_iff.mp parsed
    obtain ⟨types, areSplit, parsed⟩ := Option.bind_eq_some_iff.mp parsed
    obtain ⟨resultType, isResult, parsed⟩ := Option.bind_eq_some_iff.mp parsed
    obtain ⟨_, guarded, parsed⟩ := Option.bind_eq_some_iff.mp parsed
    cases parsed
    obtain ⟨-, unmarked⟩ := cut?_member_eq_some_iff.mp cutOwner
    obtain ⟨-, unopened⟩ := cut?_char_eq_some_iff.mp cutName
    obtain ⟨-, unclosed⟩ := cut?_char_eq_some_iff.mp cutParameters
    obtain ⟨isOwner, rfl⟩ := single?_eq_some_iff.mp isOwner
    obtain ⟨isResult, rfl⟩ := single?_eq_some_iff.mp isResult
    obtain ⟨areTypes, rfl⟩ := split?_eq_some_iff.mp areSplit
    obtain ⟨named, noVoid⟩ := (Option.guard_eq_some' _).mp guarded
    have areValues : ∀ type ∈ types, ValueText type.text.toList := by
      intro type inside
      refine valueText_iff.mpr ⟨areTypes type inside, ?_⟩
      simpa using List.all_eq_true.mp noVoid type inside
    refine ⟨⟨isOwner, unmarked, ?_, ?_, ⟨types, areValues, rfl⟩, unclosed, isResult⟩, areValues⟩
    · simpa [parts] using named
    · simpa [parts] using unopened
  · rintro ⟨⟨⟨isOwner, unmarked, named, unopened, -, unclosed, isResult⟩, areValues⟩, whole⟩
    simp only [parts] at isOwner unmarked named unopened unclosed isResult
    have cutOwner : cut? memberMark text.toList = some (reference.owner.text.toList,
        reference.name.toList ++ ['('] ++ (spelled reference.parameters ++ [')'] ++
          reference.result.text.toList)) := by
      refine cut?_member_eq_some_iff.mpr ⟨?_, unmarked⟩
      rw [← whole]
      simp [MethodText.text, parts, memberMark]
    have areTypes : ∀ type ∈ reference.parameters,
        TypeText type.text.toList ∧ type.isVoid = false :=
      fun type inside => valueText_iff.mp (areValues type inside)
    have named : String.toList reference.name ≠ [] ∧
        (reference.parameters.all fun type => !type.isVoid) = true :=
      ⟨named, List.all_eq_true.mpr fun type inside => by simp [(areTypes type inside).2]⟩
    refine Option.bind_eq_some_iff.mpr ⟨_, cutOwner, ?_⟩
    refine Option.bind_eq_some_iff.mpr ⟨_, cut?_char_eq_some_iff.mpr ⟨rfl, unopened⟩, ?_⟩
    refine Option.bind_eq_some_iff.mpr ⟨_, cut?_char_eq_some_iff.mpr ⟨rfl, unclosed⟩, ?_⟩
    refine Option.bind_eq_some_iff.mpr ⟨_, single?_eq_some_iff.mpr ⟨isOwner, rfl⟩, ?_⟩
    refine Option.bind_eq_some_iff.mpr
      ⟨_, split?_eq_some_iff.mpr ⟨fun type inside => (areTypes type inside).1, rfl⟩, ?_⟩
    refine Option.bind_eq_some_iff.mpr ⟨_, single?_eq_some_iff.mpr ⟨isResult, rfl⟩, ?_⟩
    refine Option.bind_eq_some_iff.mpr ⟨(), (Option.guard_eq_some' _).mpr named, ?_⟩
    simp only [String.ofList_toList]
    rfl

theorem exists_of_proper {parts : MethodText} (proper : parts.Proper) :
    ∃ reference : MethodRef, reference.WellSpelled ∧ reference.parts = parts := by
  obtain ⟨owner, name, parameters, result⟩ := parts
  obtain ⟨types, areValues, rfl⟩ := proper.parameters
  have same : MethodRef.parts ⟨⟨String.ofList owner⟩, String.ofList name, types,
      ⟨String.ofList result⟩⟩ = ⟨owner, name, spelled types, result⟩ := by
    simp [MethodRef.parts]
  exact ⟨_, ⟨same ▸ proper, areValues⟩, same⟩

end MethodRef

/-! ## Fields -/

structure FieldText where
  owner : List Char
  name : List Char
  type : List Char

namespace FieldText

def text (parts : FieldText) : List Char :=
  parts.owner ++ ['-', '>'] ++ parts.name ++ [':'] ++ parts.type

structure Proper (parts : FieldText) : Prop where
  owner : TypeText parts.owner
  unmarked : ¬['-', '>'] <:+: parts.owner
  named : parts.name ≠ []
  untyped : ':' ∉ parts.name
  type : ValueText parts.type

end FieldText

namespace FieldRef

variable {text : String} {reference : FieldRef}

def parts (reference : FieldRef) : FieldText where
  owner := reference.owner.text.toList
  name := reference.name.toList
  type := reference.type.text.toList

theorem toList_descriptor (reference : FieldRef) :
    reference.descriptor.toList = reference.parts.text := by
  simp [descriptor, parts, FieldText.text]

theorem parse?_eq_some_iff :
    parse? text = some reference ↔
      reference.parts.Proper ∧ reference.parts.text = text.toList := by
  constructor
  · intro parsed
    unfold parse? at parsed
    obtain ⟨⟨owner, member⟩, cutOwner, parsed⟩ := Option.bind_eq_some_iff.mp parsed
    obtain ⟨⟨name, type⟩, cutName, parsed⟩ := Option.bind_eq_some_iff.mp parsed
    obtain ⟨ownerType, isOwner, parsed⟩ := Option.bind_eq_some_iff.mp parsed
    obtain ⟨fieldType, isType, parsed⟩ := Option.bind_eq_some_iff.mp parsed
    obtain ⟨_, guarded, parsed⟩ := Option.bind_eq_some_iff.mp parsed
    cases parsed
    obtain ⟨whole, unmarked⟩ := cut?_member_eq_some_iff.mp cutOwner
    obtain ⟨rfl, untyped⟩ := cut?_char_eq_some_iff.mp cutName
    obtain ⟨isOwner, rfl⟩ := single?_eq_some_iff.mp isOwner
    obtain ⟨isType, rfl⟩ := single?_eq_some_iff.mp isType
    obtain ⟨named, noVoid⟩ := (Option.guard_eq_some' _).mp guarded
    have isValue : ValueText fieldType.text.toList :=
      valueText_iff.mpr ⟨isType, by simpa using noVoid⟩
    refine ⟨⟨isOwner, unmarked, ?_, ?_, isValue⟩, ?_⟩
    · simpa [parts] using named
    · simpa [parts] using untyped
    · rw [whole]
      simp [FieldText.text, parts, memberMark]
  · rintro ⟨⟨isOwner, unmarked, named, untyped, isValue⟩, whole⟩
    simp only [parts] at isOwner unmarked named untyped isValue
    have cutOwner : cut? memberMark text.toList = some (reference.owner.text.toList,
        reference.name.toList ++ [':'] ++ reference.type.text.toList) := by
      refine cut?_member_eq_some_iff.mpr ⟨?_, unmarked⟩
      rw [← whole]
      simp [FieldText.text, parts, memberMark]
    obtain ⟨isType, noVoid⟩ := valueText_iff.mp isValue
    have named : reference.name.toList ≠ [] ∧ (!reference.type.isVoid) = true :=
      ⟨named, by simp [noVoid]⟩
    refine Option.bind_eq_some_iff.mpr ⟨_, cutOwner, ?_⟩
    refine Option.bind_eq_some_iff.mpr ⟨_, cut?_char_eq_some_iff.mpr ⟨rfl, untyped⟩, ?_⟩
    refine Option.bind_eq_some_iff.mpr ⟨_, single?_eq_some_iff.mpr ⟨isOwner, rfl⟩, ?_⟩
    refine Option.bind_eq_some_iff.mpr ⟨_, single?_eq_some_iff.mpr ⟨isType, rfl⟩, ?_⟩
    refine Option.bind_eq_some_iff.mpr ⟨(), (Option.guard_eq_some' _).mpr named, ?_⟩
    simp only [String.ofList_toList]
    rfl

theorem exists_parts_eq (parts : FieldText) : ∃ reference : FieldRef, reference.parts = parts :=
  ⟨⟨⟨String.ofList parts.owner⟩, String.ofList parts.name, ⟨String.ofList parts.type⟩⟩, by
    simp [FieldRef.parts]⟩

end FieldRef

/-! ## Reading and writing -/

section

variable {Ref Parts : Type} {parse? : String → Option Ref} {descriptor : Ref → String}
  {owner : Ref → TypeDescriptor} {parts : Ref → Parts} {spelling : Parts → List Char}
  {proper : Parts → Prop} {wellSpelled : Ref → Prop}

/-- Texts are read as references exactly if they are made of proper parts, and writing undoes
reading. -/
structure ReadsExactly (parse? : String → Option Ref) (descriptor : Ref → String)
    (owner : Ref → TypeDescriptor) (parts : Ref → Parts) (spelling : Parts → List Char)
    (proper : Parts → Prop) (wellSpelled : Ref → Prop) : Prop where
  accepts : ∀ text, (∃ reference, parse? text = some reference) ↔
    ∃ made, proper made ∧ spelling made = text.toList
  gives : ∀ text reference, parse? text = some reference →
    wellSpelled reference ∧ proper (parts reference) ∧
      spelling (parts reference) = text.toList
  unique : ∀ left right, proper left → proper right → spelling left = spelling right →
    left = right
  writes : ∀ text reference, parse? text = some reference → descriptor reference = text
  names : ∀ text reference, parse? text = some reference →
    classOfDescriptor text = owner reference
  reads : ∀ reference, wellSpelled reference → parse? (descriptor reference) = some reference
  injective : ∀ left right, (∃ text, parse? text = some left) →
    (∃ text, parse? text = some right) → descriptor left = descriptor right → left = right

/-- It is enough to know which references have a text, and which parts come from references. -/
theorem ReadsExactly.of_iff
    (parsed : ∀ text reference, parse? text = some reference ↔
      wellSpelled reference ∧ spelling (parts reference) = text.toList)
    (written : ∀ reference, (descriptor reference).toList = spelling (parts reference))
    (made : ∀ parted, proper parted ↔ ∃ reference, wellSpelled reference ∧ parts reference = parted)
    (named : ∀ text reference, parse? text = some reference →
      classOfDescriptor text = owner reference) :
    ReadsExactly parse? descriptor owner parts spelling proper wellSpelled where
  accepts text := by
    constructor
    · rintro ⟨reference, isRead⟩
      obtain ⟨well, whole⟩ := (parsed text reference).mp isRead
      exact ⟨parts reference, (made _).mpr ⟨reference, well, rfl⟩, whole⟩
    · rintro ⟨_, isProper, whole⟩
      obtain ⟨reference, well, rfl⟩ := (made _).mp isProper
      exact ⟨reference, (parsed text reference).mpr ⟨well, whole⟩⟩
  gives text reference isRead := by
    obtain ⟨well, whole⟩ := (parsed text reference).mp isRead
    exact ⟨well, (made _).mpr ⟨reference, well, rfl⟩, whole⟩
  unique left right isLeft isRight same := by
    obtain ⟨first, wellFirst, rfl⟩ := (made _).mp isLeft
    obtain ⟨second, wellSecond, rfl⟩ := (made _).mp isRight
    have readFirst := (parsed (descriptor first) first).mpr ⟨wellFirst, (written first).symm⟩
    have readSecond := (parsed (descriptor first) second).mpr
      ⟨wellSecond, same.symm.trans (written first).symm⟩
    rw [readFirst] at readSecond
    cases readSecond
    rfl
  writes text reference isRead := by
    obtain ⟨-, whole⟩ := (parsed text reference).mp isRead
    exact String.toList_inj.mp ((written reference).trans whole)
  names := named
  reads reference well := (parsed _ _).mpr ⟨well, (written reference).symm⟩
  injective := by
    rintro left right ⟨text, isLeft⟩ ⟨other, isRight⟩ same
    have wellLeft := ((parsed text left).mp isLeft).1
    have wellRight := ((parsed other right).mp isRight).1
    have readLeft := (parsed (descriptor left) left).mpr ⟨wellLeft, (written left).symm⟩
    have readRight := (parsed (descriptor left) right).mpr
      ⟨wellRight, by rw [same, written right]⟩
    rw [readLeft] at readRight
    cases readRight
    rfl

end

theorem classOfDescriptor_of_unmarked {text : String} {owner rest : List Char}
    (whole : owner ++ ['-', '>'] ++ rest = text.toList) (unmarked : ¬['-', '>'] <:+: owner) :
    classOfDescriptor text = ⟨String.ofList owner⟩ := by
  have cut : cut? memberMark text.toList = some (owner, rest) :=
    cut?_member_eq_some_iff.mpr ⟨whole.symm, unmarked⟩
  rw [classOfDescriptor, cut]

/-- Methods and fields are read from the texts that are made of proper parts, and from no
others. A text can be taken apart in one way only, which is what reading gives; writing gives the
text back, and the class that the text names is that of the reference. The descriptor of a
reference with proper parts is read as that reference, so descriptors tell references apart. -/
theorem references_round_trip :
    ReadsExactly MethodRef.parse? MethodRef.descriptor MethodRef.owner
      MethodRef.parts MethodText.text MethodText.Proper MethodRef.WellSpelled ∧
    ReadsExactly FieldRef.parse? FieldRef.descriptor FieldRef.owner
      FieldRef.parts FieldText.text FieldText.Proper (fun reference => reference.parts.Proper) := by
  constructor
  · refine .of_iff (fun _ _ => MethodRef.parse?_eq_some_iff) MethodRef.toList_descriptor ?_ ?_
    · intro parted
      constructor
      · exact MethodRef.exists_of_proper
      · rintro ⟨reference, well, rfl⟩
        exact well.parts
    · intro text reference isRead
      rw [← MethodRef.descriptor_of_parse? isRead]
      exact MethodRef.Parsed.classOfDescriptor ⟨text, isRead⟩
  · refine .of_iff (fun _ _ => FieldRef.parse?_eq_some_iff) FieldRef.toList_descriptor ?_ ?_
    · intro parted
      constructor
      · intro isProper
        obtain ⟨reference, rfl⟩ := FieldRef.exists_parts_eq parted
        exact ⟨reference, isProper, rfl⟩
      · rintro ⟨reference, isProper, rfl⟩
        exact isProper
    · intro text reference isRead
      obtain ⟨isProper, whole⟩ := FieldRef.parse?_eq_some_iff.mp isRead
      have marked : reference.owner.text.toList ++ ['-', '>'] ++
          (reference.name.toList ++ [':'] ++ reference.type.text.toList) = text.toList := by
        rw [← whole]
        simp [FieldText.text, FieldRef.parts]
      rw [classOfDescriptor_of_unmarked marked isProper.unmarked, String.ofList_toList]

-- Every mark may stand again behind the one that counts.
example : MethodRef.parse? "L(;->a->b)(L->;)L);" =
    some ⟨⟨"L(;"⟩, "a->b)", [⟨"L->;"⟩], ⟨"L);"⟩⟩ := by decide

end Dexplore
