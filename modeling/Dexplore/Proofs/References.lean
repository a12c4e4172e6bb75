import Dexplore.Member

/-!
# References that were read

A reference that was read from a text has that text as its descriptor
(`MethodRef.descriptor_of_parse?`).  So among references that were read, the descriptor says
all: a method that is found by a descriptor has the parameters that the caller means
(`MethodRef.Parsed.eq_of_descriptor`).
-/

set_option autoImplicit false

namespace Dexplore

theorem append_of_cut? {mark text before after : List Char}
    (cut : cut? mark text = some (before, after)) : before ++ mark ++ after = text := by
  induction text generalizing before with
  | nil => simp [cut?] at cut
  | cons c rest induction =>
      rw [cut?] at cut
      by_cases here : mark.isPrefixOf (c :: rest)
      · simp only [here, if_true, Option.some.injEq, Prod.mk.injEq] at cut
        obtain ⟨rfl, rfl⟩ := cut
        obtain ⟨tail, split⟩ := List.isPrefixOf_iff_prefix.mp here
        rw [← split, List.drop_left]
        rfl
      · simp only [here, Bool.false_eq_true, if_false, Option.map_eq_some_iff] at cut
        obtain ⟨⟨shorter, tail⟩, cutRest, same⟩ := cut
        cases same
        rw [← induction cutRest]
        rfl

namespace TypeDescriptor

def Reading.text : Reading → List Char
  | .fresh => []
  | .brackets taken | .name taken => taken.reverse

def spelled (types : List TypeDescriptor) : List Char := types.flatMap (·.text.toList)

theorem spelled_of_scan? {reading : Reading} {text : List Char} {types : List TypeDescriptor}
    (scanned : scan? reading text = some types) : spelled types = reading.text ++ text := by
  induction text generalizing reading types with
  | nil =>
      cases reading with
      | fresh =>
          cases scanned
          rfl
      | brackets taken | name taken => cases scanned
  | cons c rest induction =>
      -- A descriptor is complete: its characters come before those of the rest.
      have complete : ∀ {chars : List Char},
          (scan? .fresh rest).map (⟨String.ofList chars⟩ :: ·) = some types →
            spelled types = chars ++ rest := by
        intro chars mapped
        obtain ⟨others, scannedRest, rfl⟩ := Option.map_eq_some_iff.mp mapped
        have spelledRest : spelled others = rest := induction scannedRest
        simp only [spelled, List.flatMap_cons, String.toList_ofList]
        rw [← spelledRest]
        rfl
      cases reading with
      | fresh =>
          rw [scan?] at scanned
          split at scanned
          · exact induction scanned
          split at scanned
          · exact induction scanned
          split at scanned
          · exact complete scanned
          · cases scanned
      | brackets taken =>
          rw [scan?] at scanned
          split at scanned
          · simpa [Reading.text] using induction scanned
          split at scanned
          · simpa [Reading.text] using induction scanned
          split at scanned
          · simpa [Reading.text] using complete scanned
          · cases scanned
      | name taken =>
          rw [scan?] at scanned
          split at scanned
          · simpa [Reading.text] using complete scanned
          · simpa [Reading.text] using induction scanned

theorem spelled_of_split? {text : List Char} {types : List TypeDescriptor}
    (found : split? text = some types) : spelled types = text :=
  spelled_of_scan? found

theorem toList_of_single? {text : List Char} {type : TypeDescriptor}
    (found : single? text = some type) : type.text.toList = text := by
  unfold single? at found
  split at found
  · next only isOnly =>
      cases found
      rw [← spelled_of_split? isOnly]
      simp [spelled]
  · cases found

end TypeDescriptor

namespace MethodRef

theorem descriptor_of_parse? {text : String} {reference : MethodRef}
    (parsed : parse? text = some reference) : reference.descriptor = text := by
  unfold parse? at parsed
  obtain ⟨⟨owner, member⟩, cutOwner, parsed⟩ := Option.bind_eq_some_iff.mp parsed
  obtain ⟨⟨name, signature⟩, cutName, parsed⟩ := Option.bind_eq_some_iff.mp parsed
  obtain ⟨⟨parameters, result⟩, cutParameters, parsed⟩ := Option.bind_eq_some_iff.mp parsed
  obtain ⟨ownerType, isOwner, parsed⟩ := Option.bind_eq_some_iff.mp parsed
  obtain ⟨types, areTypes, parsed⟩ := Option.bind_eq_some_iff.mp parsed
  obtain ⟨resultType, isResult, parsed⟩ := Option.bind_eq_some_iff.mp parsed
  obtain ⟨-, -, parsed⟩ := Option.bind_eq_some_iff.mp parsed
  cases parsed
  have joined : (String.join (types.map (·.text))).toList = parameters := by
    rw [← TypeDescriptor.spelled_of_split? areTypes]
    simp [String.toList_join, TypeDescriptor.spelled, List.flatMap_map]
  apply String.toList_inj.mp
  simp only [descriptor, String.toList_append, String.toList_ofList, joined,
    TypeDescriptor.toList_of_single? isOwner, TypeDescriptor.toList_of_single? isResult]
  rw [← append_of_cut? cutOwner, ← append_of_cut? cutName, ← append_of_cut? cutParameters]
  simp [memberMark]

/-- A reference that was read from a text. -/
def Parsed (reference : MethodRef) : Prop := ∃ text, parse? text = some reference

theorem Parsed.classOfDescriptor {reference : MethodRef} (parsed : reference.Parsed) :
    classOfDescriptor reference.descriptor = reference.owner := by
  obtain ⟨text, parsed⟩ := parsed
  rw [descriptor_of_parse? parsed]
  unfold parse? at parsed
  obtain ⟨⟨owner, member⟩, cutOwner, parsed⟩ := Option.bind_eq_some_iff.mp parsed
  obtain ⟨⟨name, signature⟩, -, parsed⟩ := Option.bind_eq_some_iff.mp parsed
  obtain ⟨⟨parameters, result⟩, -, parsed⟩ := Option.bind_eq_some_iff.mp parsed
  obtain ⟨ownerType, isOwner, parsed⟩ := Option.bind_eq_some_iff.mp parsed
  obtain ⟨types, -, parsed⟩ := Option.bind_eq_some_iff.mp parsed
  obtain ⟨resultType, -, parsed⟩ := Option.bind_eq_some_iff.mp parsed
  obtain ⟨-, -, parsed⟩ := Option.bind_eq_some_iff.mp parsed
  cases parsed
  rw [Dexplore.classOfDescriptor, cutOwner]
  simp only [← TypeDescriptor.toList_of_single? isOwner, String.ofList_toList]

/-- References that were read are told apart by their descriptors. -/
theorem Parsed.eq_of_descriptor {left right : MethodRef} (leftParsed : left.Parsed)
    (rightParsed : right.Parsed) (same : left.descriptor = right.descriptor) : left = right := by
  obtain ⟨leftText, isLeft⟩ := leftParsed
  obtain ⟨rightText, isRight⟩ := rightParsed
  have texts : leftText = rightText := by
    rw [← descriptor_of_parse? isLeft, same, descriptor_of_parse? isRight]
  rw [texts, isRight] at isLeft
  cases isLeft
  rfl

end MethodRef

end Dexplore
