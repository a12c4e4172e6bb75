/-!
# Finite maps in key order

A finite map is a list of entries whose keys ascend strictly.  Every map has exactly one
such list, so two maps that answer every lookup alike are equal (`OrdMap.ext_find?`), and
whatever is listed from a map comes out in key order.
-/

set_option autoImplicit false

namespace Dexplore

universe u v w

/-! ## Entry lists -/

namespace Entries

variable {κ : Type u} {α : Type v} {β : Type w}

def find? [DecidableEq κ] (key : κ) : List (κ × α) → Option α
  | [] => none
  | (other, value) :: rest => if other = key then some value else find? key rest

/-- Stores a value at its place in the order, over any earlier value of the same key. -/
def insert [Ord κ] (key : κ) (value : α) : List (κ × α) → List (κ × α)
  | [] => [(key, value)]
  | (other, stored) :: rest =>
    match compare key other with
    | .lt => (key, value) :: (other, stored) :: rest
    | .eq => (key, value) :: rest
    | .gt => (other, stored) :: insert key value rest

def erase [DecidableEq κ] (key : κ) (entries : List (κ × α)) : List (κ × α) :=
  entries.filter fun entry => entry.1 ≠ key

def map (change : κ → α → β) (entries : List (κ × α)) : List (κ × β) :=
  entries.map fun entry => (entry.1, change entry.1 entry.2)

/-- Changes the value of a key, and nothing if the key is absent. -/
def modify [DecidableEq κ] (key : κ) (change : α → α) : List (κ × α) → List (κ × α)
  | [] => []
  | (other, value) :: rest =>
    if other = key then (other, change value) :: rest
    else (other, value) :: modify key change rest

def Ascending [Ord κ] (entries : List (κ × α)) : Prop :=
  entries.Pairwise fun left right => compare left.1 right.1 = .lt

theorem ne_of_compare [Ord κ] [Std.ReflOrd κ] {left right : κ} {order : Ordering}
    (compared : compare left right = order) (strict : order ≠ .eq) : left ≠ right := by
  intro equal
  subst equal
  exact strict (compared.symm.trans Std.ReflCmp.compare_self)

theorem fst_lt_of_mem [Ord κ] {head : κ × α} {rest : List (κ × α)}
    (ascending : Ascending (head :: rest)) {entry : κ × α} (member : entry ∈ rest) :
    compare head.1 entry.1 = .lt :=
  List.rel_of_pairwise_cons ascending member

theorem mem_insert [Ord κ] {key : κ} {value : α} {entries : List (κ × α)} {entry : κ × α}
    (member : entry ∈ insert key value entries) : entry = (key, value) ∨ entry ∈ entries := by
  induction entries with
  | nil => simpa [insert] using member
  | cons head rest induction =>
      obtain ⟨other, stored⟩ := head
      simp only [insert] at member
      split at member
      · simpa using member
      · rcases List.mem_cons.mp member with same | inRest
        · exact .inl same
        · exact .inr (List.mem_cons_of_mem _ inRest)
      · rcases List.mem_cons.mp member with same | inRest
        · exact .inr (by simp [same])
        · rcases induction inRest with isNew | wasThere
          · exact .inl isNew
          · exact .inr (List.mem_cons_of_mem _ wasThere)

theorem ascending_insert [Ord κ] [Std.TransOrd κ] [Std.LawfulEqOrd κ]
    (key : κ) (value : α) {entries : List (κ × α)} (ascending : Ascending entries) :
    Ascending (insert key value entries) := by
  induction entries with
  | nil => simp [insert, Ascending]
  | cons head rest induction =>
      obtain ⟨other, stored⟩ := head
      simp only [insert]
      split
      next below =>
        refine List.Pairwise.cons ?_ ascending
        intro entry member
        rcases List.mem_cons.mp member with same | inRest
        · rw [same]; exact below
        · exact Std.TransCmp.lt_trans below (fst_lt_of_mem ascending inRest)
      next same =>
        have equal : key = other := Std.LawfulEqCmp.eq_of_compare same
        subst equal
        exact List.Pairwise.cons (fun _ member => fst_lt_of_mem ascending member) ascending.of_cons
      next above =>
        refine List.Pairwise.cons ?_ (induction ascending.of_cons)
        intro entry member
        rcases mem_insert member with isNew | wasThere
        · rw [isNew]; exact Std.OrientedCmp.lt_of_gt above
        · exact fst_lt_of_mem ascending wasThere

theorem ascending_erase [Ord κ] [DecidableEq κ] (key : κ) {entries : List (κ × α)}
    (ascending : Ascending entries) : Ascending (erase key entries) :=
  ascending.sublist List.filter_sublist

theorem ascending_map [Ord κ] (change : κ → α → β) {entries : List (κ × α)}
    (ascending : Ascending entries) : Ascending (map change entries) :=
  List.pairwise_map.mpr ascending

theorem map_fst_modify [DecidableEq κ] (key : κ) (change : α → α) (entries : List (κ × α)) :
    (modify key change entries).map Prod.fst = entries.map Prod.fst := by
  induction entries with
  | nil => rfl
  | cons head rest induction =>
      by_cases hit : head.1 = key <;> simp [modify, hit, induction]

theorem ascending_modify [Ord κ] [DecidableEq κ] (key : κ) (change : α → α)
    {entries : List (κ × α)} (ascending : Ascending entries) :
    Ascending (modify key change entries) := by
  have onKeys : (entries.map Prod.fst).Pairwise fun left right => compare left right = .lt :=
    List.pairwise_map.mpr ascending
  rw [← map_fst_modify key change entries] at onKeys
  exact List.pairwise_map.mp onKeys

theorem find?_insert [Ord κ] [Std.LawfulEqOrd κ] [DecidableEq κ]
    (key wanted : κ) (value : α) (entries : List (κ × α)) :
    find? wanted (insert key value entries) =
      if key = wanted then some value else find? wanted entries := by
  induction entries with
  | nil => simp [insert, find?]
  | cons head rest induction =>
      obtain ⟨other, stored⟩ := head
      simp only [insert]
      split
      next => simp [find?]
      next same =>
        have equal : key = other := Std.LawfulEqCmp.eq_of_compare same
        subst equal
        by_cases hit : key = wanted <;> simp [find?, hit]
      next above =>
        have different : key ≠ other := ne_of_compare above (by decide)
        simp only [find?, induction]
        by_cases hit : other = wanted
        · subst hit; simp [different]
        · simp [hit]

theorem find?_erase [DecidableEq κ] (key wanted : κ) (entries : List (κ × α)) :
    find? wanted (erase key entries) =
      if key = wanted then none else find? wanted entries := by
  induction entries with
  | nil => simp [erase, find?]
  | cons head rest induction =>
      obtain ⟨other, stored⟩ := head
      simp only [erase] at induction
      by_cases gone : other = key
      · subst gone
        simp only [erase, List.filter_cons, ne_eq, not_true_eq_false, decide_false,
          Bool.false_eq_true, if_false, find?, induction]
        by_cases hit : other = wanted <;> simp [hit]
      · simp only [erase, List.filter_cons, ne_eq, gone, not_false_eq_true, decide_true,
          if_true, find?, induction]
        by_cases hit : other = wanted
        · subst hit; simp [Ne.symm gone]
        · simp [hit]

theorem find?_map [DecidableEq κ] (change : κ → α → β) (wanted : κ) (entries : List (κ × α)) :
    find? wanted (map change entries) = (find? wanted entries).map (change wanted) := by
  induction entries with
  | nil => simp [map, find?]
  | cons head rest induction =>
      obtain ⟨other, stored⟩ := head
      simp only [map] at induction
      by_cases hit : other = wanted
      · subst hit; simp [map, find?]
      · simp [map, find?, hit, induction]

theorem find?_modify [DecidableEq κ] (key wanted : κ) (change : α → α)
    (entries : List (κ × α)) :
    find? wanted (modify key change entries) =
      if wanted = key then (find? wanted entries).map change else find? wanted entries := by
  induction entries with
  | nil => simp [modify, find?]
  | cons head rest induction =>
      obtain ⟨other, stored⟩ := head
      by_cases hit : other = key
      · subst hit
        by_cases same : other = wanted
        · subst same; simp [modify, find?]
        · simp [modify, find?, same, Ne.symm same]
      · by_cases same : other = wanted
        · subst same; simp [modify, find?, hit]
        · simp [modify, find?, hit, same, induction]

theorem find?_eq_some_iff [Ord κ] [Std.TransOrd κ] [DecidableEq κ]
    {key : κ} {value : α} {entries : List (κ × α)} (ascending : Ascending entries) :
    find? key entries = some value ↔ (key, value) ∈ entries := by
  induction entries with
  | nil => simp [find?]
  | cons head rest induction =>
      obtain ⟨other, stored⟩ := head
      by_cases hit : other = key
      · subst hit
        constructor
        · intro found
          have : stored = value := by simpa [find?] using found
          simp [this]
        · intro member
          rcases List.mem_cons.mp member with same | inRest
          · have : value = stored := (Prod.mk.inj same).2
            simp [find?, this]
          · have below : compare other other = .lt := fst_lt_of_mem ascending inRest
            exact absurd rfl (ne_of_compare below (by decide))
      · simp only [find?, hit, if_false, induction ascending.of_cons, List.mem_cons,
          Prod.mk.injEq, Ne.symm hit, false_and, false_or]

theorem eq_of_find?_eq [Ord κ] [Std.TransOrd κ] [Std.LawfulEqOrd κ] [DecidableEq κ]
    {left right : List (κ × α)} (leftAscending : Ascending left)
    (rightAscending : Ascending right)
    (agree : ∀ key, find? key left = find? key right) : left = right := by
  have sameMembers : ∀ entry, entry ∈ left ↔ entry ∈ right := by
    rintro ⟨key, value⟩
    rw [← find?_eq_some_iff leftAscending, ← find?_eq_some_iff rightAscending, agree key]
  clear agree
  induction left generalizing right with
  | nil =>
      cases right with
      | nil => rfl
      | cons head rest => simpa using (sameMembers head).mpr (by simp)
  | cons head rest induction =>
      cases right with
      | nil => simpa using (sameMembers head).mp (by simp)
      | cons head' rest' =>
          have sameHead : head = head' := by
            rcases List.mem_cons.mp ((sameMembers head).mp (by simp)) with same | later
            · exact same
            · rcases List.mem_cons.mp ((sameMembers head').mpr (by simp)) with same | later'
              · exact same.symm
              · have below := fst_lt_of_mem leftAscending later'
                have above := fst_lt_of_mem rightAscending later
                exact absurd rfl (ne_of_compare (Std.TransCmp.lt_trans below above) (by decide))
          subst sameHead
          have sameRest : rest = rest' := by
            refine induction leftAscending.of_cons rightAscending.of_cons ?_
            intro entry
            constructor
            · intro member
              rcases List.mem_cons.mp ((sameMembers entry).mp (by simp [member])) with same | later
              · have below := fst_lt_of_mem leftAscending member
                exact absurd (congrArg Prod.fst same.symm) (ne_of_compare below (by decide))
              · exact later
            · intro member
              rcases List.mem_cons.mp ((sameMembers entry).mpr (by simp [member])) with same | later
              · have below := fst_lt_of_mem rightAscending member
                exact absurd (congrArg Prod.fst same.symm) (ne_of_compare below (by decide))
              · exact later
          rw [sameRest]

end Entries

/-! ## Maps -/

/-- A finite map, kept as its entries in ascending key order. -/
structure OrdMap (κ : Type u) (α : Type v) [Ord κ] where
  /-- The entries, each key once, in ascending order. -/
  entries : List (κ × α)
  ascending : Entries.Ascending entries

namespace OrdMap

variable {κ : Type u} {α : Type v} {β : Type w} [Ord κ]

theorem ext {left right : OrdMap κ α} (same : left.entries = right.entries) : left = right := by
  cases left; cases right; cases same; rfl

instance [DecidableEq κ] [DecidableEq α] : DecidableEq (OrdMap κ α) := fun left right =>
  if same : left.entries = right.entries then isTrue (ext same)
  else isFalse fun equal => same (congrArg entries equal)

def empty : OrdMap κ α := ⟨[], List.Pairwise.nil⟩

instance : Inhabited (OrdMap κ α) := ⟨empty⟩

def keys (map : OrdMap κ α) : List κ := map.entries.map (·.1)

def values (map : OrdMap κ α) : List α := map.entries.map (·.2)

def size (map : OrdMap κ α) : Nat := map.entries.length

def mapValues (change : κ → α → β) (map : OrdMap κ α) : OrdMap κ β :=
  ⟨Entries.map change map.entries, Entries.ascending_map change map.ascending⟩

section Lookup

variable [DecidableEq κ]

def find? (map : OrdMap κ α) (key : κ) : Option α := Entries.find? key map.entries

def contains (map : OrdMap κ α) (key : κ) : Bool := (map.find? key).isSome

def erase (map : OrdMap κ α) (key : κ) : OrdMap κ α :=
  ⟨Entries.erase key map.entries, Entries.ascending_erase key map.ascending⟩

def modify (map : OrdMap κ α) (key : κ) (change : α → α) : OrdMap κ α :=
  ⟨Entries.modify key change map.entries, Entries.ascending_modify key change map.ascending⟩

end Lookup

section Insertion

variable [Std.TransOrd κ] [Std.LawfulEqOrd κ]

def insert (map : OrdMap κ α) (key : κ) (value : α) : OrdMap κ α :=
  ⟨Entries.insert key value map.entries, Entries.ascending_insert key value map.ascending⟩

def ofList (entries : List (κ × α)) : OrdMap κ α :=
  entries.foldl (fun map entry => map.insert entry.1 entry.2) empty

end Insertion

/-! ## Lookup laws -/

section Laws

variable [DecidableEq κ]

@[simp] theorem find?_empty (key : κ) : (empty : OrdMap κ α).find? key = none := rfl

@[simp] theorem find?_mapValues (change : κ → α → β) (map : OrdMap κ α) (key : κ) :
    (map.mapValues change).find? key = (map.find? key).map (change key) :=
  Entries.find?_map change key map.entries

@[simp] theorem find?_erase (map : OrdMap κ α) (key wanted : κ) :
    (map.erase key).find? wanted = if key = wanted then none else map.find? wanted :=
  Entries.find?_erase key wanted map.entries

@[simp] theorem find?_modify (map : OrdMap κ α) (key wanted : κ) (change : α → α) :
    (map.modify key change).find? wanted =
      if wanted = key then (map.find? wanted).map change else map.find? wanted :=
  Entries.find?_modify key wanted change map.entries

variable [Std.TransOrd κ]

theorem find?_eq_some_iff {map : OrdMap κ α} {key : κ} {value : α} :
    map.find? key = some value ↔ (key, value) ∈ map.entries :=
  Entries.find?_eq_some_iff map.ascending

variable [Std.LawfulEqOrd κ]

@[simp] theorem find?_insert (map : OrdMap κ α) (key wanted : κ) (value : α) :
    (map.insert key value).find? wanted =
      if key = wanted then some value else map.find? wanted :=
  Entries.find?_insert key wanted value map.entries

/-- Maps that answer every lookup alike are equal. -/
theorem ext_find? {left right : OrdMap κ α}
    (agree : ∀ key, left.find? key = right.find? key) : left = right :=
  ext (Entries.eq_of_find?_eq left.ascending right.ascending agree)

end Laws

end OrdMap

end Dexplore
