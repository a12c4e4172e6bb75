import Dexplore.Proofs.WellFormed

/-!
# Loading and updating

Classes can be loaded if their names differ, their methods are their own and differ in their
descriptors, and each method has room for its arguments and code that makes a graph
(`Loadable`).  The program then holds just these classes, methods and graphs
(`Program.Holds`), and there is only one such program (`Program.ofClasses_eq_ok_iff`).  An
update of a method that succeeds leads to the program of the classes with the method in its
place (`Program.Holds.update`).
-/

set_option autoImplicit false

namespace Dexplore

theorem Except.bind_eq_ok_iff {ε α β : Type} {result : Except ε α} {next : α → Except ε β}
    {value : β} :
    (result >>= next) = .ok value ↔ ∃ first, result = .ok first ∧ next first = .ok value := by
  cases result <;> simp [bind, Except.bind]

theorem Except.eq_ok_of_toOption {ε α : Type} {result : Except ε α} {value : α}
    (given : result.toOption = some value) : result = .ok value := by
  cases result with
  | error fault => cases given
  | ok other =>
      cases given
      rfl

/-! ## Entering methods -/

structure MethodDef.Acceptable (method : MethodDef) : Prop where
  roomy : method.incoming ≤ method.registers
  graph : method.isImplemented = true → ∃ graph, Graph.ofMethod method = .ok graph

theorem Graph.ofMethod_of_unimplemented {method : MethodDef}
    (bare : method.isImplemented = false) : (Graph.ofMethod method).toOption = none := by
  cases built : Graph.ofMethod method with
  | error fault => rfl
  | ok graph =>
      rw [isImplemented_of_ofMethod built] at bare
      cases bare

namespace Program

variable {program after : Program} {method : MethodDef} {old new : List MethodDef}

def enter (program : Program) (method : MethodDef) : Program :=
  { program with
    methods := program.methods.insert method.descriptor method
    templates :=
      match Graph.ofMethod method with
      | .ok graph => program.templates.insert method.descriptor graph
      | .error _ => program.templates.erase method.descriptor }

theorem methods_enter (program : Program) (method : MethodDef) (descriptor : String) :
    (program.enter method).methods.find? descriptor =
      if method.descriptor = descriptor then some method
      else program.methods.find? descriptor := by
  simp [enter]

theorem templates_enter (program : Program) (method : MethodDef) (descriptor : String) :
    (program.enter method).templates.find? descriptor =
      if method.descriptor = descriptor then (Graph.ofMethod method).toOption
      else program.templates.find? descriptor := by
  unfold enter
  cases Graph.ofMethod method with
  | ok graph => simp [Except.toOption]
  | error fault => simp [Except.toOption]

theorem register_of_acceptable (acceptable : method.Acceptable) :
    program.register method = .ok (program.enter method) := by
  unfold register enter
  simp only [Nat.not_lt.mpr acceptable.roomy, if_false]
  by_cases code : method.isImplemented = true
  · obtain ⟨graph, built⟩ := acceptable.graph code
    simp only [code, if_true, built]
    rfl
  · have bare := Graph.ofMethod_of_unimplemented (Bool.eq_false_iff.mpr code)
    cases built : Graph.ofMethod method with
    | ok graph => simp [built, Except.toOption] at bare
    | error fault =>
        simp only [code]
        rfl

theorem acceptable_of_register (registered : program.register method = .ok after) :
    method.Acceptable := by
  obtain ⟨room, -, template, -, built, code⟩ := register_eq_ok registered
  refine ⟨room, fun implemented => ?_⟩
  obtain ⟨graph, isGraph⟩ := Option.isSome_iff_exists.mp (code implemented)
  exact ⟨graph, built graph isGraph⟩

theorem register_eq_ok_iff :
    program.register method = .ok after ↔ method.Acceptable ∧ after = program.enter method := by
  constructor
  · intro registered
    have acceptable := acceptable_of_register registered
    rw [register_of_acceptable acceptable] at registered
    cases registered
    exact ⟨acceptable, rfl⟩
  · rintro ⟨acceptable, rfl⟩
    exact register_of_acceptable acceptable

/-! ## The methods of a program -/

structure Lists (program : Program) (listed : List MethodDef) : Prop where
  methods : ∀ descriptor method, program.methods.find? descriptor = some method ↔
    method ∈ listed ∧ method.descriptor = descriptor
  templates : ∀ descriptor graph, program.templates.find? descriptor = some graph ↔
    ∃ method ∈ listed, method.descriptor = descriptor ∧ Graph.ofMethod method = .ok graph

theorem Lists.find?_eq_none_iff (lists : program.Lists old) (descriptor : String) :
    program.methods.find? descriptor = none ↔ descriptor ∉ old.map (·.descriptor) := by
  rw [Option.eq_none_iff_forall_ne_some, List.mem_map]
  constructor
  · rintro missing ⟨other, inside, same⟩
    exact missing other ((lists.methods descriptor other).mpr ⟨inside, same⟩)
  · intro missing other found
    exact missing ⟨other, (lists.methods descriptor other).mp found⟩

/-- A method that is entered takes the place of the one with its descriptor. -/
theorem Lists.enter (lists : program.Lists old)
    (replaced : ∀ other, other ∈ new ↔
      other = method ∨ other ∈ old ∧ other.descriptor ≠ method.descriptor) :
    (program.enter method).Lists new where
  methods descriptor other := by
    rw [methods_enter, replaced]
    split
    · grind
    · rw [lists.methods]
      grind
  templates descriptor graph := by
    rw [templates_enter]
    split
    · next same =>
        subst same
        have isGraph : (Graph.ofMethod method).toOption = some graph ↔
            Graph.ofMethod method = .ok graph := by
          cases Graph.ofMethod method <;> simp [Except.toOption]
        rw [isGraph]
        constructor
        · exact fun built => ⟨method, (replaced method).mpr (.inl rfl), rfl, built⟩
        · rintro ⟨other, inside, same, built⟩
          rcases (replaced other).mp inside with rfl | ⟨-, different⟩
          · exact built
          · exact absurd same different
    · next different =>
        rw [lists.templates]
        constructor
        · rintro ⟨other, inside, rfl, built⟩
          exact ⟨other, (replaced other).mpr (.inr ⟨inside, Ne.symm different⟩), rfl, built⟩
        · rintro ⟨other, inside, rfl, built⟩
          rcases (replaced other).mp inside with rfl | ⟨before, -⟩
          · exact absurd rfl different
          · exact ⟨other, before, rfl, built⟩

theorem Lists.enter_fresh (lists : program.Lists old)
    (fresh : method.descriptor ∉ old.map (·.descriptor)) :
    (program.enter method).Lists (old ++ [method]) := by
  refine lists.enter fun other => ?_
  have different : other ∈ old → other.descriptor ≠ method.descriptor := by
    intro inside same
    exact fresh (List.mem_map.mpr ⟨other, inside, same⟩)
  rw [List.mem_append, List.mem_singleton]
  tauto

theorem fresh_of_nodup {rest : List MethodDef}
    (distinct : ((old ++ method :: rest).map (·.descriptor)).Nodup) :
    method.descriptor ∉ old.map (·.descriptor) := by
  rw [List.map_append, List.nodup_append] at distinct
  intro inside
  exact distinct.2.2 _ inside _ (by simp) rfl

theorem declare_eq_ok_iff {name : TypeDescriptor} (lists : program.Lists old) :
    program.declare name method = .ok after ↔
      method.reference.owner = name ∧ method.descriptor ∉ old.map (·.descriptor) ∧
        method.Acceptable ∧ after = program.enter method := by
  rw [← lists.find?_eq_none_iff, ← register_eq_ok_iff]
  unfold declare
  by_cases own : method.reference.owner = name
  · cases found : program.methods.find? method.descriptor <;> simp [own, found, OrdMap.contains]
  · simp [own]

/-- Methods can be declared one after another if they belong to the class, are acceptable and
have descriptors of their own. -/
theorem foldlM_declare_eq_ok_iff {name : TypeDescriptor} (lists : program.Lists old)
    (distinct : (old.map (·.descriptor)).Nodup) :
    new.foldlM (declare name) program = .ok after ↔
      (∀ method ∈ new, method.reference.owner = name ∧ method.Acceptable) ∧
      ((old ++ new).map (·.descriptor)).Nodup ∧ after = new.foldl Program.enter program := by
  induction new generalizing program old with
  | nil => simp [pure, Except.pure, distinct, eq_comm]
  | cons method rest induction =>
      have regroup : old ++ method :: rest = (old ++ [method]) ++ rest := by simp
      rw [List.foldlM_cons, Except.bind_eq_ok_iff, List.forall_mem_cons, List.foldl_cons, regroup]
      have distinctNext : method.descriptor ∉ old.map (·.descriptor) →
          ((old ++ [method]).map (·.descriptor)).Nodup := by
        intro fresh
        rw [List.map_append, List.nodup_append]
        simp_all
      constructor
      · rintro ⟨middle, declared, rest⟩
        obtain ⟨own, fresh, acceptable, rfl⟩ := (declare_eq_ok_iff lists).mp declared
        obtain ⟨each, distinctAll, rfl⟩ :=
          (induction (lists.enter_fresh fresh) (distinctNext fresh)).mp rest
        exact ⟨⟨⟨own, acceptable⟩, each⟩, distinctAll, rfl⟩
      · rintro ⟨⟨⟨own, acceptable⟩, each⟩, distinctAll, rfl⟩
        have fresh := fresh_of_nodup (regroup ▸ distinctAll)
        exact ⟨_, (declare_eq_ok_iff lists).mpr ⟨own, fresh, acceptable, rfl⟩,
          (induction (lists.enter_fresh fresh) (distinctNext fresh)).mpr
            ⟨each, distinctAll, rfl⟩⟩

theorem Lists.foldl_enter (lists : program.Lists old)
    (distinct : ((old ++ new).map (·.descriptor)).Nodup) :
    (new.foldl Program.enter program).Lists (old ++ new) := by
  induction new generalizing program old with
  | nil => simpa using lists
  | cons method rest induction =>
      have regroup : old ++ method :: rest = (old ++ [method]) ++ rest := by simp
      have fresh := fresh_of_nodup distinct
      rw [regroup] at distinct ⊢
      exact induction (lists.enter_fresh fresh) distinct

theorem classes_foldl_enter (program : Program) (methods : List MethodDef) :
    (methods.foldl Program.enter program).classes = program.classes := by
  induction methods generalizing program with
  | nil => rfl
  | cons method rest induction => exact induction _

/-! ## The classes of a program -/

end Program

structure Loadable (definitions : List ClassDef) : Prop where
  names : (definitions.map (·.name)).Nodup
  methods : ∀ definition ∈ definitions, ∀ method ∈ definition.methods,
    method.reference.owner = definition.name ∧ method.Acceptable
  descriptors : ((definitions.flatMap (·.methods)).map (·.descriptor)).Nodup

theorem Loadable.of_append {old new : List ClassDef} (loadable : Loadable (old ++ new)) :
    Loadable old where
  names := by
    have names := loadable.names
    rw [List.map_append, List.nodup_append] at names
    exact names.1
  methods definition inside := loadable.methods definition (List.mem_append_left _ inside)
  descriptors := by
    have descriptors := loadable.descriptors
    rw [List.flatMap_append, List.map_append, List.nodup_append] at descriptors
    exact descriptors.1

theorem Loadable.append_iff {old : List ClassDef} (loadable : Loadable old)
    (definition : ClassDef) :
    Loadable (old ++ [definition]) ↔
      definition.name ∉ old.map (·.name) ∧
      (∀ method ∈ definition.methods,
        method.reference.owner = definition.name ∧ method.Acceptable) ∧
      ((old.flatMap (·.methods) ++ definition.methods).map (·.descriptor)).Nodup := by
  have spread : (old ++ [definition]).flatMap (·.methods) =
      old.flatMap (·.methods) ++ definition.methods := by
    simp
  constructor
  · intro all
    have names := all.names
    rw [List.map_append, List.nodup_append] at names
    refine ⟨fun inside => names.2.2 _ inside _ (by simp) rfl, ?_, spread ▸ all.descriptors⟩
    exact all.methods definition (by simp)
  · rintro ⟨fresh, own, distinct⟩
    refine ⟨?_, ?_, spread ▸ distinct⟩
    · rw [List.map_append, List.nodup_append]
      refine ⟨loadable.names, by simp, ?_⟩
      rintro name inside _ isNew rfl
      cases List.mem_singleton.mp isNew
      exact fresh inside
    · intro other inside
      rcases List.mem_append.mp inside with before | isNew
      · exact loadable.methods other before
      · cases List.mem_singleton.mp isNew
        exact own

namespace Program

/-- The program holds just the given classes with their methods and graphs. -/
structure Holds (program : Program) (definitions : List ClassDef) : Prop extends
    program.Lists (definitions.flatMap (·.methods)) where
  classes : ∀ type definition, program.classes.find? type = some definition ↔
    definition ∈ definitions ∧ definition.name = type

variable {program after other : Program} {definition : ClassDef} {old new : List ClassDef}
  {definitions : List ClassDef}

theorem Holds.empty : Program.empty.Holds [] where
  methods := by simp [Program.empty]
  templates := by simp [Program.empty]
  classes := by simp [Program.empty]

theorem Holds.contains_iff (holds : program.Holds definitions) (type : TypeDescriptor) :
    program.classes.contains type = true ↔
      ∃ definition ∈ definitions, definition.name = type := by
  rw [OrdMap.contains, Option.isSome_iff_exists]
  exact exists_congr fun definition => holds.classes type definition

/-- There is one program at most that holds some classes. -/
theorem Holds.unique (holds : program.Holds definitions) (again : other.Holds definitions) :
    program = other := by
  have classes : program.classes = other.classes := by
    refine OrdMap.ext_find? fun type => Option.ext fun definition => ?_
    rw [holds.classes, again.classes]
  have methods : program.methods = other.methods := by
    refine OrdMap.ext_find? fun descriptor => Option.ext fun method => ?_
    rw [holds.methods, again.methods]
  have templates : program.templates = other.templates := by
    refine OrdMap.ext_find? fun descriptor => Option.ext fun graph => ?_
    rw [holds.templates, again.templates]
  cases program
  cases other
  simp_all

def adopt (program : Program) (definition : ClassDef) : Program :=
  { definition.methods.foldl Program.enter program with
    classes := program.classes.insert definition.name definition }

theorem Holds.adopt (holds : program.Holds old) (loadable : Loadable (old ++ [definition])) :
    (program.adopt definition).Holds (old ++ [definition]) := by
  have spread : (old ++ [definition]).flatMap (·.methods) =
      old.flatMap (·.methods) ++ definition.methods := by
    simp
  have distinct := loadable.descriptors
  rw [spread] at distinct
  obtain ⟨methods, templates⟩ := holds.toLists.foldl_enter distinct
  refine ⟨⟨spread ▸ methods, spread ▸ templates⟩, ?_⟩
  intro type other
  have names := loadable.names
  rw [List.map_append, List.nodup_append] at names
  rw [Program.adopt, OrdMap.find?_insert, List.mem_append, List.mem_singleton]
  split
  · next same =>
      constructor
      · intro isOther
        cases isOther
        exact ⟨.inr rfl, same⟩
      · rintro ⟨inside | rfl, named⟩
        · have inOld : other.name ∈ old.map (·.name) := List.mem_map.mpr ⟨other, inside, rfl⟩
          exact absurd (named.trans same.symm) (names.2.2 _ inOld _ (by simp))
        · rfl
  · next different =>
      rw [holds.classes]
      constructor
      · exact fun found => ⟨.inl found.1, found.2⟩
      · rintro ⟨inside | rfl, named⟩
        · exact ⟨inside, named⟩
        · exact absurd named different

theorem define_eq_ok_iff (holds : program.Holds old) (loadable : Loadable old) :
    program.define definition = .ok after ↔
      Loadable (old ++ [definition]) ∧ after = program.adopt definition := by
  have taken : program.classes.contains definition.name = true ↔
      definition.name ∈ old.map (·.name) := by
    rw [holds.contains_iff, List.mem_map]
  rw [loadable.append_iff]
  unfold define
  by_cases twice : definition.name ∈ old.map (·.name)
  · rw [if_pos (taken.mpr twice)]
    constructor
    · intro defined
      cases defined
    · rintro ⟨⟨fresh, -⟩, -⟩
      exact absurd twice fresh
  · rw [if_neg (taken.not.mpr twice), Except.bind_eq_ok_iff]
    simp only [foldlM_declare_eq_ok_iff holds.toLists loadable.descriptors]
    constructor
    · rintro ⟨middle, ⟨own, distinct, rfl⟩, added⟩
      cases added
      rw [classes_foldl_enter]
      exact ⟨⟨twice, own, distinct⟩, rfl⟩
    · rintro ⟨⟨-, own, distinct⟩, rfl⟩
      refine ⟨_, ⟨own, distinct, rfl⟩, ?_⟩
      rw [classes_foldl_enter]
      rfl

theorem foldlM_define_eq_ok_iff (holds : program.Holds old) (loadable : Loadable old) :
    new.foldlM define program = .ok after ↔
      Loadable (old ++ new) ∧ after.Holds (old ++ new) := by
  induction new generalizing program old with
  | nil =>
      rw [List.append_nil]
      constructor
      · intro same
        cases same
        exact ⟨loadable, holds⟩
      · rintro ⟨-, again⟩
        rw [again.unique holds]
        rfl
  | cons definition rest induction =>
      have regroup : old ++ definition :: rest = (old ++ [definition]) ++ rest := by simp
      rw [List.foldlM_cons, Except.bind_eq_ok_iff, regroup]
      constructor
      · rintro ⟨middle, defined, later⟩
        obtain ⟨loadableNext, rfl⟩ := (define_eq_ok_iff holds loadable).mp defined
        exact (induction (holds.adopt loadableNext) loadableNext).mp later
      · rintro ⟨loadableAll, holdsAll⟩
        have loadableNext := loadableAll.of_append
        exact ⟨_, (define_eq_ok_iff holds loadable).mpr ⟨loadableNext, rfl⟩,
          (induction (holds.adopt loadableNext) loadableNext).mpr ⟨loadableAll, holdsAll⟩⟩

/-- A program comes of classes that can be loaded, and it holds them. -/
theorem ofClasses_eq_ok_iff :
    ofClasses definitions = .ok program ↔ Loadable definitions ∧ program.Holds definitions :=
  foldlM_define_eq_ok_iff .empty ⟨by simp, by simp, by simp⟩

end Program

/-! ## Updates -/

def ClassDef.amend (method : MethodDef) (definition : ClassDef) : ClassDef :=
  if definition.name = method.reference.owner then
    { definition with methods := Program.replaceMethod method definition.methods }
  else definition

theorem ClassDef.name_amend (method : MethodDef) (definition : ClassDef) :
    (amend method definition).name = definition.name := by
  unfold amend
  split <;> rfl

/-- Only methods with the same reference have the descriptor of a method. -/
def MethodDef.Unambiguous (method : MethodDef) (others : List MethodDef) : Prop :=
  ∀ other ∈ others, other.descriptor = method.descriptor → other.reference = method.reference

theorem MethodDef.unambiguous_of_parsed {method : MethodDef} {others : List MethodDef}
    (parsed : method.reference.Parsed) (parsedOthers : ∀ other ∈ others, other.reference.Parsed) :
    method.Unambiguous others :=
  fun other inside same => (parsedOthers other inside).eq_of_descriptor parsed same

namespace Program

variable {program : Program} {definitions : List ClassDef} {method : MethodDef}

theorem mem_replaceMethod_iff {methods : List MethodDef}
    (distinct : (methods.map (·.reference)).Nodup) (other : MethodDef) :
    other ∈ replaceMethod method methods ↔
      other = method ∨ other ∈ methods ∧ other.reference ≠ method.reference := by
  induction methods with
  | nil => simp [replaceMethod]
  | cons first rest induction =>
      rw [List.map_cons, List.nodup_cons] at distinct
      have later : other ∈ rest → other.reference ≠ first.reference := by
        intro inside same
        exact distinct.1 (List.mem_map.mpr ⟨other, inside, same⟩)
      rw [replaceMethod]
      split
      · next same =>
          rw [same] at later
          grind
      · next different =>
          rw [List.mem_cons, induction distinct.2]
          grind

theorem replaceMethod_cases (method : MethodDef) (methods : List MethodDef) :
    (replaceMethod method methods).map (·.descriptor) = methods.map (·.descriptor) ∨
      (∀ other ∈ methods, other.reference ≠ method.reference) ∧
        replaceMethod method methods = methods ++ [method] := by
  induction methods with
  | nil => exact .inr ⟨by simp, rfl⟩
  | cons first rest induction =>
      rw [replaceMethod]
      split
      · next same => exact .inl (by simp [MethodDef.descriptor, same])
      · next different =>
          rcases induction with same | ⟨absent, atEnd⟩
          · exact .inl (by rw [List.map_cons, same, List.map_cons])
          · refine .inr ⟨List.forall_mem_cons.mpr ⟨different, absent⟩, ?_⟩
            rw [atEnd, List.cons_append]

end Program

theorem ClassDef.map_amend_of_ne {method : MethodDef} {definitions : List ClassDef}
    (elsewhere : ∀ definition ∈ definitions, definition.name ≠ method.reference.owner) :
    definitions.map (amend method) = definitions := by
  have same : ∀ definition ∈ definitions, amend method definition = definition :=
    fun definition inside => if_neg (elsewhere definition inside)
  rw [List.map_congr_left same, List.map_id']

/-- An update leaves the descriptors of the methods as they were, or adds one. -/
theorem ClassDef.amend_cases (method : MethodDef) {definitions : List ClassDef}
    (names : (definitions.map (·.name)).Nodup) :
    ((definitions.map (amend method)).flatMap (·.methods)).map (·.descriptor) =
        (definitions.flatMap (·.methods)).map (·.descriptor) ∨
      (((definitions.map (amend method)).flatMap (·.methods)).map (·.descriptor)).Perm
          (method.descriptor :: (definitions.flatMap (·.methods)).map (·.descriptor)) ∧
        ∀ definition ∈ definitions, definition.name = method.reference.owner →
          ∀ other ∈ definition.methods, other.reference ≠ method.reference := by
  induction definitions with
  | nil => exact .inl rfl
  | cons first rest induction =>
      rw [List.map_cons, List.nodup_cons] at names
      rw [List.map_cons, List.flatMap_cons, List.flatMap_cons, List.map_append, List.map_append]
      by_cases here : first.name = method.reference.owner
      · have elsewhere : ∀ definition ∈ rest, definition.name ≠ method.reference.owner := by
          intro definition inside same
          exact names.1 (List.mem_map.mpr ⟨definition, inside, same.trans here.symm⟩)
        rw [map_amend_of_ne elsewhere, amend, if_pos here]
        rcases Program.replaceMethod_cases method first.methods with same | ⟨absent, atEnd⟩
        · exact .inl (by rw [same])
        · refine .inr ⟨?_, ?_⟩
          · rw [atEnd, List.map_append, List.append_assoc]
            exact List.perm_middle
          · intro definition inside named
            rcases List.mem_cons.mp inside with rfl | later
            · exact absent
            · exact absurd named (elsewhere definition later)
      · rw [amend, if_neg here]
        rcases induction names.2 with same | ⟨reordered, absent⟩
        · exact .inl (by rw [same])
        · refine .inr ⟨?_, ?_⟩
          · exact (reordered.append_left _).trans List.perm_middle
          · intro definition inside named
            rcases List.mem_cons.mp inside with rfl | later
            · exact absurd named here
            · exact absent definition later named

namespace Loadable

variable {definitions : List ClassDef} {method : MethodDef} {definition : ClassDef}

theorem references (loadable : Loadable definitions) (inside : definition ∈ definitions) :
    (definition.methods.map (·.reference)).Nodup := by
  have part : definition.methods.Sublist (definitions.flatMap (·.methods)) := by
    obtain ⟨before, after, rfl⟩ := List.append_of_mem inside
    rw [List.flatMap_append, List.flatMap_cons]
    exact (List.sublist_append_left _ _).trans (List.sublist_append_right _ _)
  have descriptors := loadable.descriptors.sublist (part.map (·.descriptor))
  refine List.Nodup.of_map MethodRef.descriptor ?_
  rw [List.map_map]
  exact descriptors

theorem mem_amended_iff (loadable : Loadable definitions)
    (unambiguous : method.Unambiguous (definitions.flatMap (·.methods)))
    (home : ∃ definition ∈ definitions, definition.name = method.reference.owner)
    (other : MethodDef) :
    other ∈ (definitions.map (ClassDef.amend method)).flatMap (·.methods) ↔
      other = method ∨
        other ∈ definitions.flatMap (·.methods) ∧ other.descriptor ≠ method.descriptor := by
  have told : ∀ {other : MethodDef}, other ∈ definitions.flatMap (·.methods) →
      (other.descriptor = method.descriptor ↔ other.reference = method.reference) :=
    fun inside => ⟨unambiguous _ inside, fun same => congrArg MethodRef.descriptor same⟩
  rw [List.flatMap_map, List.mem_flatMap, List.mem_flatMap]
  constructor
  · rintro ⟨definition, inside, isMethod⟩
    unfold ClassDef.amend at isMethod
    split at isMethod
    · rw [Program.mem_replaceMethod_iff (loadable.references inside)] at isMethod
      rcases isMethod with rfl | ⟨before, different⟩
      · exact .inl rfl
      · refine .inr ⟨⟨definition, inside, before⟩, ?_⟩
        exact (told (List.mem_flatMap.mpr ⟨definition, inside, before⟩)).not.mpr different
    · next elsewhere =>
        refine .inr ⟨⟨definition, inside, isMethod⟩, ?_⟩
        intro same
        have meant := (told (List.mem_flatMap.mpr ⟨definition, inside, isMethod⟩)).mp same
        apply elsewhere
        rw [← meant, (loadable.methods definition inside other isMethod).1]
  · rintro (rfl | ⟨⟨definition, inside, isMethod⟩, different⟩)
    · obtain ⟨definition, inside, named⟩ := home
      refine ⟨definition, inside, ?_⟩
      rw [ClassDef.amend, if_pos named, Program.mem_replaceMethod_iff (loadable.references inside)]
      exact .inl rfl
    · refine ⟨definition, inside, ?_⟩
      unfold ClassDef.amend
      split
      · rw [Program.mem_replaceMethod_iff (loadable.references inside)]
        refine .inr ⟨isMethod, ?_⟩
        exact (told (List.mem_flatMap.mpr ⟨definition, inside, isMethod⟩)).not.mp different
      · exact isMethod

theorem amend (loadable : Loadable definitions) (acceptable : method.Acceptable)
    (unambiguous : method.Unambiguous (definitions.flatMap (·.methods))) :
    Loadable (definitions.map (ClassDef.amend method)) where
  names := by
    have same : (definitions.map (ClassDef.amend method)).map (·.name) =
        definitions.map (·.name) := by
      rw [List.map_map]
      exact List.map_congr_left fun definition _ => ClassDef.name_amend method definition
    rw [same]
    exact loadable.names
  methods := by
    intro changed isChanged other isMethod
    obtain ⟨definition, inside, rfl⟩ := List.mem_map.mp isChanged
    unfold ClassDef.amend at isMethod ⊢
    split at isMethod
    · next named =>
        rw [if_pos named]
        rw [Program.mem_replaceMethod_iff (loadable.references inside)] at isMethod
        rcases isMethod with rfl | ⟨before, -⟩
        · exact ⟨named.symm, acceptable⟩
        · exact loadable.methods definition inside other before
    · next elsewhere =>
        rw [if_neg elsewhere]
        exact loadable.methods definition inside other isMethod
  descriptors := by
    rcases ClassDef.amend_cases method loadable.names with same | ⟨reordered, absent⟩
    · rw [same]
      exact loadable.descriptors
    · rw [reordered.nodup_iff]
      refine List.nodup_cons.mpr ⟨fun inside => ?_, loadable.descriptors⟩
      obtain ⟨other, isMethod, same⟩ := List.mem_map.mp inside
      have meant := unambiguous other isMethod same
      obtain ⟨definition, isDefinition, isMethod⟩ := List.mem_flatMap.mp isMethod
      have own := (loadable.methods definition isDefinition other isMethod).1
      exact absent definition isDefinition (by rw [← own, meant]) other isMethod meant

end Loadable

namespace Program

variable {program : Program} {definitions : List ClassDef} {method : MethodDef}

/-- After an update the program holds the classes with the method in its place. -/
theorem Holds.update (holds : program.Holds definitions) (loadable : Loadable definitions)
    (unambiguous : method.Unambiguous (definitions.flatMap (·.methods)))
    (home : program.classes.contains method.reference.owner = true) :
    ((program.amendClass method).enter method).Holds
      (definitions.map (ClassDef.amend method)) := by
  have lists : (program.amendClass method).Lists (definitions.flatMap (·.methods)) :=
    ⟨holds.methods, holds.templates⟩
  obtain ⟨methods, templates⟩ :=
    lists.enter (loadable.mem_amended_iff unambiguous ((holds.contains_iff _).mp home))
  refine ⟨⟨methods, templates⟩, ?_⟩
  intro type definition
  have classes : ((program.amendClass method).enter method).classes.find? type =
      (program.classes.find? type).map (ClassDef.amend method) := by
    change (program.classes.modify method.reference.owner _).find? type = _
    rw [OrdMap.find?_modify]
    cases stored : program.classes.find? type with
    | none => split <;> rfl
    | some before =>
        have named := ((holds.classes type before).mp stored).2
        simp only [Option.map_some, ClassDef.amend, named]
        split <;> rfl
  rw [classes, Option.map_eq_some_iff, List.mem_map]
  simp only [holds.classes]
  constructor
  · rintro ⟨before, ⟨inside, named⟩, rfl⟩
    exact ⟨⟨before, inside, rfl⟩, (ClassDef.name_amend method before).trans named⟩
  · rintro ⟨⟨before, inside, rfl⟩, named⟩
    exact ⟨before, ⟨inside, (ClassDef.name_amend method before).symm.trans named⟩, rfl⟩

end Program

end Dexplore
