import Dexplore.Assembly.Assembler

/-!
# Laying out and linking

A sequence of calls of an assembler is a list of directives, made one after another with what the
one before has left (`Assembler.ofDirectives`).  Directives that are refused leave the assembler as
they find it.  The code that comes out can be told from the list alone: each directive lays out at
most one operation (`Directive.statement?`), the operations follow each other
from address zero, and a label stands for the address of what is laid out next (`Linked`).  There
is such code exactly if every label that is referred to is placed somewhere in the list
(`Assembler.link_ofDirectives`).
-/

set_option autoImplicit false

namespace Dexplore

/-! ## Calls of an assembler -/

namespace Directive

/-- The calls that fail after some others: a label that was placed before, and a descriptor that
cannot be read. -/
inductive Refused (before : List Directive) : Directive → AssemblyError → Prop
  | label {name : String} (again : .label name ∈ before) :
      Refused before (.label name) (.duplicateLabel name)
  | method {kind : InvokeKind} {descriptor : String} {args : List Register}
      (unreadable : MethodRef.parse? descriptor = none) :
      Refused before (.invoke kind descriptor args) (.invalidDescriptor descriptor)
  | field {op : FieldRef → Op} {descriptor : String}
      (unreadable : FieldRef.parse? descriptor = none) :
      Refused before (.access op descriptor) (.invalidDescriptor descriptor)

/-- The operation that a directive lays out and its width, once labels have places. -/
def statement? (place : String → Address) : Directive → Option (Op × UInt16)
  | label _ => none
  | emit op => some (op, op.units)
  | emitSized op units => some (op, units)
  | branch condition lhs rhs name =>
    let op : Op := .branch condition lhs rhs (place name)
    some (op, op.units)
  | jump name =>
    let op : Op := .jump (place name)
    some (op, op.units)
  | switch src cases =>
    let op : Op := .switch src (cases.map fun case => (case.1, place case.2))
    some (op, op.units)
  | invoke kind descriptor args =>
    (MethodRef.parse? descriptor).map fun method =>
      let op : Op := .invoke kind method args
      (op, op.units)
  | access op descriptor =>
    (FieldRef.parse? descriptor).map fun field => (op field, (op field).units)

def references : Directive → List String
  | branch _ _ _ name | jump name => [name]
  | switch _ cases => cases.map (·.2)
  | _ => []

def defines? : Directive → Option String
  | label name => some name
  | _ => none

def width (directive : Directive) : Nat :=
  ((directive.statement? fun _ => 0).map (·.2.toNat)).getD 0

def widthOf : List Directive → Nat
  | [] => 0
  | directive :: rest => directive.width + widthOf rest

end Directive

open Directive

/-- What a call leaves, also if it fails. -/
def Assembler.follow (assembler : Assembler) (directive : Directive) : Assembler :=
  match directive.apply assembler with
  | .ok _ after => after
  | .error _ after => after

def Assembler.ofDirectives (directives : List Directive) : Assembler :=
  directives.foldl follow .empty

/-! ## Code in its place -/

def LaidOut (start : Nat) : List Instruction → Prop
  | [] => True
  | instruction :: rest =>
    instruction.address.toNat = start ∧ LaidOut (start + instruction.units.toNat) rest

def endOf (start : Address) : List Instruction → Address
  | [] => start
  | instruction :: rest => endOf instruction.next rest

/-- The address of an instruction by its position, or of the end if there is no such position. -/
def addressAt (code : List Instruction) (position : Nat) : Address :=
  (code[position]?.map (·.address)).getD (endOf 0 code)

/-- Code that belongs to directives: it holds their operations, one after another from address
zero, and each label has the address of the operation that is laid out next. -/
structure Linked (directives : List Directive) (code : List Instruction) : Prop where
  laidOut : LaidOut 0 code
  statements : ∃ place : String → Address,
    code.map (fun instruction => (instruction.op, instruction.units)) =
      directives.filterMap (statement? place) ∧
    ∀ before name after, directives = before ++ .label name :: after → .label name ∉ before →
      place name = addressAt code (before.filterMap (statement? place)).length

namespace Directive

/-! ## What a call does -/

def instruction? (place : String → Address) (address : Address) (directive : Directive) :
    Option Instruction :=
  (directive.statement? place).map fun statement => ⟨address, statement.2, statement.1⟩

def pending? (address : Address) (directive : Directive) : Option Pending :=
  (directive.instruction? (fun _ => 0) address).map (⟨·, directive.references⟩)

theorem mem_defined_iff {name : String} {directives : List Directive} :
    name ∈ directives.filterMap defines? ↔ .label name ∈ directives := by
  rw [List.mem_filterMap]
  constructor
  · intro defined
    obtain ⟨directive, inside, isDefined⟩ := defined
    cases directive with
    | label other =>
        cases isDefined
        exact inside
    | _ => cases isDefined
  · intro inside
    exact ⟨_, inside, rfl⟩

theorem units_toUInt32 (units : UInt16) : units.toUInt32 = UInt32.ofNat units.toNat := by
  apply UInt32.toNat.inj
  rw [UInt16.toNat_toUInt32, UInt32.toNat_ofNat']
  exact (Nat.mod_eq_of_lt (Nat.lt_trans units.toNat_lt (by decide))).symm

variable {directive : Directive} {address : Address} {place : String → Address}

theorem units_statement? (directive : Directive) (place : String → Address) :
    ((directive.statement? place).map (·.2.toNat)).getD 0 = directive.width := by
  cases directive <;> rfl

theorem address_of_instruction? {instruction : Instruction}
    (puts : directive.instruction? place address = some instruction) :
    instruction.address = address := by
  obtain ⟨statement, states, rfl⟩ := Option.map_eq_some_iff.mp puts
  rfl

theorem width_of_instruction? {instruction : Instruction}
    (puts : directive.instruction? place address = some instruction) :
    directive.width = instruction.units.toNat := by
  obtain ⟨statement, states, rfl⟩ := Option.map_eq_some_iff.mp puts
  rw [← units_statement? directive place, states]
  rfl

theorem next_of_instruction? {instruction : Instruction}
    (puts : directive.instruction? place address = some instruction) :
    instruction.next = address + .ofNat directive.width := by
  rw [Instruction.next, address_of_instruction? puts, width_of_instruction? puts, units_toUInt32]

theorem width_of_silent (silent : directive.instruction? place address = none) :
    directive.width = 0 := by
  rw [← units_statement? directive place, Option.map_eq_none_iff.mp silent]
  rfl

theorem references_of_silent (silent : directive.instruction? place address = none) :
    directive.references = [] := by
  cases directive with
  | branch _ _ _ _ | jump _ | switch _ _ => cases silent
  | _ => rfl

theorem instruction?_of_silent {other : String → Address} {start : Address}
    (silent : directive.instruction? place address = none) :
    directive.instruction? other start = none := by
  have noStatement := Option.map_eq_none_iff.mp silent
  refine Option.map_eq_none_iff.mpr ?_
  cases directive with
  | label _ | invoke _ _ _ | access _ _ => exact noStatement
  | _ => cases noStatement

end Directive

namespace Assembler

variable {assembler : Assembler} {directive : Directive}

theorem apply_of_pending? {pending : Pending}
    (puts : directive.pending? assembler.address = some pending) :
    directive.apply assembler = .ok () (assembler.push pending.instruction pending.labels) := by
  obtain ⟨instruction, inPlace, rfl⟩ := Option.map_eq_some_iff.mp puts
  obtain ⟨statement, states, rfl⟩ := Option.map_eq_some_iff.mp inPlace
  cases directive with
  | label name => cases states
  | invoke kind descriptor args =>
      obtain ⟨method, read, isStatement⟩ := Option.map_eq_some_iff.mp states
      cases isStatement
      rw [apply, invoke, readMethod, read]
      rfl
  | access op descriptor =>
      obtain ⟨field, read, isStatement⟩ := Option.map_eq_some_iff.mp states
      cases isStatement
      rw [apply, access, readField, read]
      rfl
  | _ =>
      cases states
      rfl

/-- A directive other than a label that lays nothing out has a descriptor that cannot be read. -/
theorem apply_of_unreadable (before : List Directive)
    (silent : directive.pending? assembler.address = none) (noLabel : directive.defines? = none) :
    ∃ error, directive.apply assembler = .error error assembler ∧
      directive.Refused before error := by
  have noStatement := Option.map_eq_none_iff.mp (Option.map_eq_none_iff.mp silent)
  cases directive with
  | label name => cases noLabel
  | invoke kind descriptor args =>
      have unreadable := Option.map_eq_none_iff.mp noStatement
      refine ⟨.invalidDescriptor descriptor, ?_, .method unreadable⟩
      rw [apply, invoke, readMethod, unreadable]
      rfl
  | access op descriptor =>
      have unreadable := Option.map_eq_none_iff.mp noStatement
      refine ⟨.invalidDescriptor descriptor, ?_, .field unreadable⟩
      rw [apply, access, readField, unreadable]
      rfl
  | _ => cases noStatement

theorem eq_of_ofExcept_eq_error {α : Type} {read : Except AssemblyError α}
    {change : α → Assembler → Assembler} {error : AssemblyError} {left : Assembler}
    (fails : (ofExcept read >>= fun value => modify (change value) : Assembling Unit) assembler =
      .error error left) :
    left = assembler := by
  cases read with
  | error refusal =>
      cases fails
      rfl
  | ok value => cases fails

/-- A call that fails leaves the assembler as it was. -/
theorem eq_of_apply_eq_error {error : AssemblyError} {left : Assembler}
    (fails : directive.apply assembler = .error error left) : left = assembler := by
  cases directive with
  | label name =>
      rw [apply, label] at fails
      split at fails
      · cases fails
        rfl
      · cases fails
  | invoke kind descriptor args => exact eq_of_ofExcept_eq_error fails
  | access op descriptor => exact eq_of_ofExcept_eq_error fails
  | _ => cases fails

theorem follow_of_error {error : AssemblyError} {left : Assembler}
    (fails : directive.apply assembler = .error error left) :
    assembler.follow directive = assembler := by
  rw [follow, fails]
  exact eq_of_apply_eq_error fails

theorem follow_of_pending? {pending : Pending}
    (puts : directive.pending? assembler.address = some pending) :
    assembler.follow directive = assembler.push pending.instruction pending.labels := by
  rw [follow, apply_of_pending? puts]

/-- What a call comes to: it lays something out, places a new label, or fails. -/
theorem follow_cases (assembler : Assembler) (directive : Directive) :
    (∃ pending, directive.pending? assembler.address = some pending ∧
      directive.defines? = none ∧
      assembler.follow directive = assembler.push pending.instruction pending.labels) ∨
    (∃ name, directive = .label name ∧ assembler.labels.find? name = none ∧
      assembler.follow directive =
        { assembler with labels := assembler.labels.insert name assembler.address }) ∨
    (directive.pending? assembler.address = none ∧
      (∀ name, directive.defines? = some name → (assembler.labels.find? name).isSome) ∧
      assembler.follow directive = assembler) := by
  cases puts : directive.pending? assembler.address with
  | some pending =>
      refine .inl ⟨pending, rfl, ?_, follow_of_pending? puts⟩
      cases directive with
      | label name => cases puts
      | _ => rfl
  | none =>
      right
      cases defined : directive.defines? with
      | none =>
          obtain ⟨error, fails, -⟩ := apply_of_unreadable [] puts defined
          exact .inr ⟨rfl, fun name isSome => absurd isSome (by simp), follow_of_error fails⟩
      | some name =>
          cases directive with
          | label other =>
              cases defined
              cases found : assembler.labels.find? name with
              | none =>
                  refine .inl ⟨name, rfl, found, ?_⟩
                  have fresh : assembler.labels.contains name = false := by
                    rw [OrdMap.contains, found]
                    rfl
                  rw [follow, apply, label, fresh]
                  rfl
              | some address =>
                  have again : assembler.labels.contains name = true := by
                    rw [OrdMap.contains, found]
                    rfl
                  refine .inr ⟨rfl, ?_, ?_⟩
                  · intro wanted isName
                    cases isName
                    rw [found]
                    rfl
                  · rw [follow, apply, label, again]
                    rfl
          | _ => cases defined

theorem pending_follow (assembler : Assembler) (directive : Directive) :
    (assembler.follow directive).pending =
      assembler.pending ++ (directive.pending? assembler.address).toList := by
  obtain ⟨pending, puts, -, follows⟩ | ⟨name, rfl, -, follows⟩ | ⟨silent, -, follows⟩ :=
    assembler.follow_cases directive
  · rw [follows, puts]
    rfl
  · rw [follows]
    exact (List.append_nil _).symm
  · rw [follows, silent]
    exact (List.append_nil _).symm

theorem address_follow (assembler : Assembler) (directive : Directive) :
    (assembler.follow directive).address = assembler.address + .ofNat directive.width := by
  obtain ⟨pending, puts, -, follows⟩ | ⟨name, rfl, -, follows⟩ | ⟨silent, -, follows⟩ :=
    assembler.follow_cases directive
  · obtain ⟨instruction, inPlace, rfl⟩ := Option.map_eq_some_iff.mp puts
    rw [follows]
    exact next_of_instruction? inPlace
  · rw [follows]
    exact (UInt32.add_zero _).symm
  · rw [follows, width_of_silent (Option.map_eq_none_iff.mp silent)]
    exact (UInt32.add_zero _).symm

theorem find?_follow (assembler : Assembler) (directive : Directive) (name : String) :
    (assembler.follow directive).labels.find? name =
      (assembler.labels.find? name).or
        (if directive.defines? = some name then some assembler.address else none) := by
  obtain ⟨pending, puts, noLabel, follows⟩ | ⟨placed, rfl, fresh, follows⟩ |
    ⟨silent, again, follows⟩ := assembler.follow_cases directive
  · rw [follows, noLabel]
    exact Option.or_none.symm
  · rw [follows, OrdMap.find?_insert, defines?]
    by_cases same : placed = name
    · subst same
      rw [fresh, if_pos rfl, if_pos rfl]
      rfl
    · rw [if_neg same, if_neg fun isSome => same (Option.some.inj isSome)]
      exact Option.or_none.symm
  · rw [follows]
    by_cases defined : directive.defines? = some name
    · obtain ⟨address, found⟩ := Option.isSome_iff_exists.mp (again name defined)
      rw [found]
      rfl
    · rw [if_neg defined]
      exact Option.or_none.symm

/-! ## What calls do -/

def pendingFrom (address : Address) : List Directive → List Pending
  | [] => []
  | directive :: rest =>
    (directive.pending? address).toList ++ pendingFrom (address + .ofNat directive.width) rest

def instructionsFrom (place : String → Address) (address : Address) :
    List Directive → List Instruction
  | [] => []
  | directive :: rest =>
    (directive.instruction? place address).toList ++
      instructionsFrom place (address + .ofNat directive.width) rest

def labelFrom (name : String) (address : Address) : List Directive → Option Address
  | [] => none
  | directive :: rest =>
    (if directive.defines? = some name then some address else none).or
      (labelFrom name (address + .ofNat directive.width) rest)

theorem pending_foldl (directives : List Directive) (assembler : Assembler) :
    (directives.foldl follow assembler).pending =
      assembler.pending ++ pendingFrom assembler.address directives := by
  induction directives generalizing assembler with
  | nil => exact (List.append_nil _).symm
  | cons directive rest induction =>
      rw [List.foldl_cons, induction, pending_follow, address_follow, List.append_assoc]
      rfl

theorem find?_foldl (name : String) (directives : List Directive) (assembler : Assembler) :
    (directives.foldl follow assembler).labels.find? name =
      (assembler.labels.find? name).or (labelFrom name assembler.address directives) := by
  induction directives generalizing assembler with
  | nil => exact Option.or_none.symm
  | cons directive rest induction =>
      rw [List.foldl_cons, induction, find?_follow, address_follow, Option.or_assoc]
      rfl

theorem labelFrom_eq_none_iff {name : String} {directives : List Directive} {address : Address} :
    labelFrom name address directives = none ↔ name ∉ directives.filterMap defines? := by
  induction directives generalizing address with
  | nil => simp [labelFrom]
  | cons directive rest induction =>
      by_cases defined : directive.defines? = some name
      · simp [labelFrom, defined]
      · rw [labelFrom, if_neg defined, Option.none_or, induction, List.filterMap_cons]
        cases other : directive.defines? with
        | none => rfl
        | some placed =>
            have apart : name ≠ placed := fun same => defined (same ▸ other)
            simp [apart]

theorem labelFrom_of_first {name : String} {before after : List Directive} {address : Address}
    (first : name ∉ before.filterMap defines?) :
    labelFrom name address (before ++ .label name :: after) =
      some (address + .ofNat (widthOf before)) := by
  induction before generalizing address with
  | nil => simp [labelFrom, defines?, widthOf]
  | cons directive rest induction =>
      have elsewhere : directive.defines? ≠ some name := by
        intro defined
        exact first (List.mem_filterMap.mpr ⟨directive, List.mem_cons_self, defined⟩)
      have firstOfRest : name ∉ rest.filterMap defines? := by
        intro inside
        obtain ⟨other, isOther, defined⟩ := List.mem_filterMap.mp inside
        exact first (List.mem_filterMap.mpr ⟨other, List.mem_cons_of_mem _ isOther, defined⟩)
      rw [List.cons_append, labelFrom, if_neg elsewhere, Option.none_or, induction firstOfRest,
        widthOf, UInt32.ofNat_add, UInt32.add_assoc]

/-! ## Linking -/

def firstMissing (labels : OrdMap String Address) (names : List String) : Option String :=
  names.find? fun name => (labels.find? name).isNone

def placeIn (labels : OrdMap String Address) (name : String) : Address :=
  (labels.find? name).getD 0

def unlessMissing {α : Type} (missing : Option String) (result : α) : Except AssemblyError α :=
  match missing with
  | some name => .error (.undefinedLabel name)
  | none => .ok result

def linkPending (labels : OrdMap String Address) (pending : Pending) :
    Except AssemblyError Instruction := do
  let op ← resolveOp labels pending.instruction.op pending.labels
  return { pending.instruction with op }

theorem link_eq (assembler : Assembler) :
    assembler.link = assembler.pending.mapM (linkPending assembler.labels) := rfl

theorem resolve_eq (labels : OrdMap String Address) (name : String) :
    resolve labels name = unlessMissing (firstMissing labels [name]) (placeIn labels name) := by
  cases found : labels.find? name <;> simp [resolve, firstMissing, placeIn, found, unlessMissing]

theorem firstMissing_append (labels : OrdMap String Address) (front back : List String) :
    firstMissing labels (front ++ back) =
      (firstMissing labels front).or (firstMissing labels back) :=
  List.find?_append

/-- Labels are looked up in turn, and the first that is missing decides. -/
theorem unlessMissing_bind {α β : Type} {missing more : Option String} {result : α} {final : β}
    {next : α → Except AssemblyError β} (goesOn : next result = unlessMissing more final) :
    (unlessMissing missing result >>= next) = unlessMissing (missing.or more) final := by
  cases missing with
  | none => exact goesOn
  | some name => rfl

theorem unlessMissing_map {α β : Type} (missing : Option String) (result : α) (change : α → β) :
    (unlessMissing missing result >>= fun value => pure (change value)) =
      unlessMissing missing (change result) := by
  cases missing <;> rfl

theorem resolveCases_eq (labels : OrdMap String Address) (cases : List (Int32 × String)) :
    resolveCases labels (cases.map fun case => (case.1, 0)) (cases.map (·.2)) =
      unlessMissing (firstMissing labels (cases.map (·.2)))
        (cases.map fun case => (case.1, placeIn labels case.2)) := by
  induction cases with
  | nil => rfl
  | cons case rest induction =>
      have inTurn := firstMissing_append labels [case.2] (rest.map (·.2))
      rw [List.map_cons, List.map_cons, resolveCases, induction, resolve_eq]
      rw [List.singleton_append] at inTurn
      rw [inTurn]
      apply unlessMissing_bind
      exact unlessMissing_map _ _ _

theorem resolveOp_nil (labels : OrdMap String Address) (op : Op) :
    resolveOp labels op [] = .ok op := by
  cases op with
  | switch src cases => cases cases <;> rfl
  | _ => rfl

theorem linkPending_nil (labels : OrdMap String Address) (instruction : Instruction) :
    linkPending labels ⟨instruction, []⟩ = .ok instruction := by
  rw [linkPending, resolveOp_nil]
  rfl

theorem linkPending_eq (labels : OrdMap String Address) {directive : Directive} {address : Address}
    {pending : Pending} (puts : directive.pending? address = some pending) :
    ∃ instruction, directive.instruction? (placeIn labels) address = some instruction ∧
      linkPending labels pending =
        unlessMissing (firstMissing labels directive.references) instruction := by
  obtain ⟨instruction, inPlace, rfl⟩ := Option.map_eq_some_iff.mp puts
  obtain ⟨statement, states, rfl⟩ := Option.map_eq_some_iff.mp inPlace
  cases directive with
  | label name => cases states
  | emit op =>
      cases states
      exact ⟨_, rfl, linkPending_nil labels _⟩
  | emitSized op units =>
      cases states
      exact ⟨_, rfl, linkPending_nil labels _⟩
  | branch condition lhs rhs name =>
      cases states
      refine ⟨_, rfl, ?_⟩
      rw [linkPending, references, resolveOp, resolve_eq, unlessMissing_map, unlessMissing_map]
      rfl
  | jump name =>
      cases states
      refine ⟨_, rfl, ?_⟩
      rw [linkPending, references, resolveOp, resolve_eq, unlessMissing_map, unlessMissing_map]
      rfl
  | switch src cases =>
      cases states
      refine ⟨_, rfl, ?_⟩
      rw [linkPending, references, resolveOp, resolveCases_eq, unlessMissing_map,
        unlessMissing_map]
      rfl
  | invoke kind descriptor args =>
      obtain ⟨method, read, isStatement⟩ := Option.map_eq_some_iff.mp states
      cases isStatement
      refine ⟨⟨address, _, .invoke kind method args⟩, ?_, linkPending_nil labels _⟩
      rw [instruction?, statement?, read]
      rfl
  | access op descriptor =>
      obtain ⟨field, read, isStatement⟩ := Option.map_eq_some_iff.mp states
      cases isStatement
      refine ⟨⟨address, _, op field⟩, ?_, linkPending_nil labels _⟩
      rw [instruction?, statement?, read]
      rfl

theorem linkPending_pendingFrom (labels : OrdMap String Address) (directives : List Directive)
    (address : Address) :
    (pendingFrom address directives).mapM (linkPending labels) =
      unlessMissing (firstMissing labels (directives.flatMap references))
        (instructionsFrom (placeIn labels) address directives) := by
  induction directives generalizing address with
  | nil => rfl
  | cons directive rest induction =>
      rw [List.flatMap_cons, firstMissing_append, pendingFrom, instructionsFrom]
      cases puts : directive.pending? address with
      | none =>
          have silent := Option.map_eq_none_iff.mp puts
          rw [instruction?_of_silent silent, references_of_silent silent, Option.toList_none,
            Option.toList_none, List.nil_append, List.nil_append]
          exact induction _
      | some pending =>
          obtain ⟨instruction, inPlace, links⟩ := linkPending_eq labels puts
          rw [inPlace, Option.toList_some, List.singleton_append, List.mapM_cons, links]
          apply unlessMissing_bind
          rw [induction]
          exact unlessMissing_map _ _ _

/-! ## Where everything is -/

section Places

variable {place : String → Address} {directive : Directive} {rest : List Directive}
  {address : Address}

theorem instructionsFrom_of_some {instruction : Instruction}
    (puts : directive.instruction? place address = some instruction) :
    instructionsFrom place address (directive :: rest) =
      instruction :: instructionsFrom place instruction.next rest := by
  rw [instructionsFrom, puts, next_of_instruction? puts]
  rfl

theorem instructionsFrom_of_silent (silent : directive.instruction? place address = none) :
    instructionsFrom place address (directive :: rest) = instructionsFrom place address rest := by
  rw [instructionsFrom, silent, width_of_silent silent]
  exact congrArg (instructionsFrom place · rest) (UInt32.add_zero address)

theorem instructionsFrom_append (before after : List Directive) (address : Address) :
    instructionsFrom place address (before ++ after) =
      instructionsFrom place address before ++
        instructionsFrom place (address + .ofNat (widthOf before)) after := by
  induction before generalizing address with
  | nil => simp [instructionsFrom, widthOf]
  | cons directive rest induction =>
      rw [List.cons_append, instructionsFrom, instructionsFrom, induction, widthOf,
        UInt32.ofNat_add, UInt32.add_assoc, List.append_assoc]

theorem statements_instructionsFrom (place : String → Address) (directives : List Directive)
    (address : Address) :
    (instructionsFrom place address directives).map
        (fun instruction => (instruction.op, instruction.units)) =
      directives.filterMap (statement? place) := by
  induction directives generalizing address with
  | nil => rfl
  | cons directive rest induction =>
      rw [instructionsFrom, List.map_append, induction, List.filterMap_cons, instruction?]
      cases directive.statement? place <;> rfl

theorem endOf_instructionsFrom (place : String → Address) (directives : List Directive)
    (address : Address) :
    endOf address (instructionsFrom place address directives) =
      address + .ofNat (widthOf directives) := by
  induction directives generalizing address with
  | nil => exact (UInt32.add_zero _).symm
  | cons directive rest induction =>
      rw [widthOf, UInt32.ofNat_add, ← UInt32.add_assoc]
      cases puts : directive.instruction? place address with
      | none =>
          rw [instructionsFrom_of_silent puts, induction, width_of_silent puts]
          exact congrArg (· + _) (UInt32.add_zero address).symm
      | some instruction =>
          rw [instructionsFrom_of_some puts, ← next_of_instruction? puts]
          exact induction instruction.next

theorem address_of_head? {directives : List Directive} {instruction : Instruction}
    (isFirst : (instructionsFrom place address directives).head? = some instruction) :
    instruction.address = address := by
  induction directives with
  | nil => cases isFirst
  | cons directive rest induction =>
      cases puts : directive.instruction? place address with
      | none =>
          rw [instructionsFrom_of_silent puts] at isFirst
          exact induction isFirst
      | some first =>
          rw [instructionsFrom_of_some puts] at isFirst
          cases isFirst
          exact address_of_instruction? puts

theorem toNat_advance {units : Nat} (fits : address.toNat + units < 4294967296) :
    (address + .ofNat units).toNat = address.toNat + units := by
  rw [UInt32.toNat_add, UInt32.toNat_ofNat', Nat.add_mod_mod]
  exact Nat.mod_eq_of_lt fits

/-- Instructions follow each other as long as addresses do not wrap around. -/
theorem laidOut_instructionsFrom (place : String → Address) (directives : List Directive)
    (address : Address) (fits : address.toNat + widthOf directives < 4294967296) :
    LaidOut address.toNat (instructionsFrom place address directives) := by
  induction directives generalizing address with
  | nil => exact trivial
  | cons directive rest induction =>
      rw [widthOf] at fits
      cases puts : directive.instruction? place address with
      | none =>
          rw [instructionsFrom_of_silent puts]
          exact induction address (by omega)
      | some instruction =>
          have isNext : instruction.next.toNat = address.toNat + directive.width := by
            rw [next_of_instruction? puts]
            exact toNat_advance (by omega)
          rw [instructionsFrom_of_some puts]
          refine ⟨congrArg UInt32.toNat (address_of_instruction? puts), ?_⟩
          rw [← width_of_instruction? puts, ← isNext]
          exact induction instruction.next (by omega)

/-- A place in directives has the address of what they lay out next. -/
theorem addressAt_instructionsFrom (place : String → Address) (before after : List Directive) :
    addressAt (instructionsFrom place 0 (before ++ after))
        (before.filterMap (statement? place)).length = .ofNat (widthOf before) := by
  have isLength : (before.filterMap (statement? place)).length =
      (instructionsFrom place 0 before).length := by
    rw [← statements_instructionsFrom place before 0, List.length_map]
  have start : (0 : Address) + .ofNat (widthOf before) = .ofNat (widthOf before) :=
    UInt32.zero_add _
  rw [addressAt, instructionsFrom_append, start, isLength,
    List.getElem?_append_right (Nat.le_refl _), Nat.sub_self, ← List.head?_eq_getElem?]
  cases isFirst : (instructionsFrom place (.ofNat (widthOf before)) after).head? with
  | some instruction => exact address_of_head? isFirst
  | none =>
      rw [List.head?_eq_none_iff.mp isFirst, List.append_nil]
      exact (endOf_instructionsFrom place before 0).trans start

end Places

/-! ## Main result -/

theorem link_eq_unlessMissing (directives : List Directive) :
    (ofDirectives directives).link =
      unlessMissing
        (firstMissing (ofDirectives directives).labels (directives.flatMap references))
        (instructionsFrom (placeIn (ofDirectives directives).labels) 0 directives) := by
  rw [link_eq, ofDirectives, pending_foldl]
  exact linkPending_pendingFrom _ directives 0

theorem find?_ofDirectives (directives : List Directive) (name : String) :
    (ofDirectives directives).labels.find? name = labelFrom name 0 directives :=
  (find?_foldl name directives .empty).trans Option.none_or

theorem find?_eq_none_iff {directives : List Directive} {name : String} :
    (ofDirectives directives).labels.find? name = none ↔ .label name ∉ directives := by
  rw [find?_ofDirectives, labelFrom_eq_none_iff, mem_defined_iff]

theorem contains_iff {directives : List Directive} {name : String} :
    (ofDirectives directives).labels.contains name = true ↔ .label name ∈ directives := by
  rw [OrdMap.contains, Option.isSome_iff_ne_none, Ne, find?_eq_none_iff, Classical.not_not]

theorem firstMissing_eq_none_iff {directives : List Directive} {names : List String} :
    firstMissing (ofDirectives directives).labels names = none ↔
      ∀ name ∈ names, .label name ∈ directives := by
  rw [firstMissing, List.find?_eq_none]
  simp only [Option.isNone_iff_eq_none, find?_eq_none_iff, Classical.not_not]

/-- Calls fail just for the reasons that `Refused` lists. -/
theorem apply_eq_error_iff {before : List Directive} {directive : Directive}
    {error : AssemblyError} {left : Assembler} :
    directive.apply (ofDirectives before) = .error error left ↔
      directive.Refused before error ∧ left = ofDirectives before := by
  constructor
  · intro fails
    refine ⟨?_, eq_of_apply_eq_error fails⟩
    cases puts : directive.pending? (ofDirectives before).address with
    | some pending =>
        rw [apply_of_pending? puts] at fails
        cases fails
    | none =>
        cases defined : directive.defines? with
        | none =>
            obtain ⟨other, failsToo, refused⟩ := apply_of_unreadable before puts defined
            rw [failsToo] at fails
            cases fails
            exact refused
        | some name =>
            cases directive with
            | label placed =>
                cases defined
                rw [apply, label] at fails
                split at fails
                · rename_i again
                  cases fails
                  exact .label (contains_iff.mp again)
                · cases fails
            | _ => cases defined
  · rintro ⟨refused, rfl⟩
    cases refused with
    | label again => exact if_pos (contains_iff.mpr again)
    | method unreadable =>
        rw [apply, invoke, readMethod, unreadable]
        rfl
    | field unreadable =>
        rw [apply, access, readField, unreadable]
        rfl

/-- A call that fails might as well not have been made. -/
theorem ofDirectives_skip {before after : List Directive} {directive : Directive}
    {error : AssemblyError} {left : Assembler}
    (fails : directive.apply (ofDirectives before) = .error error left) :
    ofDirectives (before ++ directive :: after) = ofDirectives (before ++ after) := by
  have stays : (ofDirectives before).follow directive = ofDirectives before := follow_of_error fails
  rw [ofDirectives, List.foldl_append, List.foldl_cons, ofDirectives, List.foldl_append]
  exact congrArg (after.foldl follow) stays

theorem link_eq_ok {directives : List Directive} {code : List Instruction}
    (links : (ofDirectives directives).link = .ok code) :
    code = instructionsFrom (placeIn (ofDirectives directives).labels) 0 directives ∧
      ∀ name ∈ directives.flatMap references, .label name ∈ directives := by
  rw [link_eq_unlessMissing] at links
  cases missing : firstMissing (ofDirectives directives).labels (directives.flatMap references) with
  | some name =>
      rw [missing] at links
      cases links
  | none =>
      rw [missing] at links
      cases links
      exact ⟨rfl, firstMissing_eq_none_iff.mp missing⟩

theorem placeIn_of_first {before after : List Directive} {name : String}
    (first : .label name ∉ before) :
    placeIn (ofDirectives (before ++ .label name :: after)).labels name =
      .ofNat (widthOf before) := by
  rw [placeIn, find?_ofDirectives, labelFrom_of_first (mt mem_defined_iff.mp first)]
  exact UInt32.zero_add _

theorem linked_of_link {directives : List Directive} {code : List Instruction}
    (fits : widthOf directives < 4294967296) (links : (ofDirectives directives).link = .ok code) :
    Linked directives code := by
  obtain ⟨rfl, -⟩ := link_eq_ok links
  refine ⟨laidOut_instructionsFrom _ directives 0 (by simpa using fits),
    placeIn (ofDirectives directives).labels, statements_instructionsFrom _ directives 0, ?_⟩
  intro before name after isSplit isFirst
  subst isSplit
  rw [addressAt_instructionsFrom]
  exact placeIn_of_first isFirst

/-- The assembler lays out and links any sequence of calls that fits into the address space.  Calls
that fail change nothing; linking succeeds if every label that is referred to is placed, and gives
code that belongs to the calls; otherwise its error is the first label that is not placed. -/
theorem link_ofDirectives (directives : List Directive)
    (fits : widthOf directives < 4294967296) :
    (∀ before directive after error, directives = before ++ directive :: after →
      (∀ left, directive.apply (ofDirectives before) = .error error left ↔
        directive.Refused before error ∧ left = ofDirectives before) ∧
      (directive.Refused before error → ofDirectives directives = ofDirectives (before ++ after))) ∧
    ((∃ code, (ofDirectives directives).link = .ok code) ↔
      ∀ name ∈ directives.flatMap references, .label name ∈ directives) ∧
    (∀ code, (ofDirectives directives).link = .ok code → Linked directives code) ∧
    ∀ error, (ofDirectives directives).link = .error error →
      ∃ earlier name later, error = .undefinedLabel name ∧
        directives.flatMap references = earlier ++ name :: later ∧
        .label name ∉ directives ∧ ∀ other ∈ earlier, .label other ∈ directives := by
  refine ⟨?_, ?_, fun code links => linked_of_link fits links, ?_⟩
  · intro before directive after error isSplit
    refine ⟨fun _ => apply_eq_error_iff, ?_⟩
    intro refused
    rw [isSplit]
    exact ofDirectives_skip (apply_eq_error_iff.mpr ⟨refused, rfl⟩)
  · rw [← firstMissing_eq_none_iff, link_eq_unlessMissing]
    cases firstMissing (ofDirectives directives).labels (directives.flatMap references) with
    | none => exact ⟨fun _ => rfl, fun _ => ⟨_, rfl⟩⟩
    | some name =>
        constructor
        · intro succeeds
          obtain ⟨code, links⟩ := succeeds
          cases links
        · intro isNone
          cases isNone
  · intro error fails
    rw [link_eq_unlessMissing] at fails
    cases missing : firstMissing (ofDirectives directives).labels
        (directives.flatMap references) with
    | none =>
        rw [missing] at fails
        cases fails
    | some name =>
        rw [missing] at fails
        cases fails
        obtain ⟨isMissing, earlier, later, isSplit, others⟩ :=
          List.find?_eq_some_iff_append.mp missing
        refine ⟨earlier, name, later, rfl, isSplit, ?_, ?_⟩
        · exact find?_eq_none_iff.mp (Option.isNone_iff_eq_none.mp isMissing)
        · intro other isEarlier
          apply contains_iff.mp
          have found := others other isEarlier
          rw [Bool.not_eq_true', Option.isNone_eq_false_iff] at found
          exact found

/-- A loop that is left to its end, among two calls that fail. -/
def spin : List Directive :=
  [.label "top", .branch .eq 0 none "out", .invoke .static "top" [], .label "top", .jump "top",
    .label "out"]

theorem link_ofDirectives_spin :
    widthOf spin = 3 ∧ Linked spin [⟨0, 2, .branch .eq 0 none 3⟩, ⟨2, 1, .jump 0⟩] ∧
      ¬ ∃ code, (ofDirectives (spin.take 5)).link = .ok code := by
  have fits : widthOf spin < 4294967296 := by decide +kernel
  have fitsToo : widthOf (spin.take 5) < 4294967296 := by decide +kernel
  obtain ⟨-, -, linked, -⟩ := link_ofDirectives spin fits
  obtain ⟨-, succeeds, -, -⟩ := link_ofDirectives (spin.take 5) fitsToo
  refine ⟨by decide +kernel, linked _ rfl, ?_⟩
  intro links
  have placed := succeeds.mp links "out" (by decide +kernel)
  simp [spin] at placed

end Assembler

end Dexplore
