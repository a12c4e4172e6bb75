import Dexplore.World

/-!
# Runs and their states

What is said of runs again and again: which state a run ends in (`lastState`), that it keeps an
invariant of its state (`Sustains`), and that it does not depend on a part of its state because
it commutes with changes of that part (`Commutes`).  More generally, a run on larger states may do
what another one does on the states that they are made from (`Mirrors`).  All of these are passed
on from the parts of a run to the whole.
-/

set_option autoImplicit false

namespace Dexplore

/-- The state that a run ends in, whether or not it fails. -/
def lastState {σ α : Type} : EStateM.Result Fault σ α → σ
  | .ok _ state => state
  | .error _ state => state

/-! ## Runs that keep an invariant -/

section

variable {σ α β : Type} {holds : σ → Prop} {given : α → Prop} {final : β → Prop}

def Sustained (holds : σ → Prop) (given : α → Prop) : EStateM.Result Fault σ α → Prop
  | .ok value state => holds state ∧ given value
  | .error _ state => holds state

def Sustains (holds : σ → Prop) (given : α → Prop) (run : EStateM Fault σ α) : Prop :=
  ∀ state, holds state → Sustained holds given (run state)

theorem Sustained.lastState {result : EStateM.Result Fault σ α}
    (sustained : Sustained holds given result) : holds (lastState result) := by
  cases result with
  | ok value state => exact sustained.1
  | error fault state => exact sustained

namespace Sustains

theorem pure {value : α} (meets : given value) : Sustains holds given (Pure.pure value) :=
  fun _ held => ⟨held, meets⟩

theorem throw (fault : Fault) :
    Sustains holds given (MonadExcept.throw fault : EStateM Fault σ α) :=
  fun _ held => held

theorem bind {run : EStateM Fault σ α} {next : α → EStateM Fault σ β}
    (first : Sustains holds given run)
    (second : ∀ value, given value → Sustains holds final (next value)) :
    Sustains holds final (run >>= next) := by
  intro state held
  have middle := first state held
  simp only [Bind.bind, EStateM.bind]
  cases ran : run state with
  | ok value after =>
      rw [ran] at middle
      exact second value middle.2 after middle.1
  | error fault after =>
      rw [ran] at middle
      exact middle

theorem look {next : σ → EStateM Fault σ α}
    (rest : ∀ state, holds state → Sustains holds given (next state)) :
    Sustains holds given (get >>= next) :=
  fun state held => rest state held state held

theorem modify {change : σ → σ} (kept : ∀ state, holds state → holds (change state)) :
    Sustains holds (fun _ => True) (modify change : EStateM Fault σ PUnit) :=
  fun state held => ⟨kept state held, trivial⟩

theorem forM {items : List α} {action : α → EStateM Fault σ PUnit}
    (each : ∀ item ∈ items, Sustains holds (fun _ => True) (action item)) :
    Sustains holds (fun _ => True) (items.forM action) := by
  induction items with
  | nil => exact pure trivial
  | cons head rest induction =>
      exact bind (each head List.mem_cons_self) fun _ _ =>
        induction fun item inside => each item (List.mem_cons_of_mem _ inside)

end Sustains

end

/-! ## Runs that commute with a change -/

section

def mapState {σ τ α : Type} (change : σ → τ) : EStateM.Result Fault σ α → EStateM.Result Fault τ α
  | .ok value state => .ok value (change state)
  | .error fault state => .error fault (change state)

variable {σ α β : Type} {change : σ → σ}

/-- A run that does the same after a change of its state. -/
def Commutes (change : σ → σ) (run : EStateM Fault σ α) : Prop :=
  ∀ state, run (change state) = mapState change (run state)

namespace Commutes

theorem pure (value : α) : Commutes change (Pure.pure value) := fun _ => rfl

theorem throw (fault : Fault) : Commutes change (throw fault : EStateM Fault σ α) := fun _ => rfl

theorem bind {run : EStateM Fault σ α} {next : α → EStateM Fault σ β}
    (first : Commutes change run) (second : ∀ value, Commutes change (next value)) :
    Commutes change (run >>= next) := by
  intro state
  simp only [Bind.bind, EStateM.bind, first state]
  cases run state with
  | ok value middle => exact second value middle
  | error fault middle => rfl

theorem look {next : σ → EStateM Fault σ α} (same : ∀ state, next (change state) = next state)
    (rest : ∀ state, Commutes change (next state)) : Commutes change (get >>= next) := by
  intro state
  have changed : next (change state) (change state) = next state (change state) := by
    rw [same state]
  exact changed.trans (rest state state)

theorem modify {update : σ → σ} (same : ∀ state, update (change state) = change (update state)) :
    Commutes change (modify update : EStateM Fault σ PUnit) :=
  fun state => congrArg (EStateM.Result.ok PUnit.unit) (same state)

theorem forM (items : List α) {action : α → EStateM Fault σ PUnit}
    (each : ∀ item, Commutes change (action item)) : Commutes change (items.forM action) := by
  induction items with
  | nil => exact pure PUnit.unit
  | cons head rest induction => exact bind (each head) fun _ => induction

theorem mapM (items : List α) {action : α → EStateM Fault σ β}
    (each : ∀ item, Commutes change (action item)) : Commutes change (items.mapM action) := by
  induction items with
  | nil => exact pure []
  | cons head rest induction =>
      rw [List.mapM_cons]
      exact bind (each head) fun value => bind induction fun values => pure (value :: values)

end Commutes

end

/-! ## Runs on larger states -/

section

variable {σ τ α β : Type} {carry : σ → τ} {fits : σ → Prop}

/-- The first run does on the states that are carried over what the second one does on the states
themselves, if they fit, and these fit again afterwards. -/
def Mirrors (carry : σ → τ) (fits : σ → Prop) (upper : EStateM Fault τ α)
    (run : EStateM Fault σ α) : Prop :=
  ∀ state, fits state → upper (carry state) = mapState carry (run state) ∧
    fits (lastState (run state))

namespace Mirrors

theorem pure (value : α) : Mirrors carry fits (Pure.pure value) (Pure.pure value) :=
  fun _ fitting => ⟨rfl, fitting⟩

theorem throw (fault : Fault) :
    Mirrors carry fits (throw fault : EStateM Fault τ α) (throw fault : EStateM Fault σ α) :=
  fun _ fitting => ⟨rfl, fitting⟩

theorem bind {upper : EStateM Fault τ α} {run : EStateM Fault σ α}
    {upperNext : α → EStateM Fault τ β} {next : α → EStateM Fault σ β}
    (first : Mirrors carry fits upper run)
    (second : ∀ value, Mirrors carry fits (upperNext value) (next value)) :
    Mirrors carry fits (upper >>= upperNext) (run >>= next) := by
  intro state fitting
  obtain ⟨same, fitsMiddle⟩ := first state fitting
  simp only [Bind.bind, EStateM.bind, same]
  cases ran : run state with
  | ok value middle =>
      rw [ran] at fitsMiddle
      exact second value middle fitsMiddle
  | error fault middle =>
      rw [ran] at fitsMiddle
      exact ⟨rfl, fitsMiddle⟩

theorem look {upperNext : τ → EStateM Fault τ α} {next : σ → EStateM Fault σ α}
    (rest : ∀ state, fits state → Mirrors carry fits (upperNext (carry state)) (next state)) :
    Mirrors carry fits (get >>= upperNext) (get >>= next) :=
  fun state fitting => rest state fitting state fitting

theorem lookAbove {upperNext : τ → EStateM Fault τ α} {run : EStateM Fault σ α}
    (rest : ∀ state, fits state → Mirrors carry fits (upperNext (carry state)) run) :
    Mirrors carry fits (get >>= upperNext) run :=
  fun state fitting => rest state fitting state fitting

theorem modify {upperUpdate : τ → τ} {update : σ → σ}
    (same : ∀ state, upperUpdate (carry state) = carry (update state))
    (kept : ∀ state, fits state → fits (update state)) :
    Mirrors carry fits (modify upperUpdate : EStateM Fault τ PUnit)
      (modify update : EStateM Fault σ PUnit) :=
  fun state fitting => ⟨congrArg (EStateM.Result.ok PUnit.unit) (same state), kept state fitting⟩

theorem mapM (items : List α) {upperAction : α → EStateM Fault τ β}
    {action : α → EStateM Fault σ β}
    (each : ∀ item, Mirrors carry fits (upperAction item) (action item)) :
    Mirrors carry fits (items.mapM upperAction) (items.mapM action) := by
  induction items with
  | nil => exact pure []
  | cons head rest induction =>
      rw [List.mapM_cons, List.mapM_cons]
      exact bind (each head) fun value => bind induction fun values => pure (value :: values)

end Mirrors

end

end Dexplore
