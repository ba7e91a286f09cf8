import Mathlib.Order.Defs.Unbundled

/-! Computations that pass a state along and may fail, keeping the state they failed in. -/

universe u v

/-- A computation on a state `σ` that fails with `ε`. A failure does not undo its writes. -/
abbrev Fallible (ε σ α : Type u) := EStateM ε σ α

namespace Check

variable {ε α : Type u} {β : Type v}

theorem bind_eq_ok {next : PUnit → Except ε α} :
    (check >>= next) = .ok value ↔ check = .ok .unit ∧ next .unit = .ok value := by
  cases check with
  | ok passed | error reason => simp [bind, Except.bind]

theorem forM_eq_ok {check : β → Except ε PUnit.{u + 1}} {elements : List β} :
    elements.forM check = .ok .unit ↔ ∀ element ∈ elements, check element = .ok .unit := by
  induction elements with
  | nil => simp [pure, Except.pure]
  | cons element rest ih =>
    rw [List.forM, bind_eq_ok, ih, List.forall_mem_cons]

end Check

namespace Fallible

open EStateM (Result)

variable {ε σ α β : Type u}

/-- The state after the computation, whatever its outcome. -/
def finalState : Result ε σ α → σ
  | .ok _ state => state
  | .error _ state => state

/-- Whether the computation came through. -/
def succeeded : Result ε σ α → Bool
  | .ok _ _ => true
  | .error _ _ => false

theorem eq_ok_of_succeeded {result : Result ε σ PUnit} (came : succeeded result = true) :
    result = .ok .unit (finalState result) := by
  cases result with
  | ok value state => rfl
  | error reason state => cases came

/-- The value of a success. -/
def returned : Result ε σ α → Option α
  | .ok value _ => some value
  | .error _ _ => none

theorem eq_ok_of_returned {result : Result ε σ α} (came : returned result = some value) :
    result = .ok value (finalState result) := by
  cases result with
  | ok found state => rw [Option.some.inj came, finalState]
  | error reason state => cases came

/-- The reason of a failure. -/
def failure : Result ε σ α → Option ε
  | .ok _ _ => none
  | .error reason _ => some reason

theorem eq_error_of_failure {result : Result ε σ α} (came : failure result = some reason) :
    result = .error reason (finalState result) := by
  cases result with
  | ok value state => cases came
  | error found state => rw [Option.some.inj came, finalState]

/-- A check that only reads. -/
def ofExcept : Except ε α → Fallible ε σ α
  | .ok value => pure value
  | .error reason => throw reason

section Outcomes

variable {state after : σ} {value : β} {reason : ε}

theorem bind_eq_ok {next : α → Fallible ε σ β} : (first >>= next) state = .ok value after ↔
      ∃ result middle, first state = .ok result middle ∧ next result middle = .ok value after := by
  show EStateM.bind first next state = _ ↔ _
  unfold EStateM.bind
  cases first state with
  | ok result middle =>
    constructor
    · exact fun continued => ⟨result, middle, rfl, continued⟩
    · rintro ⟨_, _, same, continued⟩
      cases same
      exact continued
  | error reason after => simp

theorem bind_eq_error {next : α → Fallible ε σ β} : (first >>= next) state = .error reason after ↔
      first state = .error reason after ∨
        ∃ result middle, first state = .ok result middle ∧
          next result middle = .error reason after := by
  show EStateM.bind first next state = _ ↔ _
  unfold EStateM.bind
  cases first state with
  | ok result middle =>
    constructor
    · exact fun continued => .inr ⟨result, middle, rfl, continued⟩
    · rintro (impossible | ⟨_, _, same, continued⟩)
      · cases impossible
      · cases same
        exact continued
  | error reason after => simp

theorem bind_of_ok {next : α → Fallible ε σ β}
    (done : first state = .ok result middle) : (first >>= next) state = next result middle := by
  show EStateM.bind first next state = _
  rw [EStateM.bind, done]

theorem bind_of_error {next : α → Fallible ε σ β}
    (failed : first state = .error reason after) :
    (first >>= next) state = .error reason after := by
  show EStateM.bind first next state = _
  rw [EStateM.bind, failed]

@[simp] theorem pure_run : (pure value : Fallible ε σ β) state = .ok value state := rfl

@[simp] theorem throw_run : (throw reason : Fallible ε σ β) state = .error reason state := rfl

@[simp] theorem get_run : (get : Fallible ε σ σ) state = .ok state state := rfl

@[simp] theorem modify_run {change : σ → σ} :
    (modify change : Fallible ε σ PUnit) state = .ok .unit (change state) := rfl

@[simp] theorem throw_bind {next : α → Fallible ε σ β} :
    (throw reason >>= next) state = .error reason state := rfl

@[simp] theorem get_bind {next : σ → Fallible ε σ β} :
    (get >>= next) state = next state state := rfl

@[simp] theorem set_bind {next : PUnit → Fallible ε σ β} :
    (set after >>= next) state = next .unit after := rfl

@[simp] theorem modify_bind {change : σ → σ} {next : PUnit → Fallible ε σ β} :
    (modify change >>= next) state = next .unit (change state) := rfl

theorem ofExcept_bind_eq_ok {next : α → Fallible ε σ β} :
    (ofExcept check >>= next) state = .ok value after ↔
      ∃ result, check = .ok result ∧ next result state = .ok value after := by
  cases check with
  | ok result | error reason => simp [ofExcept]

theorem ofExcept_bind_eq_error {next : α → Fallible ε σ β} :
    (ofExcept check >>= next) state = .error reason after ↔
      (check = .error reason ∧ after = state) ∨
        ∃ result, check = .ok result ∧ next result state = .error reason after := by
  cases check with
  | ok result => simp [ofExcept]
  | error found => simp [ofExcept, eq_comm]

theorem check_bind_of_ok {next : PUnit → Fallible ε σ β} (passed : check = .ok .unit) :
    (ofExcept check >>= next) state = next .unit state := by
  rw [passed]
  rfl

theorem check_bind_eq_ok {next : PUnit → Fallible ε σ β} :
    (ofExcept check >>= next) state = .ok value after ↔ check = .ok .unit ∧
      next .unit state = .ok value after := by
  rw [ofExcept_bind_eq_ok]
  exact ⟨fun ⟨.unit, passed, continued⟩ => ⟨passed, continued⟩,
    fun ⟨passed, continued⟩ => ⟨_, passed, continued⟩⟩

theorem check_bind_eq_error {next : PUnit → Fallible ε σ β} :
    (ofExcept check >>= next) state = .error reason after ↔
      (check = .error reason ∧ after = state) ∨
        (check = .ok .unit ∧ next .unit state = .error reason after) := by
  rw [ofExcept_bind_eq_error]
  exact or_congr_right
    ⟨fun ⟨.unit, passed, continued⟩ => ⟨passed, continued⟩,
      fun ⟨passed, continued⟩ => ⟨_, passed, continued⟩⟩

end Outcomes

theorem ofExcept_bind_cases {property : Result ε σ β → Prop} {next : α → Fallible ε σ β}
    (stopped : ∀ reason, property (.error reason state))
    (continued : ∀ value, check = .ok value → property (next value state)) :
    property ((ofExcept check >>= next) state) := by
  cases done : check with
  | ok value => exact continued value done
  | error reason => exact stopped reason

theorem finalState_ofExcept_bind {property : σ → Prop} {next : α → Fallible ε σ β}
    (stopped : property state)
    (continued : ∀ value, check = .ok value → property (finalState (next value state))) :
    property (finalState ((ofExcept check >>= next) state)) := by
  cases done : check with
  | ok value => exact continued value done
  | error reason => exact stopped

/-- Every outcome, failures included, keeps the relation to the starting state. -/
def Keeps (relation : σ → σ → Prop) (computation : Fallible ε σ α) : Prop :=
  ∀ state, relation state (finalState (computation state))

section Keeps

variable {relation : σ → σ → Prop}

theorem Keeps.pure [Std.Refl relation] (value : α) :
    Keeps relation (Pure.pure value : Fallible ε σ α) :=
  fun state => refl state

theorem Keeps.modify (step : ∀ state, relation state (change state)) :
    Keeps relation (modify change : Fallible ε σ PUnit) :=
  step

variable [IsTrans σ relation]

/-- From one state on: what the first part keeps, and then the rest of the computation. -/
theorem Keeps.from_bind {first : Fallible ε σ α} {next : α → Fallible ε σ β} {state : σ}
    (head : relation state (finalState (first state)))
    (tail : ∀ value, Keeps relation (next value)) :
    relation state (finalState ((first >>= next) state)) := by
  cases done : first state with
  | ok value middle =>
    rw [bind_of_ok done]
    rw [done] at head
    exact Trans.trans head (tail value middle)
  | error reason after =>
    rw [bind_of_error done]
    rwa [done] at head

theorem Keeps.bind {next : α → Fallible ε σ β}
    (head : Keeps relation first) (tail : ∀ value, Keeps relation (next value)) :
    Keeps relation (first >>= next) :=
  fun state => Keeps.from_bind (head state) tail

end Keeps

/-- Both outcomes are successes with one value, or failures for one reason, in related states. -/
inductive Matches (related : σ → σ → Prop) : Result ε σ α → Result ε σ α → Prop where
  | ok {left right : σ} (value : α) (states : related left right) :
      Matches related (.ok value left) (.ok value right)
  | error {left right : σ} (reason : ε) (states : related left right) :
      Matches related (.error reason left) (.error reason right)

namespace Matches

theorem finalState {one two : Result ε σ α} (matched : Matches related one two) :
    related (Fallible.finalState one) (Fallible.finalState two) := by
  cases matched with
  | ok _ states | error _ states => exact states

theorem mono {one two : Result ε σ α} (matched : Matches related one two)
    (implies : ∀ left right, related left right → weaker left right) : Matches weaker one two := by
  cases matched with
  | ok value states => exact .ok value (implies _ _ states)
  | error reason states => exact .error reason (implies _ _ states)

theorem bind {next other : α → Fallible ε σ β} (head : Matches related (first left) (second right))
    (tail : ∀ value {one two}, related one two →
      Matches related (next value one) (other value two)) :
    Matches related ((first >>= next) left) ((second >>= other) right) := by
  generalize doneLeft : first left = one at head
  generalize doneRight : second right = two at head
  cases head with
  | ok value states =>
    rw [bind_of_ok doneLeft, bind_of_ok doneRight]
    exact tail value states
  | error reason states =>
    rw [bind_of_error doneLeft, bind_of_error doneRight]
    exact .error reason states

/-- The same check on both sides. -/
theorem ofExcept_bind {next other : α → Fallible ε σ β} (states : related left right)
    (checks : check = same) (continued : ∀ value, check = .ok value →
      Matches related (next value left) (other value right)) :
    Matches related ((ofExcept check >>= next) left) ((ofExcept same >>= other) right) := by
  subst checks
  cases done : check with
  | ok value => exact continued value done
  | error reason => exact .error reason states

end Matches

end Fallible
