import Mathlib.Data.List.Induction

universe u v w

namespace Run

open List

variable {σ : Type u} {ι : Type v} (step : ι → σ → σ)

def run (start : σ) (inputs : List ι) : σ :=
  inputs.foldl (fun state input => step input state) start

def visited : σ → List ι → List (σ × ι)
  | _, [] => []
  | state, input :: rest => (state, input) :: visited (step input state) rest

/-- Every state of a run, the first and the last included. -/
def states (start : σ) (inputs : List ι) : List σ :=
  (visited step start inputs).map Prod.fst ++ [run step start inputs]

variable {step} {start : σ}

@[simp] theorem run_nil : run step start [] = start := rfl

@[simp] theorem run_cons :
    run step start (input :: inputs) = run step (step input start) inputs := rfl

@[simp] theorem visited_nil : visited step start [] = [] := rfl

@[simp] theorem visited_cons :
    visited step start (input :: inputs) =
      (start, input) :: visited step (step input start) inputs := rfl

theorem states_cons :
    states step start (input :: inputs) = start :: states step (step input start) inputs := rfl

theorem mem_inputs_of_visited (found : entry ∈ visited step start inputs) : entry.2 ∈ inputs := by
  induction inputs generalizing start with
  | nil => cases found
  | cons input rest ih =>
    rcases mem_cons.mp found with rfl | later
    · exact mem_cons_self
    · exact mem_cons_of_mem input (ih later)

theorem run_append {front back : List ι} :
    run step start (front ++ back) = run step (run step start front) back := by
  simp [run]

/-- The history lists each input at the state that the inputs before it lead to. -/
theorem mem_visited_of_split {front back : List ι} {input : ι}
    (split : inputs = front ++ input :: back) :
    (run step start front, input) ∈ visited step start inputs := by
  subst split
  induction front generalizing start with
  | nil => exact mem_cons_self
  | cons first rest ih => exact mem_cons_of_mem _ ih

theorem exists_split_of_mem_visited (found : entry ∈ visited step start inputs) :
    ∃ front back, inputs = front ++ entry.2 :: back ∧ entry.1 = run step start front := by
  induction inputs generalizing start with
  | nil => cases found
  | cons input rest ih =>
    rcases mem_cons.mp found with rfl | later
    · exact ⟨[], rest, rfl, rfl⟩
    · obtain ⟨front, back, split, state⟩ := ih later
      exact ⟨input :: front, back, by rw [split]; rfl, state⟩

theorem mem_states_iff :
    state ∈ states step start inputs ↔ ∃ front back, inputs = front ++ back ∧
      state = run step start front := by
  induction inputs generalizing start with
  | nil =>
    constructor
    · intro member
      exact ⟨[], [], rfl, by simpa [states] using member⟩
    · rintro ⟨front, back, split, rfl⟩
      obtain ⟨rfl, rfl⟩ := append_eq_nil_iff.mp split.symm
      simp [states]
  | cons input rest ih =>
    rw [states_cons, mem_cons, ih]
    constructor
    · rintro (rfl | ⟨front, back, rfl, rfl⟩)
      · exact ⟨[], input :: rest, rfl, rfl⟩
      · exact ⟨input :: front, back, rfl, rfl⟩
    · rintro ⟨front, back, split, rfl⟩
      cases front with
      | nil => exact .inl rfl
      | cons first others =>
        obtain ⟨rfl, rfl⟩ := cons.inj split
        exact .inr ⟨others, back, rfl, rfl⟩

theorem mem_states_of_visited (found : entry ∈ visited step start inputs) :
    entry.1 ∈ states step start inputs :=
  mem_append_left _ (mem_map_of_mem found)

theorem run_mem_states : run step start inputs ∈ states step start inputs :=
  mem_append_right _ (mem_singleton_self _)

/-- An invariant that may speak about the inputs taken so far, kept by every step that meets a
condition. -/
theorem invariant_of_prefixes (invariant : List ι → σ → Prop) (condition : σ → ι → Prop)
    (initial : invariant [] start)
    (preserved : ∀ front input back, inputs = front ++ input :: back →
      condition (run step start front) input →
      invariant front (run step start front) →
        invariant (front ++ [input]) (step input (run step start front)))
    (met : ∀ entry ∈ visited step start inputs, condition entry.1 entry.2) :
    ∀ front back, inputs = front ++ back → invariant front (run step start front) := by
  intro front
  induction front using reverseRecOn with
  | nil => intro back _; exact initial
  | append_singleton front input ih =>
    intro back split
    have shape : inputs = front ++ input :: back := by simpa using split
    rw [run_append]
    exact preserved front input back shape (met _ (mem_visited_of_split shape))
      (ih (input :: back) shape)

/-- An invariant that every step keeps, as long as the step meets a condition. -/
theorem invariant_states {invariant : σ → Prop} {condition : σ → ι → Prop}
    (preserved : ∀ state input, invariant state → condition state input →
      invariant (step input state))
    (initial : invariant start)
    (met : ∀ entry ∈ visited step start inputs, condition entry.1 entry.2) :
    ∀ state ∈ states step start inputs, invariant state := by
  induction inputs generalizing start with
  | nil =>
    intro state member
    rw [show state = start by simpa [states] using member]
    exact initial
  | cons input rest ih =>
    intro state member
    rcases mem_cons.mp member with rfl | later
    · exact initial
    · apply ih (preserved start input initial (met (start, input) (by simp))) _ state later
      intro entry found
      exact met entry (by simp [found])

/-- Where the condition is also necessary, a property of the invariant's states holds throughout a
run exactly if every step meets it. -/
theorem forall_states_iff {invariant property : σ → Prop} {condition : σ → ι → Prop}
    (sound : ∀ state, invariant state → property state)
    (preserved : ∀ state input, invariant state → condition state input →
      invariant (step input state))
    (necessary : ∀ state input, invariant state → property (step input state) →
      condition state input)
    (initial : invariant start) :
    (∀ state ∈ states step start inputs, property state) ↔
      ∀ entry ∈ visited step start inputs, condition entry.1 entry.2 := by
  constructor
  · intro holds
    induction inputs generalizing start with
    | nil => intro entry found; cases found
    | cons input rest ih =>
      have next : step input start ∈ states step (step input start) rest :=
        mem_states_iff.mpr ⟨[], rest, rfl, rfl⟩
      have met : condition start input :=
        necessary start input initial (holds _ (mem_cons_of_mem _ next))
      intro entry found
      rcases mem_cons.mp found with rfl | later
      · exact met
      · exact ih (preserved start input initial met)
          (fun state member => holds state (mem_cons_of_mem _ member)) entry later
  · intro met state member
    exact sound state (invariant_states preserved initial met state member)

/-- A transitive relation between the states around each step holds between all earlier and later
states. -/
theorem pairwise_states (transitive : ∀ {first second third}, related first second →
      related second third → related first third)
    (kept : ∀ entry ∈ visited step start inputs, related entry.1 (step entry.2 entry.1)) :
    (states step start inputs).Pairwise related := by
  induction inputs generalizing start with
  | nil => exact pairwise_singleton _ _
  | cons input rest ih =>
    have later : (states step (step input start) rest).Pairwise related :=
      ih fun entry found => kept entry (mem_cons_of_mem _ found)
    have first : related start (step input start) := kept (start, input) mem_cons_self
    rw [states_cons, pairwise_cons]
    refine ⟨fun state member => ?_, later⟩
    cases rest with
    | nil =>
      rw [show state = step input start by simpa [states] using member]
      exact first
    | cons next others =>
      rcases mem_cons.mp member with rfl | beyond
      · exact first
      · exact transitive first ((pairwise_cons.mp later).1 state beyond)

end Run
