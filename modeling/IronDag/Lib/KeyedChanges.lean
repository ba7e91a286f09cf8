import Mathlib.Data.List.Nodup
import Mathlib.Logic.Function.Basic

namespace KeyedChanges

open List hiding after

variable {State Change Key Held Shown : Type} [DecidableEq Key]

/-- The wanted effect of one change on everything that is shown. -/
def wanted (key : Change → Key) (changed : Change → Shown → Shown) (shown : Key → Shown)
    (change : Change) : Key → Shown :=
  Function.update shown (key change) (changed change (shown (key change)))

variable {apply : State → Change → Option State} {key : Change → Key} {held : State → Key → Held}
  {shows : Held → Shown} {changed : Change → Shown → Shown} {kept : Change → Held → Prop}

theorem wanted_of_ne (elsewhere : other ≠ key change) :
    wanted key changed shown change other = shown other :=
  Function.update_of_ne elsewhere _ _

theorem foldl_wanted_of_notMem {changes : List Change}
    (elsewhere : other ∉ changes.map key) : changes.foldl (wanted key changed) shown other =
      shown other := by
  induction changes generalizing shown with
  | nil => rfl
  | cons change rest ih =>
    rw [map_cons, mem_cons, not_or] at elsewhere
    rw [foldl_cons, ih elsewhere.2, wanted_of_ne elsewhere.1]

section Store

variable (frame : ∀ state change after, apply state change = some after →
  ∀ other, other ≠ key change → held after other = held state other)

include frame

omit [DecidableEq Key] in
theorem held_of_notMem {changes : List Change} (done : changes.foldlM apply state = some after)
    (elsewhere : other ∉ changes.map key) : held after other = held state other := by
  induction changes generalizing state with
  | nil =>
    cases done
    rfl
  | cons change rest ih =>
    rw [map_cons, mem_cons, not_or] at elsewhere
    rw [foldlM_cons, Option.bind_eq_bind, Option.bind_eq_some_iff] at done
    obtain ⟨middle, first, done⟩ := done
    rw [ih done elsewhere.2, frame _ _ _ first other elsewhere.1]

variable (step : ∀ state change, (∃ after, apply state change = some after ∧
  shows (held after (key change)) = changed change (shows (held state (key change)))) ↔
    kept change (held state (key change)))

include step

/-- The list has the wanted effect exactly if each change is kept by what the store holds at the
start. -/
theorem foldlM_wanted_iff {changes : List Change} (distinct : (changes.map key).Nodup)
    (state : State) :
    (∃ after, changes.foldlM apply state = some after ∧ (fun other => shows (held after other)) =
      changes.foldl (wanted key changed) fun other => shows (held state other)) ↔
    ∀ change ∈ changes, kept change (held state (key change)) := by
  induction changes generalizing state with
  | nil => simp
  | cons change rest ih =>
    rw [map_cons, nodup_cons] at distinct
    obtain ⟨once, distinct⟩ := distinct
    -- a first change that is kept leads to a state that shows what is wanted
    have middleShows : ∀ {middle}, apply state change = some middle →
        shows (held middle (key change)) = changed change (shows (held state (key change))) →
        (fun other => shows (held middle other)) =
          wanted key changed (fun other => shows (held state other)) change := by
      intro middle first effect
      funext other
      by_cases here : other = key change
      · subst here
        simpa [wanted] using effect
      · rw [wanted_of_ne here, frame _ _ _ first other here]
    have restKept : ∀ {middle}, apply state change = some middle → ∀ later ∈ rest,
        kept later (held middle (key later)) ↔ kept later (held state (key later)) := by
      intro middle first later member
      have elsewhere : key later ≠ key change := fun same =>
        once (same ▸ mem_map_of_mem member)
      rw [frame _ _ _ first _ elsewhere]
    rw [forall_mem_cons]
    constructor
    · rintro ⟨after, done, effect⟩
      rw [foldlM_cons, Option.bind_eq_bind, Option.bind_eq_some_iff] at done
      obtain ⟨middle, first, done⟩ := done
      have here := congrFun effect (key change)
      rw [foldl_cons, foldl_wanted_of_notMem once, held_of_notMem frame done once] at here
      have first_effect : shows (held middle (key change)) =
          changed change (shows (held state (key change))) := by
        simpa [wanted] using here
      refine ⟨(step state change).mp ⟨middle, first, first_effect⟩, fun later member => ?_⟩
      rw [foldl_cons, ← middleShows first first_effect] at effect
      exact (restKept first later member).mp
        ((ih distinct middle).mp ⟨after, done, effect⟩ later member)
    · rintro ⟨keptFirst, keptRest⟩
      obtain ⟨middle, first, first_effect⟩ := (step state change).mpr keptFirst
      obtain ⟨after, done, effect⟩ := (ih distinct middle).mpr fun later member =>
        (restKept first later member).mpr (keptRest later member)
      refine ⟨after, ?_, ?_⟩
      · rw [foldlM_cons, first, Option.bind_eq_bind, Option.bind_some, done]
      · rw [effect, foldl_cons, middleShows first first_effect]

end Store

end KeyedChanges
