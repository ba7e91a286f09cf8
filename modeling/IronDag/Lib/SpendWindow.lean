import Mathlib.Algebra.GroupWithZero.Nat
import Mathlib.Algebra.Order.BigOperators.Group.List

/-! Amounts spent at positions, counted in windows of a fixed width. -/

namespace SpendWindow

def total (chosen : ℕ → Bool) (amounts : List (ℕ × ℕ)) : ℕ :=
  ((amounts.filter fun entry => chosen entry.1).map Prod.snd).sum

def span (width first : ℕ) (position : ℕ) : Bool :=
  decide (first ≤ position ∧ position < first + width)

def since (start : ℕ) (position : ℕ) : Bool :=
  decide (start ≤ position)

variable {width limit start spent position amount : ℕ}

theorem total_append {front back : List (ℕ × ℕ)} :
    total chosen (front ++ back) = total chosen front + total chosen back := by
  simp [total]

theorem total_singleton {position : ℕ} :
    total chosen [(position, amount)] = if chosen position then amount else 0 := by
  cases picked : chosen position <;> simp [total, picked]

theorem total_mono (implied : ∀ entry ∈ amounts, chosen entry.1 = true → other entry.1 = true) :
    total chosen amounts ≤ total other amounts := by
  induction amounts with
  | nil => exact Nat.le_refl _
  | cons entry rest ih =>
    have later : total chosen rest ≤ total other rest := ih fun entry member =>
      implied entry (List.mem_cons_of_mem _ member)
    rw [← List.singleton_append, total_append, total_append, total_singleton, total_singleton]
    refine Nat.add_le_add ?_ later
    by_cases picked : chosen entry.1 = true
    · rw [if_pos picked, if_pos (implied entry List.mem_cons_self picked)]
    · rw [if_neg picked]
      exact Nat.zero_le _

/-- What a counter of a window knows about the amounts spent so far: they are in its window or the
width before it, the counter covers its window, and no span of the width exceeds the limit. -/
structure Windowed (width limit start spent : ℕ) (amounts : List (ℕ × ℕ)) : Prop where
  apart : ∀ entry ∈ amounts, start ≤ entry.1 ∨ entry.1 + width ≤ start
  counted : total (since start) amounts ≤ spent
  bounded : total (since start) amounts ≤ limit
  rolling : ∀ first, total (span width first) amounts ≤ limit

namespace Windowed

theorem nil : Windowed width limit start spent [] :=
  ⟨fun _ impossible => (by cases impossible), Nat.zero_le _, Nat.zero_le _, fun _ => Nat.zero_le _⟩

/-- A span that holds the new position holds nothing of what is further away than the width. -/
theorem rolling_append (rolling : ∀ first, total (span width first) amounts ≤ limit)
    (apart : ∀ entry ∈ amounts, start ≤ entry.1 ∨ entry.1 + width ≤ position)
    (fits : total (since start) amounts + amount ≤ limit) (first : ℕ) :
    total (span width first) (amounts ++ [(position, amount)]) ≤ limit := by
  rw [total_append, total_singleton]
  by_cases inside : span width first position = true
  · have near : total (span width first) amounts ≤ total (since start) amounts := by
      refine total_mono fun entry member picked => ?_
      simp only [span, since, decide_eq_true_eq] at inside picked ⊢
      rcases apart entry member with current | past
      · exact current
      · omega
    rw [if_pos inside]
    omega
  · rw [if_neg inside]
    exact rolling first

variable (windowed : Windowed width limit start spent amounts)

include windowed

theorem add (here : start ≤ position) (fits : spent + amount ≤ limit) :
    Windowed width limit start (spent + amount) (amounts ++ [(position, amount)]) := by
  have counted := windowed.counted
  have sum : total (since start) (amounts ++ [(position, amount)]) =
      total (since start) amounts + amount := by
    rw [total_append, total_singleton,
      if_pos (show since start position = true from decide_eq_true here)]
  have within : total (since start) amounts + amount ≤ limit := by omega
  refine ⟨?_, by omega, by omega, ?_⟩
  · intro entry member
    rcases List.mem_append.mp member with earlier | new
    · exact windowed.apart entry earlier
    · rw [List.mem_singleton.mp new]
      exact .inl here
  · refine rolling_append windowed.rolling (fun entry member => ?_) within
    exact (windowed.apart entry member).imp_right fun past => Nat.le_trans past here

theorem reopen (pause : ∀ entry ∈ amounts, entry.1 + width ≤ position) (wide : 0 < width)
    (fits : amount ≤ limit) :
    Windowed width limit position amount (amounts ++ [(position, amount)]) := by
  have none : total (since position) amounts = 0 := by
    rw [total, List.filter_eq_nil_iff.mpr]
    · rfl
    · intro entry member picked
      have past := pause entry member
      simp only [since, decide_eq_true_eq] at picked
      omega
  have sum : total (since position) (amounts ++ [(position, amount)]) = amount := by
    rw [total_append, total_singleton, none, Nat.zero_add,
      if_pos (show since position position = true from decide_eq_true (Nat.le_refl position))]
  have within : total (since position) amounts + amount ≤ limit := by omega
  refine ⟨?_, by omega, by omega, ?_⟩
  · intro entry member
    rcases List.mem_append.mp member with earlier | new
    · exact .inr (pause entry earlier)
    · rw [List.mem_singleton.mp new]
      exact .inl (Nat.le_refl _)
  · exact rolling_append windowed.rolling (fun entry member => .inr (pause entry member)) within

end Windowed

end SpendWindow
