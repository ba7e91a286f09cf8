import IronDag.Lib.Run

universe u v w

/-- The tickets that a stretch has drawn, in their order, with the counters around it. -/
structure Drawn {κ : Type u} (before after : κ → ℕ) (tickets : List (κ × ℕ)) : Prop where
  forward : ∀ key, before key ≤ after key
  within : ∀ ticket ∈ tickets, before ticket.1 ≤ ticket.2 ∧ ticket.2 < after ticket.1
  ascending : tickets.Pairwise fun earlier later => earlier.1 = later.1 → earlier.2 < later.2

namespace Drawn

variable {κ : Type u} {after : κ → ℕ}

theorem none (forward : ∀ key, before key ≤ after key) : Drawn before after [] :=
  ⟨forward, by simp, List.Pairwise.nil⟩

theorem refl (counters : κ → ℕ) : Drawn counters counters [] := none fun _ => Nat.le_refl _

theorem one (forward : ∀ key, before key ≤ after key) (counted : before key < after key) :
    Drawn before after [(key, before key)] := by
  refine ⟨forward, ?_, List.pairwise_singleton _ _⟩
  intro ticket member
  rw [List.mem_singleton.mp member]
  exact ⟨Nat.le_refl _, counted⟩

theorem append (earlier : Drawn before middle first) (later : Drawn middle after second) :
    Drawn before after (first ++ second) := by
  refine ⟨fun key => Nat.le_trans (earlier.forward key) (later.forward key), ?_, ?_⟩
  · intro ticket member
    rcases List.mem_append.mp member with old | new
    · obtain ⟨low, high⟩ := earlier.within ticket old
      exact ⟨low, Nat.lt_of_lt_of_le high (later.forward ticket.1)⟩
    · obtain ⟨low, high⟩ := later.within ticket new
      exact ⟨Nat.le_trans (earlier.forward ticket.1) low, high⟩
  · refine List.pairwise_append.mpr ⟨earlier.ascending, later.ascending, ?_⟩
    intro old drawn new drawnLater same
    calc old.2 < middle old.1 := (earlier.within old drawn).2
      _ = middle new.1 := by rw [same]
      _ ≤ new.2 := (later.within new drawnLater).1

theorem nodup (drawn : Drawn before after tickets) : tickets.Nodup :=
  drawn.ascending.imp fun higher same => by
    subst same
    exact Nat.lt_irrefl _ (higher rfl)

/-- In a run whose steps are such stretches, the tickets of all steps are drawn in their order. -/
theorem of_run {σ : Type v} {ι : Type w} {step : ι → σ → σ} {counters : σ → κ → ℕ}
    {tickets : σ × ι → List (κ × ℕ)}
    {start : σ} {inputs : List ι}
    (each : ∀ entry ∈ Run.visited step start inputs,
      Drawn (counters entry.1) (counters (step entry.2 entry.1)) (tickets entry)) :
    Drawn (counters start) (counters (Run.run step start inputs))
      ((Run.visited step start inputs).flatMap tickets) := by
  induction inputs generalizing start with
  | nil => exact refl _
  | cons input rest ih =>
    exact (each _ List.mem_cons_self).append
      (ih fun entry later => each entry (List.mem_cons_of_mem _ later))

end Drawn
