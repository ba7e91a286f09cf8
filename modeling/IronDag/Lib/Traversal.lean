import Mathlib.Data.Finset.Card

namespace Traversal

open List

universe u v

variable {α : Type u} [DecidableEq α]

/-- The nodes of `children` not seen before, each once, in order. -/
def discover (seen : List α) : List α → List α
  | [] => []
  | child :: rest =>
    if child ∈ seen then discover seen rest else child :: discover (seen ++ [child]) rest

/-- The discovery order: `seen`, then what the queue leads to. -/
def breadthFirst (children : α → List α) : Nat → List α → List α → List α
  | 0, _, seen => seen
  | _ + 1, [], seen => seen
  | fuel + 1, current :: queue, seen =>
    let fresh := discover seen (children current)
    breadthFirst children fuel (queue ++ fresh) (seen ++ fresh)

/-- The loop as it is written: pop a node, and for each of its children not visited before, mark
it, enqueue it and run `visit`. -/
def visitBreadthFirst {σ : Type v} (children : α → List α) (visit : σ → α → σ) :
    Nat → List α → List α → σ → σ
  | 0, _, _, state => state
  | _ + 1, [], _, state => state
  | fuel + 1, current :: queue, seen, state =>
    let fresh := discover seen (children current)
    visitBreadthFirst children visit fuel (queue ++ fresh) (seen ++ fresh) (fresh.foldl visit state)

/-- Every node after the first ones was found as a child of an earlier node. -/
def FoundFrom (children : α → List α) (start : List α) (order : List α) : Prop :=
  ∀ before node after, order = before ++ node :: after →
    node ∈ start ∨ ∃ parent ∈ before, node ∈ children parent

theorem mem_discover {node : α} : node ∈ discover seen children ↔ node ∈ children ∧
    node ∉ seen := by
  induction children generalizing seen with
  | nil => simp [discover]
  | cons child rest ih =>
    unfold discover
    split
    · rename_i known
      rw [ih, mem_cons]
      constructor
      · rintro ⟨member, fresh⟩
        exact ⟨.inr member, fresh⟩
      · rintro ⟨rfl | member, fresh⟩
        · exact absurd known fresh
        · exact ⟨member, fresh⟩
    · rename_i unknown
      rw [mem_cons, mem_cons, ih, mem_append, mem_singleton]
      constructor
      · rintro (rfl | ⟨member, fresh⟩)
        · exact ⟨.inl rfl, unknown⟩
        · exact ⟨.inr member, fun known => fresh (.inl known)⟩
      · rintro ⟨rfl | member, fresh⟩
        · exact .inl rfl
        · by_cases same : node = child
          · exact .inl same
          · exact .inr ⟨member, fun known => known.elim fresh same⟩

theorem nodup_append_discover {seen children : List α} (distinct : seen.Nodup) :
    (seen ++ discover seen children).Nodup := by
  induction children generalizing seen with
  | nil => simpa [discover] using distinct
  | cons child rest ih =>
    unfold discover
    split
    · exact ih distinct
    · rename_i unknown
      have extended : (seen ++ [child]).Nodup := by
        rw [nodup_append_comm]
        exact nodup_cons.mpr ⟨unknown, distinct⟩
      simpa using ih extended

theorem breadthFirst_eq_append (children : α → List α) (fuel : Nat) (queue seen : List α) :
    ∃ later, breadthFirst children fuel queue seen = seen ++ later := by
  induction fuel generalizing queue seen with
  | zero => exact ⟨[], by simp [breadthFirst]⟩
  | succ fuel ih =>
    cases queue with
    | nil => exact ⟨[], by simp [breadthFirst]⟩
    | cons current queue =>
      obtain ⟨later, found⟩ := ih (queue ++ discover seen (children current))
        (seen ++ discover seen (children current))
      exact ⟨discover seen (children current) ++ later, by simp [breadthFirst, found]⟩

/-- The visitor runs over the discovery order. -/
theorem visitBreadthFirst_eq {σ : Type v} (children : α → List α) (visit : σ → α → σ) (fuel : Nat)
    (queue seen : List α) (state : σ) :
    visitBreadthFirst children visit fuel queue seen state =
      ((breadthFirst children fuel queue seen).drop seen.length).foldl visit state := by
  induction fuel generalizing queue seen state with
  | zero => simp [visitBreadthFirst, breadthFirst]
  | succ fuel ih =>
    cases queue with
    | nil => simp [visitBreadthFirst, breadthFirst]
    | cons current queue =>
      obtain ⟨later, found⟩ := breadthFirst_eq_append children fuel
        (queue ++ discover seen (children current)) (seen ++ discover seen (children current))
      simp only [visitBreadthFirst, breadthFirst, ih, found]
      rw [drop_left, append_assoc, drop_left, foldl_append]

theorem nodup_breadthFirst {children : α → List α}
    (distinct : seen.Nodup) : (breadthFirst children fuel queue seen).Nodup := by
  induction fuel generalizing queue seen with
  | zero => exact distinct
  | succ fuel ih =>
    cases queue with
    | nil => exact distinct
    | cons current queue => exact ih (nodup_append_discover distinct)

theorem foundFrom_breadthFirst {children : α → List α} (queued : ∀ node ∈ queue, node ∈ seen)
    (found : FoundFrom children start seen) :
    FoundFrom children start (breadthFirst children fuel queue seen) := by
  induction fuel generalizing queue seen with
  | zero => exact found
  | succ fuel ih =>
    cases queue with
    | nil => exact found
    | cons current queue =>
      have current_seen := queued current (by simp)
      refine ih ?_ ?_
      · intro node member
        rcases mem_append.mp member with old | fresh
        · exact mem_append_left _ (queued node (by simp [old]))
        · exact mem_append_right _ fresh
      · intro before node after split
        rcases append_eq_append_iff.mp split with ⟨middle, rfl, tail⟩ | ⟨middle, same, tail⟩
        · have fresh : node ∈ discover seen (children current) := by
            rw [tail]
            simp
          exact .inr ⟨current, mem_append_left _ current_seen, (mem_discover.mp fresh).1⟩
        · cases middle with
          | nil =>
            have fresh : node ∈ discover seen (children current) := by
              rw [← nil_append (discover _ _), ← tail]
              simp
            rw [append_nil] at same
            exact .inr ⟨current, same ▸ current_seen, (mem_discover.mp fresh).1⟩
          | cons head rest =>
            obtain ⟨rfl, -⟩ := cons.inj tail
            exact found before node rest same

/-- With fuel for every one of finitely many nodes that `children` never leaves, the search ends
with an empty queue: more fuel changes nothing, and the result is closed under `children`. -/
theorem breadthFirst_exhausts {children : α → List α} {nodes done queue : List α}
    (stays : ∀ node ∈ nodes, ∀ child ∈ children node, child ∈ nodes)
    (fuel : Nat) (enough : nodes.length ≤ fuel + done.length)
    (distinct : (done ++ queue).Nodup) (inside : ∀ node ∈ done ++ queue, node ∈ nodes)
    (finished : ∀ node ∈ done, ∀ child ∈ children node, child ∈ done ++ queue) :
    ∃ reached, (∀ extra, breadthFirst children (fuel + extra) queue (done ++ queue) = reached) ∧
      ∀ node ∈ reached, ∀ child ∈ children node, child ∈ reached := by
  induction fuel generalizing done queue with
  | zero =>
    -- `done` already fills the node set, so nothing can be queued
    have bound := (subperm_of_subset distinct inside).length_le
    rw [length_append] at bound
    have empty : queue = [] := eq_nil_of_length_eq_zero (by omega)
    subst empty
    refine ⟨done, fun extra => ?_, by simpa using finished⟩
    cases extra <;> simp [breadthFirst]
  | succ fuel ih =>
    cases queue with
    | nil =>
      exact ⟨done, fun extra => by simp [Nat.succ_add, breadthFirst], by simpa using finished⟩
    | cons current queue =>
      have regroup : done ++ current :: queue ++
          discover (done ++ current :: queue) (children current) =
          (done ++ [current]) ++
            (queue ++ discover (done ++ current :: queue) (children current)) := by
        simp
      simp only [Nat.succ_add, breadthFirst]
      rw [regroup]
      refine ih ?_ ?_ ?_ ?_
      · simp only [length_append, length_singleton]
        omega
      · rw [← regroup]
        exact nodup_append_discover distinct
      · intro node member
        rw [← regroup] at member
        rcases mem_append.mp member with old | fresh
        · exact inside node old
        · exact stays current (inside current (by simp)) node (mem_discover.mp fresh).1
      · intro node member child isChild
        rw [← regroup]
        rcases mem_append.mp member with old | new
        · exact mem_append_left _ (finished node old child isChild)
        · obtain rfl := mem_singleton.mp new
          by_cases known : child ∈ done ++ node :: queue
          · exact mem_append_left _ known
          · exact mem_append_right _ (mem_discover.mpr ⟨isChild, known⟩)

/-- The search only depends on the children of the nodes it can reach. -/
theorem breadthFirst_congr {nodes : List α}
    (stays : ∀ node ∈ nodes, ∀ child ∈ first node, child ∈ nodes)
    (same : ∀ node ∈ nodes, first node = second node)
    (inside : ∀ node ∈ queue, node ∈ nodes) :
    breadthFirst first fuel queue seen = breadthFirst second fuel queue seen := by
  induction fuel generalizing queue seen with
  | zero => rfl
  | succ fuel ih =>
    cases queue with
    | nil => rfl
    | cons current queue =>
      have reached := inside current (by simp)
      simp only [breadthFirst]
      rw [← same current reached]
      apply ih
      intro node member
      rcases mem_append.mp member with old | fresh
      · exact inside node (by simp [old])
      · exact stays current reached node (mem_discover.mp fresh).1

/-- A search does not leave a set of nodes that has all their children. -/
theorem mem_of_mem_breadthFirst {nodes : List α}
    (stays : ∀ node ∈ nodes, ∀ child ∈ children node, child ∈ nodes)
    (queued : ∀ node ∈ queue, node ∈ nodes) (inside : ∀ node ∈ seen, node ∈ nodes) :
    ∀ node ∈ breadthFirst children fuel queue seen, node ∈ nodes := by
  induction fuel generalizing queue seen with
  | zero => exact inside
  | succ fuel ih =>
    cases queue with
    | nil => exact inside
    | cons current queue =>
      have found : ∀ node ∈ discover seen (children current), node ∈ nodes := fun node fresh =>
        stays current (queued current mem_cons_self) node (mem_discover.mp fresh).1
      refine ih ?_ ?_
      · intro node member
        rcases mem_append.mp member with old | fresh
        · exact queued node (mem_cons_of_mem _ old)
        · exact found node fresh
      · intro node member
        exact (mem_append.mp member).elim (inside node) (found node)

end Traversal
