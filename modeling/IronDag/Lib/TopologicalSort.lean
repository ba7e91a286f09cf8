import IronDag.Lib.Collections
import IronDag.Lib.TableValues
import Mathlib.Data.Set.Card

/-! Kahn's algorithm over elements that name others as their parents. -/

universe u v

namespace TopologicalSort

open List

variable {α : Type u} {κ : Type v} [DecidableEq κ]

/-- The orders in which the tables are iterated: while children are collected, for the first
elements of the queue, and for what is left over. -/
structure Orders (κ : Type v) where
  children : SetIteration κ
  roots : SetIteration κ
  leftovers : SetIteration κ

structure State (α : Type u) (κ : Type v) where
  byKey : Table κ α
  inDegree : Table κ ℕ
  queue : List κ
  sorted : List α

section Algorithm

variable (key : α → κ) (parents : α → List κ)

/-- A later element replaces an earlier one with its key. -/
def tableOf (elements : List α) : Table κ α :=
  elements.foldl (fun table element => table.insert (key element) element) ∅

/-- How many of its parents are in the batch, a parent named twice counted twice. -/
def batchParents (batch : Finset κ) (element : α) : ℕ :=
  (parents element).countP fun parent => decide (parent ∈ batch)

/-- The elements that name a parent, once for each time they do. -/
def childrenOf (order : SetIteration κ) (table : Table κ α) (parent : κ) : List κ :=
  (order.toList table.keys).flatMap fun child =>
    match table.lookup child with
    | none => []
    | some element => replicate ((parents element).count parent) child

/-- One parent less to wait for. An element that waits for none is queued. -/
def countDown (progress : Table κ ℕ × List κ) (child : κ) : Table κ ℕ × List κ :=
  match progress.1.lookup child with
  | none => progress
  | some degree =>
    (progress.1.insert child (degree - 1),
      if degree - 1 = 0 then progress.2 ++ [child] else progress.2)

/-- Takes elements from the queue until it is empty. No element is queued twice, so that there are
no more rounds than elements. -/
def takeQueued (children : κ → List κ) : ℕ → State α κ → State α κ
  | 0, state => state
  | fuel + 1, state =>
    match state.queue with
    | [] => state
    | next :: rest =>
      match state.byKey.lookup next with
      | none => takeQueued children fuel { state with queue := rest }
      | some element =>
        let counted := (children next).foldl countDown (state.inDegree, rest)
        takeQueued children fuel
          { byKey := state.byKey.erase next
            inDegree := counted.1
            queue := counted.2
            sorted := state.sorted ++ [element] }

def start (orders : Orders κ) (elements : List α) : State α κ :=
  let byKey := tableOf key elements
  let inDegree := byKey.mapValues (batchParents parents byKey.keys)
  { byKey
    inDegree
    queue := (orders.roots.toList inDegree.keys).filter fun found =>
      decide (inDegree.lookup found = some 0)
    sorted := [] }

def afterRounds (orders : Orders κ) (elements : List α) (rounds : ℕ) : State α κ :=
  takeQueued (childrenOf parents orders.children (tableOf key elements)) rounds
    (start key parents orders elements)

def NoUnderflow (orders : Orders κ) (elements : List α) : Prop :=
  ∀ rounds next rest front child back,
    (afterRounds key parents orders elements rounds).queue = next :: rest →
    childrenOf parents orders.children (tableOf key elements) next = front ++ child :: back →
      (front.foldl countDown
        ((afterRounds key parents orders elements rounds).inDegree, rest)).1.lookup child ≠ some 0

/-- An element of the batch names another one as its parent. -/
def Names (elements : List α) (parent child : κ) : Prop :=
  parent ∈ elements.map key ∧ ∃ element ∈ elements, key element = child ∧ parent ∈ parents element

/-- What is left in the table comes last. -/
def sort (orders : Orders κ) (elements : List α) : List α :=
  let first := start key parents orders elements
  let last := takeQueued (childrenOf parents orders.children first.byKey)
    first.byKey.keys.card first
  last.sorted ++ (orders.leftovers.toList last.byKey.keys).filterMap last.byKey.lookup

end Algorithm

variable {key : α → κ} {parents : α → List κ} {elements : List α} {table : Table κ α}

theorem tableOf_append : tableOf key (front ++ [last]) =
    (tableOf key front).insert (key last) last := by
  simp [tableOf]

theorem of_lookup_tableOf (found : (tableOf key elements).lookup name = some element) :
    element ∈ elements ∧ key element = name := by
  induction elements using reverseRecOn with
  | nil => simp [tableOf] at found
  | append_singleton front last ih =>
    rw [tableOf_append, Table.lookup_write] at found
    split at found
    · next same =>
      cases found
      exact ⟨by simp, same.symm⟩
    · exact (ih found).imp_left (mem_append_left _)

theorem mem_keys_tableOf : name ∈ (tableOf key elements).keys ↔ name ∈ elements.map key := by
  induction elements using reverseRecOn with
  | nil => simp [tableOf]
  | append_singleton front last ih =>
    rw [tableOf_append, Finmap.mem_keys, Finmap.mem_insert, ← Finmap.mem_keys, ih,
      map_append, mem_append, map_singleton, mem_singleton, or_comm]

theorem count_flatMap_replicate {children : List κ} (once : children.Nodup) {times : κ → ℕ} :
    (children.flatMap fun other => replicate (times other) other).count child =
      if child ∈ children then times child else 0 := by
  induction children with
  | nil => simp
  | cons first rest ih =>
    obtain ⟨apart, once⟩ := nodup_cons.mp once
    rw [flatMap_cons, count_append, ih once, count_replicate]
    by_cases same : first = child
    · subst same
      simp [apart]
    · simp [same, Ne.symm same]

theorem count_childrenOf (order : SetIteration κ) (parent child : κ) :
    (childrenOf parents order table parent).count child =
      (table.lookup child).elim 0 fun element => (parents element).count parent := by
  have copies : childrenOf parents order table parent =
      (order.toList table.keys).flatMap fun child =>
      replicate ((table.lookup child).elim 0 fun element => (parents element).count parent)
        child := by
    unfold childrenOf
    congr 1
    funext child
    cases table.lookup child <;> rfl
  rw [copies, count_flatMap_replicate (order.nodup _)]
  refine ite_eq_left_iff.mpr fun absent => ?_
  rw [order.mem_toList, Finmap.mem_keys, ← Finmap.lookup_eq_none] at absent
  rw [absent]
  rfl

/-- The parents in the batch that are not sorted yet. -/
def waits (parents : α → List κ) (table : Table κ α) (done : List κ) (element : α) : ℕ :=
  (parents element).countP fun parent => decide (parent ∈ table.keys ∧ parent ∉ done)

theorem waits_eq_zero :
    waits parents table done element = 0 ↔ ∀ parent ∈ parents element, parent ∈ table.keys →
      parent ∈ done := by
  unfold waits
  rw [countP_eq_zero]
  simp only [decide_eq_true_eq, not_and, not_not]

theorem waits_append {done : List κ} {next : κ} (listed : next ∈ table.keys) (new : next ∉ done)
    (element : α) :
    waits parents table done element =
      waits parents table (done ++ [next]) element + (parents element).count next := by
  unfold waits
  induction parents element with
  | nil => rfl
  | cons parent rest ih =>
    rw [countP_cons, countP_cons, ih]
    by_cases same : parent = next
    · subst same
      simp [listed, new]
      omega
    · simp [same]
      omega

/-- The degrees and the queue while some children are still to be counted down. -/
structure Counting (parents : α → List κ) (table : Table κ α) (done owed : List κ)
    (counted : Table κ ℕ × List κ) : Prop where
  inDegree : ∀ name, counted.1.lookup name =
    (table.lookup name).map fun element => waits parents table done element + owed.count name
  queue : ∀ name, name ∈ counted.2 ↔ name ∉ done ∧ counted.1.lookup name = some 0
  once : counted.2.Nodup

theorem Counting.countDown {owed : List κ}
    (counting : Counting parents table done (child :: owed) counted)
    (known : child ∈ table.keys) (new : child ∉ done) :
    Counting parents table done owed (countDown counted child) := by
  obtain ⟨element, present⟩ := Table.mem_keys_iff.mp known
  have degree := counting.inDegree child
  rw [present, Option.map_some, count_cons_self, ← Nat.add_assoc] at degree
  have unqueued : child ∉ counted.2 := by
    rw [counting.queue, degree]
    simp
  simp only [TopologicalSort.countDown, degree, Nat.add_sub_cancel]
  refine ⟨fun name => ?_, fun name => ?_, ?_⟩
  · rw [Table.lookup_write]
    by_cases same : name = child
    · rw [if_pos same, same, present]
      rfl
    · rw [if_neg same, counting.inDegree, count_cons_of_ne (Ne.symm same)]
  · rw [Table.lookup_write]
    have before := counting.queue name
    by_cases same : name = child
    · subst same
      split <;> simp_all
    · split <;> simp [same, before]
  · split
    · refine nodup_append.mpr ⟨counting.once, nodup_singleton _, ?_⟩
      rintro other old last single rfl
      exact unqueued (mem_singleton.mp single ▸ old)
    · exact counting.once

theorem Counting.foldl_countDown {front owed : List κ}
    (counting : Counting parents table done (front ++ owed) counted)
    (known : ∀ child ∈ front, child ∈ table.keys ∧ child ∉ done) :
    Counting parents table done owed (front.foldl TopologicalSort.countDown counted) := by
  induction front generalizing counted with
  | nil => exact counting
  | cons child rest ih =>
    obtain ⟨present, new⟩ := known child mem_cons_self
    exact ih (counting.countDown present new) fun other listed =>
      known other (mem_cons_of_mem _ listed)

/-- How far the sort has come. -/
structure Progress (key : α → κ) (parents : α → List κ) (table : Table κ α) (state : State α κ) :
    Prop where
  byKey : ∀ name,
    state.byKey.lookup name = if name ∈ state.sorted.map key then none else table.lookup name
  listed : ∀ element ∈ state.sorted, table.lookup (key element) = some element
  nodup : (state.sorted.map key).Nodup
  counting : Counting parents table (state.sorted.map key) [] (state.inDegree, state.queue)
  ordered : ∀ front element back, state.sorted = front ++ element :: back →
    ∀ parent ∈ parents element, parent ∈ table.keys → parent ∈ front.map key

theorem progress_start (orders : Orders κ) (elements : List α) :
    Progress key parents (tableOf key elements) (start key parents orders elements) := by
  refine ⟨by simp [start], by simp [start], nodup_nil, ⟨fun name => ?_, fun name => ?_,
    (orders.roots.nodup _).filter _⟩, by simp [start]⟩
  · have all : waits parents (tableOf key elements) [] =
        batchParents parents (tableOf key elements).keys := by
      funext element
      simp [waits, batchParents]
    simp [start, Table.lookup_mapValues, all]
  · show name ∈ filter _ _ ↔ _
    rw [mem_filter, orders.roots.mem_toList, decide_eq_true_eq]
    refine and_congr_left fun entry => iff_of_true ?_ not_mem_nil
    exact Table.mem_keys_iff.mpr ⟨0, entry⟩

section Step

variable {state : State α κ}
  (keyed : ∀ name element, table.lookup name = some element → key element = name)
  (progress : Progress key parents table state)

include progress

theorem Progress.subset : ∀ name ∈ state.sorted.map key, name ∈ table.keys := by
  intro name done
  obtain ⟨element, sorted, rfl⟩ := mem_map.mp done
  exact Table.mem_keys_iff.mpr ⟨element, progress.listed element sorted⟩

/-- A queued element waits for nothing, and its children are to be counted down. -/
theorem Progress.owing {next : κ} (order : SetIteration κ) (queued : state.queue = next :: rest) :
    ∃ element, table.lookup next = some element ∧ next ∉ state.sorted.map key ∧
      waits parents table (state.sorted.map key) element = 0 ∧
      Counting parents table (state.sorted.map key ++ [next]) (childrenOf parents order table next)
        (state.inDegree, rest) ∧
      ∀ child ∈ childrenOf parents order table next, child ∈ table.keys ∧
        child ∉ state.sorted.map key ++ [next] := by
  obtain ⟨new, degree⟩ := (progress.counting.queue next).mp (by simp [queued])
  rw [progress.counting.inDegree, Option.map_eq_some_iff] at degree
  obtain ⟨element, present, free⟩ := degree
  have listed : next ∈ table.keys := Table.mem_keys_iff.mpr ⟨element, present⟩
  have counted := @waits_append _ _ _ parents table _ next listed new
  have once := progress.counting.once
  simp only [queued, nodup_cons] at once
  refine ⟨element, present, new, free, ⟨fun name => ?_, fun name => ?_, once.2⟩,
    fun child isChild => ?_⟩
  · rw [progress.counting.inDegree, count_childrenOf]
    cases table.lookup name with
    | none => rfl
    | some other => simp [counted other]
  · have before := progress.counting.queue name
    simp only [queued, mem_cons] at before
    rw [mem_append, mem_singleton, not_or, and_right_comm, ← before]
    constructor
    · exact fun waiting => ⟨.inr waiting, fun same => once.1 (same ▸ waiting)⟩
    · exact fun ⟨either, other⟩ => either.resolve_left other
  · -- a child names the element that is taken, which no sorted element does
    rw [← count_pos_iff, count_childrenOf] at isChild
    cases found : table.lookup child with
    | none => simp [found] at isChild
    | some other =>
      have names : next ∈ parents other := by simpa [found] using isChild
      refine ⟨Table.mem_keys_iff.mpr ⟨other, found⟩, ?_⟩
      rw [mem_append, mem_singleton, not_or]
      constructor
      · intro done
        obtain ⟨sorted, member, rfl⟩ := mem_map.mp done
        obtain rfl := Option.some.inj ((progress.listed sorted member).symm.trans found)
        obtain ⟨front, back, split⟩ := append_of_mem member
        have early := progress.ordered front sorted back split next names listed
        exact new (by rw [split, map_append]; exact mem_append_left _ early)
      · rintro rfl
        obtain rfl := Option.some.inj (present.symm.trans found)
        exact new (waits_eq_zero.mp free child names listed)

theorem Progress.noUnderflow {next child : κ} {front back : List κ} (order : SetIteration κ)
    (queued : state.queue = next :: rest)
    (split : childrenOf parents order table next = front ++ child :: back) :
    (front.foldl countDown (state.inDegree, rest)).1.lookup child ≠ some 0 := by
  obtain ⟨element, -, -, -, owing, known⟩ := progress.owing order queued
  rw [split] at owing known
  have counting := owing.foldl_countDown fun other listed => known other (mem_append_left _ listed)
  rw [counting.inDegree, count_cons_self]
  simp

include keyed

/-- A queued element is in the table, and the sort goes on with it. -/
theorem Progress.step {next : κ} (order : SetIteration κ) (queued : state.queue = next :: rest) :
    ∃ element, state.byKey.lookup next = some element ∧ Progress key parents table
        { byKey := state.byKey.erase next
          inDegree := ((childrenOf parents order table next).foldl countDown
            (state.inDegree, rest)).1
          queue := ((childrenOf parents order table next).foldl countDown (state.inDegree, rest)).2
          sorted := state.sorted ++ [element] } := by
  obtain ⟨element, present, new, free, owing, known⟩ := progress.owing order queued
  obtain rfl := keyed next element present
  refine ⟨element, by rw [progress.byKey, if_neg new, present], ?_⟩
  constructor
  · intro name
    rw [Table.lookup_remove, progress.byKey, map_append, map_singleton]
    by_cases same : name = key element <;> simp [same]
  · intro other listed
    rcases mem_append.mp listed with old | last
    · exact progress.listed other old
    · exact mem_singleton.mp last ▸ present
  · rw [map_append, nodup_append]
    refine ⟨progress.nodup, nodup_singleton _, ?_⟩
    rintro other old last single rfl
    exact new (mem_singleton.mp single ▸ old)
  · rw [map_append]
    exact Counting.foldl_countDown (by rwa [append_nil]) known
  · intro front other back split parent named listed
    rcases eq_nil_or_concat back with rfl | ⟨others, last, rfl⟩
    · obtain ⟨rfl, same⟩ := append_inj' split rfl
      cases same
      exact waits_eq_zero.mp free parent named listed
    · have shape :
          state.sorted ++ [element] = (front ++ other :: others) ++ [last] := by simpa using split
      obtain ⟨early, -⟩ := append_inj' shape rfl
      exact progress.ordered front other others early parent named listed

/-- The loop ends with an empty queue once there have been enough rounds. -/
theorem Progress.takeQueued (order : SetIteration κ) (fuel : ℕ) :
    Progress key parents table (takeQueued (childrenOf parents order table) fuel state) ∧
      (table.keys.card ≤ fuel + state.sorted.length →
        (TopologicalSort.takeQueued (childrenOf parents order table) fuel state).queue = []) := by
  induction fuel generalizing state with
  | zero =>
    refine ⟨progress, fun enough => ?_⟩
    have all : (state.sorted.map key).toFinset = table.keys :=
      Finset.eq_of_subset_of_card_le (fun name done => progress.subset name (mem_toFinset.mp done))
        (by rw [toFinset_card_of_nodup progress.nodup, length_map]; omega)
    rw [eq_nil_iff_forall_not_mem]
    intro name queued
    obtain ⟨new, degree⟩ := (progress.counting.queue name).mp queued
    rw [progress.counting.inDegree, Option.map_eq_some_iff] at degree
    obtain ⟨element, present, -⟩ := degree
    rw [← mem_toFinset, all] at new
    exact new (Table.mem_keys_iff.mpr ⟨element, present⟩)
  | succ fuel ih =>
    unfold TopologicalSort.takeQueued
    cases queued : state.queue with
    | nil => exact ⟨progress, fun _ => queued⟩
    | cons next rest =>
      obtain ⟨element, found, further⟩ := progress.step keyed order queued
      simp only [found]
      refine (ih further).imp_right fun empty enough => empty ?_
      simp only [length_append, length_singleton]
      omega

end Step

/-- Where parents have a lower rank, an empty queue means that all elements are sorted. -/
theorem Progress.mem_sorted (progress : Progress key parents table state) (rank : α → ℕ)
    (descends : ∀ child element, table.lookup child = some element →
      ∀ parent other, table.lookup parent = some other →
      parent ∈ parents element → rank other < rank element) (empty : state.queue = []) :
    ∀ name element, table.lookup name = some element → name ∈ state.sorted.map key := by
  intro name element
  induction measured : rank element using Nat.strong_induction_on generalizing name element with
  | _ height ih =>
    intro present
    by_contra unsorted
    have free : waits parents table (state.sorted.map key) element = 0 := by
      refine waits_eq_zero.mpr fun parent named listed => ?_
      obtain ⟨other, found⟩ := Table.mem_keys_iff.mp listed
      exact ih _ (measured ▸ descends name element present parent other found named) parent
        other rfl found
    have queued : name ∈ state.queue := by
      rw [progress.counting.queue, progress.counting.inDegree, present]
      exact ⟨unsorted, congrArg some free⟩
    rw [empty] at queued
    cases queued

theorem progress_afterRounds (orders : Orders κ) (elements : List α) (rounds : ℕ) :
    Progress key parents (tableOf key elements) (afterRounds key parents orders elements rounds) ∧
      ((tableOf key elements).keys.card ≤ rounds →
        (afterRounds key parents orders elements rounds).queue = []) := by
  obtain ⟨progress, ends⟩ := (progress_start orders elements).takeQueued
    (fun _ _ found => (of_lookup_tableOf found).2) orders.children rounds
  exact ⟨progress, fun enough => ends enough⟩

theorem mem_of_mem_sort (listed : element ∈ sort key parents orders elements) :
    element ∈ elements := by
  have progress :=
    (@progress_afterRounds _ _ _ key parents orders elements (tableOf key elements).keys.card).1
  rcases mem_append.mp listed with sorted | left
  · exact (of_lookup_tableOf (progress.listed element sorted)).1
  · obtain ⟨name, -, present⟩ := mem_filterMap.mp left
    have entry := (progress.byKey name).symm.trans present
    split at entry
    · cases entry
    · exact (of_lookup_tableOf entry).1

/-- Every key comes once, and after its parents. -/
theorem sort_spec (orders : Orders κ) (rank : α → ℕ)
    (descends : ∀ element ∈ elements, ∀ parent ∈ elements, key parent ∈ parents element →
      rank parent < rank element) :
    ((sort key parents orders elements).map key).Nodup ∧
      (∀ name, name ∈ (sort key parents orders elements).map key ↔ name ∈ elements.map key) ∧
      ∀ front element back, sort key parents orders elements = front ++ element :: back →
        ∀ parent ∈ parents element, parent ∈ elements.map key → parent ∈ front.map key := by
  obtain ⟨progress, ends⟩ :=
    @progress_afterRounds _ _ _ key parents orders elements (tableOf key elements).keys.card
  have all : ∀ name ∈ (tableOf key elements).keys, name ∈ (afterRounds key parents orders elements
      (tableOf key elements).keys.card).sorted.map key := by
    intro name listed
    obtain ⟨element, present⟩ := Table.mem_keys_iff.mp listed
    refine progress.mem_sorted rank (fun child element found parent other also named => ?_)
      (ends le_rfl) name element present
    obtain ⟨member, rfl⟩ := of_lookup_tableOf also
    exact descends element (of_lookup_tableOf found).1 other member named
  have sorted : sort key parents orders elements =
      (afterRounds key parents orders elements (tableOf key elements).keys.card).sorted := by
    have nothing : ∀ left : State α κ, left.byKey = ∅ →
        left.sorted ++ (orders.leftovers.toList left.byKey.keys).filterMap left.byKey.lookup =
          left.sorted := by
      intro left none
      simp [none]
    refine nothing _ (Finmap.ext_lookup fun name => (progress.byKey name).trans ?_)
    refine ite_eq_left_iff.mpr fun unsorted => Finmap.lookup_eq_none.mpr fun present => unsorted ?_
    exact all name (Finmap.mem_keys.mpr present)
  rw [sorted]
  refine ⟨progress.nodup, fun name => ⟨fun done => mem_keys_tableOf.mp (progress.subset name done),
    fun listed => all name (mem_keys_tableOf.mpr listed)⟩,
      fun front element back split parent named listed => ?_⟩
  exact progress.ordered front element back split parent named (mem_keys_tableOf.mpr listed)

omit [DecidableEq κ] in
/-- An element has more ancestors than its parents have. -/
theorem exists_rank
    (acyclic : ∀ found, ¬Relation.TransGen (Names key parents elements) found found) :
    ∃ rank : κ → ℕ, ∀ parent child, Names key parents elements parent child →
      rank parent < rank child := by
  refine ⟨fun child => {found | found ∈ elements.map key ∧
    Relation.TransGen (Names key parents elements) found child}.ncard, fun parent child names => ?_⟩
  refine Set.ncard_lt_ncard ?_ ((elements.map key).finite_toSet.subset fun _ earlier => earlier.1)
  refine LE.le.ssubset_of_mem_notMem (fun found earlier => ?_) ⟨names.1, .single names⟩
    fun own => acyclic parent own.2
  exact ⟨earlier.1, earlier.2.tail names⟩

/-- Elements may share a key: the last one of each key is sorted. -/
theorem sort_acyclic (orders : Orders κ) (elements : List α)
    (acyclic : ∀ found, ¬Relation.TransGen (Names key parents elements) found found) :
    NoUnderflow key parents orders elements ∧
      (∃ rounds, (afterRounds key parents orders elements rounds).queue = []) ∧
      sort key parents orders elements ⊆ elements ∧
      ((sort key parents orders elements).map key).Nodup ∧
      (∀ found, found ∈ (sort key parents orders elements).map key ↔ found ∈ elements.map key) ∧
      ∀ front element back, sort key parents orders elements = front ++ element :: back →
        ∀ parent ∈ parents element, parent ∈ elements.map key → parent ∈ front.map key := by
  obtain ⟨rank, smaller⟩ := exists_rank acyclic
  have progress := @progress_afterRounds _ _ _ key parents orders elements
  refine ⟨fun rounds next rest front child back queued split => ?_, ⟨_, (progress _).2 le_rfl⟩,
    fun element => mem_of_mem_sort, sort_spec orders (fun element => rank (key element)) ?_⟩
  · exact (progress rounds).1.noUnderflow orders.children queued split
  · exact fun element member parent present named =>
      smaller _ _ ⟨mem_map_of_mem present, element, member, rfl, named⟩

end TopologicalSort
