import IronDag.Chain.Block
import IronDag.Lib.Clock
import IronDag.Lib.Collections
import IronDag.Lib.Relocation
import IronDag.Lib.Run
import Mathlib.Data.List.Dedup

namespace IronDag

structure OrphanPool where
  orphans : Table Hash Block
  /-- The orphans from the oldest to the newest. -/
  queue : List Hash
  maxOrphans : ℕ

namespace OrphanPool

def new (maxOrphans : ℕ) : OrphanPool where
  orphans := ∅
  queue := []
  maxOrphans := maxOrphans

variable (pool : OrphanPool)

/-- Drops the oldest orphans until there is room. The loop ends with the queue. -/
def makeRoom (maxOrphans : ℕ) (orphans : Table Hash Block) : List Hash →
    Table Hash Block × List Hash
  | [] => (orphans, [])
  | oldest :: rest =>
    if maxOrphans ≤ orphans.keys.card then makeRoom maxOrphans (orphans.erase oldest) rest
    else (orphans, oldest :: rest)

/-- Besides the pool, the hashes of the parents. -/
def addOrphan (block : Block) : List Hash × OrphanPool :=
  if block.hash ∈ pool.orphans then (block.header.parentHashes, pool)
  else
    let (orphans, queue) := makeRoom pool.maxOrphans pool.orphans pool.queue
    (block.header.parentHashes,
      { pool with orphans := orphans.insert block.hash block, queue := queue ++ [block.hash] })

/-- Takes an orphan out, whether or not its parents are there. -/
def tryProcessOrphan (hash : Hash) : Option (Block × OrphanPool) :=
  (pool.orphans.lookup hash).map fun block =>
    (block, { pool with
      orphans := pool.orphans.erase hash
      queue := pool.queue.filter fun queued => queued ≠ hash })

def getOrphanHashes (iteration : SetIteration Hash) : List Hash :=
  iteration.toList pool.orphans.keys

/-- The orphans in the order they are gone through. -/
def inOrder (iteration : SetIteration Hash) : List Block :=
  (pool.getOrphanHashes iteration).filterMap pool.orphans.lookup

open List

inductive Call where
  | addOrphan (block : Block)
  | tryProcessOrphan (hash : Hash)

/-- A call, and the hashes that have been entered so far in the order of their insertion. -/
def logged : Call → OrphanPool × List Hash → OrphanPool × List Hash
  | .addOrphan block, (pool, log) =>
    ((pool.addOrphan block).2, if block.hash ∈ pool.orphans then log else log ++ [block.hash])
  | .tryProcessOrphan hash, (pool, log) =>
    (((pool.tryProcessOrphan hash).map Prod.snd).getD pool, log)

/-- The queue lists the orphans by their last insertion, and there are not too many. -/
structure Fifo (capacity : ℕ) (state : OrphanPool × List Hash) : Prop where
  maxOrphans : state.1.maxOrphans = capacity
  queue : state.1.queue = state.2.dedup.filter (· ∈ state.1.orphans)
  entered : ∀ hash ∈ state.1.orphans, hash ∈ state.2
  bound : state.1.queue.length ≤ capacity

variable {pool} {capacity : ℕ} {waiting : Table Hash Block} {key : Hash}

theorem makeRoom_of_lt (room : waiting.keys.card < capacity) : makeRoom capacity waiting line =
    (waiting, line) := by
  cases line with
  | nil => rfl
  | cons oldest rest => exact if_neg (Nat.not_le.mpr room)

namespace Fifo

variable {state : OrphanPool × List Hash} (fifo : Fifo capacity state)
include fifo

theorem nodup : state.1.queue.Nodup := fifo.queue ▸ (nodup_dedup _).filter _

theorem mem_queue : key ∈ state.1.queue ↔ key ∈ state.1.orphans := by
  rw [fifo.queue, mem_filter, mem_dedup, decide_eq_true_iff]
  exact and_iff_right_of_imp (fifo.entered key)

theorem card : state.1.orphans.keys.card = state.1.queue.length := by
  rw [← toFinset_card_of_nodup fifo.nodup]
  congr 1
  ext key
  rw [Finmap.mem_keys, mem_toFinset, fifo.mem_queue]

theorem makeRoom_of_full (positive : 1 ≤ capacity) (full : state.1.orphans.keys.card = capacity) :
    ∃ oldest rest, state.1.queue = oldest :: rest ∧
      makeRoom state.1.maxOrphans state.1.orphans state.1.queue =
        (state.1.orphans.erase oldest, rest) := by
  have long := fifo.card
  cases listed : state.1.queue with
  | nil =>
    rw [listed, full] at long
    exact absurd positive (by simp [long])
  | cons oldest rest =>
    have here : oldest ∈ state.1.orphans.keys :=
      Finmap.mem_keys.mpr (fifo.mem_queue.mp (listed ▸ mem_cons_self))
    refine ⟨oldest, rest, rfl, ?_⟩
    rw [fifo.maxOrphans, makeRoom, if_pos full.ge, makeRoom_of_lt]
    rw [Finmap.keys_erase, Finset.card_erase_of_mem here]
    omega

end Fifo

theorem filter_erase (hashes : List Hash) :
    hashes.filter (· ∈ waiting.erase key) = (hashes.filter (· ∈ waiting)).filter (· ≠ key) := by
  simp [filter_filter]

theorem dedup_concat (log : List Hash) :
    (log ++ [key]).dedup = log.dedup.filter (· ≠ key) ++ [key] := by
  induction log with
  | nil => rfl
  | cons head rest ih =>
    by_cases again : head ∈ rest
    · rw [dedup_cons_of_mem again, cons_append, dedup_cons_of_mem (mem_append_left _ again), ih]
    · rw [dedup_cons_of_notMem again, cons_append]
      by_cases same : head = key
      · rw [dedup_cons_of_mem (by simp [same]), ih, filter_cons_of_neg (by simpa)]
      · rw [dedup_cons_of_notMem (by simp [again, same]), ih,
          filter_cons_of_pos (by simpa), cons_append]

theorem Fifo.enter (fifo : Fifo capacity (pool, log)) (new : key ∉ pool.orphans)
    (kept : ∀ other ∈ waiting, other ∈ pool.orphans) (order : line = log.dedup.filter (· ∈ waiting))
    (room : line.length < capacity) :
    Fifo capacity ({ pool with orphans := waiting.insert key block, queue := line ++ [key] },
      log ++ [key]) where
  maxOrphans := fifo.maxOrphans
  queue := by
    have others : (log.dedup.filter (· ≠ key)).filter (· ∈ waiting.insert key block) =
        log.dedup.filter (· ∈ waiting) := by
      rw [filter_filter]
      apply filter_congr
      intro other _
      by_cases same : other = key
      · have absent : key ∉ waiting := fun present => new (kept _ present)
        simp [same, absent]
      · simp [same]
    rw [dedup_concat, filter_append, others, order]
    simp
  entered := by
    intro other present
    rcases Finmap.mem_insert.mp present with rfl | old
    · simp
    · exact mem_append_left _ (fifo.entered other (kept other old))
  bound := by rwa [length_append, length_singleton]

theorem Fifo.logged (positive : 1 ≤ capacity) (call : Call) (fifo : Fifo capacity state) :
    Fifo capacity (logged call state) := by
  obtain ⟨pool, log⟩ := state
  cases call with
  | addOrphan block =>
    unfold OrphanPool.logged addOrphan
    dsimp only
    split_ifs with known
    · exact fifo
    · rcases Nat.lt_or_ge pool.orphans.keys.card capacity with room | full
      · rw [makeRoom_of_lt (room.trans_eq fifo.maxOrphans.symm)]
        exact fifo.enter known (fun _ => id) fifo.queue (fifo.card ▸ room)
      · obtain ⟨oldest, rest, listed, dropped⟩ :=
          fifo.makeRoom_of_full positive (le_antisymm (fifo.card.trans_le fifo.bound) full)
        have once := fifo.nodup
        have bound := fifo.bound
        rw [listed] at once bound
        rw [dropped]
        apply fifo.enter known (fun other kept => (Finmap.mem_erase.mp kept).2) _ bound
        rw [filter_erase, ← fifo.queue, listed, filter_cons_of_neg (by simp),
          eq_comm, filter_eq_self]
        exact fun other later => decide_eq_true (ne_of_mem_of_not_mem later (nodup_cons.mp once).1)
  | tryProcessOrphan hash =>
    unfold OrphanPool.logged tryProcessOrphan
    dsimp only
    cases found : pool.orphans.lookup hash with
    | none => exact fifo
    | some block =>
      refine ⟨fifo.maxOrphans, ?_,
        fun other kept => fifo.entered other (Finmap.mem_erase.mp kept).2,
        (length_filter_le _ _).trans fifo.bound⟩
      exact (congrArg _ fifo.queue).trans (filter_erase _).symm

/-- After any calls the queue lists the orphans once each by insertion, there are not too many of
them, and a new one goes behind the others, in the place of the oldest where the pool is full. -/
theorem fifo_of_run (positive : 1 ≤ capacity) (calls : List Call) :
    let state := Run.run logged (new capacity, []) calls
    state.1.queue.Nodup ∧ (∀ hash, hash ∈ state.1.queue ↔ hash ∈ state.1.orphans) ∧
      state.1.queue = state.2.dedup.filter (· ∈ state.1.orphans) ∧
      state.1.orphans.keys.card ≤ capacity ∧
      ∀ block, block.hash ∉ state.1.orphans →
        (state.1.orphans.keys.card < capacity → (state.1.addOrphan block).2 =
          { state.1 with
            orphans := state.1.orphans.insert block.hash block
            queue := state.1.queue ++ [block.hash] }) ∧
        (state.1.orphans.keys.card = capacity →
          ∃ oldest rest, state.1.queue = oldest :: rest ∧ (state.1.addOrphan block).2 =
            { state.1 with
              orphans := (state.1.orphans.erase oldest).insert block.hash block
              queue := rest ++ [block.hash] }) := by
  have fifo : Fifo capacity (Run.run logged (new capacity, []) calls) :=
    Run.invariant_states (fun _ call fifo (_ : True) => fifo.logged positive call)
      ⟨rfl, rfl, fun _ none => (Finmap.notMem_empty none).elim, Nat.zero_le _⟩
        (fun _ _ => trivial) _ Run.run_mem_states
  refine ⟨fifo.nodup, fun hash => fifo.mem_queue, fifo.queue, fifo.card.trans_le fifo.bound, ?_⟩
  intro block unknown
  constructor
  · intro room
    rw [addOrphan, if_neg unknown, makeRoom_of_lt (room.trans_eq fifo.maxOrphans.symm)]
  · intro full
    obtain ⟨oldest, rest, listed, dropped⟩ := fifo.makeRoom_of_full positive full
    refine ⟨oldest, rest, listed, ?_⟩
    rw [addOrphan, if_neg unknown, dropped]

/-- A block that only its hash tells from others. -/
def orphanOf (hash : Hash) : Block :=
  ⟨⟨[], 1, .streamA, 0, 0, 0, 0, 1⟩, [], hash, none⟩

/-- Of two orphans in a full pool, the older one makes room for a third. -/
theorem fifo_of_run_two :
    let pool := (Run.run logged (new 2, []) [.addOrphan (orphanOf 1), .addOrphan (orphanOf 2)]).1
    pool.orphans.keys.card ≤ 2 ∧ (pool.addOrphan (orphanOf 3)).2.queue = [2, 3] := by
  have fifo := fifo_of_run (show 1 ≤ 2 by decide) [.addOrphan (orphanOf 1), .addOrphan (orphanOf 2)]
  obtain ⟨oldest, rest, listed, evicted⟩ := (fifo.2.2.2.2 (orphanOf 3) (by decide)).2 (by decide)
  have queue : oldest :: rest = [1, 2] := listed.symm
  obtain ⟨rfl, rfl⟩ := List.cons.inj queue
  exact ⟨fifo.2.2.2.1, congrArg OrphanPool.queue evicted⟩

end OrphanPool

/-- When a hash was seen. -/
abbrev SeenCache := Table Hash Instant

def maxSeen : ℕ := 10000

/-- Two hours. -/
def seenTtl : ℕ := 7200 * Instant.second

/-- A cache that is too large loses the entries of two hours ago, and if that is not enough the
oldest ones and a thousand more. -/
def evictSeenCache (iteration : SetIteration Hash) (now : Instant) (cache : SeenCache)
    (maxSize : ℕ) : SeenCache :=
  if maxSize < cache.keys.card then
    let recent := cache.retain fun _ timestamp => Instant.durationSince now timestamp < seenTtl
    if maxSize < recent.keys.card then
      let entries := (iteration.toList recent.keys).insertionSort
        (SetIteration.KeyLE fun hash => (recent.lookup hash).getD 0)
      Relocation.eraseAll recent (entries.take (recent.keys.card - maxSize + 1000))
    else recent
  else cache

/-- The hash is entered before anything else is known about what it belongs to. -/
def markSeen (iteration : SetIteration Hash) (now : Instant) (cache : SeenCache) (hash : Hash) :
    SeenCache :=
  evictSeenCache iteration now (cache.insert hash now) maxSeen

theorem mem_of_mem_evictSeenCache
    {hash : Hash} (kept : hash ∈ evictSeenCache iteration now cache maxSize) : hash ∈ cache := by
  have recent : ∀ {keep : Hash → Instant → Bool}, hash ∈ cache.retain keep → hash ∈ cache := by
    intro keep member
    obtain ⟨timestamp, found⟩ := Finmap.mem_iff.mp member
    rw [Table.lookup_retain, Option.filter_eq_some_iff] at found
    exact Finmap.mem_iff.mpr ⟨timestamp, found.1⟩
  unfold evictSeenCache at kept
  dsimp only at kept
  split at kept
  · split at kept
    · obtain ⟨timestamp, found⟩ := Finmap.mem_iff.mp kept
      rw [Relocation.lookup_eraseAll] at found
      split at found
      · cases found
      · exact recent (Finmap.mem_iff.mpr ⟨timestamp, found⟩)
    · exact recent kept
  · exact kept

theorem mem_of_mem_markSeen {marked hash : Hash}
    (kept : hash ∈ markSeen iteration now cache marked) : hash = marked ∨ hash ∈ cache := by
  simpa using mem_of_mem_evictSeenCache kept

end IronDag
