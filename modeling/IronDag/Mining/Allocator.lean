import Mathlib.Data.List.MinMax
import IronDag.Lib.Clock
import IronDag.Lib.Run
import IronDag.Lib.Table
import IronDag.Types

namespace IronDag

open List Finmap Run

structure BlockNumberAllocator where
  nextAvailable : U64
  /-- The stream of each reservation and when it was made. -/
  pendingReservations : Table U64 (StreamType × Instant)
  failedReservations : U64
  /-- A heap that gives its least number first. -/
  freeList : List U64

namespace BlockNumberAllocator

def new (startingBlock : U64) : BlockNumberAllocator where
  nextAvailable := startingBlock
  pendingReservations := ∅
  failedReservations := 0
  freeList := []

def setNextAvailable (allocator : BlockNumberAllocator) (n : U64) : BlockNumberAllocator :=
  { allocator with nextAvailable := n }

def clearFreeList (allocator : BlockNumberAllocator) : BlockNumberAllocator :=
  { allocator with freeList := [] }

def clearPending (allocator : BlockNumberAllocator) : BlockNumberAllocator :=
  { allocator with pendingReservations := ∅ }

def resetTo (allocator : BlockNumberAllocator) (n : U64) : BlockNumberAllocator :=
  ((allocator.setNextAvailable n).clearFreeList).clearPending

/-- The first access of `reserve`, to the numbers that were given back. -/
def popRecycled (allocator : BlockNumberAllocator) : Option U64 × BlockNumberAllocator :=
  match allocator.freeList.argmin BitVec.toNat with
  | some number => (some number, { allocator with freeList := allocator.freeList.erase number })
  | none => (none, allocator)

/-- The second access of `reserve`, which records the recycled number or the next one. -/
def allot (allocator : BlockNumberAllocator) (recycled : Option U64) (streamType : StreamType)
    (now : Instant) : U64 × BlockNumberAllocator :=
  match recycled with
  | some number =>
    (number,
      { allocator with pendingReservations :=
        allocator.pendingReservations.insert number (streamType, now) })
  | none =>
    (allocator.nextAvailable,
      { allocator with
          nextAvailable := allocator.nextAvailable + 1
          pendingReservations :=
            allocator.pendingReservations.insert allocator.nextAvailable (streamType, now) })

def reserve (allocator : BlockNumberAllocator) (streamType : StreamType) (now : Instant) :
    U64 × BlockNumberAllocator :=
  let (recycled, rest) := allocator.popRecycled
  rest.allot recycled streamType now

def confirm (allocator : BlockNumberAllocator) (blockNumber : U64) :
    Except String BlockNumberAllocator :=
  if blockNumber ∈ allocator.pendingReservations then
    .ok { allocator with pendingReservations := allocator.pendingReservations.erase blockNumber }
  else .error s!"Block number {blockNumber.toNat} was not reserved or already confirmed"

/-- The number of a failed block is abandoned, not put on the free list. -/
def release (allocator : BlockNumberAllocator) (blockNumber : U64) (_streamType : StreamType) :
    BlockNumberAllocator :=
  if blockNumber ∈ allocator.pendingReservations then
    { allocator with
        pendingReservations := allocator.pendingReservations.erase blockNumber
        failedReservations := allocator.failedReservations + 1 }
  else allocator

def reservationTimeout : ℕ := 300 * Instant.second

def isStale (now : Instant) (reservation : StreamType × Instant) : Bool :=
  reservationTimeout < Instant.durationSince now reservation.2

def cleanupStaleReservations (allocator : BlockNumberAllocator) (now : Instant) :
    Finset U64 × BlockNumberAllocator :=
  ((allocator.pendingReservations.retain fun _ => isStale now).keys,
    { allocator with
        pendingReservations := allocator.pendingReservations.retain fun _ reservation =>
          !isStale now reservation })

/-- What the background task does at each tick. -/
def periodicCleanup (allocator : BlockNumberAllocator) (now : Instant) : BlockNumberAllocator :=
  let (stale, rest) := allocator.cleanupStaleReservations now
  if 0 < stale.card then
    { rest with failedReservations := rest.failedReservations + BitVec.ofNat 64 stale.card }
  else allocator

theorem mem_of_mem_cleanup {allocator : BlockNumberAllocator}
    (kept : number ∈ (allocator.cleanupStaleReservations now).2.pendingReservations) :
    number ∈ allocator.pendingReservations := by
  obtain ⟨reservation, read⟩ := mem_iff.mp kept
  rw [cleanupStaleReservations, Table.lookup_retain, Option.filter_eq_some_iff] at read
  exact mem_iff.mpr ⟨reservation, read.1⟩

end BlockNumberAllocator

/-- The accesses that the operations on the allocator are made of. -/
inductive Access where
  | popRecycled (streamType : StreamType)
  | allot (streamType : StreamType) (now : Instant)
  | confirm (blockNumber : U64)
  | release (blockNumber : U64) (streamType : StreamType)
  | cleanupStaleReservations (now : Instant)
  | periodicCleanup (now : Instant)
  | setNextAvailable (n : U64)
  | clearFreeList
  | clearPending

/-- The allocator among its users. A stream between the two accesses of `reserve` has what the first
one gave it. -/
structure Reservations where
  allocator : BlockNumberAllocator
  underway : StreamType → Option (Option U64)
  /-- The numbers of the reservations that have not ended, one for each call of `reserve`. -/
  live : List U64
  /-- The numbers for which `confirm` has returned success, one for each such call. -/
  confirmed : List U64

namespace Reservations

def start (startingBlock : U64) : Reservations where
  allocator := .new startingBlock
  underway := fun _ => none
  live := []
  confirmed := []

/-- The reservations without a record in `allocator` have ended. -/
def settle (state : Reservations) (allocator : BlockNumberAllocator) : Reservations :=
  { state with
      allocator := allocator
      live := state.live.filter fun number => number ∈ allocator.pendingReservations }

def popRecycled (state : Reservations) (streamType : StreamType) : Reservations :=
  match state.underway streamType with
  -- A stream makes one reservation at a time.
  | some _ => state
  | none =>
    { state with
        allocator := state.allocator.popRecycled.2
        underway := Function.update state.underway streamType (some state.allocator.popRecycled.1) }

def allot (state : Reservations) (streamType : StreamType) (now : Instant) : Reservations :=
  match state.underway streamType with
  | none => state
  | some recycled =>
    { state with
        allocator := (state.allocator.allot recycled streamType now).2
        underway := Function.update state.underway streamType none
        live := (state.allocator.allot recycled streamType now).1 :: state.live }

def confirm (state : Reservations) (blockNumber : U64) : Reservations :=
  match state.allocator.confirm blockNumber with
  | .ok allocator => { state.settle allocator with confirmed := blockNumber :: state.confirmed }
  | .error _ => state

def apply (access : Access) (state : Reservations) : Reservations :=
  match access with
  | .popRecycled streamType => state.popRecycled streamType
  | .allot streamType now => state.allot streamType now
  | .confirm blockNumber => state.confirm blockNumber
  | .release blockNumber streamType => state.settle (state.allocator.release blockNumber streamType)
  | .cleanupStaleReservations now => state.settle (state.allocator.cleanupStaleReservations now).2
  | .periodicCleanup now => state.settle (state.allocator.periodicCleanup now)
  | .setNextAvailable n => { state with allocator := state.allocator.setNextAvailable n }
  | .clearFreeList => { state with allocator := state.allocator.clearFreeList }
  | .clearPending => state.settle state.allocator.clearPending

/-- A call of `reserve` that nothing interrupts. -/
theorem run_reserve {state : Reservations} {streamType : StreamType} {now : Instant}
    (idle : state.underway streamType = none) :
    run apply state [.popRecycled streamType, .allot streamType now] =
      { state with
          allocator := (state.allocator.reserve streamType now).2
          live := (state.allocator.reserve streamType now).1 :: state.live } := by
  rw [run_cons, run_cons]
  simp only [apply, popRecycled, idle, allot, Function.update_self, Function.update_idem]
  rw [← idle, Function.update_eq_self]
  rfl

theorem run_resetTo {state : Reservations} : run apply state
    [.setNextAvailable n, .clearFreeList, .clearPending] =
      state.settle (state.allocator.resetTo n) := rfl

/-- No number is held twice or confirmed twice, and none is held after it was confirmed. -/
structure Exclusive (live confirmed : List U64) : Prop where
  heldOnce : live.Nodup
  confirmedOnce : confirmed.Nodup
  apart : ∀ number ∈ confirmed, number ∉ live

/-- The counter is set past every number that is reserved or confirmed, and counts on only where it
does not wrap. -/
def Ascending (state : Reservations) : Access → Prop
  | .setNextAvailable n =>
    (∀ number ∈ state.allocator.pendingReservations.keys, number < n) ∧
      ∀ number ∈ state.confirmed, number < n
  | .allot _ _ => state.allocator.nextAvailable.toNat + 1 < 2 ^ 64
  | _ => True

instance (state : Reservations) : (access : Access) → Decidable (state.Ascending access)
  | .setNextAvailable _ =>
    -- The quantifiers range over the numbers in use, not over all words.
    @instDecidableAnd _ _ Finset.decidableDforallFinset (decidableBAll _ state.confirmed)
  | .allot _ _ => inferInstanceAs (Decidable (_ < _))
  | .popRecycled _ | .confirm _ | .release _ _ | .cleanupStaleReservations _
  | .periodicCleanup _ | .clearFreeList | .clearPending => inferInstanceAs (Decidable True)

/-- What the accesses keep: the reservations that live are the recorded ones, the counter is past
every number given out, and no number is given back. -/
structure Ordered (state : Reservations) : Prop where
  exclusive : Exclusive state.live state.confirmed
  recorded : ∀ number, number ∈ state.live ↔ number ∈ state.allocator.pendingReservations
  below : ∀ number, number ∈ state.live ∨ number ∈ state.confirmed →
    number < state.allocator.nextAvailable
  freeList : state.allocator.freeList = []
  underway : ∀ streamType recycled, state.underway streamType = some recycled → recycled = none

variable {state : Reservations}

theorem Ordered.start (startingBlock : U64) : (start startingBlock).Ordered where
  exclusive := ⟨nodup_nil, nodup_nil, by simp [Reservations.start]⟩
  recorded := fun _ => ⟨fun held => absurd held not_mem_nil, fun kept => absurd kept notMem_empty⟩
  below := by simp [Reservations.start]
  freeList := rfl
  underway := by simp [Reservations.start]

namespace Ordered

variable (ordered : state.Ordered)

include ordered

theorem settle {allocator : BlockNumberAllocator}
    (removed : ∀ number, number ∈ allocator.pendingReservations →
      number ∈ state.allocator.pendingReservations)
    (next : allocator.nextAvailable = state.allocator.nextAvailable)
    (freeList : allocator.freeList = []) :
    (state.settle allocator).Ordered where
  exclusive :=
    { heldOnce := ordered.exclusive.heldOnce.filter _
      confirmedOnce := ordered.exclusive.confirmedOnce
      apart := fun number known held =>
        ordered.exclusive.apart number known (mem_filter.mp held).1 }
  recorded := by
    intro number
    constructor
    · intro held
      exact of_decide_eq_true (mem_filter.mp held).2
    · intro kept
      exact mem_filter.mpr
        ⟨(ordered.recorded number).mpr (removed number kept), decide_eq_true kept⟩
  below := by
    intro number used
    rw [Reservations.settle, next]
    exact ordered.below number (used.imp_left fun held => (mem_filter.mp held).1)
  freeList := freeList
  underway := ordered.underway

theorem popRecycled (streamType : StreamType) : (state.popRecycled streamType).Ordered := by
  unfold Reservations.popRecycled
  split
  · exact ordered
  · have nothing : state.allocator.popRecycled = (none, state.allocator) := by
      rw [BlockNumberAllocator.popRecycled, ordered.freeList]
      rfl
    rw [nothing]
    refine ⟨ordered.exclusive, ordered.recorded, ordered.below, ordered.freeList, ?_⟩
    intro other recycled given
    by_cases same : other = streamType
    · subst same
      simpa using given.symm
    · exact ordered.underway other recycled (by simpa [same] using given)

theorem allot (streamType : StreamType) (now : Instant)
    (room : state.allocator.nextAvailable.toNat + 1 < 2 ^ 64) :
    (state.allot streamType now).Ordered := by
  unfold Reservations.allot
  split
  · exact ordered
  · rename_i recycled waiting
    obtain rfl := ordered.underway streamType recycled waiting
    have counted : state.allocator.nextAvailable < state.allocator.nextAvailable + 1 := by
      rw [BitVec.lt_def, BitVec.toNat_add, Nat.mod_eq_of_lt (by simpa using room)]
      simp
    have fresh : ∀ number, number ∈ state.live ∨ number ∈ state.confirmed →
        number ≠ state.allocator.nextAvailable :=
      fun number used same => BitVec.lt_irrefl _ (same ▸ ordered.below number used)
    refine ⟨⟨?_, ordered.exclusive.confirmedOnce, ?_⟩, ?_, ?_, ordered.freeList, ?_⟩
    · exact nodup_cons.mpr ⟨fun held => fresh _ (.inl held) rfl, ordered.exclusive.heldOnce⟩
    · intro number known held
      rcases mem_cons.mp held with same | earlier
      · exact fresh number (.inr known) same
      · exact ordered.exclusive.apart number known earlier
    · intro number
      change number ∈ state.allocator.nextAvailable :: state.live ↔
        number ∈ state.allocator.pendingReservations.insert state.allocator.nextAvailable
          (streamType, now)
      rw [mem_cons, mem_insert, ordered.recorded]
    · intro number used
      rcases used with held | known
      · rcases mem_cons.mp held with rfl | earlier
        · exact counted
        · exact BitVec.lt_trans (ordered.below number (.inl earlier)) counted
      · exact BitVec.lt_trans (ordered.below number (.inr known)) counted
    · intro other recycled given
      by_cases same : other = streamType
      · subst same
        simp at given
      · exact ordered.underway other recycled (by simpa [same] using given)

theorem confirm (blockNumber : U64) : (state.confirm blockNumber).Ordered := by
  unfold Reservations.confirm BlockNumberAllocator.confirm
  by_cases pending : blockNumber ∈ state.allocator.pendingReservations
  · have held : blockNumber ∈ state.live := (ordered.recorded blockNumber).mpr pending
    have settled := @settle _ ordered { state.allocator with
        pendingReservations := state.allocator.pendingReservations.erase blockNumber }
      (fun number kept => (mem_erase.mp kept).2) rfl ordered.freeList
    rw [if_pos pending]
    refine ⟨⟨settled.exclusive.heldOnce, ?_, ?_⟩, settled.recorded, ?_,
      settled.freeList, settled.underway⟩
    · exact nodup_cons.mpr
        ⟨fun known => ordered.exclusive.apart blockNumber known held,
          ordered.exclusive.confirmedOnce⟩
    · intro number known live
      rcases mem_cons.mp known with rfl | earlier
      · exact (mem_erase.mp ((settled.recorded number).mp live)).1 rfl
      · exact settled.exclusive.apart number earlier live
    · intro number used
      rcases used with live | known
      · exact settled.below number (.inl live)
      · rcases mem_cons.mp known with rfl | earlier
        · exact ordered.below number (.inl held)
        · exact ordered.below number (.inr earlier)
  · rw [if_neg pending]
    exact ordered

theorem release (blockNumber : U64) (streamType : StreamType) :
    (state.settle (state.allocator.release blockNumber streamType)).Ordered := by
  unfold BlockNumberAllocator.release
  split
  · exact ordered.settle (fun _ kept => (mem_erase.mp kept).2) rfl ordered.freeList
  · exact ordered.settle (fun _ kept => kept) rfl ordered.freeList

theorem cleanup (now : Instant) :
    (state.settle (state.allocator.cleanupStaleReservations now).2).Ordered :=
  ordered.settle (fun _ kept => BlockNumberAllocator.mem_of_mem_cleanup kept) rfl ordered.freeList

theorem periodicCleanup (now : Instant) :
    (state.settle (state.allocator.periodicCleanup now)).Ordered := by
  unfold BlockNumberAllocator.periodicCleanup
  dsimp only
  split
  · exact ordered.settle (fun _ kept => BlockNumberAllocator.mem_of_mem_cleanup kept) rfl
      ordered.freeList
  · exact ordered.settle (fun _ kept => kept) rfl ordered.freeList

theorem setNextAvailable (past : state.Ascending (.setNextAvailable n)) :
    { state with allocator := state.allocator.setNextAvailable n }.Ordered := by
  refine ⟨ordered.exclusive, ordered.recorded, ?_, ordered.freeList, ordered.underway⟩
  intro number used
  rcases used with held | known
  · exact past.1 number (mem_keys.mpr ((ordered.recorded number).mp held))
  · exact past.2 number known

theorem apply (ascending : state.Ascending access) : (Reservations.apply access state).Ordered := by
  cases access with
  | popRecycled streamType => exact ordered.popRecycled streamType
  | allot streamType now => exact ordered.allot streamType now ascending
  | confirm blockNumber => exact ordered.confirm blockNumber
  | release blockNumber streamType => exact ordered.release blockNumber streamType
  | cleanupStaleReservations now => exact ordered.cleanup now
  | periodicCleanup now => exact ordered.periodicCleanup now
  | setNextAvailable n => exact ordered.setNextAvailable ascending
  | clearFreeList =>
    exact ⟨ordered.exclusive, ordered.recorded, ordered.below, rfl, ordered.underway⟩
  | clearPending =>
    exact ordered.settle (fun _ kept => absurd kept notMem_empty) rfl ordered.freeList

end Ordered

/-- Every interleaving in which the counter only ascends keeps the reservations exclusive. -/
theorem exclusive_of_run (startingBlock : U64) (accesses : List Access)
    (ascending : ∀ entry ∈ visited apply (start startingBlock) accesses,
      entry.1.Ascending entry.2) :
    ∀ state ∈ states apply (start startingBlock) accesses,
      Exclusive state.live state.confirmed := by
  intro state reached
  have ordered : state.Ordered :=
    @invariant_states _ _ apply (start startingBlock) accesses Ordered Ascending
      (fun _ _ kept met => kept.apply met) (Ordered.start startingBlock) ascending state reached
  exact ordered.exclusive

/-- Two streams reserve in turn, with the counter set past the first number in between; one block is
confirmed and the other released. -/
def inTurn : List Access :=
  [.popRecycled .streamA, .popRecycled .streamB, .allot .streamA 0, .setNextAvailable 12,
    .allot .streamB 1, .confirm 7, .release 12 .streamB]

theorem inTurn_exclusive : (∀ entry ∈ visited apply (start 7) inTurn, entry.1.Ascending entry.2) ∧
      ∀ state ∈ states apply (start 7) inTurn, Exclusive state.live state.confirmed := by
  have ascending : ∀ entry ∈ visited apply (start 7) inTurn,
      entry.1.Ascending entry.2 := by decide +kernel
  exact ⟨ascending, exclusive_of_run 7 inTurn ascending⟩

/-- Stream A holds 5 when the counter is reset to it, and stream B reserves. -/
def resetWhileHeld : List Access :=
  [.popRecycled .streamA, .allot .streamA 0, .setNextAvailable
    5, .popRecycled .streamB, .allot .streamB 1]

/-- The counter is set back to 5 after its block was confirmed. -/
def setBackAfterConfirm : List Access :=
  [.popRecycled .streamA, .allot .streamA 0, .confirm 5, .setNextAvailable 5, .popRecycled .streamB,
    .allot .streamB 1, .confirm 5]

/-- Both streams hold 5 in the first run, and it is confirmed for both in the second. -/
theorem reservations_shared : (run apply (start 5) resetWhileHeld).live = [5, 5] ∧
      (run apply (start 5) setBackAfterConfirm).confirmed = [5, 5] ∧
      ¬∀ startingBlock accesses, ∀ state ∈ states apply (start startingBlock) accesses,
        Exclusive state.live state.confirmed := by
  have twice : (run apply (start 5) resetWhileHeld).live = [5, 5] := by decide +kernel
  refine ⟨twice, by decide +kernel, fun always => ?_⟩
  have single := (always 5 resetWhileHeld _ run_mem_states).heldOnce
  exact absurd single (by decide)

end Reservations

end IronDag
