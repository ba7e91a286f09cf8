import IronDag.Lib.Collections
import IronDag.Lib.Table
import IronDag.Types

namespace IronDag

/-- The times of day do not enter the next execution. -/
inductive Schedule where
  | daily
  | weekly
  | monthly
  | custom (intervalSeconds : U64)
  deriving DecidableEq, Repr

inductive RecurringTxStatus where
  | active
  | paused
  | cancelled
  | completed
  | failed
  deriving DecidableEq, Repr

structure RecurringTransaction where
  recurringTxId : Hash
  «from» : Address
  «to» : Address
  value : U128
  schedule : Schedule
  startDate : U64
  endDate : Option U64
  nextExecution : U64
  maxExecutions : Option U64
  executionCount : U64
  status : RecurringTxStatus
  lastExecution : Option U64
  lastExecutionTxHash : Option Hash
  failureCount : U64
  deriving DecidableEq, Repr

namespace RecurringTransaction

variable (recurring : RecurringTransaction)

def shouldExecute (currentTime : U64) : Bool :=
  decide (recurring.status = .active) && decide (recurring.startDate ≤ currentTime) &&
    recurring.endDate.all (fun endDate => decide (currentTime ≤ endDate)) &&
    recurring.maxExecutions.all (fun ceiling => decide (recurring.executionCount < ceiling)) &&
    decide (recurring.nextExecution ≤ currentTime)

def calculateNextExecution (currentTime : U64) : U64 :=
  match recurring.schedule with
  | .daily => currentTime + 86400
  | .weekly => currentTime + 604800
  | .monthly => currentTime + 2592000
  | .custom intervalSeconds => currentTime + intervalSeconds

def markExecuted (txHash : Hash) (currentTime : U64) : RecurringTransaction :=
  let executed := { recurring with
    executionCount := recurring.executionCount + 1
    lastExecution := some currentTime
    lastExecutionTxHash := some txHash
    nextExecution := recurring.calculateNextExecution currentTime }
  if executed.maxExecutions.any (fun ceiling => decide (ceiling ≤ executed.executionCount)) ||
      executed.endDate.any (fun endDate => decide (endDate ≤ currentTime)) then
    { executed with status := .completed }
  else
    executed

def markFailed : RecurringTransaction :=
  let counted := { recurring with failureCount := recurring.failureCount + 1 }
  if 5 ≤ counted.failureCount then { counted with status := .failed } else counted

end RecurringTransaction

/-- The recurring transactions by identifier. -/
abbrev RecurringTransactionManager := Table Hash RecurringTransaction

namespace RecurringTransactionManager

variable (manager : RecurringTransactionManager)

/-- The due transactions, in the order in which the hash map is iterated. -/
def getReadyToExecute (iteration : SetIteration Hash) (currentTime : U64) :
    List RecurringTransaction :=
  ((iteration.toList manager.keys).filterMap manager.lookup).filter fun recurring =>
    recurring.shouldExecute currentTime

/-- Changes the transaction of one identifier, if there is one. -/
def alter (id : Hash) (change : RecurringTransaction → RecurringTransaction) :
    RecurringTransactionManager :=
  match manager.lookup id with
  | some recurring => manager.insert id (change recurring)
  | none => manager

/-- No transaction of the manager is due. -/
def Idle (currentTime : U64) : Prop :=
  ∀ id recurring, manager.lookup id = some recurring → recurring.shouldExecute currentTime = false

theorem getReadyToExecute_eq_nil
    (idle : manager.Idle currentTime) : manager.getReadyToExecute iteration currentTime = [] := by
  rw [getReadyToExecute, List.filter_eq_nil_iff]
  intro recurring member
  obtain ⟨id, -, found⟩ := List.mem_filterMap.mp member
  simp [idle id recurring found]

theorem idle_of_no_keys (none : manager.keys = ∅) : manager.Idle currentTime := by
  intro id recurring found
  have listed : id ∈ manager.keys := Finmap.mem_keys.mpr (Finmap.mem_of_lookup_eq_some found)
  rw [none] at listed
  exact absurd listed (Finset.notMem_empty id)

end RecurringTransactionManager

/-- `SetHashAlgorithm`, the only action there is, with its activation height. -/
structure ScheduledAction where
  activationHeight : U64
  hashVersion : Byte
  deriving DecidableEq, Repr

structure GovernanceScheduler where
  pending : List ScheduledAction
  activeHashVersion : Byte
  deriving DecidableEq, Repr

namespace GovernanceScheduler

def new : GovernanceScheduler where
  pending := []
  activeHashVersion := 1

/-- Version zero is reserved and ignored. -/
def apply (version : Byte) (action : ScheduledAction) : Byte :=
  if action.hashVersion = 0 then version else action.hashVersion

/-- Activates, in order, the actions that are due and keeps the others. -/
def applyAtHeight (scheduler : GovernanceScheduler) (height : U64) : GovernanceScheduler where
  pending := scheduler.pending.filter fun action => !decide (action.activationHeight ≤ height)
  activeHashVersion :=
    (scheduler.pending.filter fun action => decide (action.activationHeight ≤ height)).foldl apply
      scheduler.activeHashVersion

/-- No action is due. -/
def Idle (scheduler : GovernanceScheduler) (height : U64) : Prop :=
  ∀ action ∈ scheduler.pending, ¬action.activationHeight ≤ height

theorem applyAtHeight_of_idle {scheduler : GovernanceScheduler} (idle : scheduler.Idle height) :
    scheduler.applyAtHeight height = scheduler := by
  have kept : (scheduler.pending.filter fun action => !decide (action.activationHeight ≤ height)) =
      scheduler.pending := by
    rw [List.filter_eq_self]
    intro action member
    simp [idle action member]
  have none : (scheduler.pending.filter fun action => decide (action.activationHeight ≤ height)) =
      [] := by
    rw [List.filter_eq_nil_iff]
    intro action member
    simp [idle action member]
  rw [applyAtHeight, kept, none]
  rfl

end GovernanceScheduler

end IronDag
