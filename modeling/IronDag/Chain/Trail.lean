import IronDag.Chain.Frame
import IronDag.Lib.Run

namespace IronDag.Ledger

open Fallible

/-- A transaction in its turn. -/
structure Turn where
  ledger : Ledger
  encounter : Encounter
  tx : Transaction

def trail (host : Host) (block : Block) : (Nat → Encounter) → List Transaction → Ledger → List Turn
  | _, [], _ => []
  | encounters, tx :: rest, ledger =>
    ⟨ledger, encounters 0, tx⟩ ::
      trail host block (fun index => encounters (index + 1)) rest
        (finalState (applyTransaction host (encounters 0) block tx ledger))

variable {host : Host} {block : Block} {encounters : Nat → Encounter} {ledger after : Ledger}

theorem trail_map_tx (host : Host) (block : Block) (encounters : Nat → Encounter)
    (transactions : List Transaction)
    (ledger : Ledger) :
    (trail host block encounters transactions ledger).map Turn.tx = transactions := by
  induction transactions generalizing encounters ledger with
  | nil => rfl
  | cons tx rest ih => rw [trail, List.map_cons, ih]

theorem exists_encounter_of_mem_trail
    (member : turn ∈ trail host block encounters transactions ledger) :
    ∃ index, transactions[index]? = some turn.tx ∧ turn.encounter = encounters index := by
  induction transactions generalizing encounters ledger with
  | nil => cases member
  | cons tx rest ih =>
    rcases List.mem_cons.mp member with rfl | later
    · exact ⟨0, rfl, rfl⟩
    · obtain ⟨index, found, met⟩ := ih later
      exact ⟨index + 1, by simpa using found, met⟩

theorem frame_of_mem_trail (member : turn ∈ trail host block encounters transactions ledger) :
    Frame ledger turn.ledger := by
  induction transactions generalizing encounters ledger with
  | nil => cases member
  | cons tx rest ih =>
    rcases List.mem_cons.mp member with rfl | later
    · exact Frame.refl ledger
    · exact (keeps_applyTransaction (encounters 0) tx host block ledger).trans (ih later)

theorem applyTransaction_eq_ok : applyTransaction host encounter block tx ledger = .ok () after ↔
      ledger.validateInBlock host encounter block tx = .ok () ∧
        ∃ processed, processTransaction host encounter tx ledger = .ok () processed ∧
          after = (processed.recordSpentOutput tx
            block.hash block.header.blockNumber).recordSponsorSpend tx
            block.header.blockNumber := by
  rw [applyTransaction, get_bind, check_bind_eq_ok, bind_eq_ok]
  simp only [modify_run, EStateM.Result.ok.injEq, true_and]
  constructor
  · rintro ⟨valid, _, processed, done, rfl⟩
    exact ⟨valid, processed, done, rfl⟩
  · rintro ⟨valid, processed, done, rfl⟩
    exact ⟨valid, (), processed, done, rfl⟩

theorem applyTransactions_cons_eq_ok :
    applyTransactions host block encounters (tx :: rest) ledger = .ok () after ↔
      ∃ middle, applyTransaction host (encounters 0) block tx ledger = .ok () middle ∧
        applyTransactions host block (fun index => encounters (index + 1)) rest middle =
          .ok () after := by
  rw [applyTransactions, bind_eq_ok]
  exact ⟨fun ⟨_, middle, done, continued⟩ => ⟨middle, done, continued⟩,
    fun ⟨middle, done, continued⟩ => ⟨(), middle, done, continued⟩⟩

/-- In a block that is processed, each transaction is validated and processed in its turn. -/
theorem turn_of_applyTransactions
    (done : applyTransactions host block encounters transactions ledger = .ok () after)
    (member : turn ∈ trail host block encounters transactions ledger) :
    turn.ledger.validateInBlock host turn.encounter block turn.tx = .ok () ∧
      ∃ processed,
        processTransaction host turn.encounter turn.tx turn.ledger = .ok () processed := by
  induction transactions generalizing encounters ledger with
  | nil => cases member
  | cons tx rest ih =>
    obtain ⟨middle, first, continued⟩ := applyTransactions_cons_eq_ok.mp done
    rcases List.mem_cons.mp member with rfl | later
    · obtain ⟨valid, processed, processing, -⟩ := applyTransaction_eq_ok.mp first
      exact ⟨valid, processed, processing⟩
    · rw [first] at later
      exact ih continued later

theorem validateAndProcessTransactions_eq_ok :
    validateAndProcessTransactions host encounters block ledger = .ok () after ↔
      ledger.prePass host block = .ok () ∧
        ∃ applied, applyTransactions host block encounters block.transactions ledger = .ok
          () applied ∧ after = applied.pruneSpentOutputs block.header.blockNumber := by
  rw [validateAndProcessTransactions, get_bind, check_bind_eq_ok, bind_eq_ok]
  simp only [modify_run, EStateM.Result.ok.injEq, true_and]
  constructor
  · rintro ⟨passed, _, applied, done, rfl⟩
    exact ⟨passed, applied, done, rfl⟩
  · rintro ⟨passed, applied, done, rfl⟩
    exact ⟨passed, (), applied, done, rfl⟩

/-- Whether the transaction of a turn is executed: it is validated and processed. -/
def Turn.executed (host : Host) (block : Block) (turn : Turn) : Bool :=
  succeeded (applyTransaction host turn.encounter block turn.tx turn.ledger)

def Turn.outcome (host : Host) (block : Block) (turn : Turn) : Ledger :=
  finalState (applyTransaction host turn.encounter block turn.tx turn.ledger)

/-- The turns of a list of transactions, up to the first that fails. -/
def reached (host : Host) (block : Block) : (Nat → Encounter) → List Transaction →
    Ledger → List Turn
  | _, [], _ => []
  | encounters, tx :: rest, ledger =>
    ⟨ledger, encounters 0, tx⟩ ::
      match applyTransaction host (encounters 0) block tx ledger with
      | .ok _ after => reached host block (fun index => encounters (index + 1)) rest after
      | .error _ _ => []

/-- The turns of a block: none, if the pass ahead of it fails. -/
def turnsOf (host : Host) (encounters : Nat → Encounter) (block : Block) (ledger : Ledger) :
    List Turn :=
  if (ledger.prePass host block).isOk then
    reached host block encounters block.transactions ledger
  else []

theorem tx_mem_of_reached
    (member : turn ∈ reached host block encounters transactions ledger) :
    turn.tx ∈ transactions := by
  induction transactions generalizing encounters ledger with
  | nil => cases member
  | cons tx rest ih =>
    rcases List.mem_cons.mp member with rfl | later
    · exact List.mem_cons_self
    · split at later
      · exact List.mem_cons_of_mem tx (ih later)
      · cases later

/-- Where all transactions come through, each of them has its turn and is executed in it. -/
theorem reached_of_applyTransactions
    (done : applyTransactions host block encounters transactions ledger = .ok () after) :
    (reached host block encounters transactions ledger).map Turn.tx = transactions ∧
      ∀ turn ∈ reached host block encounters transactions ledger,
        turn.executed host block = true := by
  induction transactions generalizing encounters ledger with
  | nil => exact ⟨rfl, fun _ impossible => (by cases impossible)⟩
  | cons tx rest ih =>
    obtain ⟨middle, first, continued⟩ := applyTransactions_cons_eq_ok.mp done
    obtain ⟨listed, executed⟩ := ih continued
    rw [reached, first]
    refine ⟨congrArg (tx :: ·) listed, fun turn member => ?_⟩
    rcases List.mem_cons.mp member with rfl | later
    · rw [Turn.executed, first, succeeded]
    · exact executed turn later

/-- A relation between ledgers, with the turns that lead from one to the other, that can be put
together turn by turn. -/
structure Composes (related : Ledger → List Turn → Ledger → Prop) : Prop where
  refl : ∀ ledger, related ledger [] ledger
  append : ∀ {before middle after front back}, related before front middle →
    related middle back after → related before (front ++ back) after
  prune : ∀ ledger height, related ledger [] (ledger.pruneSpentOutputs height)

namespace Composes

variable (composes : Composes related)

include composes

/-- What holds across each turn holds across the transactions. -/
theorem applyTransactions (turns : ∀ turn ∈ reached host block encounters transactions ledger,
      related turn.ledger [turn] (turn.outcome host block)) :
    related ledger (reached host block encounters transactions ledger)
      (finalState (Ledger.applyTransactions host block encounters transactions ledger)) := by
  induction transactions generalizing encounters ledger with
  | nil => exact composes.refl ledger
  | cons tx rest ih =>
    rw [reached] at turns ⊢
    have first := turns _ List.mem_cons_self
    rw [Turn.outcome] at first
    rw [Ledger.applyTransactions]
    cases applying : applyTransaction host (encounters 0) block tx ledger with
    | error fault left =>
      rw [applying] at first
      rw [bind_of_error applying]
      exact first
    | ok value middle =>
      rw [applying] at first turns
      rw [bind_of_ok applying]
      exact composes.append first (ih fun turn later => turns turn (List.mem_cons_of_mem _ later))

theorem validateAndProcessTransactions (turns : ∀ turn ∈ turnsOf host encounters block ledger,
      related turn.ledger [turn] (turn.outcome host block)) :
    related ledger (turnsOf host encounters block ledger)
      (finalState (Ledger.validateAndProcessTransactions host encounters block ledger)) := by
  unfold turnsOf at turns ⊢
  rw [Ledger.validateAndProcessTransactions, get_bind]
  cases passing : ledger.prePass host block with
  | error fault => exact composes.refl ledger
  | ok passed =>
    rw [passing] at turns
    have processed := composes.applyTransactions turns
    rw [check_bind_of_ok rfl]
    cases applying : Ledger.applyTransactions host block encounters block.transactions ledger with
    | error fault left =>
      rw [applying] at processed
      rw [bind_of_error applying]
      exact processed
    | ok value applied =>
      rw [applying] at processed
      rw [bind_of_ok applying]
      have pruned := composes.append processed (composes.prune applied block.header.blockNumber)
      rwa [List.append_nil] at pruned

end Composes

end IronDag.Ledger

namespace IronDag.Blockchain

/-- The recurring payments that are due, each with the chain it meets. -/
def duePayments (chain : Blockchain) (crypto : Crypto) (conditions : Conditions) (block : Block) :
    List (Blockchain × RecurringTransaction) :=
  match chain.recurringManager with
  | none => []
  | some manager =>
    Run.visited (fun recurring chain => executeRecurring crypto block chain recurring) chain
      (manager.getReadyToExecute conditions.iteration block.header.timestamp)

end IronDag.Blockchain
