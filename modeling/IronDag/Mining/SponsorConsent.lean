import IronDag.Account.SponsorWindow
import IronDag.Mining.Turns

namespace IronDag

open Fallible Ledger SponsorRegistry Host SpendWindow
open List hiding after

/-- What a transfer credits to an address. -/
def Transaction.creditTo (tx : Transaction) (address : Address) : U128 :=
  if tx.to ≠ Address.zero ∧ address = tx.to then tx.value else 0

/-- A fee that a sponsor was charged, with the number of the block. -/
abbrev SponsorCharge := Address × ℕ × ℕ

/-- The fees of one sponsor, with the numbers of their blocks. -/
def feesOf (sponsor : Address) (charges : List SponsorCharge) : List (ℕ × ℕ) :=
  (charges.filter fun charge => decide (charge.1 = sponsor)).map Prod.snd

variable {sponsor : Address}

theorem feesOf_append {front back : List SponsorCharge} :
    feesOf sponsor (front ++ back) = feesOf sponsor front ++ feesOf sponsor back := by
  simp [feesOf]

namespace Ledger

variable {turn : Turn}

/-- At its execution the transaction is admitted by the policy of its sponsor, and the sponsor, not
the sender, is debited the fee. -/
structure Turn.PaidByConsent (host : Host) (block : Block) (turn : Turn) (sponsor : Address) :
    Prop where
  admitted : ∃ policy, turn.ledger.sponsorRegistry.lookup sponsor = some policy ∧
    policy.Admits turn.tx.from turn.tx.fee block.header.blockNumber
  covered : turn.tx.fee ≤ turn.ledger.getBalance sponsor
  debited : (turn.outcome host block).getBalance sponsor =
    turn.ledger.getBalance sponsor - turn.tx.fee + turn.tx.creditTo sponsor
  spared : (turn.outcome host block).getBalance turn.tx.from =
    turn.ledger.getBalance turn.tx.from - turn.tx.value + turn.tx.creditTo turn.tx.from
  others : ∀ address, address ≠ sponsor → address ≠ turn.tx.from →
    (turn.outcome host block).getBalance address =
      turn.ledger.getBalance address + turn.tx.creditTo address

/-- An ordinary transfer, sponsored by somebody else, whose fee the sponsor's window can account
for. -/
structure Turn.Accountable (host : Host) (block : Block) (earlier : List SponsorCharge)
    (turn : Turn) (sponsor : Address) : Prop where
  ordinary : isSpecial host turn.tx = false
  native : turn.ledger.executorFor turn.tx = none
  other : sponsor ≠ turn.tx.from
  pace : ∀ policy, turn.ledger.sponsorRegistry.lookup sponsor = some policy →
    policy.dailySpendLimit.isSome = true →
    policy.KeepsPace block.header.blockNumber (feesOf sponsor earlier)

/-- The charges of the executed ones among some turns. -/
def chargesIn (host : Host) (block : Block) (turns : List Turn) : List SponsorCharge :=
  turns.filterMap fun turn =>
    if turn.executed host block then
      turn.tx.sponsor.map fun sponsor =>
        (sponsor, block.header.blockNumber.toNat, turn.tx.fee.toNat)
    else
      none

theorem chargesIn_append {front back : List Turn} :
    chargesIn host block (front ++ back) =
      chargesIn host block front ++ chargesIn host block back :=
  List.filterMap_append

/-- Every sponsored transaction among the turns is accountable, given the charges before it. -/
def AccountableTurns (host : Host) (block : Block) (earlier : List SponsorCharge)
    (turns : List Turn) : Prop :=
  ∀ front turn back, turns = front ++ turn :: back → turn.executed host block = true →
    ∀ sponsor, turn.tx.sponsor = some sponsor →
      turn.Accountable host block (earlier ++ chargesIn host block front) sponsor

theorem AccountableTurns.front {front back : List Turn}
    (accountable : AccountableTurns host block earlier (front ++ back)) :
    AccountableTurns host block earlier front := by
  intro first turn rest split
  exact accountable first turn (rest ++ back) (by rw [split]; simp)

theorem AccountableTurns.back {front back : List Turn}
    (accountable : AccountableTurns host block earlier (front ++ back)) :
    AccountableTurns host block (earlier ++ chargesIn host block front) back := by
  intro first turn rest split executed sponsor named
  have met := accountable (front ++ first) turn rest (by rw [split]; simp) executed sponsor named
  rwa [chargesIn_append, ← List.append_assoc] at met

variable {ledger : Ledger}

theorem admitted_of_validateInBlock (ordinary : isSpecial host tx = false)
    (named : tx.sponsor = some sponsor)
    (valid : ledger.validateInBlock host encounter block tx = .ok ()) :
    ∃ policy, ledger.sponsorRegistry.lookup sponsor = some policy ∧
      policy.Admits tx.from tx.fee block.header.blockNumber ∧
      policy.withinDailyLimit tx.fee block.header.blockNumber = true := by
  rw [validateInBlock, Check.bind_eq_ok, Check.bind_eq_ok, ordinary, if_neg Bool.false_ne_true,
    validateTxStatefulOnly, Check.bind_eq_ok] at valid
  obtain ⟨-, -, checked, -⟩ := valid
  simp only [checkSponsorPolicy, named] at checked
  split at checked
  · next passed => exact check_eq_ok.mp passed
  · cases checked

theorem getBalance_record {tx : Transaction} {block : Block} :
    ((ledger.recordSpentOutput tx block.hash block.header.blockNumber).recordSponsorSpend tx
      block.header.blockNumber).getBalance = ledger.getBalance := by
  unfold recordSponsorSpend
  split <;> rfl

theorem getBalance_outcome (ordinary : isSpecial host turn.tx = false)
    (native : turn.ledger.executorFor turn.tx = none) (executed : turn.executed host block = true) :
    ∃ charged, turn.ledger.charge turn.tx = .ok charged ∧ ∀ address,
      (turn.outcome host block).getBalance address =
        charged.getBalance address + turn.tx.creditTo address := by
  have plain : privacyDataOf turn.tx host = none := by
    rw [isSpecial, Bool.or_eq_false_iff] at ordinary
    simpa using ordinary.2
  have done := eq_ok_of_succeeded executed
  obtain ⟨-, processed, processing, written⟩ := applyTransaction_eq_ok.mp done
  obtain ⟨-, transfer⟩ := (processTransaction_eq_ok_of_transfer plain native).mp processing
  obtain ⟨charged, paid, -, stored⟩ := processTransfer_eq_ok.mp transfer
  refine ⟨charged, paid, fun address => ?_⟩
  rw [Turn.outcome, written, getBalance_record, stored, getBalance_storeReceipt,
    transferred, getBalance_settle]
  rfl

theorem paidByConsent_of_executed (accountable : turn.Accountable host block earlier sponsor)
    (executed : turn.executed host block = true) (named : turn.tx.sponsor = some sponsor) :
    turn.PaidByConsent host block sponsor := by
  have done := eq_ok_of_succeeded executed
  obtain ⟨valid, -⟩ := applyTransaction_eq_ok.mp done
  obtain ⟨policy, registered, admits, -⟩ :=
    admitted_of_validateInBlock accountable.ordinary named valid
  obtain ⟨charged, paid, balances⟩ :=
    getBalance_outcome accountable.ordinary accountable.native executed
  have covered := (charge_eq_ok.mp paid).2
  rw [named] at covered
  refine ⟨⟨policy, registered, admits⟩, covered.1, ?_, ?_, ?_⟩
  · rw [balances, getBalance_charge_other paid accountable.other, if_pos named]
  · rw [balances, getBalance_charge_sender paid, named,
      if_neg (Option.some_ne_none sponsor), sub_zero]
  · intro address notSponsor notSender
    have other : turn.tx.sponsor ≠ some address := fun same =>
      notSponsor (Option.some.inj (same.symm.trans named))
    rw [balances, getBalance_charge_other paid notSender, if_neg other, sub_zero]

/-- The policy of the sponsor has the limit, and its window covers the charges so far. -/
def Tracked (sponsor : Address) (limit : U128) (ledger : Ledger) (charges : List SponsorCharge) :
    Prop :=
  ∃ policy, ledger.sponsorRegistry.lookup sponsor = some policy ∧
    policy.dailySpendLimit = some limit ∧ policy.Tracks limit (feesOf sponsor charges)

theorem Tracked.of_same {before after : Ledger} (tracked : before.Tracked sponsor limit earlier)
    (same : after.sponsorRegistry = before.sponsorRegistry) :
    after.Tracked sponsor limit earlier := by
  rw [Tracked, same]
  exact tracked

/-- The window of a sponsor keeps track of its charges over some turns. -/
def Accounts (host : Host) (block : Block) (sponsor : Address) (limit : U128) (before : Ledger)
    (turns : List Turn) (after : Ledger) : Prop :=
  ∀ earlier, AccountableTurns host block earlier turns → before.Tracked sponsor limit earlier →
    after.Tracked sponsor limit (earlier ++ chargesIn host block turns)

theorem accounts_of_same (same : after.sponsorRegistry = before.sponsorRegistry) :
    Accounts host block sponsor limit before [] after := by
  intro earlier _ tracked
  have none : chargesIn host block [] = [] := rfl
  rw [none, List.append_nil]
  exact tracked.of_same same

theorem sponsorRegistry_outcome_of_failed (failed : turn.executed host block = false) :
    (turn.outcome host block).sponsorRegistry = turn.ledger.sponsorRegistry := by
  unfold Turn.executed at failed
  unfold Turn.outcome
  cases validating : turn.ledger.validateInBlock host turn.encounter block turn.tx with
  | error fault =>
    rw [applyTransaction, get_bind, validating]
    rfl
  | ok valid =>
    have frame := keeps_processTransaction turn.encounter turn.tx host turn.ledger
    cases processing : processTransaction host turn.encounter turn.tx turn.ledger with
    | error fault left =>
      rw [processing] at frame
      rw [applyTransaction, get_bind, check_bind_of_ok validating, bind_of_error processing]
      exact frame.sponsorRegistry
    | ok value processed =>
      rw [applyTransaction_eq_ok.mpr ⟨validating, processed, processing, rfl⟩] at failed
      cases failed

theorem sponsorRegistry_outcome_of_executed (executed : turn.executed host block = true) :
    (turn.outcome host block).sponsorRegistry =
      match turn.tx.sponsor with
      | some sponsor =>
        turn.ledger.sponsorRegistry.recordSpend sponsor turn.tx.fee block.header.blockNumber
      | none => turn.ledger.sponsorRegistry := by
  have done := eq_ok_of_succeeded executed
  obtain ⟨-, processed, processing, written⟩ := applyTransaction_eq_ok.mp done
  have frame := keeps_processTransaction turn.encounter turn.tx host turn.ledger
  rw [processing] at frame
  have same : processed.sponsorRegistry = turn.ledger.sponsorRegistry := frame.sponsorRegistry
  rw [Turn.outcome, written, recordSponsorSpend]
  cases turn.tx.sponsor with
  | none => exact same
  | some sponsor =>
    exact congrArg (SponsorRegistry.recordSpend · sponsor turn.tx.fee block.header.blockNumber) same

theorem accounts_turn {limit : U128} :
    Accounts host block sponsor limit turn.ledger [turn] (turn.outcome host block) := by
  intro earlier accountable tracked
  cases executed : turn.executed host block with
  | false =>
    have none : chargesIn host block [turn] = [] := by simp [chargesIn, executed]
    rw [none, append_nil]
    exact tracked.of_same (sponsorRegistry_outcome_of_failed executed)
  | true =>
    have registry := sponsorRegistry_outcome_of_executed executed
    cases named : turn.tx.sponsor with
    | none =>
      have none : chargesIn host block [turn] = [] := by simp [chargesIn, named]
      rw [named] at registry
      rw [none, append_nil]
      exact tracked.of_same registry
    | some payer =>
      have charged : chargesIn host block [turn] =
          [(payer, block.header.blockNumber.toNat, turn.tx.fee.toNat)] := by
            simp [chargesIn, executed, named]
      rw [named] at registry
      obtain ⟨policy, registered, limited, tracks⟩ := tracked
      by_cases own : sponsor = payer
      · -- the sponsor itself: its window takes the fee
        subst own
        have met := accountable [] turn [] rfl executed sponsor named
        have valid := (applyTransaction_eq_ok.mp (eq_ok_of_succeeded executed)).1
        obtain ⟨same, found, -, within⟩ := admitted_of_validateInBlock met.ordinary named valid
        rw [registered, Option.some.injEq] at found
        subst found
        have pace := met.pace policy registered (by rw [limited]; rfl)
        have nothing : chargesIn host block [] = [] := rfl
        rw [nothing, append_nil] at pace
        refine ⟨policy.recordSpend turn.tx.fee block.header.blockNumber, ?_, ?_, ?_⟩
        · rw [registry, lookup_recordSpend, if_pos rfl, registered, Option.map_some]
        · rw [SponsorPolicy.dailySpendLimit_recordSpend, limited]
        · have fees : feesOf sponsor
              [(sponsor, block.header.blockNumber.toNat, turn.tx.fee.toNat)] =
              [(block.header.blockNumber.toNat, turn.tx.fee.toNat)] := by simp [feesOf]
          rw [charged, feesOf_append, fees]
          exact SponsorPolicy.tracks_recordSpend tracks limited within pace
      · -- another sponsor's window
        refine ⟨policy, ?_, limited, ?_⟩
        · rw [registry, lookup_recordSpend, if_neg own, registered]
        · have fees : feesOf sponsor [(payer, block.header.blockNumber.toNat, turn.tx.fee.toNat)] =
              [] := by
            simp [feesOf, Ne.symm own]
          rw [charged, feesOf_append, fees, append_nil]
          exact tracks

end Ledger

theorem traced_accounts {host : Host} {block : Block} {limit : U128} :
    Traced (Ledger.Accounts host block sponsor limit) where
  refl _ := accounts_of_same rfl
  append first second := by
    intro earlier accountable tracked
    rw [chargesIn_append, ← append_assoc]
    exact second _ accountable.back (first _ accountable.front tracked)
  prune ledger height := by
    apply accounts_of_same
    unfold Ledger.pruneSpentOutputs
    split <;> rfl
  commit _ _ _ := accounts_of_same rfl
  credit _ _ _ := accounts_of_same rfl

namespace Step

variable {step : Step}

/-- Every sponsored transaction that the call executes is accountable, given the charges before. -/
def Accountable (host : Host) (step : Step) (chain : Blockchain) (earlier : List SponsorCharge) :
    Prop :=
  Ledger.AccountableTurns host step.call.block earlier (step.turns host chain)

/-- What the call charges sponsors. -/
def charges (host : Host) (step : Step) (chain : Blockchain) : List SponsorCharge :=
  Ledger.chargesIn host step.call.block (step.turns host chain)

theorem tracked_apply (accountable : step.Accountable host chain earlier)
    (tracked : chain.toLedger.Tracked sponsor limit earlier) :
    (step.apply host chain).toLedger.Tracked sponsor limit
      (earlier ++ step.charges host chain) := by
  refine traced_accounts.apply (fun turn _ => ?_) (fun entry _ => ?_) earlier accountable tracked
  · exact accounts_turn
  · apply accounts_of_same
    unfold Blockchain.executeRecurring
    dsimp only
    split <;> rfl

end Step

/-- What a run charges sponsors, in its order. -/
def chargesBy (host : Host) (start : Blockchain) (steps : List Step) : List SponsorCharge :=
  (Run.visited (Step.apply host) start steps).flatMap fun entry => entry.2.charges host entry.1

theorem chargesBy_append_singleton {host : Host} {start : Blockchain} {front : List Step}
    {step : Step} : chargesBy host start (front ++ [step]) =
      chargesBy host start front ++ step.charges host (Run.run (Step.apply host) start front) := by
  unfold chargesBy
  induction front generalizing start with
  | nil => simp
  | cons first rest ih => simp [ih]

/-- In a run whose sponsored transactions are all accountable, every sponsored transaction of an
accepted block is paid by consent, and no sponsor is charged more than its daily limit within 17,280
consecutive block numbers. -/
theorem consent_of_run {host : Host} {start : Blockchain} {steps : List Step}
    (accountable : ∀ front step back, steps = front ++ step :: back →
      step.Accountable host (Run.run (Step.apply host) start front) (chargesBy host start front)) :
    (∀ entry ∈ Run.visited (Step.apply host) start steps,
      entry.2.call.block.hash ∉ entry.1.blocks.blockHashes → entry.2.ReturnsOk host entry.1 →
        ∀ (index : ℕ) tx sponsor, entry.2.call.block.transactions[index]? = some tx →
          tx.sponsor = some sponsor →
          ∃ turn, (entry.2.turns host entry.1)[index]? = some turn ∧ turn.tx = tx ∧
            turn.PaidByConsent host entry.2.call.block sponsor) ∧
      ∀ sponsor policy limit, start.sponsorRegistry.lookup sponsor = some policy →
        policy.dailySpendLimit = some limit → ∀ first,
          total (span 17280 first) (feesOf sponsor (chargesBy host start steps)) ≤ limit.toNat := by
  constructor
  · intro entry visited fresh accepted index tx sponsor listed named
    obtain ⟨front, back, split, met⟩ := Run.exists_split_of_mem_visited visited
    have fair := accountable front entry.2 back split
    rw [← met] at fair
    obtain ⟨all, executed⟩ := Step.turns_of_returnsOk fresh accepted
    rw [← all, getElem?_map, Option.map_eq_some_iff] at listed
    obtain ⟨turn, found, rfl⟩ := listed
    obtain ⟨before, after, shape⟩ := append_of_mem (mem_of_getElem? found)
    have done := executed turn (mem_of_getElem? found)
    exact ⟨turn, found, rfl,
      paidByConsent_of_executed (fair before turn after shape done sponsor named) done named⟩
  · intro sponsor policy limit registered limited first
    have tracked := Run.invariant_of_prefixes
      (fun front (chain : Blockchain) => chain.toLedger.Tracked sponsor limit
        (chargesBy host start front))
      (fun _ _ => True) ⟨policy, registered, limited, Windowed.nil⟩
      (fun front step back split _ tracked => by
        rw [chargesBy_append_singleton]
        exact Step.tracked_apply (accountable front step back split) tracked)
      (fun _ _ => trivial) steps [] (append_nil steps).symm
    obtain ⟨last, -, -, tracks⟩ := tracked
    exact tracks.rolling first

namespace Blockchain

def sponsorAddress : Address := 0x51

/-- A node without blocks, with a funded sender and a funded sponsor who pays 21000 a day for
anyone. -/
def sponsoredChain : Blockchain :=
  { Blockchain.new with
    toLedger :=
      { Ledger.new with
        accounts := ((∅ : Table Address AccountState).insert Transaction.sampleSender
          { balance := 100000, nonce := 0 }).insert sponsorAddress { balance := 100000, nonce := 0 }
        sponsorRegistry := (∅ : SponsorRegistry).insert sponsorAddress
          { active := true, allowedSenders := none, maxFeePerTx := none, expiresAtBlock := none
            dailySpendLimit := some 21000, windowStartBlock := 0, spentInWindow := 0 } } }

/-- A transfer of the sample sender at the cost of the sponsor. -/
def sponsoredTransfer (nonce : U64) : Transaction :=
  ((Transaction.new Crypto.sample Transaction.sampleSender 5 1000 21000 nonce).withSponsor
    Crypto.sample sponsorAddress).signSample

/-- A child of the genesis block with a number of its own. -/
def numberedBlock (number : U64) (transactions : List Transaction) : Block :=
  Block.new Crypto.sample
    { parentHashes := [genesisBlock.hash], blockNumber := number, streamType := .streamA,
      difficulty := 2
      timestamp := 1600000010, nonce := 0, baseFeePerGas := 1, hashVersion := 1 } transactions

/-- What has to be looked at for the only sponsored transaction of a run. -/
def sponsoredTurn (block : Block) (turn : Ledger.Turn) : Bool :=
  !Ledger.isSpecial Host.sample turn.tx && (turn.ledger.executorFor turn.tx).isNone &&
    turn.tx.sponsor.all fun sponsor =>
      decide (sponsor ≠ turn.tx.from) && (turn.ledger.sponsorRegistry.lookup sponsor).all
        fun policy =>
        decide (policy.dailySpendLimit ≠ some (BitVec.allOnes 128)) &&
          decide (policy.windowStartBlock ≤ block.header.blockNumber)

theorem accountable_of_sponsoredTurn
    (checked : sponsoredTurn block turn = true) (named : turn.tx.sponsor = some sponsor) :
    turn.Accountable sample block [] sponsor := by
  rw [sponsoredTurn, named] at checked
  simp only [Option.all_some, Bool.and_eq_true, Bool.not_eq_true', decide_eq_true_eq,
    Option.isNone_iff_eq_none] at checked
  obtain ⟨⟨ordinary, native⟩, other, policies⟩ := checked
  refine ⟨ordinary, native, other, fun policy registered _ => ?_⟩
  rw [registered, Option.all_some] at policies
  simp only [Bool.and_eq_true, decide_eq_true_eq] at policies
  exact ⟨policies.1, policies.2, fun _ entry impossible => by cases impossible⟩

/-- A call with one transaction at most, before which nothing was charged. -/
theorem accountable_of_first {step : Step} (single : (step.turns sample chain).length ≤ 1)
    (checked : (step.turns sample chain).all (sponsoredTurn step.call.block) = true) :
    step.Accountable sample chain [] := by
  intro front turn back split executed sponsor named
  rw [split] at single checked
  have alone : front = [] := eq_nil_of_length_eq_zero (by simp at single; omega)
  subst alone
  exact accountable_of_sponsoredTurn (all_eq_true.mp checked turn mem_cons_self) named

theorem sponsoredTransfer_consented :
    (Run.run (Step.apply sample) sponsoredChain
        (addGenesisAnd (childBlock 2 [sponsoredTransfer 0]))).getBalance sponsorAddress = 79000 ∧
      (∀ entry ∈ Run.visited (Step.apply sample) sponsoredChain
        (addGenesisAnd (childBlock 2 [sponsoredTransfer 0])),
        entry.2.call.block.hash ∉ entry.1.blocks.blockHashes → entry.2.ReturnsOk sample entry.1 →
          ∀ (index : ℕ) tx sponsor, entry.2.call.block.transactions[index]? = some tx →
            tx.sponsor = some sponsor →
            ∃ turn, (entry.2.turns sample entry.1)[index]? = some turn ∧ turn.tx = tx ∧
              turn.PaidByConsent sample entry.2.call.block sponsor) ∧
      ∀ sponsor policy limit, sponsoredChain.sponsorRegistry.lookup sponsor = some policy →
        policy.dailySpendLimit = some limit → ∀ first,
          total (span 17280 first) (feesOf sponsor (chargesBy sample sponsoredChain
            (addGenesisAnd (childBlock 2 [sponsoredTransfer 0])))) ≤ limit.toNat := by
  refine ⟨by decide +kernel, consent_of_run ?_⟩
  intro front step back split
  rcases front with _ | ⟨first, rest⟩
  · obtain ⟨rfl, -⟩ := cons.inj split
    exact accountable_of_first (by decide +kernel) (by decide +kernel)
  · obtain ⟨rfl, later⟩ := cons.inj split
    rcases rest with _ | ⟨second, rest⟩
    · obtain ⟨rfl, -⟩ := cons.inj later
      exact accountable_of_first (by decide +kernel) (by decide +kernel)
    · obtain ⟨-, ended⟩ := cons.inj later
      exact absurd ended (by simp)

/-- A transfer with an empty list of signatures at the cost of an account that never published a
policy. -/
def imposedTransfer : Transaction :=
  ((Transaction.new Crypto.sample Transaction.sampleSender 5 1000 21000 0).withSponsor Crypto.sample
    0x52).withMultisigSignatures Crypto.sample []

def imposedStep : Step :=
  ⟨.addBlock (childBlock 2 [imposedTransfer]), Conditions.uncontended 1600000020⟩

/-- The node with the genesis block, where that account is funded. -/
def imposedChain : Blockchain :=
  Run.run (Step.apply Host.sample) (sponsoredChain.setBalance 0x52 100000)
    [⟨.addBlock genesisBlock, Conditions.uncontended 1600000020⟩]

/-- The blocks 17279 and 17280, each with a transfer at the cost of the sponsor. -/
def straddlingRun : List Step :=
  addGenesisAnd (numberedBlock 17279 [sponsoredTransfer 0]) ++
    [⟨.addBlock (numberedBlock 17280 [sponsoredTransfer 1]), Conditions.uncontended 1600000020⟩]

/-- An account without a policy pays for a transaction with several signatures, and a sponsor pays
twice its daily limit in two consecutive blocks. -/
theorem imposed_and_straddling :
    (imposedStep.ReturnsOk sample imposedChain ∧
        imposedStep.call.block.transactions = [imposedTransfer] ∧
        imposedTransfer.sponsor = some 0x52 ∧
        (imposedStep.apply sample imposedChain).getBalance 0x52 = 79000 ∧
        ∀ turn ∈ imposedStep.turns sample imposedChain,
          ¬turn.PaidByConsent sample imposedStep.call.block 0x52) ∧
      (sponsoredChain.sponsorRegistry.lookup sponsorAddress).bind SponsorPolicy.dailySpendLimit =
        some 21000 ∧
      (numberedBlock 17280 [sponsoredTransfer 1]) ∈
        (Run.run (Step.apply sample) sponsoredChain straddlingRun).blocks.blocks ∧
      total (span 17280 17279)
        (feesOf sponsorAddress (chargesBy sample sponsoredChain straddlingRun)) = 42000 := by
  refine ⟨⟨?_, rfl, rfl, by decide +kernel, ?_⟩, by decide +kernel, by decide +kernel,
    by decide +kernel⟩
  · exact ⟨_, eq_ok_of_succeeded (by decide +kernel)⟩
  · intro turn member consented
    obtain ⟨policy, registered, -⟩ := consented.admitted
    have unregistered : ((imposedStep.turns sample imposedChain).all fun turn =>
        (turn.ledger.sponsorRegistry.lookup 0x52).isNone) = true := by decide +kernel
    have absent := List.all_eq_true.mp unregistered turn member
    rw [registered] at absent
    cases absent

end Blockchain

end IronDag
