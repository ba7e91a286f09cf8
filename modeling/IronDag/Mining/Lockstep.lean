import IronDag.Chain.Agree
import IronDag.Mining.Node

namespace IronDag

open Fallible Blockchain

namespace Blockchain

variable {left right : Blockchain}

theorem checkReceived_congr (blocks : left.blocks = right.blocks) {now : U64} :
    left.checkReceived host now block = right.checkReceived host now block := by
  have parents : left.validParent block = right.validParent block := by
    funext parent
    simp only [validParent, blocks]
  simp only [checkReceived, validateBlockEnhanced, validateParentHashesEnhanced, parents]

end Blockchain

/-- A relation between nodes that is kept by the parts of the calls that fit. -/
structure Lockstep (host : Host) (related : Blockchain → Blockchain → Prop)
    (fits : Step → Blockchain → Prop) : Prop where
  blocks : ∀ {left right}, related left right → left.blocks = right.blocks
  latest : ∀ {left right}, related left right →
    left.cachedLatestBlockNumber = right.cachedLatestBlockNumber
  zkVerifyingKey : ∀ {left right}, related left right → left.zkVerifyingKey = right.zkVerifyingKey
  zkEnforce : ∀ {left right}, related left right → left.zkEnforce = right.zkEnforce
  ghostdag : ∀ {left right}, related left right → left.ghostdag.isSome = right.ghostdag.isSome
  process : ∀ {left right step}, fits step left → related left right →
    Matches (fun one two => related { left with toLedger := one } { right with toLedger := two })
      (Ledger.validateAndProcessTransactions host step.conditions.encounters
        step.call.block left.toLedger)
      (Ledger.validateAndProcessTransactions host step.conditions.encounters
        step.call.block right.toLedger)
  stop : ∀ {left right} dag, related left right →
    related { left with ghostdag := some dag } { right with ghostdag := some dag }
  commit : ∀ {left right} conditions block, related left right →
    related (left.commitBlock conditions block) (right.commitBlock conditions block)
  finish : ∀ {start left right step}, (∀ block, step.call ≠ .sync block) → fits step start →
    left.recurringManager = start.recurringManager → related left right →
    related (left.finishBlock host.crypto step.conditions step.call.block)
      (right.finishBlock host.crypto step.conditions step.call.block)
  credit : ∀ {left right} miner submission, related left right →
    related (left.creditMiner miner submission) (right.creditMiner miner submission)

namespace Lockstep

variable (lockstep : Lockstep host related fits)

include lockstep

/-- The transactions and the insertion into the DAG, and what comes after them. -/
theorem insert {after other : Unit → ChainM α} (fit : fits step left) (states : related left right)
    (continued : ∀ {one two}, one.recurringManager = left.recurringManager → related one two →
      Matches related (after () one) (other () two)) :
    Matches related
      ((onLedger (Ledger.validateAndProcessTransactions host
        step.conditions.encounters step.call.block) >>= fun _ =>
        checkDag step.conditions >>= after) left)
      ((onLedger (Ledger.validateAndProcessTransactions host
        step.conditions.encounters step.call.block) >>= fun _ =>
        checkDag step.conditions >>= other) right) := by
  have processed := lockstep.process fit states
  generalize doneLeft : Ledger.validateAndProcessTransactions host step.conditions.encounters
    step.call.block
    left.toLedger = one at processed
  generalize doneRight : Ledger.validateAndProcessTransactions host step.conditions.encounters
    step.call.block
    right.toLedger = two at processed
  cases processed with
  | error fault states =>
    rw [bind_of_error (onLedger_eq_error.mpr ⟨_, doneLeft, rfl⟩),
      bind_of_error (onLedger_eq_error.mpr ⟨_, doneRight, rfl⟩)]
    exact .error fault states
  | @ok one two value states =>
    rw [bind_of_ok (onLedger_eq_ok.mpr ⟨_, doneLeft, rfl⟩),
      bind_of_ok (onLedger_eq_ok.mpr ⟨_, doneRight, rfl⟩), checkDag, bind_assoc, bind_assoc,
      get_bind, get_bind]
    have failure : dagFault { left with toLedger := one } step.conditions =
        dagFault { right with toLedger := two } step.conditions := by
      have present := lockstep.ghostdag states
      revert present
      cases left.ghostdag <;> cases right.ghostdag <;> intro present <;> first | rfl | cases present
    rw [failure]
    cases dagFault { right with toLedger := two } step.conditions with
    | none => exact continued rfl states
    | some failed => exact .error _ (lockstep.stop failed.2 states)

theorem addBlockImpl (own : ∀ block, step.call ≠ .sync block) (fit : fits step left)
    (states : related left right) :
    Matches related (addBlockImpl host step.conditions preVerified step.call.block left)
      (addBlockImpl host step.conditions preVerified step.call.block right) := by
  have checked : left.checkBlock host step.conditions preVerified step.call.block =
      right.checkBlock host step.conditions preVerified step.call.block := by
    simp only [checkBlock, validateBlockStructure, checkMedian, medianTimestamp, checkZkProof,
      checkNewBlock,
      validateParentHashes, lockstep.blocks states, lockstep.zkVerifyingKey states,
        lockstep.zkEnforce states]
  refine Matches.ofExcept_bind states checked fun _ _ => ?_
  refine lockstep.insert fit states ?_
  intro one two manager processed
  exact .ok ()
    (lockstep.finish own fit manager (lockstep.commit step.conditions step.call.block processed))

theorem addBlockForSync (fit : fits step left) (states : related left right) :
    Matches related (addBlockForSync host step.conditions step.call.block left)
      (addBlockForSync host step.conditions step.call.block right) := by
  refine Matches.ofExcept_bind states (checkReceived_congr (lockstep.blocks states)) fun _ _ => ?_
  rw [lockstep.blocks states]
  split
  · exact .ok false states
  · refine lockstep.insert fit states ?_
    intro one two _ processed
    exact .ok true (lockstep.commit step.conditions step.call.block processed)

theorem processSubmission (fit : fits ⟨.submit miner submission, conditions⟩ left)
    (states : related left right) : (left.processSubmission host conditions miner submission).1 =
        (right.processSubmission host conditions miner submission).1 ∧
      related (left.processSubmission host conditions miner submission).2
        (right.processSubmission host conditions miner submission).2 := by
  have latest : left.latestBlockNumber = right.latestBlockNumber := lockstep.latest states
  unfold Blockchain.processSubmission
  rw [latest]
  split
  · exact ⟨rfl, states⟩
  · split
    · exact ⟨rfl, states⟩
    · split
      · exact ⟨rfl, states⟩
      · have added : Matches related (addBlockPreVerified host conditions submission.block left)
            (addBlockPreVerified host conditions submission.block right) :=
          lockstep.addBlockImpl (fun _ call => by cases call) fit states
        generalize addBlockPreVerified host conditions submission.block left = one at added
        generalize addBlockPreVerified host conditions submission.block right = two at added
        cases added with
        | ok _ states => exact ⟨rfl, lockstep.credit miner submission states⟩
        | error fault states => exact ⟨rfl, states⟩

/-- A call that fits keeps the relation, and succeeds on both nodes or on neither. -/
theorem apply (fit : fits step left) (states : related left right) :
    related (step.apply host left) (step.apply host right) ∧
      (step.ReturnsOk host left ↔ step.ReturnsOk host right) := by
  obtain ⟨call, conditions⟩ := step
  cases call with
  | addBlock block =>
    have added : Matches related (addBlock host conditions block left)
        (addBlock host conditions block right) :=
      lockstep.addBlockImpl (fun _ call => by cases call) fit states
    refine ⟨added.finalState, ?_⟩
    simp only [Step.ReturnsOk]
    generalize addBlock host conditions block left = one at added
    generalize addBlock host conditions block right = two at added
    cases added with
    | ok _ _ | error _ _ => simp
  | submit miner submission =>
    obtain ⟨outcome, after⟩ := lockstep.processSubmission fit states
    refine ⟨after, ?_⟩
    simp only [Step.ReturnsOk]
    generalize left.processSubmission host conditions miner submission = one at outcome
    generalize right.processSubmission host conditions miner submission = two at outcome
    obtain ⟨reported, one⟩ := one
    obtain ⟨reportedRight, two⟩ := two
    cases outcome
    simp
  | sync block =>
    have added : Matches related (Blockchain.addBlockForSync host conditions block left)
        (Blockchain.addBlockForSync host conditions block right) :=
          lockstep.addBlockForSync fit states
    refine ⟨added.finalState, ?_⟩
    simp only [Step.ReturnsOk]
    generalize Blockchain.addBlockForSync host conditions block left = one at added
    generalize Blockchain.addBlockForSync host conditions block right = two at added
    cases added with
    | ok _ _ | error _ _ => simp

end Lockstep

end IronDag
