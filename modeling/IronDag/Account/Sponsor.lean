import IronDag.Lib.Table
import IronDag.Types

namespace IronDag

def blocksPerDay : U64 := 17280

structure SponsorPolicy where
  active : Bool
  allowedSenders : Option (List Address)
  maxFeePerTx : Option U128
  expiresAtBlock : Option U64
  dailySpendLimit : Option U128
  windowStartBlock : U64
  spentInWindow : U128
  deriving DecidableEq, Repr

namespace SponsorPolicy

variable (policy : SponsorPolicy)

def isExpired (currentBlock : U64) : Bool :=
  policy.expiresAtBlock.any fun expiry => decide (expiry < currentBlock)

def allowsSender (sender : Address) : Bool :=
  policy.allowedSenders.all fun senders => decide (sender ∈ senders)

def withinDailyLimit (fee : U128) (currentBlock : U64) : Bool :=
  match policy.dailySpendLimit with
  | none => true
  | some limit =>
    let inWindow := decide (Word.saturatingSub currentBlock policy.windowStartBlock < blocksPerDay)
    let spent := if inWindow then policy.spentInWindow else 0
    decide (Word.saturatingAdd spent fee ≤ limit)

/-- Moves the window on if it is over, then adds the fee. -/
def recordSpend (fee : U128) (currentBlock : U64) : SponsorPolicy :=
  if blocksPerDay ≤ Word.saturatingSub currentBlock policy.windowStartBlock then
    { policy with windowStartBlock := currentBlock, spentInWindow := fee }
  else
    { policy with spentInWindow := Word.saturatingAdd policy.spentInWindow fee }

end SponsorPolicy

/-- The policies by sponsor. -/
abbrev SponsorRegistry := Table Address SponsorPolicy

namespace SponsorRegistry

variable (registry : SponsorRegistry)

def check (sponsor sender : Address) (fee : U128) (currentBlock : U64) : Except String Unit :=
  match registry.lookup sponsor with
  | none => .error "Sponsor has no registered policy — use irondag_registerSponsorPolicy first"
  | some policy =>
    if !policy.active then
      .error "Sponsor policy is paused"
    else if policy.isExpired currentBlock then
      let expiry := (policy.expiresAtBlock.getD 0).toNat
      .error s!"Sponsor policy expired at block {expiry}"
    else if !policy.allowsSender sender then
      .error "Sender address is not in the sponsor's allowlist"
    else if policy.maxFeePerTx.any (fun ceiling => decide (ceiling < fee)) then
      let ceiling := (policy.maxFeePerTx.getD 0).toNat
      .error s!"Fee {fee.toNat} exceeds sponsor max_fee_per_tx {ceiling}"
    else if !policy.withinDailyLimit fee currentBlock then
      .error "Sponsor daily spend limit would be exceeded"
    else
      .ok ()

def recordSpend (sponsor : Address) (fee : U128) (currentBlock : U64) : SponsorRegistry :=
  match registry.lookup sponsor with
  | some policy => registry.insert sponsor (policy.recordSpend fee currentBlock)
  | none => registry

end SponsorRegistry

end IronDag
