import IronDag.Lib.Table
import IronDag.Types

namespace IronDag

structure SpendingLimits where
  dailyLimit : U128
  weeklyLimit : U128
  monthlyLimit : U128
  currentPeriodSpending : U128
  lastReset : U64
  deriving DecidableEq, Repr

namespace SpendingLimits

/-- Starts a new period when a day has passed since the last reset. -/
def refreshed (limits : SpendingLimits) (now : U64) : SpendingLimits :=
  if 1 ≤ (now - limits.lastReset) / 86400 then
    { limits with currentPeriodSpending := 0, lastReset := now }
  else
    limits

def checkLimit (limits : SpendingLimits) (now : U64) (amount : U128) : Except String Unit :=
  let spending := (limits.refreshed now).currentPeriodSpending + amount
  if limits.dailyLimit < spending then
    .error "Daily spending limit exceeded"
  else if limits.weeklyLimit < spending then
    .error "Weekly spending limit exceeded"
  else if limits.monthlyLimit < spending then
    .error "Monthly spending limit exceeded"
  else
    .ok ()

def recordSpending (limits : SpendingLimits) (amount : U128) : SpendingLimits :=
  { limits with currentPeriodSpending := limits.currentPeriodSpending + amount }

end SpendingLimits

/-- Guardians and the limits kept next to the type play no part in block processing. -/
inductive WalletType where
  | basic
  | multiSig (signers : List Address) (threshold : Byte)
  | socialRecovery
  | spendingLimit
  | combined (signers : List Address) (threshold : Byte)
  deriving DecidableEq, Repr

structure SmartContractWallet where
  walletType : WalletType
  spendingLimits : Option SpendingLimits
  nonce : U64
  deriving DecidableEq, Repr

namespace SmartContractWallet

variable (wallet : SmartContractWallet)

/-- Signers and threshold of a wallet that takes several signatures. -/
def signerPolicy : Option (List Address × Byte) :=
  match wallet.walletType with
  | .multiSig signers threshold => some (signers, threshold)
  | .combined signers threshold => some (signers, threshold)
  | _ => none

def hasSpendingLimits : Bool :=
  match wallet.walletType with
  | .spendingLimit => true
  | .combined _ _ => true
  | _ => wallet.spendingLimits.isSome

def incrementNonce : SmartContractWallet :=
  { wallet with nonce := wallet.nonce + 1 }

/-- Counts an amount against the limits of a wallet that has some. -/
def recordSpending (amount : U128) : SmartContractWallet :=
  if wallet.hasSpendingLimits then
    { wallet with spendingLimits :=
      wallet.spendingLimits.map fun limits => limits.recordSpending amount }
  else
    wallet

@[simp] theorem signerPolicy_incrementNonce :
    wallet.incrementNonce.signerPolicy = wallet.signerPolicy := rfl

@[simp] theorem signerPolicy_recordSpending :
    (wallet.recordSpending amount).signerPolicy = wallet.signerPolicy := by
  unfold recordSpending
  split <;> rfl

end SmartContractWallet

/-- The wallets by address. -/
abbrev WalletRegistry := Table Address SmartContractWallet

namespace WalletRegistry

variable (registry : WalletRegistry)

def isContractWallet (address : Address) : Bool :=
  (registry.lookup address).isSome

/-- Counts a transaction of a wallet: its nonce and its spending. -/
def recordTransaction (address : Address) (amount : U128) : WalletRegistry :=
  match registry.lookup address with
  | some wallet => registry.insert address (wallet.incrementNonce.recordSpending amount)
  | none => registry

theorem signerPolicy_recordTransaction {sender address : Address} :
    ((registry.recordTransaction sender amount).lookup address).map
      SmartContractWallet.signerPolicy =
      (registry.lookup address).map SmartContractWallet.signerPolicy := by
  unfold recordTransaction
  cases found : registry.lookup sender with
  | none => rfl
  | some wallet =>
    rw [Table.lookup_write]
    by_cases same : address = sender
    · subst same
      rw [found]
      simp
    · rw [if_neg same]

end WalletRegistry

end IronDag
