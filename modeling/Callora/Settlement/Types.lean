import Callora.Host
import Callora.Library.Store

/-! Storage, events and errors of the settlement contract. Every stored entry may be absent; the
defaults are applied where the contract reads it. -/

namespace Callora.Settlement
open Library

inductive SettlementError where
  | notInitialized
  | alreadyInitialized
  | unauthorized
  | amountNotPositive
  | developerRequired
  | developerMustBeNone
  | poolOverflow
  | developerOverflow
  | usdcTokenNotConfigured
  | insufficientDeveloperBalance
  | developerBalanceUnderflow
  | insufficientContractBalance
  | dailyWithdrawCapExceeded
  | gasExhaustionRisk
  | reasonTooLong
  | migrationSameAddress
  | invalidMigrationTarget
  | noDeveloperBalance
  | timelockOverflow
  | migrationNotFound
  | timelockNotExpired
  | migrationBalanceChanged
  | overDraft
  | invalidClaimWindow
  | claimWindowClosed
  | minBalanceViolation
  | replayDetected
deriving DecidableEq

inductive Severity where
  | info
  | warn
  | crit
deriving DecidableEq

def MAX_BATCH_SIZE : ℕ := 50

def MAX_DEVELOPER_BALANCES_PAGE_SIZE : ℕ := 100

def DEVELOPER_MIGRATION_TIMELOCK_SECONDS : ℕ := 86400

def STORAGE_VERSION_V1 : ℕ := 1

def STORAGE_VERSION_V2 : ℕ := 2

structure GlobalPool where
  totalBalance : I128
  lastUpdated : ℕ
deriving DecidableEq

/-- What a developer has withdrawn in the UTC day `day`, counted from the epoch. -/
structure DailyWithdrawState where
  day : ℕ
  amount : I128
deriving DecidableEq

structure DeveloperClaimWindow where
  startTs : ℕ
  endTs : ℕ
deriving DecidableEq

structure PendingDeveloperMigration (Address : Type) where
  «from» : Address
  «to» : Address
  amount : I128
  proposedAt : ℕ
  executeAfter : ℕ
deriving DecidableEq

inductive Event (Address : Type) where
  | paymentReceived (fromVault : Address) (amount : I128) (toPool : Bool)
      (developer : Option Address) (token : Address)
  | balanceCredited (developer : Address) (amount newBalance : I128) (token : Address)
  | developerWithdraw (developer : Address) (amount remainingBalance : I128) («to» token : Address)
  | dailyWithdrawCapChanged (caller developer : Address) (newCap : I128)
  | claimWindowChanged (developer : Address) (startTs endTs : ℕ) (enabled : Bool)
  | developerMinBalanceChanged (developer : Address) (newMinBalance : I128)
  | developerForceCredited (developer : Address) (amount : I128) (reason : String)
      (newBalance : I128) (token : Address)
  | adminNominated (admin newAdmin : Address)
  | adminAccepted (oldAdmin newAdmin : Address)
  | adminCancelled (admin : Address)
  | vaultProposed (admin currentVault proposedVault : Address)
  | vaultAccepted (oldVault newVault acceptedBy : Address)
  | adminBroadcast (caller : Address) (severity : Severity) (message : String)
  | upgraded (caller : Address) (newWasmHash : WasmHash)
  | adminMigrationProposed (migration : PendingDeveloperMigration Address)
  | adminMigration («from» «to» : Address) (amount : I128) (executedAt : ℕ)
  | migV1V2Done (version : ℕ)
deriving DecidableEq

/-- The contract's storage with the token ledger it pays from, the WASM it runs and the events it
has published. -/
structure State (Address Ledger : Type) where
  admin : Option Address := none
  vault : Option Address := none
  pendingAdmin : Option Address := none
  pendingVault : Option Address := none
  globalPool : Option GlobalPool := none
  totalReceived : Option I128 := none
  usdc : Option Address := none
  contractVersion : Option WasmHash := none
  storageVersion : Option ℕ := none
  developerIndex : Option (List Address) := none
  poolHighWaterMark : Option ℕ := none
  highWaterMark : Store Address ℕ := .empty
  developerBalanceV1 : Store Address I128 := .empty
  developerBalance : Store (Address × Address) I128 := .empty
  developerMinBalance : Store Address I128 := .empty
  dailyWithdrawCap : Store Address I128 := .empty
  withdrawalToday : Store Address DailyWithdrawState := .empty
  developerClaimWindow : Store Address DeveloperClaimWindow := .empty
  pendingDeveloperMigration : Store Address (PendingDeveloperMigration Address) := .empty
  ledger : Ledger
  wasm : Option WasmHash := none
  events : List (Event Address) := []

variable {Address Ledger : Type}

def State.balanceOf (s : State Address Ledger) (developer token : Address) : I128 :=
  (s.developerBalance (developer, token)).getD 0

def State.deployed (ledger : Ledger) : State Address Ledger := { ledger }

end Callora.Settlement
