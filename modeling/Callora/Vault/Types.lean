import Callora.Host
import Callora.Library.Store

/-! Storage, events and errors of the vault. As in settlement every stored entry may be absent, and
`init` is what fills most of them. -/

namespace Callora.Vault
open Library

inductive VaultError where
  | notInitialized
  | unauthorized
  | insufficientBalance
  | amountNotPositive
  | noAdminTransferPending
  | proposalNotFound
  | timelockNotExpired
  | timelockOverflow
  | invalidTimelockWindow
deriving DecidableEq

def DEFAULT_TIMELOCK_SECONDS : ℕ := 172800

def MIN_TIMELOCK_SECONDS : ℕ := 3600

def MAX_TIMELOCK_SECONDS : ℕ := 2592000

/-- A staged admin action with the deadline that was fixed when it was proposed. -/
structure Proposal (α : Type) where
  action : α
  proposedAt : ℕ
  executeAfter : ℕ
deriving DecidableEq

structure Sweep (Address : Type) where
  «to» : Address
  amount : I128
deriving DecidableEq

abbrev PendingPause : Type := Proposal Unit

abbrev PendingUpgrade : Type := Proposal WasmHash

abbrev PendingSweep (Address : Type) : Type := Proposal (Sweep Address)

inductive Event (Address : Type) where
  | timelockWindowChanged (caller : Address) (stored window : ℕ)
  | pauseProposed (caller : Address) (proposedAt executeAfter : ℕ)
  | pauseExecuted (caller : Address) (executedAt : ℕ)
  | vaultPaused (caller : Address)
  | pauseCancelled (caller : Address) (existed : Bool)
  | upgradeProposed (caller : Address) (newWasmHash : WasmHash) (proposedAt executeAfter : ℕ)
  | upgradeExecuted (caller : Address) (executedAt : ℕ)
  | upgraded (caller : Address) (wasmHash : WasmHash)
  | upgradeCancelled (caller : Address) (existed : Bool)
  | sweepProposed (caller «to» : Address) (amount : I128) (proposedAt executeAfter : ℕ)
  | sweepExecuted (caller «to» : Address) (amount : I128) (executedAt : ℕ)
  | distribute («to» : Address) (amount : I128)
  | sweepCancelled (caller : Address) (existed : Bool)
  | requestIdPruned (caller : Address) (id : String)
  | reserveCapSet (caller token : Address) (prev : Option I128) (cap : I128)
deriving DecidableEq

/-- The vault's storage, and what it acts on outside: the ledger its token lives in, the WASM it
runs and the events it has published. -/
structure State (Address Ledger : Type) where
  owner : Option Address := none
  usdcToken : Option Address := none
  balance : Option I128 := none
  authorizedCaller : Option Address := none
  minDeposit : Option I128 := none
  revenuePool : Option Address := none
  maxDeduct : Option I128 := none
  settlement : Option Address := none
  paused : Option Bool := none
  depositor : Store Address Bool := .empty
  processedRequest : Store String Unit := .empty
  reserveCap : Store Address I128 := .empty
  timelockWindow : Option ℕ := none
  pendingPause : Option PendingPause := none
  pendingUpgrade : Option PendingUpgrade := none
  pendingSweep : Option (PendingSweep Address) := none
  admin : Option Address := none
  pendingAdmin : Option Address := none
  contractVersion : Option WasmHash := none
  ledger : Ledger
  wasm : Option WasmHash := none
  events : List (Event Address) := []

variable {Address Ledger : Type}

def State.tracked (s : State Address Ledger) : I128 := s.balance.getD 0

def isPaused (s : State Address Ledger) : Bool := s.paused.getD false

def State.deployed (ledger : Ledger) : State Address Ledger := { ledger }

end Callora.Vault
