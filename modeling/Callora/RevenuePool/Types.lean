import Callora.Host
import Callora.Library.Store

/-! Storage, events and errors of the revenue pool. Every stored entry may be absent; `init` fills
three of them, and the defaults of the others apply where the contract reads them. -/

namespace Callora.RevenuePool
open Library

inductive RevenuePoolError where
  | batchEmpty
  | batchTooLarge
deriving DecidableEq

inductive Severity where
  | info
  | warn
  | crit
deriving DecidableEq

def DEFAULT_MAX_DISTRIBUTE : I128 := I128.max

def MAX_BATCH_SIZE : ℕ := 50

def MAX_MESSAGE_LEN : ℕ := 256

def EMERGENCY_DRAIN_TIMELOCK_SECONDS : ℕ := 86400

def ERR_UNAUTHORIZED : String := "unauthorized: caller is not admin"

def ERR_UNAUTHORIZED_PAUSE : String := "unauthorized: caller is not admin or pause guardian"

def ERR_PAUSED : String := "revenue pool is paused"

def ERR_NOT_INITIALIZED : String := "revenue pool not initialized"

def ERR_AMOUNT_NOT_POSITIVE : String := "amount must be positive"

def ERR_AMOUNT_EXCEEDS_MAX_DISTRIBUTE : String := "amount exceeds max_distribute"

def ERR_INSUFFICIENT_BALANCE : String := "insufficient USDC balance"

def ERR_DUPLICATE_RECIPIENT : String := "duplicate recipient in batch"

structure PendingEmergencyDrain (Address : Type) where
  «to» : Address
  amount : I128
  proposedAt : ℕ
  executeAfter : ℕ
deriving DecidableEq

inductive Event (Address : Type) where
  | init (admin usdcToken : Address)
  | adminChanged (current newAdmin : Address)
  | adminTransferStarted (current newAdmin : Address)
  | adminTransferCompleted (admin : Address)
  | adminCancelled (current pending : Address)
  | pauseGuardianSet (caller guardian : Address)
  | pauseGuardianCleared (caller guardian : Address)
  | pauseSet (caller : Address) (paused : Bool)
  | receivePayment (caller : Address) (amount : I128) (fromVault : Bool)
  | yieldDeposited (treasury : Address) (amount : I128) (source : String)
      (cumulativeYieldDeposited : I128)
  | setMaxDistribute (admin : Address) (oldMax newMax : I128)
  | distribute («to» : Address) (amount : I128)
  | batchDistribute («to» : Address) (amount : I128)
  | upgraded (admin : Address) (newWasmHash : WasmHash)
  | adminBroadcast (caller : Address) (severity : Severity) (message : String)
  | emergencyDrainProposed (caller : Address) (drain : PendingEmergencyDrain Address)
  | emergencyDrainExecuted (caller «to» : Address) (amount : I128) (proposedAt executedAt : ℕ)
  | emergencyDrainCancelled (caller : Address) (drain : PendingEmergencyDrain Address)
deriving DecidableEq

/-- The pool's storage, with the ledger its token lives in, the WASM it runs and the events it has
published. -/
structure State (Address Ledger : Type) where
  admin : Option Address := none
  usdcToken : Option Address := none
  paused : Option Bool := none
  pendingAdmin : Option Address := none
  pauseGuardian : Option Address := none
  maxDistribute : Option I128 := none
  cumulativeYieldDeposited : Option I128 := none
  version : Option WasmHash := none
  emergencyDrain : Option (PendingEmergencyDrain Address) := none
  ledger : Ledger
  wasm : Option WasmHash := none
  events : List (Event Address) := []

variable {Address Ledger : Type}

def isPaused (s : State Address Ledger) : Bool := s.paused.getD false

def getCumulativeYieldDeposited (s : State Address Ledger) : I128 :=
  s.cumulativeYieldDeposited.getD 0

def getMaxDistribute (s : State Address Ledger) : I128 :=
  s.maxDistribute.getD DEFAULT_MAX_DISTRIBUTE

def State.deployed (ledger : Ledger) : State Address Ledger := { ledger }

end Callora.RevenuePool
