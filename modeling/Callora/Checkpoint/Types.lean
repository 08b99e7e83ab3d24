import Callora.Host
import Callora.Library.Store

/-! Storage, events and errors of the checkpoint contract, an audit log of balances that the admin
reports. -/

namespace Callora.Checkpoint
open Library

inductive CheckpointError where
  | notInitialized
  | alreadyInitialized
  | unauthorized
  | batchEmpty
  | batchTooLarge
  | checkpointNotFound
  | amountNegative
  | invalidPageSize
  | overflow
deriving DecidableEq

def MAX_BATCH_SIZE : ℕ := 50

def MAX_PAGE_SIZE : ℕ := 100

structure CheckpointRecord (Address : Type) where
  id : ℕ
  subject : Address
  token : Address
  balance : I128
  timestamp : ℕ
  metadata : String
deriving DecidableEq

inductive Event (Address : Type) where
  | init (admin : Address)
  | checkpointCreated (subject : Address) (record : CheckpointRecord Address)
  | adminNominated (admin newAdmin : Address)
  | adminAccepted (oldAdmin newAdmin : Address)
  | adminCancelled (caller pending : Address)
  | upgraded (admin : Address) (newWasmHash : WasmHash)
deriving DecidableEq

/-- The contract's storage with the WASM it runs and the events it has published. -/
structure State (Address : Type) where
  admin : Option Address := none
  pendingAdmin : Option Address := none
  nextCheckpointId : Option ℕ := none
  checkpointCount : Option ℕ := none
  checkpoint : Store ℕ (CheckpointRecord Address) := .empty
  wasm : Option WasmHash := none
  events : List (Event Address) := []

variable {Address : Type}

def State.deployed : State Address := {}

def getCheckpointCount (s : State Address) : ℕ := s.checkpointCount.getD 0

def getLatestCheckpointId (s : State Address) : ℕ := s.nextCheckpointId.getD 0

def getLatestCheckpoint (s : State Address) : Option (CheckpointRecord Address) :=
  if getLatestCheckpointId s = 0 then none else s.checkpoint (getLatestCheckpointId s)

end Callora.Checkpoint
