import Callora.RevenuePool.Funds

/-! What the admin may do beside paying: the two-step rotation, the pause with its guardian, the
cap, upgrades and messages, and the drain that waits out a timelock. -/

namespace Callora.RevenuePool
open Library

variable {Address Ledger : Type} [DecidableEq Address] {contract : Address}
  {s s' : State Address Ledger} {u : Unit} {env : Env Address contract} {caller : Address}

/-! Rotation of the admin. -/

def setAdmin (env : Env Address contract) (caller newAdmin : Address) : Tx Address Ledger Unit := do
  requireAuth env caller
  let current ← getAdmin
  Call.require (caller = current) (.message ERR_UNAUTHORIZED)
  Call.modify fun s => { s with pendingAdmin := some newAdmin }
  publish (.adminChanged current newAdmin)
  publish (.adminTransferStarted current newAdmin)

def acceptAdmin (env : Env Address contract) (caller : Address) : Tx Address Ledger Unit := do
  requireAuth env caller
  let s ← Call.load
  let pending ← Call.unwrap s.pendingAdmin (.message "no pending admin")
  Call.require (caller = pending) (.message "unauthorized: caller is not pending admin")
  Call.modify fun s => { s with admin := some pending, pendingAdmin := none }
  publish (.adminTransferCompleted pending)

def claimAdmin (env : Env Address contract) (caller : Address) : Tx Address Ledger Unit :=
  acceptAdmin env caller

def cancelAdminTransfer (env : Env Address contract) (caller : Address) :
    Tx Address Ledger Unit := do
  requireAuth env caller
  let current ← getAdmin
  Call.require (caller = current) (.message ERR_UNAUTHORIZED)
  let s ← Call.load
  let pending ← Call.unwrap s.pendingAdmin (.message "no admin transfer pending")
  Call.modify fun s => { s with pendingAdmin := none }
  publish (.adminCancelled current pending)

theorem run_setAdmin_eq_ok {newAdmin : Address} :
    (setAdmin env caller newAdmin).run s = .ok u s' ↔ s.ByAdmin env caller ∧ s' = { s with
      pendingAdmin := some newAdmin
      events := s.events ++ [.adminChanged caller newAdmin,
        .adminTransferStarted caller newAdmin] } := by
  simp [setAdmin, State.ByAdmin, and_assoc, eq_comm (a := s')]

theorem run_acceptAdmin_eq_ok :
    (acceptAdmin env caller).run s = .ok u s' ↔
      caller ∈ env.signers ∧ s.pendingAdmin = some caller ∧ s' = { s with
        admin := some caller
        pendingAdmin := none
        events := s.events ++ [.adminTransferCompleted caller] } := by
  simp [acceptAdmin, eq_comm (a := s')]

theorem run_cancelAdminTransfer_eq_ok :
    (cancelAdminTransfer env caller).run s = .ok u s' ↔ s.ByAdmin env caller ∧
      ∃ pending, s.pendingAdmin = some pending ∧ s' = { s with
        pendingAdmin := none
        events := s.events ++ [.adminCancelled caller pending] } := by
  simp [cancelAdminTransfer, State.ByAdmin, and_assoc, eq_comm (a := s')]

/-! The pause and its guardian. -/

def setPauseGuardian (env : Env Address contract) (caller guardian : Address) :
    Tx Address Ledger Unit := do
  requireAuth env caller
  requireAdmin caller
  Call.modify fun s => { s with pauseGuardian := some guardian }
  publish (.pauseGuardianSet caller guardian)

def clearPauseGuardian (env : Env Address contract) (caller : Address) :
    Tx Address Ledger Unit := do
  requireAuth env caller
  requireAdmin caller
  let s ← Call.load
  let guardian ← Call.unwrap s.pauseGuardian (.message "no pause guardian set")
  Call.modify fun s => { s with pauseGuardian := none }
  publish (.pauseGuardianCleared caller guardian)

def pause (env : Env Address contract) (caller : Address) : Tx Address Ledger Unit := do
  requireAuth env caller
  let admin ← getAdmin
  let s ← Call.load
  Call.require (caller = admin ∨ s.pauseGuardian = some caller) (.message ERR_UNAUTHORIZED_PAUSE)
  Call.require (isPaused s = false) (.message "revenue pool already paused")
  Call.modify fun s => { s with paused := some true }
  publish (.pauseSet caller true)

def unpause (env : Env Address contract) (caller : Address) : Tx Address Ledger Unit := do
  requireAuth env caller
  requireAdmin caller
  let s ← Call.load
  Call.require (isPaused s = true) (.message "revenue pool not paused")
  Call.modify fun s => { s with paused := some false }
  publish (.pauseSet caller false)

theorem run_setPauseGuardian_eq_ok {guardian : Address} :
    (setPauseGuardian env caller guardian).run s = .ok u s' ↔ s.ByAdmin env caller ∧
      s' = { s with
        pauseGuardian := some guardian
        events := s.events ++ [.pauseGuardianSet caller guardian] } := by
  simp [setPauseGuardian, State.ByAdmin, and_assoc, eq_comm (a := s')]

theorem run_clearPauseGuardian_eq_ok :
    (clearPauseGuardian env caller).run s = .ok u s' ↔ s.ByAdmin env caller ∧
      ∃ guardian, s.pauseGuardian = some guardian ∧ s' = { s with
        pauseGuardian := none
        events := s.events ++ [.pauseGuardianCleared caller guardian] } := by
  simp [clearPauseGuardian, State.ByAdmin, and_assoc, eq_comm (a := s')]

theorem run_pause_eq_ok :
    (pause env caller).run s = .ok u s' ↔ caller ∈ env.signers ∧ s.admin ≠ none ∧
      (s.admin = some caller ∨ s.pauseGuardian = some caller) ∧ isPaused s = false ∧
      s' = { s with
        paused := some true
        events := s.events ++ [.pauseSet caller true] } := by
  cases hadmin : s.admin <;> simp [pause, hadmin, eq_comm (a := s'), eq_comm (a := caller)]

theorem run_unpause_eq_ok :
    (unpause env caller).run s = .ok u s' ↔ s.ByAdmin env caller ∧ isPaused s = true ∧
      s' = { s with
        paused := some false
        events := s.events ++ [.pauseSet caller false] } := by
  simp [unpause, State.ByAdmin, and_assoc, eq_comm (a := s')]

/-! Notices, the cap and upgrades. -/

/-- An event and no more. -/
def receivePayment (env : Env Address contract) (caller : Address) (amount : I128)
    (fromVault : Bool) : Tx Address Ledger Unit := do
  requireAuth env caller
  requireAdmin caller
  publish (.receivePayment caller amount fromVault)

def setMaxDistribute (env : Env Address contract) (caller : Address) (maxDistribute : I128) :
    Tx Address Ledger Unit := do
  requireAuth env caller
  requireAdmin caller
  Call.require (0 < maxDistribute.val) (.message "max_distribute must be positive")
  let s ← Call.load
  let oldMax := getMaxDistribute s
  Call.modify fun s => { s with maxDistribute := some maxDistribute }
  let admin ← getAdmin
  publish (.setMaxDistribute admin oldMax maxDistribute)

def upgrade (env : Env Address contract) (caller : Address) (newWasmHash : WasmHash) :
    Tx Address Ledger Unit := do
  requireAuth env caller
  requireAdmin caller
  Call.require (env.uploaded newWasmHash) .hostCall
  Call.modify fun s => { s with wasm := some newWasmHash, version := some newWasmHash }
  let admin ← getAdmin
  publish (.upgraded admin newWasmHash)

def broadcast (env : Env Address contract) (caller : Address) (severity : Severity)
    (message : String) : Tx Address Ledger Unit := do
  requireAuth env caller
  requireAdmin caller
  Call.require (message.utf8ByteSize ≠ 0) (.message "message cannot be empty")
  Call.require (¬MAX_MESSAGE_LEN < message.utf8ByteSize)
    (.message "message length exceeds maximum of 256 characters")
  publish (.adminBroadcast caller severity message)

theorem run_receivePayment_eq_ok {amount : I128} {fromVault : Bool} :
    (receivePayment env caller amount fromVault).run s = .ok u s' ↔ s.ByAdmin env caller ∧
      s' = { s with events := s.events ++ [.receivePayment caller amount fromVault] } := by
  simp [receivePayment, State.ByAdmin, and_assoc, eq_comm (a := s')]

theorem run_setMaxDistribute_eq_ok {maxDistribute : I128} :
    (setMaxDistribute env caller maxDistribute).run s = .ok u s' ↔ s.ByAdmin env caller ∧
      0 < maxDistribute.val ∧ s' = { s with
        maxDistribute := some maxDistribute
        events := s.events ++ [.setMaxDistribute caller (getMaxDistribute s) maxDistribute] } := by
  simp only [setMaxDistribute, Call.run_bind_eq_ok, run_requireAuth_eq_ok, run_requireAdmin_eq_ok,
    Call.run_require_eq_ok, Call.run_load_eq_ok, Call.run_modify_eq_ok, run_getAdmin_eq_ok,
    run_publish_eq_ok, existsAndEq, and_assoc, exists_and_left, exists_const, true_and]
  constructor
  · intro h
    obtain ⟨hauth, hadmin, hpos, admin, hadmin', hs⟩ := h
    obtain rfl : caller = admin := Option.some.inj (hadmin.symm.trans hadmin')
    exact ⟨⟨hauth, hadmin⟩, hpos, hs.symm⟩
  · intro h
    obtain ⟨⟨hauth, hadmin⟩, hpos, rfl⟩ := h
    exact ⟨hauth, hadmin, hpos, caller, hadmin, rfl⟩

theorem run_upgrade_eq_ok {newWasmHash : WasmHash} :
    (upgrade env caller newWasmHash).run s = .ok u s' ↔ s.ByAdmin env caller ∧
      env.uploaded newWasmHash ∧ s' = { s with
        wasm := some newWasmHash
        version := some newWasmHash
        events := s.events ++ [.upgraded caller newWasmHash] } := by
  simp only [upgrade, Call.run_bind_eq_ok, run_requireAuth_eq_ok, run_requireAdmin_eq_ok,
    Call.run_require_eq_ok, Call.run_modify_eq_ok, run_getAdmin_eq_ok, run_publish_eq_ok,
    existsAndEq, and_assoc, exists_and_left, exists_const, true_and]
  constructor
  · intro h
    obtain ⟨hauth, hadmin, hup, admin, hadmin', hs⟩ := h
    obtain rfl : caller = admin := Option.some.inj (hadmin.symm.trans hadmin')
    exact ⟨⟨hauth, hadmin⟩, hup, hs.symm⟩
  · intro h
    obtain ⟨⟨hauth, hadmin⟩, hup, rfl⟩ := h
    exact ⟨hauth, hadmin, hup, caller, hadmin, rfl⟩

theorem run_broadcast_eq_ok {severity : Severity} {message : String} :
    (broadcast env caller severity message).run s = .ok u s' ↔ s.ByAdmin env caller ∧
      (message.utf8ByteSize ≠ 0 ∧ message.utf8ByteSize ≤ MAX_MESSAGE_LEN) ∧
      s' = { s with events := s.events ++ [.adminBroadcast caller severity message] } := by
  simp [broadcast, State.ByAdmin, and_assoc, eq_comm (a := s')]

/-! The emergency drain. -/

def stageDrain (caller : Address) (drain : PendingEmergencyDrain Address) :
    Tx Address Ledger Unit := do
  Call.modify fun s => { s with emergencyDrain := some drain }
  publish (.emergencyDrainProposed caller drain)

/-- A new proposal replaces the pending one and starts its clock again. -/
def proposeEmergencyDrain (env : Env Address contract) (caller treasury : Address)
    (amount : I128) : Tx Address Ledger Unit := do
  requireAuth env caller
  requireAdmin caller
  requirePositive amount
  Call.require (treasury ≠ contract)
    (.message "invalid recipient: cannot drain to the contract itself")
  let proposedAt := env.timestamp
  let executeAfter ← Call.unwrap (checkedAddU64 proposedAt EMERGENCY_DRAIN_TIMELOCK_SECONDS)
    (.message "timelock overflow")
  stageDrain caller ⟨treasury, amount, proposedAt, executeAfter⟩

def executeEmergencyDrain (T : TokenContract Address Ledger) (env : Env Address contract)
    (caller : Address) : Tx Address Ledger Unit := do
  requireAuth env caller
  requireAdmin caller
  let s ← Call.load
  let drain ← Call.unwrap s.emergencyDrain (.message "no pending emergency drain")
  Call.require (¬env.timestamp < drain.executeAfter)
    (.message "emergency drain timelock has not expired")
  let usdc ← getUsdcToken
  requireFunds T contract usdc drain.amount
  Call.modify fun s => { s with emergencyDrain := none }
  transfer T usdc contract drain.to drain.amount
  publish (.emergencyDrainExecuted caller drain.to drain.amount drain.proposedAt env.timestamp)

def cancelEmergencyDrain (env : Env Address contract) (caller : Address) :
    Tx Address Ledger Unit := do
  requireAuth env caller
  requireAdmin caller
  let s ← Call.load
  let drain ← Call.unwrap s.emergencyDrain (.message "no pending emergency drain")
  Call.modify fun s => { s with emergencyDrain := none }
  publish (.emergencyDrainCancelled caller drain)

structure Staged (env : Env Address contract) (treasury : Address) (amount : I128)
    (drain : PendingEmergencyDrain Address) : Prop where
  positive : 0 < amount.val
  external : treasury ≠ contract
  deadline : env.timestamp + EMERGENCY_DRAIN_TIMELOCK_SECONDS ≤ U64_MAX
  stored : drain = ⟨treasury, amount, env.timestamp,
    env.timestamp + EMERGENCY_DRAIN_TIMELOCK_SECONDS⟩

structure Drain (T : TokenContract Address Ledger) (env : Env Address contract)
    (s : State Address Ledger) (caller : Address) (drain : PendingEmergencyDrain Address)
    (usdc : Address) (ledger : Ledger) : Prop where
  admin : s.ByAdmin env caller
  pending : s.emergencyDrain = some drain
  due : drain.executeAfter ≤ env.timestamp
  configured : s.usdcToken = some usdc
  covered : drain.amount.val ≤ T.balance s.ledger usdc contract
  paid : T.transfer s.ledger usdc contract drain.to drain.amount.val = some ledger

omit [DecidableEq Address] in
@[simp] theorem run_stageDrain_eq_ok {drain : PendingEmergencyDrain Address} :
    (stageDrain caller drain).run s = .ok u s' ↔ { s with
      emergencyDrain := some drain
      events := s.events ++ [.emergencyDrainProposed caller drain] } = s' := by
  simp [stageDrain]

theorem run_proposeEmergencyDrain_eq_ok {treasury : Address} {amount : I128} :
    (proposeEmergencyDrain env caller treasury amount).run s = .ok u s' ↔ s.ByAdmin env caller ∧
      ∃ drain, Staged env treasury amount drain ∧ s' = { s with
        emergencyDrain := some drain
        events := s.events ++ [.emergencyDrainProposed caller drain] } := by
  simp only [proposeEmergencyDrain, Call.run_bind_eq_ok, run_requireAuth_eq_ok,
    run_requireAdmin_eq_ok, run_requirePositive_eq_ok, Call.run_require_eq_ok,
    Call.run_unwrap_eq_ok, checkedAddU64_eq_some, run_stageDrain_eq_ok, existsAndEq, and_assoc,
    exists_and_left, exists_const, true_and]
  constructor
  · intro h
    obtain ⟨hauth, hadmin, hpos, hto, hmax, hs⟩ := h
    exact ⟨⟨hauth, hadmin⟩, _, ⟨hpos, hto, hmax, rfl⟩, hs.symm⟩
  · intro h
    obtain ⟨⟨hauth, hadmin⟩, drain, ⟨hpos, hto, hmax, rfl⟩, rfl⟩ := h
    exact ⟨hauth, hadmin, hpos, hto, hmax, rfl⟩

theorem run_executeEmergencyDrain_eq_ok {T : TokenContract Address Ledger} :
    (executeEmergencyDrain T env caller).run s = .ok u s' ↔
      ∃ drain usdc ledger, Drain T env s caller drain usdc ledger ∧ s' = { s with
        emergencyDrain := none
        ledger := ledger
        events := s.events ++ [.emergencyDrainExecuted caller drain.to drain.amount
          drain.proposedAt env.timestamp] } := by
  simp only [executeEmergencyDrain, Call.run_bind_eq_ok, run_requireAuth_eq_ok,
    run_requireAdmin_eq_ok, Call.run_load_eq_ok, Call.run_unwrap_eq_ok, Call.run_require_eq_ok,
    run_getUsdcToken_eq_ok, run_requireFunds_eq_ok, Call.run_modify_eq_ok, run_transfer_eq_ok,
    run_publish_eq_ok, existsAndEq, and_assoc, exists_and_left, exists_const, true_and]
  constructor
  · intro h
    obtain ⟨hauth, hadmin, drain, hpending, hdue, usdc, husdc, hcov, ledger, hpaid, hs⟩ := h
    exact ⟨drain, usdc, ledger,
      ⟨⟨hauth, hadmin⟩, hpending, not_lt.1 hdue, husdc, hcov, hpaid⟩, hs.symm⟩
  · intro h
    obtain ⟨drain, usdc, ledger, h, rfl⟩ := h
    exact ⟨h.admin.1, h.admin.2, drain, h.pending, not_lt.2 h.due, usdc, h.configured, h.covered,
      ledger, h.paid, rfl⟩

theorem run_cancelEmergencyDrain_eq_ok :
    (cancelEmergencyDrain env caller).run s = .ok u s' ↔ s.ByAdmin env caller ∧
      ∃ drain, s.emergencyDrain = some drain ∧ s' = { s with
        emergencyDrain := none
        events := s.events ++ [.emergencyDrainCancelled caller drain] } := by
  simp [cancelEmergencyDrain, State.ByAdmin, and_assoc, eq_comm (a := s')]

end Callora.RevenuePool
