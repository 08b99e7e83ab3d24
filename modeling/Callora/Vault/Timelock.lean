import Callora.Vault.Funds

/-! What owner and admin may do: the setters, the two-step admin transfer, the actions that must be
proposed and wait out the timelock, and the pruning of processed requests. -/

namespace Callora.Vault
open Library

variable {Address Ledger : Type} [DecidableEq Address] {contract : Address}
  {s s' : State Address Ledger} {u : Unit} {env : Env Address contract} {caller : Address}

/-! Authorization. -/

def requireOwnerAuth (env : Env Address contract) (caller : Address) : Tx Address Ledger Unit := do
  requireAuth env caller
  let s ← Call.load
  let owner ← Call.unwrap s.owner .unwrapNone
  Call.require (caller = owner) (.message "Not owner")

def requireOwner (caller : Address) : Tx Address Ledger Unit := do
  let s ← Call.load
  let owner ← Call.unwrap s.owner .unwrapNone
  Call.ensure (caller = owner) .unauthorized

def getAdmin : Tx Address Ledger Address := do
  let s ← Call.load
  Call.okOr s.admin .notInitialized

def requireAdmin (env : Env Address contract) (caller : Address) : Tx Address Ledger Unit := do
  requireAuth env caller
  let admin ← getAdmin
  Call.ensure (caller = admin) .unauthorized

def State.ByOwner (s : State Address Ledger) (env : Env Address contract) (caller : Address) :
    Prop := caller ∈ env.signers ∧ s.owner = some caller

def State.ByAdmin (s : State Address Ledger) (env : Env Address contract) (caller : Address) :
    Prop := caller ∈ env.signers ∧ s.admin = some caller

omit [DecidableEq Address] in
@[simp] theorem run_getAdmin_eq_ok {admin : Address} :
    getAdmin.run s = .ok admin s' ↔ s.admin = some admin ∧ s = s' := by
  simp [getAdmin, and_comm]

@[simp] theorem run_requireOwnerAuth_eq_ok :
    (requireOwnerAuth env caller).run s = .ok u s' ↔ s.ByOwner env caller ∧ s = s' := by
  simp [requireOwnerAuth, State.ByOwner, and_assoc]

@[simp] theorem run_requireOwner_eq_ok :
    (requireOwner caller).run s = .ok u s' ↔ s.owner = some caller ∧ s = s' := by
  simp [requireOwner, and_comm]

@[simp] theorem run_requireAdmin_eq_ok :
    (requireAdmin env caller).run s = .ok u s' ↔ s.ByAdmin env caller ∧ s = s' := by
  simp [requireAdmin, State.ByAdmin, and_assoc]

/-! Setters of the owner. -/

/-- The new authorized caller is the owner that makes the call. -/
def setAuthorizedCaller (env : Env Address contract) (caller : Address) :
    Tx Address Ledger Unit := do
  requireOwnerAuth env caller
  Call.modify fun s => { s with authorizedCaller := some caller }

def pause (env : Env Address contract) (caller : Address) : Tx Address Ledger Unit := do
  requireOwnerAuth env caller
  Call.modify fun s => { s with paused := some true }

def unpause (env : Env Address contract) (caller : Address) : Tx Address Ledger Unit := do
  requireOwnerAuth env caller
  Call.modify fun s => { s with paused := some false }

def setMaxDeduct (env : Env Address contract) (caller : Address) (maxDeduct : I128) :
    Tx Address Ledger Unit := do
  requireOwnerAuth env caller
  Call.require (¬maxDeduct.val ≤ 0) (.message "max_deduct must be positive")
  Call.modify fun s => { s with maxDeduct := some maxDeduct }

def setSettlement (env : Env Address contract) (caller settlement : Address) :
    Tx Address Ledger Unit := do
  requireOwnerAuth env caller
  Call.modify fun s => { s with settlement := some settlement }

/-- The cap is stored and published; no deposit reads it. -/
def setReserveCap (env : Env Address contract) (caller token : Address) (cap : I128) :
    Tx Address Ledger Unit := do
  requireAuth env caller
  requireOwner caller
  Call.ensure (¬cap.val ≤ 0) .amountNotPositive
  let s ← Call.load
  let prev := s.reserveCap token
  Call.modify fun s => { s with reserveCap := s.reserveCap.set token cap }
  publish (.reserveCapSet caller token prev cap)

def pruneRequest (caller : Address) (id : String) : Tx Address Ledger Unit := do
  let s ← Call.load
  if (s.processedRequest id).isSome then do
    Call.modify fun s => { s with processedRequest := s.processedRequest.remove id }
    publish (.requestIdPruned caller id)
  else pure ()

def pruneProcessedRequests (env : Env Address contract) (caller : Address) (ids : List String) :
    Tx Address Ledger Unit := do
  requireAuth env caller
  requireOwner caller
  forM ids (pruneRequest caller)

theorem run_setAuthorizedCaller_eq_ok :
    (setAuthorizedCaller env caller).run s = .ok u s' ↔
      s.ByOwner env caller ∧ s' = { s with authorizedCaller := some caller } := by
  simp [setAuthorizedCaller, eq_comm (a := s')]

theorem run_pause_eq_ok :
    (pause env caller).run s = .ok u s' ↔
      s.ByOwner env caller ∧ s' = { s with paused := some true } := by
  simp [pause, eq_comm (a := s')]

theorem run_unpause_eq_ok :
    (unpause env caller).run s = .ok u s' ↔
      s.ByOwner env caller ∧ s' = { s with paused := some false } := by
  simp [unpause, eq_comm (a := s')]

theorem run_setMaxDeduct_eq_ok {maxDeduct : I128} :
    (setMaxDeduct env caller maxDeduct).run s = .ok u s' ↔
      s.ByOwner env caller ∧ 0 < maxDeduct.val ∧ s' = { s with maxDeduct := some maxDeduct } := by
  simp [setMaxDeduct, eq_comm (a := s')]

theorem run_setSettlement_eq_ok {settlement : Address} :
    (setSettlement env caller settlement).run s = .ok u s' ↔
      s.ByOwner env caller ∧ s' = { s with settlement := some settlement } := by
  simp [setSettlement, eq_comm (a := s')]

theorem run_setReserveCap_eq_ok {token : Address} {cap : I128} :
    (setReserveCap env caller token cap).run s = .ok u s' ↔
      s.ByOwner env caller ∧ 0 < cap.val ∧ s' = { s with
        reserveCap := s.reserveCap.set token cap
        events := s.events ++ [.reserveCapSet caller token (s.reserveCap token) cap] } := by
  simp [setReserveCap, State.ByOwner, and_assoc, eq_comm (a := s')]

omit [DecidableEq Address] in
theorem frame_of_prune {ids : List String}
    (h : (forM ids (pruneRequest caller)).run s = .ok u s') :
    ∃ markers events, s' = { s with processedRequest := markers, events := events } := by
  apply Call.forM_invariant (P := fun t => ∃ markers events,
    t = { s with processedRequest := markers, events := events }) h ⟨_, _, rfl⟩
  rintro id - t t' ⟨_, _, rfl⟩ hid
  simp only [pruneRequest, Call.run_bind_eq_ok, Call.run_load_eq_ok, Call.run_ite_eq_ok,
    Call.run_modify_eq_ok, run_publish_eq_ok, Call.run_pure_eq_ok, existsAndEq, true_and] at hid
  rcases hid with ⟨_, _, hpruned⟩ | ⟨_, hsame⟩
  · exact ⟨_, _, hpruned.symm⟩
  · exact ⟨_, _, hsame.symm⟩

theorem run_pruneProcessedRequests_eq_ok {ids : List String} :
    (pruneProcessedRequests env caller ids).run s = .ok u s' ↔
      s.ByOwner env caller ∧ (forM ids (pruneRequest caller)).run s = .ok () s' := by
  simp [pruneProcessedRequests, State.ByOwner, and_assoc]

/-! The admin transfer. -/

def setAdmin (env : Env Address contract) (caller newAdmin : Address) :
    Tx Address Ledger Unit := do
  requireAdmin env caller
  Call.modify fun s => { s with pendingAdmin := some newAdmin }

def acceptAdmin (env : Env Address contract) : Tx Address Ledger Unit := do
  let s ← Call.load
  let newAdmin ← Call.okOr s.pendingAdmin .noAdminTransferPending
  requireAuth env newAdmin
  Call.modify fun s => { s with admin := some newAdmin, pendingAdmin := none }

theorem run_setAdmin_eq_ok {newAdmin : Address} :
    (setAdmin env caller newAdmin).run s = .ok u s' ↔
      s.ByAdmin env caller ∧ s' = { s with pendingAdmin := some newAdmin } := by
  simp [setAdmin, eq_comm (a := s')]

theorem run_acceptAdmin_eq_ok :
    (acceptAdmin env).run s = .ok u s' ↔ ∃ newAdmin, s.pendingAdmin = some newAdmin ∧
      newAdmin ∈ env.signers ∧ s' = { s with admin := some newAdmin, pendingAdmin := none } := by
  simp [acceptAdmin, eq_comm (a := s')]

/-! The timelock. -/

def getTimelockWindow (s : State Address Ledger) : ℕ :=
  s.timelockWindow.getD DEFAULT_TIMELOCK_SECONDS

def saturatingDeadline (proposedAt window : ℕ) : Option ℕ :=
  if window = 0 then some proposedAt
  else do
    let delta ← checkedSubU64 U64_MAX proposedAt
    if delta < window then none else checkedAddU64 proposedAt window

def setTimelockWindow (env : Env Address contract) (caller : Address) (window : ℕ) :
    Tx Address Ledger Unit := do
  requireAdmin env caller
  Call.ensure (¬(window < MIN_TIMELOCK_SECONDS ∨ MAX_TIMELOCK_SECONDS < window))
    .invalidTimelockWindow
  Call.modify fun s => { s with timelockWindow := some window }
  let s ← Call.load
  publish (.timelockWindowChanged caller (getTimelockWindow s) window)

def propose {α : Type} (env : Env Address contract) (action : α) :
    Tx Address Ledger (Proposal α) := do
  let s ← Call.load
  let proposedAt := env.timestamp
  let executeAfter ← Call.okOr (saturatingDeadline proposedAt (getTimelockWindow s))
    .timelockOverflow
  pure ⟨action, proposedAt, executeAfter⟩

def takeProposal {α : Type} (env : Env Address contract)
    (slot : State Address Ledger → Option (Proposal α)) : Tx Address Ledger (Proposal α) := do
  let s ← Call.load
  let proposal ← Call.okOr (slot s) .proposalNotFound
  Call.ensure (¬env.timestamp < proposal.executeAfter) .timelockNotExpired
  pure proposal

def proposePause (env : Env Address contract) (caller : Address) : Tx Address Ledger Unit := do
  requireAdmin env caller
  let proposal ← propose env ()
  Call.modify fun s => { s with pendingPause := some proposal }
  publish (.pauseProposed caller proposal.proposedAt proposal.executeAfter)

def executePause (env : Env Address contract) (caller : Address) : Tx Address Ledger Unit := do
  requireAdmin env caller
  let _ ← takeProposal env State.pendingPause
  Call.modify fun s => { s with paused := some true, pendingPause := none }
  publish (.pauseExecuted caller env.timestamp)
  publish (.vaultPaused caller)

/-- Cancelling succeeds and is published whether or not there is a proposal. -/
def cancelPause (env : Env Address contract) (caller : Address) : Tx Address Ledger Unit := do
  requireAdmin env caller
  let s ← Call.load
  let existing := s.pendingPause
  Call.modify fun s => { s with pendingPause := none }
  publish (.pauseCancelled caller existing.isSome)

def proposeUpgrade (env : Env Address contract) (caller : Address) (newWasmHash : WasmHash) :
    Tx Address Ledger Unit := do
  requireAdmin env caller
  let proposal ← propose env newWasmHash
  Call.modify fun s => { s with pendingUpgrade := some proposal }
  publish (.upgradeProposed caller newWasmHash proposal.proposedAt proposal.executeAfter)

def executeUpgrade (env : Env Address contract) (caller : Address) : Tx Address Ledger Unit := do
  requireAdmin env caller
  let proposal ← takeProposal env State.pendingUpgrade
  let wasmHash := proposal.action
  let _admin ← getAdmin
  Call.require (env.uploaded wasmHash) .hostCall
  Call.modify fun s => { s with
    wasm := some wasmHash
    contractVersion := some wasmHash
    pendingUpgrade := none }
  publish (.upgradeExecuted caller env.timestamp)
  publish (.upgraded caller wasmHash)

def cancelUpgrade (env : Env Address contract) (caller : Address) : Tx Address Ledger Unit := do
  requireAdmin env caller
  let s ← Call.load
  let existing := s.pendingUpgrade
  Call.modify fun s => { s with pendingUpgrade := none }
  publish (.upgradeCancelled caller existing.isSome)

def proposeSweep (env : Env Address contract) (caller «to» : Address) (amount : I128) :
    Tx Address Ledger Unit := do
  requireAdmin env caller
  Call.ensure (¬amount.val ≤ 0) .amountNotPositive
  let proposal ← propose env (Sweep.mk «to» amount)
  Call.modify fun s => { s with pendingSweep := some proposal }
  publish (.sweepProposed caller «to» amount proposal.proposedAt proposal.executeAfter)

/-- The amount is compared with what the vault holds, not with what it holds untracked. -/
def executeSweep (T : TokenContract Address Ledger) (env : Env Address contract)
    (caller : Address) : Tx Address Ledger Unit := do
  requireAdmin env caller
  let proposal ← takeProposal env State.pendingSweep
  let sweep := proposal.action
  let s ← Call.load
  let usdcAddr ← Call.okOr s.usdcToken .notInitialized
  Call.ensure (¬T.balance s.ledger usdcAddr contract < sweep.amount.val) .insufficientBalance
  transfer T usdcAddr contract sweep.to sweep.amount
  publish (.sweepExecuted caller sweep.to sweep.amount env.timestamp)
  publish (.distribute sweep.to sweep.amount)
  Call.modify fun s => { s with pendingSweep := none }

def cancelSweep (env : Env Address contract) (caller : Address) : Tx Address Ledger Unit := do
  requireAdmin env caller
  let s ← Call.load
  let existing := s.pendingSweep
  Call.modify fun s => { s with pendingSweep := none }
  publish (.sweepCancelled caller existing.isSome)

def State.Stages {α : Type} (s : State Address Ledger) (env : Env Address contract) (action : α)
    (proposal : Proposal α) : Prop :=
  proposal = ⟨action, env.timestamp, env.timestamp + getTimelockWindow s⟩ ∧
    (getTimelockWindow s = 0 ∨ env.timestamp + getTimelockWindow s ≤ U64_MAX)

theorem saturatingDeadline_eq_some {proposedAt window deadline : ℕ} :
    saturatingDeadline proposedAt window = some deadline ↔
      deadline = proposedAt + window ∧ (window = 0 ∨ proposedAt + window ≤ U64_MAX) := by
  unfold saturatingDeadline checkedSubU64 checkedAddU64
  by_cases hw : window = 0
  · simp [hw, eq_comm]
  · by_cases hp : proposedAt ≤ U64_MAX
    · have hle : U64_MAX - proposedAt < window ↔ ¬proposedAt + window ≤ U64_MAX := by omega
      by_cases hd : proposedAt + window ≤ U64_MAX <;> simp [hw, hp, hle, hd, eq_comm]
    · have hd : ¬proposedAt + window ≤ U64_MAX := by omega
      simp [hw, hp, hd]

omit [DecidableEq Address] in
@[simp] theorem run_propose_eq_ok {α : Type} {action : α} {proposal : Proposal α} :
    (propose env action).run s = .ok proposal s' ↔ s.Stages env action proposal ∧ s = s' := by
  obtain ⟨a, proposedAt, executeAfter⟩ := proposal
  simp only [propose, Call.run_bind_eq_ok, Call.run_load_eq_ok, Call.run_okOr_eq_ok,
    saturatingDeadline_eq_some, Call.run_pure_eq_ok, existsAndEq, true_and, State.Stages,
    Proposal.mk.injEq]
  constructor
  · rintro ⟨⟨hdue, -⟩, ⟨rfl, rfl, rfl⟩, rfl⟩
    exact ⟨⟨⟨rfl, rfl, rfl⟩, hdue⟩, rfl⟩
  · rintro ⟨⟨⟨rfl, rfl, rfl⟩, hdue⟩, rfl⟩
    exact ⟨⟨hdue, trivial⟩, ⟨rfl, rfl, rfl⟩, rfl⟩

omit [DecidableEq Address] in
@[simp] theorem run_takeProposal_eq_ok {α : Type}
    {slot : State Address Ledger → Option (Proposal α)} {proposal : Proposal α} :
    (takeProposal env slot).run s = .ok proposal s' ↔
      (slot s = some proposal ∧ proposal.executeAfter ≤ env.timestamp) ∧ s = s' := by
  simp only [takeProposal, Call.run_bind_eq_ok, Call.run_load_eq_ok, Call.run_okOr_eq_ok,
    Call.run_ensure_eq_ok, Call.run_pure_eq_ok, existsAndEq, and_assoc, exists_const, true_and,
    not_lt]

theorem run_setTimelockWindow_eq_ok {window : ℕ} :
    (setTimelockWindow env caller window).run s = .ok u s' ↔
      s.ByAdmin env caller ∧ MIN_TIMELOCK_SECONDS ≤ window ∧ window ≤ MAX_TIMELOCK_SECONDS ∧
      s' = { s with
        timelockWindow := some window
        events := s.events ++ [.timelockWindowChanged caller window window] } := by
  simp [setTimelockWindow, getTimelockWindow, and_assoc, eq_comm (a := s')]

theorem run_proposePause_eq_ok :
    (proposePause env caller).run s = .ok u s' ↔
      s.ByAdmin env caller ∧ ∃ proposal, s.Stages env () proposal ∧ s' = { s with
        pendingPause := some proposal
        events := s.events ++
          [.pauseProposed caller proposal.proposedAt proposal.executeAfter] } := by
  simp [proposePause, eq_comm (a := s')]

theorem run_executePause_eq_ok :
    (executePause env caller).run s = .ok u s' ↔
      s.ByAdmin env caller ∧ ∃ proposal, s.pendingPause = some proposal ∧
        proposal.executeAfter ≤ env.timestamp ∧ s' = { s with
          paused := some true
          pendingPause := none
          events := s.events ++ [.pauseExecuted caller env.timestamp, .vaultPaused caller] } := by
  simp [executePause, and_assoc, eq_comm (a := s')]

theorem run_cancelPause_eq_ok :
    (cancelPause env caller).run s = .ok u s' ↔
      s.ByAdmin env caller ∧ s' = { s with
        pendingPause := none
        events := s.events ++ [.pauseCancelled caller s.pendingPause.isSome] } := by
  simp [cancelPause, eq_comm (a := s')]

theorem run_proposeUpgrade_eq_ok {newWasmHash : WasmHash} :
    (proposeUpgrade env caller newWasmHash).run s = .ok u s' ↔
      s.ByAdmin env caller ∧ ∃ proposal, s.Stages env newWasmHash proposal ∧ s' = { s with
        pendingUpgrade := some proposal
        events := s.events ++ [.upgradeProposed caller newWasmHash proposal.proposedAt
          proposal.executeAfter] } := by
  simp [proposeUpgrade, eq_comm (a := s')]

theorem run_executeUpgrade_eq_ok :
    (executeUpgrade env caller).run s = .ok u s' ↔
      s.ByAdmin env caller ∧ ∃ proposal, s.pendingUpgrade = some proposal ∧
        proposal.executeAfter ≤ env.timestamp ∧ env.uploaded proposal.action ∧ s' = { s with
          wasm := some proposal.action
          contractVersion := some proposal.action
          pendingUpgrade := none
          events := s.events ++
            [.upgradeExecuted caller env.timestamp, .upgraded caller proposal.action] } := by
  simp only [executeUpgrade, Call.run_bind_eq_ok, run_requireAdmin_eq_ok, run_takeProposal_eq_ok,
    run_getAdmin_eq_ok, Call.run_require_eq_ok, Call.run_modify_eq_ok, run_publish_eq_ok,
    existsAndEq, and_assoc, exists_and_left, exists_const, true_and, List.append_assoc,
    List.singleton_append]
  constructor
  · intro h
    obtain ⟨hadmin, proposal, hpending, hdue, _, -, huploaded, hs⟩ := h
    exact ⟨hadmin, proposal, hpending, hdue, huploaded, hs.symm⟩
  · intro h
    obtain ⟨hadmin, proposal, hpending, hdue, huploaded, rfl⟩ := h
    -- the admin that the call reads again is still the caller
    exact ⟨hadmin, proposal, hpending, hdue, caller, hadmin.2, huploaded, rfl⟩

theorem run_cancelUpgrade_eq_ok :
    (cancelUpgrade env caller).run s = .ok u s' ↔
      s.ByAdmin env caller ∧ s' = { s with
        pendingUpgrade := none
        events := s.events ++ [.upgradeCancelled caller s.pendingUpgrade.isSome] } := by
  simp [cancelUpgrade, eq_comm (a := s')]

theorem run_proposeSweep_eq_ok {«to» : Address} {amount : I128} :
    (proposeSweep env caller «to» amount).run s = .ok u s' ↔
      s.ByAdmin env caller ∧ 0 < amount.val ∧ ∃ proposal, s.Stages env ⟨«to», amount⟩ proposal ∧
        s' = { s with
          pendingSweep := some proposal
          events := s.events ++ [.sweepProposed caller «to» amount proposal.proposedAt
            proposal.executeAfter] } := by
  simp [proposeSweep, eq_comm (a := s')]

theorem run_executeSweep_eq_ok {T : TokenContract Address Ledger} :
    (executeSweep T env caller).run s = .ok u s' ↔
      s.ByAdmin env caller ∧ ∃ proposal usdc ledger, s.pendingSweep = some proposal ∧
        proposal.executeAfter ≤ env.timestamp ∧ s.usdcToken = some usdc ∧
        proposal.action.amount.val ≤ T.balance s.ledger usdc contract ∧
        T.transfer s.ledger usdc contract proposal.action.to proposal.action.amount.val =
          some ledger ∧
        s' = { s with
          ledger := ledger
          pendingSweep := none
          events := s.events ++ [.sweepExecuted caller proposal.action.to proposal.action.amount
            env.timestamp, .distribute proposal.action.to proposal.action.amount] } := by
  simp [executeSweep, and_assoc, eq_comm (a := s')]

theorem run_cancelSweep_eq_ok :
    (cancelSweep env caller).run s = .ok u s' ↔
      s.ByAdmin env caller ∧ s' = { s with
        pendingSweep := none
        events := s.events ++ [.sweepCancelled caller s.pendingSweep.isSome] } := by
  simp [cancelSweep, eq_comm (a := s')]

end Callora.Vault
