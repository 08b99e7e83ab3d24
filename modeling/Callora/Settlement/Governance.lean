import Callora.Settlement.Payments

/-! What the admin may do: limits, the timelocked balance migration, the V1 to V2 storage
migration, and the two-step rotations of admin and vault. -/

namespace Callora.Settlement
open Library

variable {Address Ledger : Type} [LinearOrder Address] {contract : Address}
  {s s' : State Address Ledger} {u : Unit}

/-! Configuration and limits. -/

def setUsdcToken (env : Env Address contract) (caller usdcAddress : Address) :
    Tx Address Ledger Unit := do
  requireAuth env caller
  let currentAdmin ← getAdmin
  Call.require (caller = currentAdmin) (.message "unauthorized: caller is not admin")
  Call.require (usdcAddress ≠ contract)
    (.message "invalid config: usdc_token cannot be the contract itself")
  Call.modify fun s => { s with usdc := some usdcAddress }

def setDeveloperMinBalance (env : Env Address contract) (caller developer : Address)
    (minBalance : I128) : Tx Address Ledger Unit := do
  requireAdmin env caller
  Call.require (¬minBalance.val < 0) (.message "minimum balance must be non-negative")
  Call.modify fun s => { s with
    developerMinBalance := s.developerMinBalance.set developer minBalance }
  publish (.developerMinBalanceChanged developer minBalance)

def setMinimumBalance (env : Env Address contract) (caller developer : Address)
    (minBalance : I128) : Tx Address Ledger Unit :=
  setDeveloperMinBalance env caller developer minBalance

def setDeveloperClaimWindow (env : Env Address contract) (caller developer : Address)
    (startTs endTs : ℕ) : Tx Address Ledger Unit := do
  ensureAdmin env caller
  Call.ensure (¬endTs < startTs) .invalidClaimWindow
  Call.modify fun s => { s with
    developerClaimWindow := s.developerClaimWindow.set developer ⟨startTs, endTs⟩ }
  publish (.claimWindowChanged developer startTs endTs true)

def clearDeveloperClaimWindow (env : Env Address contract) (caller developer : Address) :
    Tx Address Ledger Unit := do
  ensureAdmin env caller
  Call.modify fun s => { s with developerClaimWindow := s.developerClaimWindow.remove developer }
  publish (.claimWindowChanged developer 0 0 false)

/-- The sign of `cap` is not checked. -/
def setDailyWithdrawCap (env : Env Address contract) (caller developer : Address) (cap : I128) :
    Tx Address Ledger Unit := do
  requireAdmin env caller
  Call.modify fun s => { s with dailyWithdrawCap := s.dailyWithdrawCap.set developer cap }
  publish (.dailyWithdrawCapChanged caller developer cap)

theorem run_setUsdcToken_eq_ok {env : Env Address contract} {caller usdcAddress : Address} :
    (setUsdcToken env caller usdcAddress).run s = .ok u s' ↔
      s.ByAdmin env caller ∧ usdcAddress ≠ contract ∧
      s' = { s with usdc := some usdcAddress } := by
  simp [setUsdcToken, State.ByAdmin, and_assoc, eq_comm (a := s')]

theorem run_setDeveloperMinBalance_eq_ok {env : Env Address contract}
    {caller developer : Address} {minBalance : I128} :
    (setDeveloperMinBalance env caller developer minBalance).run s = .ok u s' ↔
      s.ByAdmin env caller ∧ 0 ≤ minBalance.val ∧ s' = { s with
        developerMinBalance := s.developerMinBalance.set developer minBalance
        events := s.events ++ [.developerMinBalanceChanged developer minBalance] } := by
  simp [setDeveloperMinBalance, eq_comm (a := s')]

theorem run_setDeveloperClaimWindow_eq_ok {env : Env Address contract}
    {caller developer : Address} {startTs endTs : ℕ} :
    (setDeveloperClaimWindow env caller developer startTs endTs).run s = .ok u s' ↔
      s.ByAdmin env caller ∧ startTs ≤ endTs ∧ s' = { s with
        developerClaimWindow := s.developerClaimWindow.set developer ⟨startTs, endTs⟩
        events := s.events ++ [.claimWindowChanged developer startTs endTs true] } := by
  simp [setDeveloperClaimWindow, eq_comm (a := s')]

theorem run_clearDeveloperClaimWindow_eq_ok {env : Env Address contract}
    {caller developer : Address} :
    (clearDeveloperClaimWindow env caller developer).run s = .ok u s' ↔
      s.ByAdmin env caller ∧ s' = { s with
        developerClaimWindow := s.developerClaimWindow.remove developer
        events := s.events ++ [.claimWindowChanged developer 0 0 false] } := by
  simp [clearDeveloperClaimWindow, eq_comm (a := s')]

theorem run_setDailyWithdrawCap_eq_ok {env : Env Address contract} {caller developer : Address}
    {cap : I128} :
    (setDailyWithdrawCap env caller developer cap).run s = .ok u s' ↔
      s.ByAdmin env caller ∧ s' = { s with
        dailyWithdrawCap := s.dailyWithdrawCap.set developer cap
        events := s.events ++ [.dailyWithdrawCapChanged caller developer cap] } := by
  simp [setDailyWithdrawCap, eq_comm (a := s')]

/-! Balance migration. -/

/-- `get_usdc` of the admin operations, which traps where `get_usdc_token` errs. -/
def requireUsdc : Tx Address Ledger Address := do
  let s ← Call.load
  Call.unwrap s.usdc (.error .usdcTokenNotConfigured)

def proposeBalanceMigration (env : Env Address contract) (caller «from» «to» : Address) :
    Tx Address Ledger Unit := do
  requireAdmin env caller
  Call.require («from» ≠ «to») (.error .migrationSameAddress)
  Call.require («to» ≠ contract) (.error .invalidMigrationTarget)
  let usdcToken ← requireUsdc
  let s ← Call.load
  let amount := s.balanceOf «from» usdcToken
  Call.require (¬amount.val ≤ 0) (.error .noDeveloperBalance)
  let proposedAt := env.timestamp
  let executeAfter ← Call.unwrap (checkedAddU64 proposedAt DEVELOPER_MIGRATION_TIMELOCK_SECONDS)
    (.error .timelockOverflow)
  let migration := ⟨«from», «to», amount, proposedAt, executeAfter⟩
  Call.modify fun s => { s with
    pendingDeveloperMigration := s.pendingDeveloperMigration.set «from» migration }
  publish (.adminMigrationProposed migration)

def executeBalanceMigration (env : Env Address contract) (caller «from» : Address) :
    Tx Address Ledger Unit := do
  requireAdmin env caller
  let s ← Call.load
  let migration ← Call.unwrap (s.pendingDeveloperMigration «from») (.error .migrationNotFound)
  Call.require (¬env.timestamp < migration.executeAfter) (.error .timelockNotExpired)
  let usdcToken ← requireUsdc
  let newSourceBalance ← Call.unwrap
    (((s.balanceOf «from» usdcToken).checkedSub migration.amount).filter fun b => 0 ≤ b.val)
    (.error .migrationBalanceChanged)
  let newDestinationBalance ← Call.unwrap
    ((s.balanceOf migration.to usdcToken).checkedAdd migration.amount) (.error .developerOverflow)
  Call.modify fun s => { s with
    developerBalance := (s.developerBalance.set («from», usdcToken) newSourceBalance).set
      (migration.to, usdcToken) newDestinationBalance
    developerIndex := some (sortedInsert (s.developerIndex.getD []) migration.to)
    pendingDeveloperMigration := s.pendingDeveloperMigration.remove «from» }
  publish (.adminMigration «from» migration.to migration.amount env.timestamp)

omit [LinearOrder Address] in
@[simp] theorem run_requireUsdc_eq_ok {usdc : Address} :
    requireUsdc.run s = .ok usdc s' ↔ s.usdc = some usdc ∧ s = s' := by
  simp [requireUsdc, and_comm]

theorem run_proposeBalanceMigration_eq_ok {env : Env Address contract}
    {caller «from» «to» : Address} :
    (proposeBalanceMigration env caller «from» «to»).run s = .ok u s' ↔
      (s.ByAdmin env caller ∧ «from» ≠ «to» ∧ «to» ≠ contract) ∧ ∃ usdcToken,
        s.usdc = some usdcToken ∧ 0 < (s.balanceOf «from» usdcToken).val ∧
        env.timestamp + DEVELOPER_MIGRATION_TIMELOCK_SECONDS ≤ U64_MAX ∧
        let migration := ⟨«from», «to», s.balanceOf «from» usdcToken, env.timestamp,
          env.timestamp + DEVELOPER_MIGRATION_TIMELOCK_SECONDS⟩
        s' = { s with
          pendingDeveloperMigration := s.pendingDeveloperMigration.set «from» migration
          events := s.events ++ [.adminMigrationProposed migration] } := by
  simp [proposeBalanceMigration, and_assoc, eq_comm (a := s')]

theorem run_executeBalanceMigration_eq_ok {env : Env Address contract}
    {caller «from» : Address} :
    (executeBalanceMigration env caller «from»).run s = .ok u s' ↔
      s.ByAdmin env caller ∧ ∃ migration usdcToken newSourceBalance newDestinationBalance,
        s.pendingDeveloperMigration «from» = some migration ∧
        migration.executeAfter ≤ env.timestamp ∧ s.usdc = some usdcToken ∧
        newSourceBalance.val = (s.balanceOf «from» usdcToken).val - migration.amount.val ∧
        0 ≤ newSourceBalance.val ∧
        newDestinationBalance.val =
          (s.balanceOf migration.to usdcToken).val + migration.amount.val ∧
        s' = { s with
          developerBalance := (s.developerBalance.set («from», usdcToken) newSourceBalance).set
            (migration.to, usdcToken) newDestinationBalance
          developerIndex := some (sortedInsert (s.developerIndex.getD []) migration.to)
          pendingDeveloperMigration := s.pendingDeveloperMigration.remove «from»
          events := s.events ++
            [.adminMigration «from» migration.to migration.amount env.timestamp] } := by
  simp [executeBalanceMigration, and_assoc, eq_comm (a := s')]

/-! Storage migration. -/

def storageVersion (s : State Address Ledger) : ℕ := s.storageVersion.getD STORAGE_VERSION_V1

def migrateDeveloperSlot (usdcToken addr : Address) : Tx Address Ledger Unit := do
  let s ← Call.load
  match s.developerBalanceV1 addr with
  | some v1 =>
    let merged ← Call.unwrap (v1.checkedAdd (s.balanceOf addr usdcToken))
      (.error .developerOverflow)
    Call.modify fun s => { s with
      developerBalance := s.developerBalance.set (addr, usdcToken) merged
      developerBalanceV1 := s.developerBalanceV1.remove addr }
  | none => pure ()

def finishMigration : Tx Address Ledger Unit := do
  Call.modify fun s => { s with storageVersion := some STORAGE_VERSION_V2 }
  publish (.migV1V2Done STORAGE_VERSION_V2)

def migrateV1ToV2 (env : Env Address contract) (caller : Address) : Tx Address Ledger Unit := do
  requireAdmin env caller
  let s ← Call.load
  if STORAGE_VERSION_V2 ≤ storageVersion s then pure ()
  else
    let usdcToken ← requireUsdc
    forM (s.developerIndex.getD []) (migrateDeveloperSlot usdcToken)
    finishMigration

/-- The loop of `migrate_v1_to_v2_page`, with the position `i` of the head of the list. -/
def migratePage (usdcToken : Address) (offset stop : ℕ) :
    ℕ → List Address → Tx Address Ledger Unit
  | _, [] => pure ()
  | i, addr :: addrs =>
    if stop ≤ i then pure ()
    else do
      if offset ≤ i then migrateDeveloperSlot usdcToken addr else pure ()
      migratePage usdcToken offset stop (saturatingAddU32 i 1) addrs

def migrateV1ToV2Page (env : Env Address contract) (caller : Address) (offset batchSize : ℕ) :
    Tx Address Ledger (ℕ × Bool) := do
  requireAdmin env caller
  let s ← Call.load
  if STORAGE_VERSION_V2 ≤ storageVersion s then pure (0, true)
  else
    let usdcToken ← requireUsdc
    let index := s.developerIndex.getD []
    let total := index.length
    let effective := if batchSize = 0 then 1 else min batchSize MAX_BATCH_SIZE
    let stop := min (saturatingAddU32 offset effective) total
    migratePage usdcToken offset stop 0 index
    if total ≤ stop then finishMigration else pure ()
    pure (stop, decide (total ≤ stop))

def migrateSingleDeveloper (env : Env Address contract) (caller developer : Address) :
    Tx Address Ledger Unit := do
  requireAdmin env caller
  let usdcToken ← getUsdcToken
  migrateDeveloperSlot usdcToken developer

def SlotMerged (usdcToken : Address) (s s' : State Address Ledger) : Prop :=
  ∃ addr v1 merged, s.developerBalanceV1 addr = some v1 ∧
    merged.val = v1.val + (s.balanceOf addr usdcToken).val ∧
    s' = { s with
      developerBalance := s.developerBalance.set (addr, usdcToken) merged
      developerBalanceV1 := s.developerBalanceV1.remove addr }

def Migrated (usdcToken : Address) : State Address Ledger → State Address Ledger → Prop :=
  Relation.ReflTransGen (SlotMerged usdcToken)

theorem migrated_of_migrateDeveloperSlot {usdcToken addr : Address}
    (h : (migrateDeveloperSlot usdcToken addr).run s = .ok u s') : Migrated usdcToken s s' := by
  rcases hv1 : s.developerBalanceV1 addr with _ | v1
  · simp [migrateDeveloperSlot, hv1] at h
    exact h ▸ .refl
  · simp [migrateDeveloperSlot, hv1] at h
    obtain ⟨merged, hmerged, rfl⟩ := h
    exact .single ⟨addr, v1, merged, hv1, hmerged, rfl⟩

theorem migrated_of_forM {usdcToken : Address} {index : List Address}
    (h : (forM index (migrateDeveloperSlot usdcToken)).run s = .ok u s') :
    Migrated usdcToken s s' :=
  Call.forM_invariant (P := Migrated usdcToken s) h .refl
    fun _ _ _ _ hs hslot => hs.trans (migrated_of_migrateDeveloperSlot hslot)

theorem migrated_of_migratePage {usdcToken : Address} {offset stop i : ℕ} {index : List Address}
    (h : (migratePage usdcToken offset stop i index).run s = .ok u s') :
    Migrated usdcToken s s' := by
  induction index generalizing i s with
  | nil =>
    obtain ⟨-, rfl⟩ := Call.run_pure_eq_ok.1 h
    exact .refl
  | cons addr index ih =>
    simp only [migratePage, Call.run_ite_eq_ok, Call.run_bind_eq_ok, Call.run_pure_eq_ok] at h
    rcases h with ⟨-, -, rfl⟩ | ⟨-, ⟨-, _, s₁, hslot, hrest⟩ | ⟨-, hrest⟩⟩
    · exact .refl
    · exact (migrated_of_migrateDeveloperSlot hslot).trans (ih hrest)
    · exact ih hrest

def State.migrationDone (s : State Address Ledger) : State Address Ledger :=
  { s with
    storageVersion := some STORAGE_VERSION_V2
    events := s.events ++ [.migV1V2Done STORAGE_VERSION_V2] }

omit [LinearOrder Address] in
@[simp] theorem run_finishMigration_eq_ok :
    (finishMigration : Tx Address Ledger Unit).run s = .ok u s' ↔ s.migrationDone = s' := by
  simp [finishMigration, State.migrationDone]

theorem run_migrateV1ToV2_eq_ok {env : Env Address contract} {caller : Address} :
    (migrateV1ToV2 env caller).run s = .ok u s' ↔ s.ByAdmin env caller ∧
      ((STORAGE_VERSION_V2 ≤ storageVersion s ∧ s = s') ∨
        (storageVersion s < STORAGE_VERSION_V2 ∧ ∃ usdcToken s₁, s.usdc = some usdcToken ∧
          (forM (s.developerIndex.getD []) (migrateDeveloperSlot usdcToken)).run s = .ok () s₁ ∧
          s₁.migrationDone = s')) := by
  simp [migrateV1ToV2, Unique.exists_iff]

theorem run_migrateV1ToV2Page_eq_ok {env : Env Address contract} {caller : Address}
    {offset batchSize : ℕ} {result : ℕ × Bool} :
    (migrateV1ToV2Page env caller offset batchSize).run s = .ok result s' ↔
      s.ByAdmin env caller ∧
      ((STORAGE_VERSION_V2 ≤ storageVersion s ∧ (0, true) = result ∧ s = s') ∨
        (storageVersion s < STORAGE_VERSION_V2 ∧ ∃ usdcToken s₁, s.usdc = some usdcToken ∧
          let index := s.developerIndex.getD []
          let effective := if batchSize = 0 then 1 else min batchSize MAX_BATCH_SIZE
          let stop := min (saturatingAddU32 offset effective) index.length
          (migratePage usdcToken offset stop 0 index).run s = .ok () s₁ ∧
          (stop, decide (index.length ≤ stop)) = result ∧
          ((index.length ≤ stop ∧ s₁.migrationDone = s') ∨ (stop < index.length ∧ s₁ = s')))) := by
  simp [migrateV1ToV2Page, Unique.exists_iff, and_left_comm (b := _ = result), ← and_or_left]

theorem run_migrateSingleDeveloper_eq_ok {env : Env Address contract}
    {caller developer : Address} :
    (migrateSingleDeveloper env caller developer).run s = .ok u s' ↔ s.ByAdmin env caller ∧
      ∃ usdcToken, s.usdc = some usdcToken ∧
        (migrateDeveloperSlot usdcToken developer).run s = .ok u s' := by
  simp [migrateSingleDeveloper, and_assoc]

/-! Rotation of admin and vault. -/

def setAdmin (env : Env Address contract) (caller newAdmin : Address) :
    Tx Address Ledger Unit := do
  requireAdmin env caller
  Call.modify fun s => { s with pendingAdmin := some newAdmin }
  publish (.adminNominated caller newAdmin)

def acceptAdmin (env : Env Address contract) : Tx Address Ledger Unit := do
  let s ← Call.load
  let pending ← Call.unwrap s.pendingAdmin (.message "no admin transfer pending")
  requireAuth env pending
  let oldAdmin ← getAdmin
  Call.modify fun s => { s with
    admin := some pending
    pendingAdmin := none }
  publish (.adminAccepted oldAdmin pending)

def cancelAdminTransfer (env : Env Address contract) (caller : Address) :
    Tx Address Ledger Unit := do
  requireAdmin env caller
  let s ← Call.load
  Call.require (s.pendingAdmin ≠ none) (.message "no admin transfer pending")
  Call.modify fun s => { s with pendingAdmin := none }
  publish (.adminCancelled caller)

def proposeVault (env : Env Address contract) (caller newVault : Address) :
    Tx Address Ledger Unit := do
  requireAdmin env caller
  Call.require (newVault ≠ contract) (.message "invalid vault: cannot be the contract itself")
  let currentVault ← getVault
  Call.modify fun s => { s with pendingVault := some newVault }
  publish (.vaultProposed caller currentVault newVault)

def setVault (env : Env Address contract) (caller newVault : Address) : Tx Address Ledger Unit :=
  proposeVault env caller newVault

/-- The proposed vault may finalize its own rotation, whoever proposed it. -/
def acceptVault (env : Env Address contract) (caller : Address) : Tx Address Ledger Unit := do
  requireAuth env caller
  let s ← Call.load
  let pending ← Call.unwrap s.pendingVault (.message "no vault rotation pending")
  let admin ← getAdmin
  Call.require (caller = pending ∨ caller = admin) (.error .unauthorized)
  let oldVault ← getVault
  Call.modify fun s => { s with
    vault := some pending
    pendingVault := none }
  publish (.vaultAccepted oldVault pending caller)

def broadcast (env : Env Address contract) (caller : Address) (severity : Severity)
    (message : String) : Tx Address Ledger Unit := do
  requireAdmin env caller
  publish (.adminBroadcast caller severity message)

def upgrade (env : Env Address contract) (caller : Address) (newWasmHash : WasmHash) :
    Tx Address Ledger Unit := do
  requireAdmin env caller
  Call.require (env.uploaded newWasmHash) .hostCall
  Call.modify fun s => { s with
    wasm := some newWasmHash
    contractVersion := some newWasmHash }
  publish (.upgraded caller newWasmHash)

/-- The cursor is reported complete and nothing is withdrawn. -/
def batchWithdrawBalanceCursor (developers : List Address) (amounts : List I128)
    (_cursor _limit : ℕ) : Tx Address Ledger (ℕ × Bool) := do
  Call.ensure (developers.length = amounts.length) .amountNotPositive
  pure (0, true)

theorem run_setAdmin_eq_ok {env : Env Address contract} {caller newAdmin : Address} :
    (setAdmin env caller newAdmin).run s = .ok u s' ↔ s.ByAdmin env caller ∧
      s' = { s with
        pendingAdmin := some newAdmin
        events := s.events ++ [.adminNominated caller newAdmin] } := by
  simp [setAdmin, eq_comm (a := s')]

theorem run_acceptAdmin_eq_ok {env : Env Address contract} :
    (acceptAdmin env).run s = .ok u s' ↔ ∃ pending oldAdmin, s.pendingAdmin = some pending ∧
      pending ∈ env.signers ∧ s.admin = some oldAdmin ∧ s' = { s with
        admin := some pending
        pendingAdmin := none
        events := s.events ++ [.adminAccepted oldAdmin pending] } := by
  simp [acceptAdmin, and_assoc, eq_comm (a := s')]

theorem run_cancelAdminTransfer_eq_ok {env : Env Address contract} {caller : Address} :
    (cancelAdminTransfer env caller).run s = .ok u s' ↔ s.ByAdmin env caller ∧
      s.pendingAdmin ≠ none ∧ s' = { s with
        pendingAdmin := none
        events := s.events ++ [.adminCancelled caller] } := by
  simp [cancelAdminTransfer, and_assoc, eq_comm (a := s')]

theorem run_proposeVault_eq_ok {env : Env Address contract} {caller newVault : Address} :
    (proposeVault env caller newVault).run s = .ok u s' ↔ s.ByAdmin env caller ∧
      newVault ≠ contract ∧ ∃ currentVault, s.vault = some currentVault ∧ s' = { s with
        pendingVault := some newVault
        events := s.events ++ [.vaultProposed caller currentVault newVault] } := by
  simp [proposeVault, and_assoc, eq_comm (a := s')]

theorem run_acceptVault_eq_ok {env : Env Address contract} {caller : Address} :
    (acceptVault env caller).run s = .ok u s' ↔ caller ∈ env.signers ∧
      ∃ pending admin oldVault, s.pendingVault = some pending ∧ s.admin = some admin ∧
        (caller = pending ∨ caller = admin) ∧ s.vault = some oldVault ∧ s' = { s with
          vault := some pending
          pendingVault := none
          events := s.events ++ [.vaultAccepted oldVault pending caller] } := by
  simp [acceptVault, and_assoc, eq_comm (a := s')]

theorem run_broadcast_eq_ok {env : Env Address contract} {caller : Address}
    {severity : Severity} {message : String} :
    (broadcast env caller severity message).run s = .ok u s' ↔ s.ByAdmin env caller ∧
      s' = { s with events := s.events ++ [.adminBroadcast caller severity message] } := by
  simp [broadcast, eq_comm (a := s')]

theorem run_upgrade_eq_ok {env : Env Address contract} {caller : Address}
    {newWasmHash : WasmHash} :
    (upgrade env caller newWasmHash).run s = .ok u s' ↔ s.ByAdmin env caller ∧
      env.uploaded newWasmHash ∧ s' = { s with
        wasm := some newWasmHash
        contractVersion := some newWasmHash
        events := s.events ++ [.upgraded caller newWasmHash] } := by
  simp [upgrade, and_assoc, eq_comm (a := s')]

omit [LinearOrder Address] in
theorem run_batchWithdrawBalanceCursor_eq_ok {developers : List Address} {amounts : List I128}
    {cursor limit : ℕ} {result : ℕ × Bool} :
    (batchWithdrawBalanceCursor developers amounts cursor limit).run s = .ok result s' ↔
      developers.length = amounts.length ∧ (0, true) = result ∧ s = s' := by
  simp [batchWithdrawBalanceCursor, and_assoc, and_left_comm]

end Callora.Settlement
