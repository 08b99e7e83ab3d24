import Callora.Library.Machine
import Callora.Settlement.Governance

/-! The settlement contract as a transactional machine: every entrypoint that writes, called in any
order by anybody, between which the token ledger may change in any way. -/

namespace Callora.Settlement
open Library

inductive Op (Address : Type) where
  | init (admin vaultAddress : Address)
  | receivePayment (caller : Address) (amount : I128) (toPool : Bool) (developer : Option Address)
      (token : Address) (ledgerSeq : ℕ)
  | batchReceivePayment (caller : Address) (items : List (Address × I128)) (token : Address)
      (ledgerSeq : ℕ)
  | setDeveloperMinBalance (caller developer : Address) (minBalance : I128)
  | setMinimumBalance (caller developer : Address) (minBalance : I128)
  | proposeBalanceMigration (caller «from» «to» : Address)
  | executeBalanceMigration (caller «from» : Address)
  | setUsdcToken (caller usdcAddress : Address)
  | withdrawDeveloperBalance (developer : Address) (amount : I128) («to» : Option Address)
  | setDeveloperClaimWindow (caller developer : Address) (startTs endTs : ℕ)
  | clearDeveloperClaimWindow (caller developer : Address)
  | setDailyWithdrawCap (caller developer : Address) (cap : I128)
  | forceCreditDeveloper (caller developer : Address) (amount : I128) (token : Address)
      (reason : String)
  | setAdmin (caller newAdmin : Address)
  | acceptAdmin
  | cancelAdminTransfer (caller : Address)
  | proposeVault (caller newVault : Address)
  | setVault (caller newVault : Address)
  | acceptVault (caller : Address)
  | broadcast (caller : Address) (severity : Severity) (message : String)
  | upgrade (caller : Address) (newWasmHash : WasmHash)
  | migrateDeveloperBalance (caller developer : Address)
  | migrateSingleDevV2 (caller developer : Address)
  | migrateV1ToV2 (caller : Address)
  | migrateV1ToV2Page (caller : Address) (offset batchSize : ℕ)
  | batchWithdrawBalanceCursor (developers : List Address) (amounts : List I128)
      (cursor limit : ℕ)
  | batchSettle (settlements : List (SettleInput Address))
deriving DecidableEq

inductive Ret where
  | unit
  | page (nextOffset : ℕ) (isComplete : Bool)
  | outcomes (outcomes : List SettleOutcome)
deriving DecidableEq

inductive Input (Address Ledger : Type) (contract : Address) where
  | call (env : Env Address contract) (op : Op Address)
  | ledgerMoves (ledger : Ledger)

variable {Address Ledger : Type} [LinearOrder Address] {contract : Address}
  {T : TokenContract Address Ledger} {env : Env Address contract} {s s' : State Address Ledger}

def returning {α : Type} (ret : α → Ret) (m : Tx Address Ledger α) : Tx Address Ledger Ret := do
  let a ← m
  pure (ret a)

omit [LinearOrder Address] in
@[simp] theorem run_returning_eq_ok {α : Type} {ret : α → Ret} {m : Tx Address Ledger α} {r : Ret} :
    (returning ret m).run s = .ok r s' ↔ ∃ a, m.run s = .ok a s' ∧ ret a = r := by
  simp [returning, and_comm]

def call (T : TokenContract Address Ledger) (env : Env Address contract) :
    Op Address → Tx Address Ledger Ret
  | .init admin vaultAddress => returning (fun _ => .unit) (init env admin vaultAddress)
  | .receivePayment caller amount toPool developer token ledgerSeq => returning (fun _ => .unit)
      (receivePayment env caller amount toPool developer token ledgerSeq)
  | .batchReceivePayment caller items token ledgerSeq => returning (fun _ => .unit)
      (batchReceivePayment env caller items token ledgerSeq)
  | .setDeveloperMinBalance caller developer minBalance => returning (fun _ => .unit)
      (setDeveloperMinBalance env caller developer minBalance)
  | .setMinimumBalance caller developer minBalance => returning (fun _ => .unit)
      (setMinimumBalance env caller developer minBalance)
  | .proposeBalanceMigration caller «from» «to» => returning (fun _ => .unit)
      (proposeBalanceMigration env caller «from» «to»)
  | .executeBalanceMigration caller «from» => returning (fun _ => .unit)
      (executeBalanceMigration env caller «from»)
  | .setUsdcToken caller usdcAddress => returning (fun _ => .unit)
      (setUsdcToken env caller usdcAddress)
  | .withdrawDeveloperBalance developer amount «to» => returning (fun _ => .unit)
      (withdrawDeveloperBalance T env developer amount «to»)
  | .setDeveloperClaimWindow caller developer startTs endTs => returning (fun _ => .unit)
      (setDeveloperClaimWindow env caller developer startTs endTs)
  | .clearDeveloperClaimWindow caller developer => returning (fun _ => .unit)
      (clearDeveloperClaimWindow env caller developer)
  | .setDailyWithdrawCap caller developer cap => returning (fun _ => .unit)
      (setDailyWithdrawCap env caller developer cap)
  | .forceCreditDeveloper caller developer amount token reason => returning (fun _ => .unit)
      (forceCreditDeveloper env caller developer amount token reason)
  | .setAdmin caller newAdmin => returning (fun _ => .unit) (setAdmin env caller newAdmin)
  | .acceptAdmin => returning (fun _ => .unit) (acceptAdmin env)
  | .cancelAdminTransfer caller => returning (fun _ => .unit) (cancelAdminTransfer env caller)
  | .proposeVault caller newVault => returning (fun _ => .unit) (proposeVault env caller newVault)
  | .setVault caller newVault => returning (fun _ => .unit) (setVault env caller newVault)
  | .acceptVault caller => returning (fun _ => .unit) (acceptVault env caller)
  | .broadcast caller severity message => returning (fun _ => .unit)
      (broadcast env caller severity message)
  | .upgrade caller newWasmHash => returning (fun _ => .unit) (upgrade env caller newWasmHash)
  | .migrateDeveloperBalance caller developer => returning (fun _ => .unit)
      (migrateSingleDeveloper env caller developer)
  | .migrateSingleDevV2 caller developer => returning (fun _ => .unit)
      (migrateSingleDeveloper env caller developer)
  | .migrateV1ToV2 caller => returning (fun _ => .unit) (migrateV1ToV2 env caller)
  | .migrateV1ToV2Page caller offset batchSize => returning (fun r => .page r.1 r.2)
      (migrateV1ToV2Page env caller offset batchSize)
  | .batchWithdrawBalanceCursor developers amounts cursor limit =>
      returning (fun r => .page r.1 r.2)
        (batchWithdrawBalanceCursor developers amounts cursor limit)
  | .batchSettle settlements => returning .outcomes (batchSettle T env settlements)

/-- The contract at `contract`, with the token ledger free to move between its calls. -/
def settlement (T : TokenContract Address Ledger) (contract : Address) :
    Machine (State Address Ledger) (Input Address Ledger contract) Ret where
  step s
    | .call env op => (call T env op).commit s
    | .ledgerMoves ledger => some (.unit, { s with ledger := ledger })

abbrev LogEntry (Address Ledger : Type) (contract : Address) : Type :=
  Entry (State Address Ledger) (Input Address Ledger contract) Ret

/-! What the loops leave alone. -/

theorem frame_of_creditItems {token : Address} {items : List (Address × I128)} {u : Unit}
    (h : (forM items (creditItem token) : Tx Address Ledger Unit).run s = .ok u s') :
    ∃ balances index events, s' = { s with
      developerBalance := balances
      developerIndex := index
      events := events } := by
  refine Call.forM_invariant (P := fun t => ∃ balances index events, t = { s with
    developerBalance := balances
    developerIndex := index
    events := events }) h ⟨_, _, _, rfl⟩ ?_
  rintro item - _ t ⟨_, _, _, rfl⟩ hitem
  obtain ⟨newBalance, -, rfl⟩ := run_creditItem_eq_ok.1 hitem
  exact ⟨_, _, _, rfl⟩

theorem frame_of_migrated {usdcToken : Address} (h : Migrated usdcToken s s') :
    ∃ balances legacy, s' = { s with
      developerBalance := balances
      developerBalanceV1 := legacy } := by
  induction h with
  | refl => exact ⟨_, _, rfl⟩
  | tail _ hslot ih =>
    obtain ⟨_, _, rfl⟩ := ih
    obtain ⟨addr, v1, merged, -, -, rfl⟩ := hslot
    exact ⟨_, _, rfl⟩

theorem frame_of_settled {inputs : List (SettleInput Address)} {outcomes : List SettleOutcome}
    (h : Settled T env s inputs outcomes s') :
    ∃ ledger balances today events, s' = { s with
      ledger := ledger
      developerBalance := balances
      withdrawalToday := today
      events := events } := by
  induction h with
  | nil => exact ⟨_, _, _, _, rfl⟩
  | success item _ ih =>
    obtain ⟨usdc, newBalance, ledger, -, rfl⟩ := run_withdrawDeveloperBalance_eq_ok.1 item
    obtain ⟨_, _, _, _, rfl⟩ := ih
    exact ⟨_, _, _, _, rfl⟩
  | failure _ _ ih => exact ih

/-! The effect of a call, entrypoint by entrypoint. -/

variable (T) in
/-- `Effect T env s op r s'`: in state `s` the call `op` passes its guards, returns `r` and leaves
`s'`. -/
inductive Effect (env : Env Address contract) (s : State Address Ledger) :
    Op Address → Ret → State Address Ledger → Prop
  | init {admin vaultAddress : Address} (authorized : admin ∈ env.signers)
      (fresh : s.admin = none)
      (principals : admin ≠ vaultAddress ∧ admin ≠ contract ∧ vaultAddress ≠ contract) :
      Effect env s (.init admin vaultAddress) .unit { s with
        admin := some admin
        vault := some vaultAddress
        globalPool := some ⟨0, env.timestamp⟩
        totalReceived := some 0 }
  | receivePool {caller token : Address} {amount totalBalance : I128} {ledgerSeq : ℕ}
      {pool : GlobalPool} (accepted : s.AcceptsPayment env caller amount)
      (unseen : s.poolMark < ledgerSeq) (stored : s.globalPool = some pool)
      (total : totalBalance.val = pool.totalBalance.val + amount.val) :
      Effect env s (.receivePayment caller amount true none token ledgerSeq) .unit { s with
        poolHighWaterMark := some ledgerSeq
        globalPool := some ⟨totalBalance, env.timestamp⟩
        events := s.events ++ [.paymentReceived caller amount true none token] }
  | receiveDeveloper {caller developer token : Address} {amount newBalance : I128} {ledgerSeq : ℕ}
      (accepted : s.AcceptsPayment env caller amount) (unseen : s.mark developer < ledgerSeq)
      (total : newBalance.val = (s.balanceOf developer token).val + amount.val) :
      Effect env s (.receivePayment caller amount false (some developer) token ledgerSeq) .unit
        { s.credited developer token newBalance with
          highWaterMark := s.highWaterMark.set developer ledgerSeq
          events := s.events ++ [.paymentReceived caller amount false (some developer) token,
            .balanceCredited developer amount newBalance token] }
  | receiveBatch {caller token : Address} {items : List (Address × I128)} {ledgerSeq : ℕ}
      {balances index events} (authorized : caller ∈ env.signers)
      (accepted : s.AuthorizedCaller caller)
      (size : 0 < items.length ∧ items.length ≤ MAX_BATCH_SIZE)
      (positive : ∀ item ∈ items, 0 < item.2.val) (distinct : (items.map Prod.fst).Nodup)
      (unseen : ∀ item ∈ items, s.mark item.1 < ledgerSeq)
      (credits : (forM items (creditItem token) : Tx Address Ledger Unit).run { s with
          highWaterMark := raiseMarks s.highWaterMark (items.map Prod.fst) ledgerSeq } = .ok ()
        { s with
          highWaterMark := raiseMarks s.highWaterMark (items.map Prod.fst) ledgerSeq
          developerBalance := balances
          developerIndex := index
          events := events }) :
      Effect env s (.batchReceivePayment caller items token ledgerSeq) .unit { s with
        highWaterMark := raiseMarks s.highWaterMark (items.map Prod.fst) ledgerSeq
        developerBalance := balances
        developerIndex := index
        events := events }
  | setDeveloperMinBalance {caller developer : Address} {minBalance : I128}
      (admin : s.ByAdmin env caller) (sign : 0 ≤ minBalance.val) :
      Effect env s (.setDeveloperMinBalance caller developer minBalance) .unit { s with
        developerMinBalance := s.developerMinBalance.set developer minBalance
        events := s.events ++ [.developerMinBalanceChanged developer minBalance] }
  | setMinimumBalance {caller developer : Address} {minBalance : I128}
      (admin : s.ByAdmin env caller) (sign : 0 ≤ minBalance.val) :
      Effect env s (.setMinimumBalance caller developer minBalance) .unit { s with
        developerMinBalance := s.developerMinBalance.set developer minBalance
        events := s.events ++ [.developerMinBalanceChanged developer minBalance] }
  | proposeBalanceMigration {caller «from» «to» usdcToken : Address}
      {migration : PendingDeveloperMigration Address} (admin : s.ByAdmin env caller)
      (distinct : «from» ≠ «to» ∧ «to» ≠ contract) (configured : s.usdc = some usdcToken)
      (positive : 0 < (s.balanceOf «from» usdcToken).val)
      (inTime : env.timestamp + DEVELOPER_MIGRATION_TIMELOCK_SECONDS ≤ U64_MAX)
      (snapshot : migration = ⟨«from», «to», s.balanceOf «from» usdcToken, env.timestamp,
        env.timestamp + DEVELOPER_MIGRATION_TIMELOCK_SECONDS⟩) :
      Effect env s (.proposeBalanceMigration caller «from» «to») .unit { s with
        pendingDeveloperMigration := s.pendingDeveloperMigration.set «from» migration
        events := s.events ++ [.adminMigrationProposed migration] }
  | executeBalanceMigration {caller «from» usdcToken : Address}
      {migration : PendingDeveloperMigration Address}
      {newSourceBalance newDestinationBalance : I128} (admin : s.ByAdmin env caller)
      (pending : s.pendingDeveloperMigration «from» = some migration)
      (expired : migration.executeAfter ≤ env.timestamp) (configured : s.usdc = some usdcToken)
      (source : newSourceBalance.val =
        (s.balanceOf «from» usdcToken).val - migration.amount.val)
      (covered : 0 ≤ newSourceBalance.val)
      (destination : newDestinationBalance.val =
        (s.balanceOf migration.to usdcToken).val + migration.amount.val) :
      Effect env s (.executeBalanceMigration caller «from») .unit { s with
        developerBalance := (s.developerBalance.set («from», usdcToken) newSourceBalance).set
          (migration.to, usdcToken) newDestinationBalance
        developerIndex := some (sortedInsert (s.developerIndex.getD []) migration.to)
        pendingDeveloperMigration := s.pendingDeveloperMigration.remove «from»
        events := s.events ++
          [.adminMigration «from» migration.to migration.amount env.timestamp] }
  | setUsdcToken {caller usdcAddress : Address} (admin : s.ByAdmin env caller)
      (external : usdcAddress ≠ contract) :
      Effect env s (.setUsdcToken caller usdcAddress) .unit { s with usdc := some usdcAddress }
  | withdraw {developer usdc : Address} {amount newBalance : I128} {«to» : Option Address}
      {ledger : Ledger}
      (withdrawal : Withdrawal T env s developer amount («to».getD developer) usdc newBalance
        ledger) :
      Effect env s (.withdrawDeveloperBalance developer amount «to») .unit
        (s.withdrawn env.timestamp developer («to».getD developer) usdc amount newBalance ledger)
  | setDeveloperClaimWindow {caller developer : Address} {startTs endTs : ℕ}
      (admin : s.ByAdmin env caller) (ordered : startTs ≤ endTs) :
      Effect env s (.setDeveloperClaimWindow caller developer startTs endTs) .unit { s with
        developerClaimWindow := s.developerClaimWindow.set developer ⟨startTs, endTs⟩
        events := s.events ++ [.claimWindowChanged developer startTs endTs true] }
  | clearDeveloperClaimWindow {caller developer : Address} (admin : s.ByAdmin env caller) :
      Effect env s (.clearDeveloperClaimWindow caller developer) .unit { s with
        developerClaimWindow := s.developerClaimWindow.remove developer
        events := s.events ++ [.claimWindowChanged developer 0 0 false] }
  | setDailyWithdrawCap {caller developer : Address} {cap : I128} (admin : s.ByAdmin env caller) :
      Effect env s (.setDailyWithdrawCap caller developer cap) .unit { s with
        dailyWithdrawCap := s.dailyWithdrawCap.set developer cap
        events := s.events ++ [.dailyWithdrawCapChanged caller developer cap] }
  | forceCredit {caller developer token : Address} {amount newBalance : I128} {reason : String}
      (admin : s.ByAdmin env caller) (positive : 0 < amount.val)
      (total : newBalance.val = (s.balanceOf developer token).val + amount.val) :
      Effect env s (.forceCreditDeveloper caller developer amount token reason) .unit
        { s.credited developer token newBalance with
          events := s.events ++
            [.developerForceCredited developer amount reason newBalance token] }
  | setAdmin {caller newAdmin : Address} (admin : s.ByAdmin env caller) :
      Effect env s (.setAdmin caller newAdmin) .unit { s with
        pendingAdmin := some newAdmin
        events := s.events ++ [.adminNominated caller newAdmin] }
  | acceptAdmin {pending oldAdmin : Address} (nominated : s.pendingAdmin = some pending)
      (authorized : pending ∈ env.signers) (old : s.admin = some oldAdmin) :
      Effect env s .acceptAdmin .unit { s with
        admin := some pending
        pendingAdmin := none
        events := s.events ++ [.adminAccepted oldAdmin pending] }
  | cancelAdminTransfer {caller : Address} (admin : s.ByAdmin env caller)
      (nominated : s.pendingAdmin ≠ none) :
      Effect env s (.cancelAdminTransfer caller) .unit { s with
        pendingAdmin := none
        events := s.events ++ [.adminCancelled caller] }
  | proposeVault {caller newVault currentVault : Address} (admin : s.ByAdmin env caller)
      (external : newVault ≠ contract) (current : s.vault = some currentVault) :
      Effect env s (.proposeVault caller newVault) .unit { s with
        pendingVault := some newVault
        events := s.events ++ [.vaultProposed caller currentVault newVault] }
  | setVault {caller newVault currentVault : Address} (admin : s.ByAdmin env caller)
      (external : newVault ≠ contract) (current : s.vault = some currentVault) :
      Effect env s (.setVault caller newVault) .unit { s with
        pendingVault := some newVault
        events := s.events ++ [.vaultProposed caller currentVault newVault] }
  | acceptVault {caller pending admin oldVault : Address} (authorized : caller ∈ env.signers)
      (proposed : s.pendingVault = some pending) (inOffice : s.admin = some admin)
      (party : caller = pending ∨ caller = admin) (old : s.vault = some oldVault) :
      Effect env s (.acceptVault caller) .unit { s with
        vault := some pending
        pendingVault := none
        events := s.events ++ [.vaultAccepted oldVault pending caller] }
  | broadcast {caller : Address} {severity : Severity} {message : String}
      (admin : s.ByAdmin env caller) :
      Effect env s (.broadcast caller severity message) .unit { s with
        events := s.events ++ [.adminBroadcast caller severity message] }
  | upgrade {caller : Address} {newWasmHash : WasmHash} (admin : s.ByAdmin env caller)
      (uploaded : env.uploaded newWasmHash) :
      Effect env s (.upgrade caller newWasmHash) .unit { s with
        wasm := some newWasmHash
        contractVersion := some newWasmHash
        events := s.events ++ [.upgraded caller newWasmHash] }
  | migrateDeveloperBalance {caller developer usdcToken : Address} {balances legacy}
      (admin : s.ByAdmin env caller) (configured : s.usdc = some usdcToken)
      (slot : (migrateDeveloperSlot usdcToken developer).run s = .ok ()
        { s with developerBalance := balances, developerBalanceV1 := legacy }) :
      Effect env s (.migrateDeveloperBalance caller developer) .unit
        { s with developerBalance := balances, developerBalanceV1 := legacy }
  | migrateSingleDevV2 {caller developer usdcToken : Address} {balances legacy}
      (admin : s.ByAdmin env caller) (configured : s.usdc = some usdcToken)
      (slot : (migrateDeveloperSlot usdcToken developer).run s = .ok ()
        { s with developerBalance := balances, developerBalanceV1 := legacy }) :
      Effect env s (.migrateSingleDevV2 caller developer) .unit
        { s with developerBalance := balances, developerBalanceV1 := legacy }
  | migratedAll {caller : Address} (admin : s.ByAdmin env caller)
      (done : STORAGE_VERSION_V2 ≤ storageVersion s) :
      Effect env s (.migrateV1ToV2 caller) .unit s
  | migratedPage {caller : Address} {offset batchSize : ℕ} (admin : s.ByAdmin env caller)
      (done : STORAGE_VERSION_V2 ≤ storageVersion s) :
      Effect env s (.migrateV1ToV2Page caller offset batchSize) (.page 0 true) s
  | migrateAll {caller usdcToken : Address} {balances legacy} (admin : s.ByAdmin env caller)
      (undone : storageVersion s < STORAGE_VERSION_V2) (configured : s.usdc = some usdcToken)
      (slots : (forM (s.developerIndex.getD []) (migrateDeveloperSlot usdcToken)).run s = .ok ()
        { s with developerBalance := balances, developerBalanceV1 := legacy }) :
      Effect env s (.migrateV1ToV2 caller) .unit (State.migrationDone
        { s with developerBalance := balances, developerBalanceV1 := legacy })
  | migratePage {caller usdcToken : Address} {offset batchSize effective stop : ℕ}
      {balances legacy} (admin : s.ByAdmin env caller)
      (undone : storageVersion s < STORAGE_VERSION_V2) (configured : s.usdc = some usdcToken)
      (size : effective = if batchSize = 0 then 1 else min batchSize MAX_BATCH_SIZE)
      (bound : stop = min (saturatingAddU32 offset effective) (s.developerIndex.getD []).length)
      (slots : (migratePage usdcToken offset stop 0 (s.developerIndex.getD [])).run s = .ok ()
        { s with developerBalance := balances, developerBalanceV1 := legacy })
      (more : stop < (s.developerIndex.getD []).length) :
      Effect env s (.migrateV1ToV2Page caller offset batchSize) (.page stop false)
        { s with developerBalance := balances, developerBalanceV1 := legacy }
  | migrateLastPage {caller usdcToken : Address} {offset batchSize effective stop : ℕ}
      {balances legacy} (admin : s.ByAdmin env caller)
      (undone : storageVersion s < STORAGE_VERSION_V2) (configured : s.usdc = some usdcToken)
      (size : effective = if batchSize = 0 then 1 else min batchSize MAX_BATCH_SIZE)
      (bound : stop = min (saturatingAddU32 offset effective) (s.developerIndex.getD []).length)
      (slots : (migratePage usdcToken offset stop 0 (s.developerIndex.getD [])).run s = .ok ()
        { s with developerBalance := balances, developerBalanceV1 := legacy })
      (last : (s.developerIndex.getD []).length ≤ stop) :
      Effect env s (.migrateV1ToV2Page caller offset batchSize) (.page stop true)
        (State.migrationDone
          { s with developerBalance := balances, developerBalanceV1 := legacy })
  | withdrawCursor {developers : List Address} {amounts : List I128} {cursor limit : ℕ}
      (size : developers.length = amounts.length) :
      Effect env s (.batchWithdrawBalanceCursor developers amounts cursor limit) (.page 0 true) s
  | settleTooLarge {settlements : List (SettleInput Address)} (size : 64 < settlements.length) :
      Effect env s (.batchSettle settlements) (.outcomes (settlements.map fun _ => .otherError)) s
  | settle {settlements : List (SettleInput Address)} {outcomes : List SettleOutcome}
      {ledger balances today events} (size : settlements.length ≤ 64)
      (once : (settlements.map SettleInput.developer).Nodup)
      (settled : Settled T env s settlements outcomes { s with
        ledger := ledger
        developerBalance := balances
        withdrawalToday := today
        events := events }) :
      Effect env s (.batchSettle settlements) (.outcomes outcomes) { s with
        ledger := ledger
        developerBalance := balances
        withdrawalToday := today
        events := events }

theorem effect_of_call {op : Op Address} {r : Ret} (hcall : (call T env op).run s = .ok r s') :
    Effect T env s op r s' := by
  cases op <;> obtain ⟨_, h, rfl⟩ := run_returning_eq_ok.1 hcall
  case init =>
    obtain ⟨⟨h₁, h₂, h₃⟩, rfl⟩ := run_init_eq_ok.1 h
    exact .init h₁ h₂ h₃
  case receivePayment toPool _ _ _ _ =>
    cases toPool with
    | true =>
      obtain ⟨h₁, h₂, rfl, pool, total, h₃, h₄, rfl⟩ := run_receivePayment_pool_eq_ok.1 h
      exact .receivePool h₁ h₂ h₃ h₄
    | false =>
      obtain ⟨h₁, dev, total, rfl, h₂, h₃, rfl⟩ := run_receivePayment_developer_eq_ok.1 h
      exact .receiveDeveloper h₁ h₂ h₃
  case batchReceivePayment =>
    obtain ⟨⟨h₁, h₂, h₃, h₄, h₅⟩, ⟨h₆, h₇⟩, h₈⟩ := run_batchReceivePayment_eq_ok.1 h
    obtain ⟨_, _, _, rfl⟩ := frame_of_creditItems h₈
    exact .receiveBatch h₁ h₂ ⟨h₃, h₄⟩ h₅ h₆ h₇ h₈
  case setDeveloperMinBalance =>
    obtain ⟨h₁, h₂, rfl⟩ := run_setDeveloperMinBalance_eq_ok.1 h
    exact .setDeveloperMinBalance h₁ h₂
  case setMinimumBalance =>
    obtain ⟨h₁, h₂, rfl⟩ := run_setDeveloperMinBalance_eq_ok.1 h
    exact .setMinimumBalance h₁ h₂
  case proposeBalanceMigration =>
    obtain ⟨⟨h₁, h₂⟩, usdc, h₃, h₄, h₅, rfl⟩ := run_proposeBalanceMigration_eq_ok.1 h
    exact .proposeBalanceMigration h₁ h₂ h₃ h₄ h₅ rfl
  case executeBalanceMigration =>
    obtain ⟨h₁, m, usdc, source, destination, h₂, h₃, h₄, h₅, h₆, h₇, rfl⟩ :=
      run_executeBalanceMigration_eq_ok.1 h
    exact .executeBalanceMigration h₁ h₂ h₃ h₄ h₅ h₆ h₇
  case setUsdcToken =>
    obtain ⟨h₁, h₂, rfl⟩ := run_setUsdcToken_eq_ok.1 h
    exact .setUsdcToken h₁ h₂
  case withdrawDeveloperBalance =>
    obtain ⟨usdc, newBalance, ledger, h₁, rfl⟩ := run_withdrawDeveloperBalance_eq_ok.1 h
    exact .withdraw h₁
  case setDeveloperClaimWindow =>
    obtain ⟨h₁, h₂, rfl⟩ := run_setDeveloperClaimWindow_eq_ok.1 h
    exact .setDeveloperClaimWindow h₁ h₂
  case clearDeveloperClaimWindow =>
    obtain ⟨h₁, rfl⟩ := run_clearDeveloperClaimWindow_eq_ok.1 h
    exact .clearDeveloperClaimWindow h₁
  case setDailyWithdrawCap =>
    obtain ⟨h₁, rfl⟩ := run_setDailyWithdrawCap_eq_ok.1 h
    exact .setDailyWithdrawCap h₁
  case forceCreditDeveloper =>
    obtain ⟨h₁, h₂, total, h₃, rfl⟩ := run_forceCreditDeveloper_eq_ok.1 h
    exact .forceCredit h₁ h₂ h₃
  case setAdmin =>
    obtain ⟨h₁, rfl⟩ := run_setAdmin_eq_ok.1 h
    exact .setAdmin h₁
  case acceptAdmin =>
    obtain ⟨pending, old, h₁, h₂, h₃, rfl⟩ := run_acceptAdmin_eq_ok.1 h
    exact .acceptAdmin h₁ h₂ h₃
  case cancelAdminTransfer =>
    obtain ⟨h₁, h₂, rfl⟩ := run_cancelAdminTransfer_eq_ok.1 h
    exact .cancelAdminTransfer h₁ h₂
  case proposeVault =>
    obtain ⟨h₁, h₂, current, h₃, rfl⟩ := run_proposeVault_eq_ok.1 h
    exact .proposeVault h₁ h₂ h₃
  case setVault =>
    obtain ⟨h₁, h₂, current, h₃, rfl⟩ := run_proposeVault_eq_ok.1 h
    exact .setVault h₁ h₂ h₃
  case acceptVault =>
    obtain ⟨h₁, pending, admin, old, h₂, h₃, h₄, h₅, rfl⟩ := run_acceptVault_eq_ok.1 h
    exact .acceptVault h₁ h₂ h₃ h₄ h₅
  case broadcast =>
    obtain ⟨h₁, rfl⟩ := run_broadcast_eq_ok.1 h
    exact .broadcast h₁
  case upgrade =>
    obtain ⟨h₁, h₂, rfl⟩ := run_upgrade_eq_ok.1 h
    exact .upgrade h₁ h₂
  case migrateDeveloperBalance =>
    obtain ⟨h₁, usdc, h₂, h₃⟩ := run_migrateSingleDeveloper_eq_ok.1 h
    obtain ⟨_, _, rfl⟩ := frame_of_migrated (migrated_of_migrateDeveloperSlot h₃)
    exact .migrateDeveloperBalance h₁ h₂ h₃
  case migrateSingleDevV2 =>
    obtain ⟨h₁, usdc, h₂, h₃⟩ := run_migrateSingleDeveloper_eq_ok.1 h
    obtain ⟨_, _, rfl⟩ := frame_of_migrated (migrated_of_migrateDeveloperSlot h₃)
    exact .migrateSingleDevV2 h₁ h₂ h₃
  case migrateV1ToV2 =>
    obtain ⟨h₁, ⟨h₂, rfl⟩ | ⟨h₂, usdc, s₁, h₃, h₄, rfl⟩⟩ := run_migrateV1ToV2_eq_ok.1 h
    · exact .migratedAll h₁ h₂
    · obtain ⟨_, _, rfl⟩ := frame_of_migrated (migrated_of_forM h₄)
      exact .migrateAll h₁ h₂ h₃ h₄
  case migrateV1ToV2Page =>
    obtain ⟨h₁, ⟨h₂, rfl, rfl⟩ | ⟨h₂, usdc, s₁, h₃, h₄, rfl, h₅⟩⟩ :=
      run_migrateV1ToV2Page_eq_ok.1 h
    · exact .migratedPage h₁ h₂
    · obtain ⟨_, _, rfl⟩ := frame_of_migrated (migrated_of_migratePage h₄)
      rcases h₅ with ⟨h₅, rfl⟩ | ⟨h₅, rfl⟩
      · simp only [decide_eq_true h₅]
        exact .migrateLastPage h₁ h₂ h₃ rfl rfl h₄ h₅
      · simp only [decide_eq_false (Nat.not_le.2 h₅)]
        exact .migratePage h₁ h₂ h₃ rfl rfl h₄ h₅
  case batchWithdrawBalanceCursor =>
    obtain ⟨h₁, rfl, rfl⟩ := run_batchWithdrawBalanceCursor_eq_ok.1 h
    exact .withdrawCursor h₁
  case batchSettle =>
    obtain ⟨h₁, rfl, rfl⟩ | ⟨h₁, h₂, h₃⟩ := run_batchSettle_eq_ok.1 h
    · exact .settleTooLarge h₁
    · obtain ⟨_, _, _, _, rfl⟩ := frame_of_settled h₃
      exact .settle h₁ h₂ h₃

theorem effect_of_commit {op : Op Address} {r : Ret}
    (h : (settlement T contract).step s (.call env op) = some (r, s')) : Effect T env s op r s' :=
  effect_of_call (Call.commit_eq_some.1 h)

theorem effect_of_step {input : Input Address Ledger contract} {r : Ret}
    (h : (settlement T contract).step s input = some (r, s')) :
    (∃ env op, input = .call env op ∧ Effect T env s op r s') ∨
      ∃ ledger, input = .ledgerMoves ledger ∧ r = .unit ∧ s' = { s with ledger := ledger } := by
  cases input with
  | call env op => exact .inl ⟨env, op, rfl, effect_of_commit h⟩
  | ledgerMoves ledger =>
    obtain ⟨rfl, rfl⟩ := Prod.ext_iff.1 (Option.some.inj h)
    exact .inr ⟨ledger, rfl, rfl, rfl⟩

end Callora.Settlement
