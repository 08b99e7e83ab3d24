import Callora.Library.Machine
import Callora.RevenuePool.Governance

/-! The revenue pool as a transactional machine: its entrypoints called in any order by anybody,
between which other holders of any token may pay each other or the pool. -/

namespace Callora.RevenuePool
open Library

inductive Op (Address : Type) where
  | init (admin usdcToken : Address)
  | setAdmin (caller newAdmin : Address)
  | acceptAdmin (caller : Address)
  | claimAdmin (caller : Address)
  | cancelAdminTransfer (caller : Address)
  | setPauseGuardian (caller guardian : Address)
  | clearPauseGuardian (caller : Address)
  | pause (caller : Address)
  | unpause (caller : Address)
  | receivePayment (caller : Address) (amount : I128) (fromVault : Bool)
  | depositYield (treasury : Address) (amount : I128) (source : String)
  | setMaxDistribute (caller : Address) (maxDistribute : I128)
  | distribute (caller «to» : Address) (amount : I128)
  | batchDistribute (caller : Address) (payments : List (Address × I128))
  | upgrade (caller : Address) (newWasmHash : WasmHash)
  | broadcast (caller : Address) (severity : Severity) (message : String)
  | proposeEmergencyDrain (caller treasury : Address) (amount : I128)
  | executeEmergencyDrain (caller : Address)
  | cancelEmergencyDrain (caller : Address)
deriving DecidableEq

inductive Input (Address : Type) (contract : Address) where
  | call (env : Env Address contract) (op : Op Address)
  | thirdParty (token «from» «to» : Address) (amount : ℤ) (external : «from» ≠ contract)

variable {Address Ledger : Type} [DecidableEq Address] {contract : Address}
  {T : TokenContract Address Ledger} {env : Env Address contract} {s s' : State Address Ledger}
  {u : Unit}

def call (T : TokenContract Address Ledger) (env : Env Address contract) :
    Op Address → Tx Address Ledger Unit
  | .init admin usdcToken => init contract admin usdcToken
  | .setAdmin caller newAdmin => setAdmin env caller newAdmin
  | .acceptAdmin caller => acceptAdmin env caller
  | .claimAdmin caller => claimAdmin env caller
  | .cancelAdminTransfer caller => cancelAdminTransfer env caller
  | .setPauseGuardian caller guardian => setPauseGuardian env caller guardian
  | .clearPauseGuardian caller => clearPauseGuardian env caller
  | .pause caller => pause env caller
  | .unpause caller => unpause env caller
  | .receivePayment caller amount fromVault => receivePayment env caller amount fromVault
  | .depositYield treasury amount source => depositYield T env treasury amount source
  | .setMaxDistribute caller maxDistribute => setMaxDistribute env caller maxDistribute
  | .distribute caller «to» amount => distribute T env caller «to» amount
  | .batchDistribute caller payments => batchDistribute T env caller payments
  | .upgrade caller newWasmHash => upgrade env caller newWasmHash
  | .broadcast caller severity message => broadcast env caller severity message
  | .proposeEmergencyDrain caller treasury amount =>
    proposeEmergencyDrain env caller treasury amount
  | .executeEmergencyDrain caller => executeEmergencyDrain T env caller
  | .cancelEmergencyDrain caller => cancelEmergencyDrain env caller

/-- The pool at `contract`, with third parties paying each other and the pool. -/
def revenuePool (T : TokenContract Address Ledger) (contract : Address) :
    Machine (State Address Ledger) (Input Address contract) Unit where
  step s
    | .call env op => (call T env op).commit s
    | .thirdParty token «from» «to» amount _ =>
      (T.transfer s.ledger token «from» «to» amount).map fun ledger =>
        ((), { s with ledger := ledger })

abbrev LogEntry (Address Ledger : Type) (contract : Address) : Type :=
  Entry (State Address Ledger) (Input Address contract) Unit

variable (T) in
/-- `Effect T env s op s'`: in state `s` the call `op` passes its guards and leaves `s'`. -/
inductive Effect (env : Env Address contract) (s : State Address Ledger) :
    Op Address → State Address Ledger → Prop
  | init {admin usdcToken : Address} (fresh : s.admin = none) (external : usdcToken ≠ contract)
      (distinct : usdcToken ≠ admin) :
      Effect env s (.init admin usdcToken) { s with
        admin := some admin
        usdcToken := some usdcToken
        paused := some false
        events := s.events ++ [.init admin usdcToken] }
  | setAdmin {caller newAdmin : Address} (admin : s.ByAdmin env caller) :
      Effect env s (.setAdmin caller newAdmin) { s with
        pendingAdmin := some newAdmin
        events := s.events ++ [.adminChanged caller newAdmin,
          .adminTransferStarted caller newAdmin] }
  | acceptAdmin {caller : Address} (authorized : caller ∈ env.signers)
      (nominated : s.pendingAdmin = some caller) :
      Effect env s (.acceptAdmin caller) { s with
        admin := some caller
        pendingAdmin := none
        events := s.events ++ [.adminTransferCompleted caller] }
  | claimAdmin {caller : Address} (authorized : caller ∈ env.signers)
      (nominated : s.pendingAdmin = some caller) :
      Effect env s (.claimAdmin caller) { s with
        admin := some caller
        pendingAdmin := none
        events := s.events ++ [.adminTransferCompleted caller] }
  | cancelAdminTransfer {caller pending : Address} (admin : s.ByAdmin env caller)
      (nominated : s.pendingAdmin = some pending) :
      Effect env s (.cancelAdminTransfer caller) { s with
        pendingAdmin := none
        events := s.events ++ [.adminCancelled caller pending] }
  | setPauseGuardian {caller guardian : Address} (admin : s.ByAdmin env caller) :
      Effect env s (.setPauseGuardian caller guardian) { s with
        pauseGuardian := some guardian
        events := s.events ++ [.pauseGuardianSet caller guardian] }
  | clearPauseGuardian {caller guardian : Address} (admin : s.ByAdmin env caller)
      (configured : s.pauseGuardian = some guardian) :
      Effect env s (.clearPauseGuardian caller) { s with
        pauseGuardian := none
        events := s.events ++ [.pauseGuardianCleared caller guardian] }
  | pause {caller : Address} (authorized : caller ∈ env.signers) (initialized : s.admin ≠ none)
      (role : s.admin = some caller ∨ s.pauseGuardian = some caller)
      (unpaused : isPaused s = false) :
      Effect env s (.pause caller) { s with
        paused := some true
        events := s.events ++ [.pauseSet caller true] }
  | unpause {caller : Address} (admin : s.ByAdmin env caller) (paused : isPaused s = true) :
      Effect env s (.unpause caller) { s with
        paused := some false
        events := s.events ++ [.pauseSet caller false] }
  | receivePayment {caller : Address} {amount : I128} {fromVault : Bool}
      (admin : s.ByAdmin env caller) :
      Effect env s (.receivePayment caller amount fromVault) { s with
        events := s.events ++ [.receivePayment caller amount fromVault] }
  | depositYield {treasury usdc : Address} {amount newTotal : I128} {source : String}
      {ledger : Ledger} (deposit : YieldDeposit T env s treasury amount newTotal usdc ledger) :
      Effect env s (.depositYield treasury amount source) { s with
        cumulativeYieldDeposited := some newTotal
        ledger := ledger
        events := s.events ++ [.yieldDeposited treasury amount source newTotal] }
  | setMaxDistribute {caller : Address} {maxDistribute : I128} (admin : s.ByAdmin env caller)
      (positive : 0 < maxDistribute.val) :
      Effect env s (.setMaxDistribute caller maxDistribute) { s with
        maxDistribute := some maxDistribute
        events := s.events ++ [.setMaxDistribute caller (getMaxDistribute s) maxDistribute] }
  | distribute {caller «to» usdc : Address} {amount : I128} {ledger : Ledger}
      (distribution : Distribution T env s caller [(«to», amount)] usdc ledger) :
      Effect env s (.distribute caller «to» amount) { s with
        ledger := ledger
        events := s.events ++ [.distribute «to» amount] }
  | batchDistribute {caller usdc : Address} {payments : List (Address × I128)} {ledger : Ledger}
      (batch : ValidBatch payments)
      (distribution : Distribution T env s caller payments usdc ledger) :
      Effect env s (.batchDistribute caller payments) { s with
        ledger := ledger
        events := s.events ++ payments.map fun p => .batchDistribute p.1 p.2 }
  | upgrade {caller : Address} {newWasmHash : WasmHash} (admin : s.ByAdmin env caller)
      (uploaded : env.uploaded newWasmHash) :
      Effect env s (.upgrade caller newWasmHash) { s with
        wasm := some newWasmHash
        version := some newWasmHash
        events := s.events ++ [.upgraded caller newWasmHash] }
  | broadcast {caller : Address} {severity : Severity} {message : String}
      (admin : s.ByAdmin env caller)
      (length : message.utf8ByteSize ≠ 0 ∧ message.utf8ByteSize ≤ MAX_MESSAGE_LEN) :
      Effect env s (.broadcast caller severity message) { s with
        events := s.events ++ [.adminBroadcast caller severity message] }
  | proposeEmergencyDrain {caller treasury : Address} {amount : I128}
      {drain : PendingEmergencyDrain Address} (admin : s.ByAdmin env caller)
      (staged : Staged env treasury amount drain) :
      Effect env s (.proposeEmergencyDrain caller treasury amount) { s with
        emergencyDrain := some drain
        events := s.events ++ [.emergencyDrainProposed caller drain] }
  | executeEmergencyDrain {caller usdc : Address} {drain : PendingEmergencyDrain Address}
      {ledger : Ledger} (executed : Drain T env s caller drain usdc ledger) :
      Effect env s (.executeEmergencyDrain caller) { s with
        emergencyDrain := none
        ledger := ledger
        events := s.events ++ [.emergencyDrainExecuted caller drain.to drain.amount
          drain.proposedAt env.timestamp] }
  | cancelEmergencyDrain {caller : Address} {drain : PendingEmergencyDrain Address}
      (admin : s.ByAdmin env caller) (pending : s.emergencyDrain = some drain) :
      Effect env s (.cancelEmergencyDrain caller) { s with
        emergencyDrain := none
        events := s.events ++ [.emergencyDrainCancelled caller drain] }

theorem effect_of_call {op : Op Address} (h : (call T env op).run s = .ok u s') :
    Effect T env s op s' := by
  cases op with
  | init admin usdcToken =>
    obtain ⟨h₁, h₂, h₃, rfl⟩ := run_init_eq_ok.1 h
    exact .init h₁ h₂ h₃
  | setAdmin caller newAdmin =>
    obtain ⟨h₁, rfl⟩ := run_setAdmin_eq_ok.1 h
    exact .setAdmin h₁
  | acceptAdmin caller =>
    obtain ⟨h₁, h₂, rfl⟩ := run_acceptAdmin_eq_ok.1 h
    exact .acceptAdmin h₁ h₂
  | claimAdmin caller =>
    obtain ⟨h₁, h₂, rfl⟩ := run_acceptAdmin_eq_ok.1 h
    exact .claimAdmin h₁ h₂
  | cancelAdminTransfer caller =>
    obtain ⟨h₁, pending, h₂, rfl⟩ := run_cancelAdminTransfer_eq_ok.1 h
    exact .cancelAdminTransfer h₁ h₂
  | setPauseGuardian caller guardian =>
    obtain ⟨h₁, rfl⟩ := run_setPauseGuardian_eq_ok.1 h
    exact .setPauseGuardian h₁
  | clearPauseGuardian caller =>
    obtain ⟨h₁, guardian, h₂, rfl⟩ := run_clearPauseGuardian_eq_ok.1 h
    exact .clearPauseGuardian h₁ h₂
  | pause caller =>
    obtain ⟨h₁, h₂, h₃, h₄, rfl⟩ := run_pause_eq_ok.1 h
    exact .pause h₁ h₂ h₃ h₄
  | unpause caller =>
    obtain ⟨h₁, h₂, rfl⟩ := run_unpause_eq_ok.1 h
    exact .unpause h₁ h₂
  | receivePayment caller amount fromVault =>
    obtain ⟨h₁, rfl⟩ := run_receivePayment_eq_ok.1 h
    exact .receivePayment h₁
  | depositYield treasury amount source =>
    obtain ⟨newTotal, usdc, ledger, h₁, rfl⟩ := run_depositYield_eq_ok.1 h
    exact .depositYield h₁
  | setMaxDistribute caller maxDistribute =>
    obtain ⟨h₁, h₂, rfl⟩ := run_setMaxDistribute_eq_ok.1 h
    exact .setMaxDistribute h₁ h₂
  | distribute caller «to» amount =>
    obtain ⟨usdc, ledger, h₁, rfl⟩ := run_distribute_eq_ok.1 h
    exact .distribute h₁
  | batchDistribute caller payments =>
    obtain ⟨h₁, usdc, ledger, h₂, rfl⟩ := run_batchDistribute_eq_ok.1 h
    exact .batchDistribute h₁ h₂
  | upgrade caller newWasmHash =>
    obtain ⟨h₁, h₂, rfl⟩ := run_upgrade_eq_ok.1 h
    exact .upgrade h₁ h₂
  | broadcast caller severity message =>
    obtain ⟨h₁, h₂, rfl⟩ := run_broadcast_eq_ok.1 h
    exact .broadcast h₁ h₂
  | proposeEmergencyDrain caller treasury amount =>
    obtain ⟨h₁, drain, h₂, rfl⟩ := run_proposeEmergencyDrain_eq_ok.1 h
    exact .proposeEmergencyDrain h₁ h₂
  | executeEmergencyDrain caller =>
    obtain ⟨drain, usdc, ledger, h₁, rfl⟩ := run_executeEmergencyDrain_eq_ok.1 h
    exact .executeEmergencyDrain h₁
  | cancelEmergencyDrain caller =>
    obtain ⟨h₁, drain, h₂, rfl⟩ := run_cancelEmergencyDrain_eq_ok.1 h
    exact .cancelEmergencyDrain h₁ h₂

theorem effect_of_step {input : Input Address contract} {r : Unit}
    (h : (revenuePool T contract).step s input = some (r, s')) :
    (∃ env op, input = .call env op ∧ Effect T env s op s') ∨
      ∃ token «from» «to» amount external ledger,
        input = .thirdParty token «from» «to» amount external ∧
        T.transfer s.ledger token «from» «to» amount = some ledger ∧
        s' = { s with ledger := ledger } := by
  cases input with
  | call env op =>
    have hrun := Call.commit_eq_some.1 h
    exact .inl ⟨env, op, rfl, effect_of_call hrun⟩
  | thirdParty token «from» «to» amount external =>
    obtain ⟨ledger, hpaid, hs⟩ := Option.map_eq_some_iff.1 h
    exact .inr ⟨token, «from», «to», amount, external, ledger, rfl, hpaid,
      (Prod.ext_iff.1 hs).2.symm⟩

/-! A small instance. -/

def guardedPool : State ℕ (Balances ℕ) where
  admin := some 1
  usdcToken := some 4
  paused := some false
  pauseGuardian := some 2
  ledger token who := if token = 4 ∧ who = 0 then 100 else 0

end Callora.RevenuePool
