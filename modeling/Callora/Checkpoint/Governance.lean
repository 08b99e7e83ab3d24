import Callora.Checkpoint.Records

/-! Initialization of the contract, the two-step rotation of its admin, and its upgrades. -/

namespace Callora.Checkpoint
open Library

variable {Address : Type} [DecidableEq Address] {contract : Address} {s s' : State Address}
  {u : Unit} {env : Env Address contract} {caller : Address}

def init (env : Env Address contract) (admin : Address) : Tx Address Unit := do
  requireAuth env admin
  let s ← Call.load
  Call.ensure s.admin.isNone .alreadyInitialized
  Call.modify fun s => { s with
    admin := some admin
    nextCheckpointId := some 0
    checkpointCount := some 0 }
  publish (.init admin)

theorem run_init_eq_ok {admin : Address} :
    (init env admin).run s = .ok u s' ↔ admin ∈ env.signers ∧ s.admin = none ∧ s' = { s with
      admin := some admin
      nextCheckpointId := some 0
      checkpointCount := some 0
      events := s.events ++ [.init admin] } := by
  simp [init, eq_comm (a := s')]

def setAdmin (env : Env Address contract) (caller newAdmin : Address) : Tx Address Unit := do
  requireAdmin env caller
  Call.modify fun s => { s with pendingAdmin := some newAdmin }
  let admin ← getAdmin
  publish (.adminNominated admin newAdmin)

def acceptAdmin (env : Env Address contract) (caller : Address) : Tx Address Unit := do
  requireAuth env caller
  let s ← Call.load
  let pending ← Call.unwrap s.pendingAdmin (.message "no admin transfer pending")
  Call.require (caller = pending) (.message "unauthorized: caller is not pending admin")
  let oldAdmin ← getAdmin
  Call.modify fun s => { s with admin := some pending, pendingAdmin := none }
  publish (.adminAccepted oldAdmin pending)

def cancelAdminTransfer (env : Env Address contract) (caller : Address) : Tx Address Unit := do
  requireAdmin env caller
  let s ← Call.load
  Call.require s.pendingAdmin.isSome (.message "no admin transfer pending")
  let pending ← Call.unwrap s.pendingAdmin (.message "no admin transfer pending")
  Call.modify fun s => { s with pendingAdmin := none }
  publish (.adminCancelled caller pending)

def upgrade (env : Env Address contract) (caller : Address) (newWasmHash : WasmHash) :
    Tx Address Unit := do
  requireAdmin env caller
  Call.require (env.uploaded newWasmHash) .hostCall
  Call.modify fun s => { s with wasm := some newWasmHash }
  let admin ← getAdmin
  publish (.upgraded admin newWasmHash)

theorem run_setAdmin_eq_ok {newAdmin : Address} :
    (setAdmin env caller newAdmin).run s = .ok u s' ↔ s.ByAdmin env caller ∧ s' = { s with
      pendingAdmin := some newAdmin
      events := s.events ++ [.adminNominated caller newAdmin] } := by
  simp only [setAdmin, Call.run_bind_eq_ok, run_requireAdmin_eq_ok, Call.run_modify_eq_ok,
    run_getAdmin_eq_ok, run_publish_eq_ok, existsAndEq, and_assoc, exists_and_left, exists_const,
    true_and]
  apply and_congr_right
  intro hadmin
  rw [hadmin.exists_admin_iff, eq_comm (a := s')]

theorem run_acceptAdmin_eq_ok :
    (acceptAdmin env caller).run s = .ok u s' ↔ caller ∈ env.signers ∧
      s.pendingAdmin = some caller ∧ ∃ oldAdmin, s.admin = some oldAdmin ∧ s' = { s with
        admin := some caller
        pendingAdmin := none
        events := s.events ++ [.adminAccepted oldAdmin caller] } := by
  simp [acceptAdmin, eq_comm (a := s')]

theorem run_cancelAdminTransfer_eq_ok :
    (cancelAdminTransfer env caller).run s = .ok u s' ↔ s.ByAdmin env caller ∧
      ∃ pending, s.pendingAdmin = some pending ∧ s' = { s with
        pendingAdmin := none
        events := s.events ++ [.adminCancelled caller pending] } := by
  cases hpending : s.pendingAdmin <;> simp [cancelAdminTransfer, hpending, eq_comm (a := s')]

theorem run_upgrade_eq_ok {newWasmHash : WasmHash} :
    (upgrade env caller newWasmHash).run s = .ok u s' ↔ s.ByAdmin env caller ∧
      env.uploaded newWasmHash ∧ s' = { s with
        wasm := some newWasmHash
        events := s.events ++ [.upgraded caller newWasmHash] } := by
  simp only [upgrade, Call.run_bind_eq_ok, run_requireAdmin_eq_ok, Call.run_require_eq_ok,
    Call.run_modify_eq_ok, run_getAdmin_eq_ok, run_publish_eq_ok, existsAndEq, and_assoc,
    exists_and_left, exists_const, true_and]
  apply and_congr_right
  intro hadmin
  rw [hadmin.exists_admin_iff, eq_comm (a := s')]

end Callora.Checkpoint
