import Callora.Library.Machine
import Callora.Checkpoint.Governance

/-! The checkpoint contract as a transactional machine: its entrypoints called in any order by
anybody. It holds no token, so nothing but a call changes it. -/

namespace Callora.Checkpoint
open Library

inductive Op (Address : Type) where
  | init (admin : Address)
  | setAdmin (caller newAdmin : Address)
  | acceptAdmin (caller : Address)
  | cancelAdminTransfer (caller : Address)
  | createCheckpoint (caller subject token : Address) (balance : I128) (metadata : String)
  | batchCreateCheckpoints (caller : Address) (items : List (Item Address))
  | upgrade (caller : Address) (newWasmHash : WasmHash)
deriving DecidableEq

inductive Ret where
  | unit
  | id (id : ℕ)
  | ids (ids : List ℕ)
deriving DecidableEq

structure Input (Address : Type) (contract : Address) where
  env : Env Address contract
  op : Op Address

variable {Address : Type} [DecidableEq Address] {contract : Address}
  {env : Env Address contract} {s s' : State Address}

def call (env : Env Address contract) : Op Address → Tx Address Ret
  | .init admin => do
    init env admin
    pure .unit
  | .setAdmin caller newAdmin => do
    setAdmin env caller newAdmin
    pure .unit
  | .acceptAdmin caller => do
    acceptAdmin env caller
    pure .unit
  | .cancelAdminTransfer caller => do
    cancelAdminTransfer env caller
    pure .unit
  | .createCheckpoint caller subject token balance metadata => do
    let id ← createCheckpoint env caller subject token balance metadata
    pure (.id id)
  | .batchCreateCheckpoints caller items => do
    let ids ← batchCreateCheckpoints env caller items
    pure (.ids ids)
  | .upgrade caller newWasmHash => do
    upgrade env caller newWasmHash
    pure .unit

def checkpoint (contract : Address) : Machine (State Address) (Input Address contract) Ret where
  step s i := (call i.env i.op).commit s

abbrev LogEntry (Address : Type) (contract : Address) : Type :=
  Entry (State Address) (Input Address contract) Ret

structure Writes (env : Env Address contract) (s : State Address) (caller : Address)
    (items : List (Item Address)) (ids : List ℕ) : Prop where
  admin : s.ByAdmin env caller
  nonempty : items ≠ []
  nonneg : ∀ item ∈ items, 0 ≤ item.balance.val
  room : getLatestCheckpointId s + items.length ≤ U64_MAX
  ids_eq : ids = List.range' (getLatestCheckpointId s + 1) items.length

/-- `Effect env s op r s'`: in state `s` the call `op` passes its guards, returns `r` and leaves
`s'`. -/
inductive Effect (env : Env Address contract) (s : State Address) :
    Op Address → Ret → State Address → Prop
  | init {admin : Address} (authorized : admin ∈ env.signers) (fresh : s.admin = none) :
      Effect env s (.init admin) .unit { s with
        admin := some admin
        nextCheckpointId := some 0
        checkpointCount := some 0
        events := s.events ++ [.init admin] }
  | setAdmin {caller newAdmin : Address} (admin : s.ByAdmin env caller) :
      Effect env s (.setAdmin caller newAdmin) .unit { s with
        pendingAdmin := some newAdmin
        events := s.events ++ [.adminNominated caller newAdmin] }
  | acceptAdmin {caller oldAdmin : Address} (authorized : caller ∈ env.signers)
      (nominated : s.pendingAdmin = some caller) (initialized : s.admin = some oldAdmin) :
      Effect env s (.acceptAdmin caller) .unit { s with
        admin := some caller
        pendingAdmin := none
        events := s.events ++ [.adminAccepted oldAdmin caller] }
  | cancelAdminTransfer {caller pending : Address} (admin : s.ByAdmin env caller)
      (nominated : s.pendingAdmin = some pending) :
      Effect env s (.cancelAdminTransfer caller) .unit { s with
        pendingAdmin := none
        events := s.events ++ [.adminCancelled caller pending] }
  | createCheckpoint {caller subject token : Address} {balance : I128} {metadata : String} {id : ℕ}
      (writes : Writes env s caller [(subject, token, balance, metadata)] [id]) :
      Effect env s (.createCheckpoint caller subject token balance metadata) (.id id)
        (s.append env.timestamp (subject, token, balance, metadata))
  | batchCreateCheckpoints {caller : Address} {items : List (Item Address)} {ids : List ℕ}
      (length : items.length ≤ MAX_BATCH_SIZE) (writes : Writes env s caller items ids) :
      Effect env s (.batchCreateCheckpoints caller items) (.ids ids)
        (items.foldl (State.append env.timestamp) s)
  | upgrade {caller : Address} {newWasmHash : WasmHash} (admin : s.ByAdmin env caller)
      (uploaded : env.uploaded newWasmHash) :
      Effect env s (.upgrade caller newWasmHash) .unit { s with
        wasm := some newWasmHash
        events := s.events ++ [.upgraded caller newWasmHash] }

theorem effect_of_call {op : Op Address} {r : Ret} (h : (call env op).run s = .ok r s') :
    Effect env s op r s' := by
  cases op with
  | init admin =>
    obtain ⟨_, _, h, rfl, rfl⟩ := Call.run_bind_eq_ok.1 h
    obtain ⟨h₁, h₂, rfl⟩ := run_init_eq_ok.1 h
    exact .init h₁ h₂
  | setAdmin caller newAdmin =>
    obtain ⟨_, _, h, rfl, rfl⟩ := Call.run_bind_eq_ok.1 h
    obtain ⟨h₁, rfl⟩ := run_setAdmin_eq_ok.1 h
    exact .setAdmin h₁
  | acceptAdmin caller =>
    obtain ⟨_, _, h, rfl, rfl⟩ := Call.run_bind_eq_ok.1 h
    obtain ⟨h₁, h₂, oldAdmin, h₃, rfl⟩ := run_acceptAdmin_eq_ok.1 h
    exact .acceptAdmin h₁ h₂ h₃
  | cancelAdminTransfer caller =>
    obtain ⟨_, _, h, rfl, rfl⟩ := Call.run_bind_eq_ok.1 h
    obtain ⟨h₁, pending, h₂, rfl⟩ := run_cancelAdminTransfer_eq_ok.1 h
    exact .cancelAdminTransfer h₁ h₂
  | createCheckpoint caller subject token balance metadata =>
    obtain ⟨_, _, h, rfl, rfl⟩ := Call.run_bind_eq_ok.1 h
    obtain ⟨h₁, h₂, h₃, rfl, rfl⟩ := run_createCheckpoint_eq_ok.1 h
    exact .createCheckpoint ⟨h₁, List.cons_ne_nil _ _, List.forall_mem_singleton.2 h₂, h₃, rfl⟩
  | batchCreateCheckpoints caller items =>
    obtain ⟨_, _, h, rfl, rfl⟩ := Call.run_bind_eq_ok.1 h
    obtain ⟨h₁, ⟨h₂, h₃⟩, h₄, h₅, h₆, rfl⟩ := run_batchCreateCheckpoints_eq_ok.1 h
    exact .batchCreateCheckpoints h₃ ⟨h₁, h₂, h₄, h₅, h₆⟩
  | upgrade caller newWasmHash =>
    obtain ⟨_, _, h, rfl, rfl⟩ := Call.run_bind_eq_ok.1 h
    obtain ⟨h₁, h₂, rfl⟩ := run_upgrade_eq_ok.1 h
    exact .upgrade h₁ h₂

theorem effect_of_step {i : Input Address contract} {r : Ret}
    (h : (checkpoint contract).step s i = some (r, s')) : Effect i.env s i.op r s' :=
  effect_of_call (Call.commit_eq_some.1 h)

end Callora.Checkpoint
