import Callora.Checkpoint.Types

/-! Writing and reading checkpoints, one at a time or in batches, and the administration of the
contract. -/

namespace Callora.Checkpoint
open Library

abbrev Tx (Address α : Type) : Type := Call CheckpointError (State Address) α

variable {Address : Type} {contract : Address} {s s' : State Address} {u : Unit}

def publish (event : Event Address) : Tx Address Unit :=
  .modify fun s => { s with events := s.events ++ [event] }

def getAdmin : Tx Address Address := do
  let s ← Call.load
  Call.okOr s.admin .notInitialized

def nextCheckpointId : Tx Address ℕ := do
  let s ← Call.load
  let current := s.nextCheckpointId.getD 0
  let next ← Call.okOr (checkedAddU64 current 1) .overflow
  Call.modify fun s => { s with nextCheckpointId := some next, checkpointCount := some next }
  pure next

abbrev Item (Address : Type) : Type := Address × Address × I128 × String

def Item.balance (item : Item Address) : I128 := item.2.2.1

def Item.record (item : Item Address) (id timestamp : ℕ) : CheckpointRecord Address :=
  ⟨id, item.1, item.2.1, item.2.2.1, timestamp, item.2.2.2⟩

/-- What `create_checkpoint` and each pass of the batch do after their checks. -/
def writeCheckpoint (timestamp : ℕ) (item : Item Address) : Tx Address ℕ := do
  let id ← nextCheckpointId
  let record := item.record id timestamp
  Call.modify fun s => { s with checkpoint := s.checkpoint.set id record }
  publish (.checkpointCreated item.1 record)
  pure id

def writeAll (timestamp : ℕ) : List (Item Address) → Tx Address (List ℕ)
  | [] => pure []
  | item :: items => do
    let id ← writeCheckpoint timestamp item
    let ids ← writeAll timestamp items
    pure (id :: ids)

def State.append (timestamp : ℕ) (s : State Address) (item : Item Address) : State Address :=
  let id := getLatestCheckpointId s + 1
  { s with
    nextCheckpointId := some id
    checkpointCount := some id
    checkpoint := s.checkpoint.set id (item.record id timestamp)
    events := s.events ++ [.checkpointCreated item.1 (item.record id timestamp)] }

@[simp] theorem getLatestCheckpointId_append (timestamp : ℕ) (s : State Address)
    (item : Item Address) :
    getLatestCheckpointId (s.append timestamp item) = getLatestCheckpointId s + 1 := rfl

@[simp] theorem run_publish_eq_ok {event : Event Address} :
    (publish event).run s = .ok u s' ↔ { s with events := s.events ++ [event] } = s' :=
  Call.run_modify_eq_ok

@[simp] theorem run_getAdmin_eq_ok {admin : Address} :
    getAdmin.run s = .ok admin s' ↔ s.admin = some admin ∧ s = s' := by
  simp [getAdmin, and_comm]

@[simp] theorem run_writeCheckpoint_eq_ok {timestamp id : ℕ} {item : Item Address} :
    (writeCheckpoint timestamp item).run s = .ok id s' ↔
      getLatestCheckpointId s + 1 ≤ U64_MAX ∧ id = getLatestCheckpointId s + 1 ∧
        s' = s.append timestamp item := by
  simp only [writeCheckpoint, nextCheckpointId, Call.run_bind_eq_ok, Call.run_load_eq_ok,
    Call.run_okOr_eq_ok, checkedAddU64_eq_some, Call.run_modify_eq_ok, run_publish_eq_ok,
    Call.run_pure_eq_ok, existsAndEq, and_assoc, exists_and_left, exists_const, true_and]
  constructor
  · intro h
    obtain ⟨hmax, rfl, rfl⟩ := h
    exact ⟨hmax, rfl, rfl⟩
  · intro h
    obtain ⟨hmax, rfl, rfl⟩ := h
    exact ⟨hmax, rfl, rfl⟩

theorem run_writeAll_eq_ok {timestamp : ℕ} {items : List (Item Address)} {ids : List ℕ} :
    (writeAll timestamp items).run s = .ok ids s' ↔
      (items ≠ [] → getLatestCheckpointId s + items.length ≤ U64_MAX) ∧
        ids = List.range' (getLatestCheckpointId s + 1) items.length ∧
        s' = items.foldl (State.append timestamp) s := by
  induction items generalizing s ids with
  | nil => simp [writeAll, eq_comm (a := s')]
  | cons item items ih =>
    rw [writeAll, Call.run_bind_eq_ok]
    simp only [Call.run_bind_eq_ok, Call.run_pure_eq_ok, List.length_cons, List.range'_succ,
      List.foldl_cons]
    constructor
    · intro h
      obtain ⟨_, _, hitem, ids', s₂, hitems, rfl, rfl⟩ := h
      obtain ⟨hmax, rfl, rfl⟩ := run_writeCheckpoint_eq_ok.1 hitem
      obtain ⟨hrest, rfl, rfl⟩ := ih.1 hitems
      refine ⟨fun _ => ?_, rfl, rfl⟩
      rcases items with _ | ⟨item', items⟩
      · exact hmax
      · have hlast := hrest (List.cons_ne_nil _ _)
        rw [getLatestCheckpointId_append] at hlast
        omega
    · intro h
      obtain ⟨hmax, rfl, rfl⟩ := h
      have hall := hmax (List.cons_ne_nil _ _)
      have hitem : getLatestCheckpointId s + 1 ≤ U64_MAX := by omega
      refine ⟨_, _, run_writeCheckpoint_eq_ok.2 ⟨hitem, rfl, rfl⟩, _, _, ih.2 ⟨?_, rfl, rfl⟩,
        rfl, rfl⟩
      intro _
      rw [getLatestCheckpointId_append]
      omega

variable [DecidableEq Address] {env : Env Address contract} {caller : Address}

def requireAdmin (env : Env Address contract) (caller : Address) : Tx Address Unit := do
  requireAuth env caller
  let admin ← getAdmin
  Call.ensure (caller = admin) .unauthorized

def State.ByAdmin (s : State Address) (env : Env Address contract) (caller : Address) : Prop :=
  caller ∈ env.signers ∧ s.admin = some caller

omit [DecidableEq Address] in
theorem State.ByAdmin.exists_admin_iff (h : s.ByAdmin env caller) {P : Address → Prop} :
    (∃ admin, s.admin = some admin ∧ P admin) ↔ P caller := by
  rw [h.2]
  constructor
  · intro hP
    obtain ⟨admin, hadmin, hP⟩ := hP
    rw [Option.some.inj hadmin]
    exact hP
  · intro hP
    exact ⟨caller, rfl, hP⟩

@[simp] theorem run_requireAdmin_eq_ok :
    (requireAdmin env caller).run s = .ok u s' ↔ s.ByAdmin env caller ∧ s = s' := by
  simp [requireAdmin, State.ByAdmin, and_assoc, and_comm (a := s.admin = _)]

/-! Creation. -/

def createCheckpoint (env : Env Address contract) (caller subject token : Address)
    (balance : I128) (metadata : String) : Tx Address ℕ := do
  requireAdmin env caller
  Call.ensure (¬balance.val < 0) .amountNegative
  writeCheckpoint env.timestamp (subject, token, balance, metadata)

def batchCreateCheckpoints (env : Env Address contract) (caller : Address)
    (items : List (Item Address)) : Tx Address (List ℕ) := do
  requireAdmin env caller
  Call.ensure (items.length ≠ 0) .batchEmpty
  Call.ensure (¬MAX_BATCH_SIZE < items.length) .batchTooLarge
  forM items fun item => Call.ensure (¬item.balance.val < 0) .amountNegative
  writeAll env.timestamp items

omit [DecidableEq Address] in
theorem run_ensureItems_eq_ok {items : List (Item Address)} :
    (forM items fun item => Call.ensure (¬item.balance.val < 0) .amountNegative :
      Tx Address Unit).run s = .ok u s' ↔ (∀ item ∈ items, 0 ≤ item.balance.val) ∧ s = s' := by
  apply Call.run_forM_checks_eq_ok
  intro item t t'
  rw [Call.run_ensure_eq_ok, not_lt]

theorem run_createCheckpoint_eq_ok {subject token : Address} {balance : I128} {metadata : String}
    {id : ℕ} : (createCheckpoint env caller subject token balance metadata).run s = .ok id s' ↔
      s.ByAdmin env caller ∧ 0 ≤ balance.val ∧ getLatestCheckpointId s + 1 ≤ U64_MAX ∧
        id = getLatestCheckpointId s + 1 ∧
        s' = s.append env.timestamp (subject, token, balance, metadata) := by
  simp [createCheckpoint, and_assoc]

theorem run_batchCreateCheckpoints_eq_ok {items : List (Item Address)} {ids : List ℕ} :
    (batchCreateCheckpoints env caller items).run s = .ok ids s' ↔
      s.ByAdmin env caller ∧ (items ≠ [] ∧ items.length ≤ MAX_BATCH_SIZE) ∧
        (∀ item ∈ items, 0 ≤ item.balance.val) ∧
        getLatestCheckpointId s + items.length ≤ U64_MAX ∧
        ids = List.range' (getLatestCheckpointId s + 1) items.length ∧
        s' = items.foldl (State.append env.timestamp) s := by
  simp only [batchCreateCheckpoints, Call.run_bind_eq_ok, run_requireAdmin_eq_ok,
    Call.run_ensure_eq_ok, run_ensureItems_eq_ok, run_writeAll_eq_ok, existsAndEq, and_assoc,
    exists_and_left, exists_const, true_and]
  constructor
  · intro h
    obtain ⟨hadmin, hlen, hmax, hsign, hids, rfl, rfl⟩ := h
    have hne : items ≠ [] := fun he => hlen (List.length_eq_zero_iff.2 he)
    exact ⟨hadmin, hne, not_lt.1 hmax, hsign, hids hne, rfl, rfl⟩
  · intro h
    obtain ⟨hadmin, hne, hmax, hsign, hids, rfl, rfl⟩ := h
    have hlen : items.length ≠ 0 := fun he => hne (List.length_eq_zero_iff.1 he)
    exact ⟨hadmin, hlen, not_lt.2 hmax, hsign, fun _ => hids, rfl, rfl⟩

end Callora.Checkpoint
