import Callora.Settlement.Types

/-! Money in and money out: initialization, the replay guard, the three ways to credit, developer
withdrawals and their limits, and batch settlement. Each entrypoint comes with the exact condition
under which it returns and the state it then leaves. -/

namespace Callora.Settlement
open Library

abbrev Tx (Address Ledger α : Type) : Type := Call SettlementError (State Address Ledger) α

section Reads
variable {Address Ledger : Type} {s s' : State Address Ledger} {u : Unit}

def publish (event : Event Address) : Tx Address Ledger Unit :=
  .modify fun s => { s with events := s.events ++ [event] }

def getAdmin : Tx Address Ledger Address := do
  let s ← Call.load
  Call.unwrap s.admin (.error .notInitialized)

def getVault : Tx Address Ledger Address := do
  let s ← Call.load
  Call.unwrap s.vault (.error .notInitialized)

def getGlobalPool : Tx Address Ledger GlobalPool := do
  let s ← Call.load
  Call.unwrap s.globalPool (.error .notInitialized)

def getTotalReceived (s : State Address Ledger) : I128 := s.totalReceived.getD 0

def getUsdcToken : Tx Address Ledger Address := do
  let s ← Call.load
  Call.okOr s.usdc .usdcTokenNotConfigured

@[simp] theorem run_publish_eq_ok {event : Event Address} :
    (publish event).run s = .ok u s' ↔ { s with events := s.events ++ [event] } = s' :=
  Call.run_modify_eq_ok

@[simp] theorem run_getAdmin_eq_ok {admin : Address} :
    getAdmin.run s = .ok admin s' ↔ s.admin = some admin ∧ s = s' := by
  simp [getAdmin, and_comm]

@[simp] theorem run_getVault_eq_ok {vault : Address} :
    getVault.run s = .ok vault s' ↔ s.vault = some vault ∧ s = s' := by
  simp [getVault, and_comm]

@[simp] theorem run_getGlobalPool_eq_ok {pool : GlobalPool} :
    getGlobalPool.run s = .ok pool s' ↔ s.globalPool = some pool ∧ s = s' := by
  simp [getGlobalPool, and_comm]

@[simp] theorem run_publish_eq_err {event : Event Address} {e : SettlementError} :
    (publish event).run s = .err e s' ↔ False := Call.run_modify_eq_err

@[simp] theorem run_publish_eq_trap {event : Event Address} {r : Trap SettlementError} :
    (publish event).run s = .trap r ↔ False := Call.run_modify_eq_trap

@[simp] theorem run_getUsdcToken_eq_err {e : SettlementError} :
    getUsdcToken.run s = .err e s' ↔ s.usdc = none ∧ .usdcTokenNotConfigured = e ∧ s = s' := by
  simp [getUsdcToken]

@[simp] theorem run_getUsdcToken_eq_ok {usdc : Address} :
    getUsdcToken.run s = .ok usdc s' ↔ s.usdc = some usdc ∧ s = s' := by
  simp [getUsdcToken, and_comm]

@[simp] theorem run_getUsdcToken_eq_trap {r : Trap SettlementError} :
    getUsdcToken.run s = .trap r ↔ False := by
  simp [getUsdcToken]

end Reads

/-! Withdrawal limits. -/

section Limits
variable {Address Ledger : Type} {contract : Address} {s s' : State Address Ledger} {u : Unit}

def requireClaimWindowOpen (env : Env Address contract) (developer : Address) :
    Tx Address Ledger Unit := do
  let s ← Call.load
  match s.developerClaimWindow developer with
  | some window =>
    Call.ensure (¬(env.timestamp < window.startTs ∨ window.endTs < env.timestamp))
      .claimWindowClosed
  | none => pure ()

def getDeveloperMinBalance (s : State Address Ledger) (developer : Address) : I128 :=
  (s.developerMinBalance developer).getD 0

def checkMinBalance (developer : Address) (remainingBalance : I128) :
    Tx Address Ledger Unit := do
  let s ← Call.load
  let min := getDeveloperMinBalance s developer
  Call.ensure (¬(0 < min.val ∧ remainingBalance.val < min.val)) .minBalanceViolation

def getDailyWithdrawCap (s : State Address Ledger) (developer : Address) : I128 :=
  (s.dailyWithdrawCap developer).getD 0

/-- The day's accumulator, reset when the stored day is another one. -/
def dailyState (s : State Address Ledger) (developer : Address) (today : ℕ) :
    DailyWithdrawState :=
  let daily := (s.withdrawalToday developer).getD ⟨today, 0⟩
  if daily.day ≠ today then ⟨today, 0⟩ else daily

def checkDailyCap (daily : DailyWithdrawState) (amount cap : I128) : Tx Address Ledger Unit :=
  if 0 < cap.val then do
    let projected ← Call.okOr (daily.amount.checkedAdd amount) .dailyWithdrawCapExceeded
    Call.ensure (¬cap.val < projected.val) .dailyWithdrawCapExceeded
  else pure ()

def transferOut (T : TokenContract Address Ledger) (token «from» «to» : Address) (amount : I128) :
    Tx Address Ledger Unit := do
  let s ← Call.load
  let ledger ← Call.unwrap (T.transfer s.ledger token «from» «to» amount.val) .hostCall
  Call.modify fun s => { s with ledger := ledger }

def State.ClaimOpen (s : State Address Ledger) (env : Env Address contract)
    (developer : Address) : Prop :=
  ∀ window, s.developerClaimWindow developer = some window →
    window.startTs ≤ env.timestamp ∧ env.timestamp ≤ window.endTs

def State.KeepsMinBalance (s : State Address Ledger) (developer : Address) (remaining : I128) :
    Prop :=
  0 < (getDeveloperMinBalance s developer).val →
    (getDeveloperMinBalance s developer).val ≤ remaining.val

def WithinCap (daily : DailyWithdrawState) (amount cap : I128) : Prop :=
  0 < cap.val → ∃ projected : I128, projected.val = daily.amount.val + amount.val ∧
    projected.val ≤ cap.val

@[simp] theorem run_requireClaimWindowOpen_eq_ok {env : Env Address contract}
    {developer : Address} :
    (requireClaimWindowOpen env developer).run s = .ok u s' ↔
      s.ClaimOpen env developer ∧ s = s' := by
  rcases h : s.developerClaimWindow developer with _ | window <;>
    simp [requireClaimWindowOpen, State.ClaimOpen, h]

@[simp] theorem run_requireClaimWindowOpen_eq_err {env : Env Address contract}
    {developer : Address} {e : SettlementError} :
    (requireClaimWindowOpen env developer).run s = .err e s' ↔
      ¬s.ClaimOpen env developer ∧ .claimWindowClosed = e ∧ s = s' := by
  rcases h : s.developerClaimWindow developer with _ | window
  · simp [requireClaimWindowOpen, State.ClaimOpen, h]
  · simp [requireClaimWindowOpen, State.ClaimOpen, h]

@[simp] theorem run_requireClaimWindowOpen_eq_trap {env : Env Address contract}
    {developer : Address} {r : Trap SettlementError} :
    (requireClaimWindowOpen env developer).run s = .trap r ↔ False := by
  rcases h : s.developerClaimWindow developer with _ | window
  · simp [requireClaimWindowOpen, h]
  · simp [requireClaimWindowOpen, h]

@[simp] theorem run_checkMinBalance_eq_ok {developer : Address} {remaining : I128} :
    (checkMinBalance developer remaining).run s = .ok u s' ↔
      s.KeepsMinBalance developer remaining ∧ s = s' := by
  have h : ¬(0 < (getDeveloperMinBalance s developer).val ∧
      remaining.val < (getDeveloperMinBalance s developer).val) ↔
      s.KeepsMinBalance developer remaining := by
    simp only [State.KeepsMinBalance, not_and, not_lt]
  simp only [checkMinBalance, Call.run_bind_eq_ok, Call.run_load_eq_ok, Call.run_ensure_eq_ok,
    existsAndEq, true_and, h]

@[simp] theorem run_checkMinBalance_eq_err {developer : Address} {remaining : I128}
    {e : SettlementError} :
    (checkMinBalance developer remaining).run s = .err e s' ↔
      ¬s.KeepsMinBalance developer remaining ∧ .minBalanceViolation = e ∧ s = s' := by
  simp [checkMinBalance, State.KeepsMinBalance, and_assoc]

@[simp] theorem run_checkMinBalance_eq_trap {developer : Address} {remaining : I128}
    {r : Trap SettlementError} :
    (checkMinBalance developer remaining).run s = .trap r ↔ False := by
  simp [checkMinBalance]

@[simp] theorem run_checkDailyCap_eq_ok {daily : DailyWithdrawState} {amount cap : I128} :
    (checkDailyCap daily amount cap : Tx Address Ledger Unit).run s = .ok u s' ↔
      WithinCap daily amount cap ∧ s = s' := by
  by_cases h : 0 < cap.val <;> simp [checkDailyCap, WithinCap, h, and_right_comm]

@[simp] theorem run_transferOut_eq_ok {T : TokenContract Address Ledger}
    {token «from» «to» : Address} {amount : I128} :
    (transferOut T token «from» «to» amount).run s = .ok u s' ↔
      ∃ ledger, T.transfer s.ledger token «from» «to» amount.val = some ledger ∧
        { s with ledger := ledger } = s' := by
  simp [transferOut]

@[simp] theorem run_transferOut_eq_err {T : TokenContract Address Ledger}
    {token «from» «to» : Address} {amount : I128} {e : SettlementError} :
    (transferOut T token «from» «to» amount).run s = .err e s' ↔ False := by
  simp [transferOut]

@[simp] theorem run_transferOut_eq_trap {T : TokenContract Address Ledger}
    {token «from» «to» : Address} {amount : I128} {r : Trap SettlementError} :
    (transferOut T token «from» «to» amount).run s = .trap r ↔
      T.transfer s.ledger token «from» «to» amount.val = none ∧ .hostCall = r := by
  simp [transferOut]

@[simp] theorem run_checkDailyCap_eq_err {daily : DailyWithdrawState} {amount cap : I128}
    {e : SettlementError} :
    (checkDailyCap daily amount cap : Tx Address Ledger Unit).run s = .err e s' ↔
      ¬WithinCap daily amount cap ∧ .dailyWithdrawCapExceeded = e ∧ s = s' := by
  by_cases hcap : 0 < cap.val
  · rcases hp : daily.amount.checkedAdd amount with _ | projected
    · have hnone : ¬WithinCap daily amount cap := fun h => by
        obtain ⟨projected, hval, -⟩ := h hcap
        rw [MachineInt.checkedAdd_eq_some.2 hval] at hp
        cases hp
      simp [checkDailyCap, hcap, hp, hnone]
    · have hval := MachineInt.checkedAdd_eq_some.1 hp
      have hsome : WithinCap daily amount cap ↔ projected.val ≤ cap.val := by
        refine ⟨fun h => ?_, fun h _ => ⟨projected, hval, h⟩⟩
        obtain ⟨p, hpval, hle⟩ := h hcap
        exact (hval.trans hpval.symm) ▸ hle
      simp [checkDailyCap, hcap, hp, hsome]
  · simp [checkDailyCap, WithinCap, hcap]

@[simp] theorem run_checkDailyCap_eq_trap {daily : DailyWithdrawState} {amount cap : I128}
    {r : Trap SettlementError} :
    (checkDailyCap daily amount cap : Tx Address Ledger Unit).run s = .trap r ↔ False := by
  simp [checkDailyCap]

end Limits

variable {Address Ledger : Type} [LinearOrder Address] {contract : Address}
  {s s' : State Address Ledger} {u : Unit}

/-! Authorization. -/

/-- `caller.require_auth()` followed by the comparison with the stored admin that the admin-only
entrypoints make. -/
def requireAdmin (env : Env Address contract) (caller : Address) : Tx Address Ledger Unit := do
  requireAuth env caller
  let admin ← getAdmin
  Call.require (caller = admin) (.error .unauthorized)

/-- The same check in the entrypoints that return their errors. -/
def ensureAdmin (env : Env Address contract) (caller : Address) : Tx Address Ledger Unit := do
  requireAuth env caller
  let admin ← getAdmin
  Call.ensure (caller = admin) .unauthorized

def requireAuthorizedCaller (caller : Address) : Tx Address Ledger Unit := do
  let vault ← getVault
  let admin ← getAdmin
  Call.require (caller = vault ∨ caller = admin) (.error .unauthorized)

def State.ByAdmin (s : State Address Ledger) (env : Env Address contract) (caller : Address) :
    Prop := caller ∈ env.signers ∧ s.admin = some caller

def State.AuthorizedCaller (s : State Address Ledger) (caller : Address) : Prop :=
  ∃ vault admin, s.vault = some vault ∧ s.admin = some admin ∧ (caller = vault ∨ caller = admin)

@[simp] theorem run_requireAdmin_eq_ok {env : Env Address contract} {caller : Address} :
    (requireAdmin env caller).run s = .ok u s' ↔ s.ByAdmin env caller ∧ s = s' := by
  simp [requireAdmin, State.ByAdmin, and_assoc]

@[simp] theorem run_ensureAdmin_eq_ok {env : Env Address contract} {caller : Address} :
    (ensureAdmin env caller).run s = .ok u s' ↔ s.ByAdmin env caller ∧ s = s' := by
  simp [ensureAdmin, State.ByAdmin, and_assoc]

@[simp] theorem run_requireAuthorizedCaller_eq_ok {caller : Address} :
    (requireAuthorizedCaller caller).run s = .ok u s' ↔ s.AuthorizedCaller caller ∧ s = s' := by
  simp only [requireAuthorizedCaller, Call.run_bind_eq_ok, run_getVault_eq_ok, run_getAdmin_eq_ok,
    Call.run_require_eq_ok, State.AuthorizedCaller]
  constructor
  · rintro ⟨vault, _, ⟨hv, rfl⟩, admin, _, ⟨ha, rfl⟩, hc, rfl⟩
    exact ⟨⟨vault, admin, hv, ha, hc⟩, rfl⟩
  · rintro ⟨⟨vault, admin, hv, ha, hc⟩, rfl⟩
    exact ⟨vault, s, ⟨hv, rfl⟩, admin, s, ⟨ha, rfl⟩, hc, rfl⟩

/-! Initialization. -/

def init (env : Env Address contract) (admin vaultAddress : Address) :
    Tx Address Ledger Unit := do
  requireAuth env admin
  let s ← Call.load
  Call.require (s.admin = none) (.error .alreadyInitialized)
  Call.require (admin ≠ vaultAddress)
    (.message "invalid config: admin and vault_address must be distinct")
  Call.require (admin ≠ contract) (.message "invalid config: admin cannot be the contract itself")
  Call.require (vaultAddress ≠ contract)
    (.message "invalid config: vault_address cannot be the contract itself")
  Call.modify fun s => { s with
    admin := some admin
    vault := some vaultAddress
    globalPool := some ⟨0, env.timestamp⟩
    totalReceived := some 0 }

theorem run_init_eq_ok {env : Env Address contract} {admin vaultAddress : Address} :
    (init env admin vaultAddress).run s = .ok u s' ↔
      (admin ∈ env.signers ∧ s.admin = none ∧ admin ≠ vaultAddress ∧ admin ≠ contract ∧
        vaultAddress ≠ contract) ∧
      s' = { s with
        admin := some admin
        vault := some vaultAddress
        globalPool := some ⟨0, env.timestamp⟩
        totalReceived := some 0 } := by
  simp [init, and_assoc, eq_comm (a := s')]

/-! The replay guard. -/

def checkDeveloper (developer : Address) (ledgerSeq : ℕ) : Tx Address Ledger Unit := do
  let s ← Call.load
  let stored := (s.highWaterMark developer).getD 0
  Call.ensure (¬ledgerSeq ≤ stored) .replayDetected
  Call.modify fun s => { s with highWaterMark := s.highWaterMark.set developer ledgerSeq }

def checkPool (ledgerSeq : ℕ) : Tx Address Ledger Unit := do
  let s ← Call.load
  let stored := s.poolHighWaterMark.getD 0
  Call.ensure (¬ledgerSeq ≤ stored) .replayDetected
  Call.modify fun s => { s with poolHighWaterMark := some ledgerSeq }

def State.mark (s : State Address Ledger) (developer : Address) : ℕ :=
  (s.highWaterMark developer).getD 0

def State.poolMark (s : State Address Ledger) : ℕ := s.poolHighWaterMark.getD 0

@[simp] theorem run_checkDeveloper_eq_ok {developer : Address} {ledgerSeq : ℕ} :
    (checkDeveloper developer ledgerSeq).run s = .ok u s' ↔ s.mark developer < ledgerSeq ∧
      { s with highWaterMark := s.highWaterMark.set developer ledgerSeq } = s' := by
  simp [checkDeveloper, State.mark]

omit [LinearOrder Address] in
@[simp] theorem run_checkPool_eq_ok {ledgerSeq : ℕ} :
    (checkPool ledgerSeq).run s = .ok u s' ↔
      s.poolMark < ledgerSeq ∧ { s with poolHighWaterMark := some ledgerSeq } = s' := by
  simp [checkPool, State.poolMark]

/-! Credits. -/

def sortedInsert (index : List Address) (addr : Address) : List Address :=
  if addr ∈ index then index
  else index.insertIdx (index.findIdx fun existing => addr < existing) addr

def creditDeveloper (developer : Address) (amount : I128) (token : Address) :
    Tx Address Ledger I128 := do
  let s ← Call.load
  let newBalance ← Call.unwrap ((s.balanceOf developer token).checkedAdd amount)
    (.error .developerOverflow)
  Call.modify fun s => { s with
    developerBalance := s.developerBalance.set (developer, token) newBalance
    developerIndex := some (sortedInsert (s.developerIndex.getD []) developer) }
  pure newBalance

def State.credited (s : State Address Ledger) (developer token : Address) (newBalance : I128) :
    State Address Ledger :=
  { s with
    developerBalance := s.developerBalance.set (developer, token) newBalance
    developerIndex := some (sortedInsert (s.developerIndex.getD []) developer) }

@[simp] theorem run_creditDeveloper_eq_ok {developer token : Address} {amount newBalance : I128} :
    (creditDeveloper developer amount token).run s = .ok newBalance s' ↔
      newBalance.val = (s.balanceOf developer token).val + amount.val ∧
      s.credited developer token newBalance = s' := by
  simp [creditDeveloper, State.credited]

def receivePayment (env : Env Address contract) (caller : Address) (amount : I128) (toPool : Bool)
    (developer : Option Address) (token : Address) (ledgerSeq : ℕ) : Tx Address Ledger Unit := do
  requireAuth env caller
  requireAuthorizedCaller caller
  Call.require (0 < amount.val) (.error .amountNotPositive)
  if toPool = true then
    -- the mark is raised before the arguments are looked at; a trap below takes it back
    Call.orTrap (checkPool ledgerSeq)
    Call.require (developer = none) (.error .developerMustBeNone)
    let globalPool ← getGlobalPool
    let totalBalance ← Call.unwrap (globalPool.totalBalance.checkedAdd amount)
      (.error .poolOverflow)
    Call.modify fun s => { s with globalPool := some ⟨totalBalance, env.timestamp⟩ }
    publish (.paymentReceived caller amount true none token)
  else
    let developer ← Call.unwrap developer (.error .developerRequired)
    Call.orTrap (checkDeveloper developer ledgerSeq)
    let newBalance ← creditDeveloper developer amount token
    publish (.paymentReceived caller amount false (some developer) token)
    publish (.balanceCredited developer amount newBalance token)

def State.AcceptsPayment (s : State Address Ledger) (env : Env Address contract)
    (caller : Address) (amount : I128) : Prop :=
  caller ∈ env.signers ∧ s.AuthorizedCaller caller ∧ 0 < amount.val

theorem run_receivePayment_pool_eq_ok {env : Env Address contract} {caller token : Address}
    {amount : I128} {developer : Option Address} {ledgerSeq : ℕ} :
    (receivePayment env caller amount true developer token ledgerSeq).run s = .ok u s' ↔
      s.AcceptsPayment env caller amount ∧ s.poolMark < ledgerSeq ∧ developer = none ∧
      ∃ pool totalBalance, s.globalPool = some pool ∧
        totalBalance.val = pool.totalBalance.val + amount.val ∧
        s' = { s with
          poolHighWaterMark := some ledgerSeq
          globalPool := some ⟨totalBalance, env.timestamp⟩
          events := s.events ++ [.paymentReceived caller amount true none token] } := by
  simp [receivePayment, State.AcceptsPayment, and_assoc, eq_comm (a := s')]

theorem run_receivePayment_developer_eq_ok {env : Env Address contract} {caller token : Address}
    {amount : I128} {developer : Option Address} {ledgerSeq : ℕ} :
    (receivePayment env caller amount false developer token ledgerSeq).run s = .ok u s' ↔
      s.AcceptsPayment env caller amount ∧ ∃ dev newBalance, developer = some dev ∧
        s.mark dev < ledgerSeq ∧
        newBalance.val = (s.balanceOf dev token).val + amount.val ∧
        s' = { s.credited dev token newBalance with
          highWaterMark := s.highWaterMark.set dev ledgerSeq
          events := s.events ++ [.paymentReceived caller amount false (some dev) token,
            .balanceCredited dev amount newBalance token] } := by
  simp [receivePayment, State.AcceptsPayment, State.credited, State.balanceOf, and_assoc,
    eq_comm (a := s')]

def creditItem (token : Address) (item : Address × I128) : Tx Address Ledger Unit := do
  let newBalance ← creditDeveloper item.1 item.2 token
  publish (.balanceCredited item.1 item.2 newBalance token)

/-- All marks are checked and raised before any balance changes. -/
def batchReceivePayment (env : Env Address contract) (caller : Address)
    (items : List (Address × I128)) (token : Address) (ledgerSeq : ℕ) :
    Tx Address Ledger Unit := do
  requireAuth env caller
  requireAuthorizedCaller caller
  Call.require (0 < items.length)
    (.message "batch_receive_payment requires at least one item")
  Call.require (items.length ≤ MAX_BATCH_SIZE) (.message "batch too large")
  forM items fun item => Call.require (0 < item.2.val) (.message "amount must be positive")
  forM items fun item => Call.orTrap (checkDeveloper item.1 ledgerSeq)
  forM items (creditItem token)

def forceCreditDeveloper (env : Env Address contract) (caller developer : Address)
    (amount : I128) (token : Address) (reason : String) : Tx Address Ledger Unit := do
  requireAdmin env caller
  Call.require (0 < amount.val) (.error .amountNotPositive)
  let newBalance ← creditDeveloper developer amount token
  publish (.developerForceCredited developer amount reason newBalance token)

theorem run_creditItem_eq_ok {token : Address} {item : Address × I128} :
    (creditItem token item).run s = .ok u s' ↔ ∃ newBalance : I128,
      newBalance.val = (s.balanceOf item.1 token).val + item.2.val ∧
      s' = { s.credited item.1 token newBalance with
        events := s.events ++ [.balanceCredited item.1 item.2 newBalance token] } := by
  simp [creditItem, State.credited, and_assoc, eq_comm (a := s')]

omit [LinearOrder Address] in
theorem run_requirePositive_eq_ok {items : List (Address × I128)} :
    (forM items fun item => Call.require (0 < item.2.val)
      (.message "amount must be positive") : Tx Address Ledger Unit).run s = .ok u s' ↔
      (∀ item ∈ items, 0 < item.2.val) ∧ s = s' := by
  induction items with
  | nil => simp
  | cons item items ih => simp [ih, and_assoc]

def raiseMarks (marks : Store Address ℕ) (devs : List Address) (ledgerSeq : ℕ) :
    Store Address ℕ := fun d => if d ∈ devs then some ledgerSeq else marks d

theorem raiseMarks_cons (marks : Store Address ℕ) (d : Address) (devs : List Address)
    (ledgerSeq : ℕ) :
    raiseMarks (marks.set d ledgerSeq) devs ledgerSeq = raiseMarks marks (d :: devs) ledgerSeq := by
  funext x
  by_cases hx : x = d <;> simp [raiseMarks, hx]

theorem mark_set (s : State Address Ledger) (d d' : Address) (ledgerSeq : ℕ) :
    State.mark { s with highWaterMark := s.highWaterMark.set d ledgerSeq } d' =
      if d' = d then ledgerSeq else s.mark d' := by
  by_cases h : d' = d <;> simp [State.mark, h]

/-- The checking pass raises each mark as it goes, so it accepts no developer twice. -/
theorem run_checkDevelopers_eq_ok {items : List (Address × I128)} {ledgerSeq : ℕ} :
    (forM items fun item => Call.orTrap (checkDeveloper item.1 ledgerSeq) :
      Tx Address Ledger Unit).run s = .ok u s' ↔
      ((items.map Prod.fst).Nodup ∧ ∀ item ∈ items, s.mark item.1 < ledgerSeq) ∧
      s' = { s with
        highWaterMark := raiseMarks s.highWaterMark (items.map Prod.fst) ledgerSeq } := by
  induction items generalizing s with
  | nil =>
    have hnil : raiseMarks s.highWaterMark [] ledgerSeq = s.highWaterMark := by
      funext d
      simp [raiseMarks]
    simp [hnil, eq_comm (a := s')]
  | cons item items ih =>
    -- with the mark of the head raised, the rest of the list must not name it again
    have hmarks : (∀ x ∈ items, State.mark
          { s with highWaterMark := s.highWaterMark.set item.1 ledgerSeq } x.1 < ledgerSeq) ↔
        item.1 ∉ items.map Prod.fst ∧ ∀ x ∈ items, s.mark x.1 < ledgerSeq := by
      simp only [mark_set, List.mem_map, not_exists, not_and, ← forall_and]
      refine forall_congr' fun x => forall_congr' fun _ => ?_
      by_cases h : x.1 = item.1 <;> simp [h]
    simp only [Call.run_forM_cons_eq_ok, Call.run_orTrap_eq_ok, run_checkDeveloper_eq_ok, ih]
    simp only [existsAndEq, hmarks, raiseMarks_cons, List.map_cons, List.nodup_cons,
      List.forall_mem_cons]
    constructor
    · rintro ⟨⟨h, -⟩, ⟨hnodup, hne, hm⟩, hs⟩
      exact ⟨⟨⟨hne, hnodup⟩, h, hm⟩, hs⟩
    · rintro ⟨⟨⟨hne, hnodup⟩, h, hm⟩, hs⟩
      exact ⟨⟨h, trivial⟩, ⟨hnodup, hne, hm⟩, hs⟩

theorem run_batchReceivePayment_eq_ok {env : Env Address contract} {caller token : Address}
    {items : List (Address × I128)} {ledgerSeq : ℕ} :
    (batchReceivePayment env caller items token ledgerSeq).run s = .ok u s' ↔
      (caller ∈ env.signers ∧ s.AuthorizedCaller caller ∧ 0 < items.length ∧
        items.length ≤ MAX_BATCH_SIZE ∧ ∀ item ∈ items, 0 < item.2.val) ∧
      ((items.map Prod.fst).Nodup ∧ ∀ item ∈ items, s.mark item.1 < ledgerSeq) ∧
      (forM items (creditItem token) : Tx Address Ledger Unit).run { s with
        highWaterMark := raiseMarks s.highWaterMark (items.map Prod.fst) ledgerSeq } =
          .ok u s' := by
  simp [batchReceivePayment, run_requirePositive_eq_ok, run_checkDevelopers_eq_ok, and_assoc]

theorem exists_run_creditItems {token : Address} {items : List (Address × I128)}
    (hdistinct : (items.map Prod.fst).Nodup) (hpos : ∀ item ∈ items, 0 < item.2.val) :
    (∃ s', (forM items (creditItem token) : Tx Address Ledger Unit).run s = .ok () s') ↔
      ∀ item ∈ items, (s.balanceOf item.1 token).val + item.2.val ≤ I128.max.val := by
  induction items generalizing s with
  | nil => simp
  | cons item items ih =>
    obtain ⟨hnew, hdistinct⟩ := List.nodup_cons.1 hdistinct
    obtain ⟨hitem, hpos⟩ := List.forall_mem_cons.1 hpos
    have hrest (newBalance : I128) : (∀ x ∈ items,
        ((s.developerBalance.set (item.1, token) newBalance (x.1, token)).getD 0).val + x.2.val ≤
          I128.max.val) ↔
        ∀ x ∈ items, (s.balanceOf x.1 token).val + x.2.val ≤ I128.max.val := by
      refine forall₂_congr fun x hx => ?_
      rw [Store.set_of_ne]
      · rfl
      · intro h
        exact hnew (List.mem_map.2 ⟨x, hx, (Prod.ext_iff.1 h).1⟩)
    rw [List.forall_mem_cons]
    constructor
    · rintro ⟨s', h⟩
      obtain ⟨s₁, h₁, h⟩ := Call.run_forM_cons_eq_ok.1 h
      obtain ⟨newBalance, hval, rfl⟩ := run_creditItem_eq_ok.1 h₁
      have hle := (MachineInt.exists_val_eq_add hitem.le).1 ⟨newBalance, hval⟩
      have hall := (ih hdistinct hpos).1 ⟨s', h⟩
      exact ⟨hle, (hrest newBalance).1 hall⟩
    · rintro ⟨hle, hall⟩
      obtain ⟨newBalance, hval⟩ := (MachineInt.exists_val_eq_add hitem.le).2 hle
      have hsteps : ∃ s₁, (creditItem token item).run s = .ok () s₁ ∧
          ∃ s', (forM items (creditItem token) : Tx Address Ledger Unit).run s₁ = .ok () s' :=
        ⟨_, run_creditItem_eq_ok.2 ⟨newBalance, hval, rfl⟩,
          (ih hdistinct hpos).2 ((hrest newBalance).2 hall)⟩
      obtain ⟨s₁, h₁, s', h⟩ := hsteps
      exact ⟨s', Call.run_forM_cons_eq_ok.2 ⟨s₁, h₁, h⟩⟩

/-! When a payment goes through, as a condition on the state it meets. -/

def State.TakesPoolPayment (s : State Address Ledger) (env : Env Address contract)
    (caller : Address) (amount : I128) (developer : Option Address) (ledgerSeq : ℕ) : Prop :=
  s.AcceptsPayment env caller amount ∧ s.poolMark < ledgerSeq ∧ developer = none ∧
    ∃ pool, s.globalPool = some pool ∧ pool.totalBalance.val + amount.val ≤ I128.max.val

def State.TakesDeveloperPayment (s : State Address Ledger) (env : Env Address contract)
    (caller : Address) (amount : I128) (developer : Option Address) (token : Address)
    (ledgerSeq : ℕ) : Prop :=
  s.AcceptsPayment env caller amount ∧ ∃ dev, developer = some dev ∧ s.mark dev < ledgerSeq ∧
    (s.balanceOf dev token).val + amount.val ≤ I128.max.val

def State.TakesBatch (s : State Address Ledger) (env : Env Address contract) (caller : Address)
    (items : List (Address × I128)) (token : Address) (ledgerSeq : ℕ) : Prop :=
  (caller ∈ env.signers ∧ s.AuthorizedCaller caller ∧ 0 < items.length ∧
    items.length ≤ MAX_BATCH_SIZE ∧ ∀ item ∈ items, 0 < item.2.val) ∧
  ((items.map Prod.fst).Nodup ∧ ∀ item ∈ items, s.mark item.1 < ledgerSeq) ∧
  ∀ item ∈ items, (s.balanceOf item.1 token).val + item.2.val ≤ I128.max.val

theorem receivePayment_pool_succeeds {env : Env Address contract} {caller token : Address}
    {amount : I128} {developer : Option Address} {ledgerSeq : ℕ} :
    (∃ s', (receivePayment env caller amount true developer token ledgerSeq).run s = .ok () s') ↔
      s.TakesPoolPayment env caller amount developer ledgerSeq := by
  simp only [run_receivePayment_pool_eq_ok, State.TakesPoolPayment]
  constructor
  · rintro ⟨_, hacc, hseq, hdev, pool, total, hpool, htotal, -⟩
    have hle := (MachineInt.exists_val_eq_add hacc.2.2.le).1 ⟨total, htotal⟩
    exact ⟨hacc, hseq, hdev, pool, hpool, hle⟩
  · rintro ⟨hacc, hseq, hdev, pool, hpool, hle⟩
    obtain ⟨total, htotal⟩ := (MachineInt.exists_val_eq_add hacc.2.2.le).2 hle
    exact ⟨_, hacc, hseq, hdev, pool, total, hpool, htotal, rfl⟩

theorem receivePayment_developer_succeeds {env : Env Address contract} {caller token : Address}
    {amount : I128} {developer : Option Address} {ledgerSeq : ℕ} :
    (∃ s', (receivePayment env caller amount false developer token ledgerSeq).run s = .ok () s') ↔
      s.TakesDeveloperPayment env caller amount developer token ledgerSeq := by
  simp only [run_receivePayment_developer_eq_ok, State.TakesDeveloperPayment]
  constructor
  · rintro ⟨_, hacc, dev, total, hdev, hseq, htotal, -⟩
    have hle := (MachineInt.exists_val_eq_add hacc.2.2.le).1 ⟨total, htotal⟩
    exact ⟨hacc, dev, hdev, hseq, hle⟩
  · rintro ⟨hacc, dev, hdev, hseq, hle⟩
    obtain ⟨total, htotal⟩ := (MachineInt.exists_val_eq_add hacc.2.2.le).2 hle
    exact ⟨_, hacc, dev, total, hdev, hseq, htotal, rfl⟩

theorem batchReceivePayment_succeeds {env : Env Address contract} {caller token : Address}
    {items : List (Address × I128)} {ledgerSeq : ℕ} :
    (∃ s', (batchReceivePayment env caller items token ledgerSeq).run s = .ok () s') ↔
      s.TakesBatch env caller items token ledgerSeq := by
  simp only [run_batchReceivePayment_eq_ok, State.TakesBatch, exists_and_left]
  apply and_congr_right
  intro hguards
  apply and_congr_right
  intro hmarks
  exact exists_run_creditItems hmarks.1 hguards.2.2.2.2

theorem run_forceCreditDeveloper_eq_ok {env : Env Address contract}
    {caller developer token : Address} {amount : I128} {reason : String} :
    (forceCreditDeveloper env caller developer amount token reason).run s = .ok u s' ↔
      s.ByAdmin env caller ∧ 0 < amount.val ∧ ∃ newBalance : I128,
        newBalance.val = (s.balanceOf developer token).val + amount.val ∧
        s' = { s.credited developer token newBalance with
          events := s.events ++
            [.developerForceCredited developer amount reason newBalance token] } := by
  simp [forceCreditDeveloper, State.credited, and_assoc, eq_comm (a := s')]

/-! Withdrawals. -/

def withdrawDeveloperBalance (T : TokenContract Address Ledger) (env : Env Address contract)
    (developer : Address) (amount : I128) («to» : Option Address) : Tx Address Ledger Unit := do
  requireAuth env developer
  Call.ensure (¬amount.val ≤ 0) .amountNotPositive
  let recipient := «to».getD developer
  Call.require (recipient ≠ contract)
    (.message "invalid recipient: cannot withdraw to contract itself")
  requireClaimWindowOpen env developer
  let usdc ← getUsdcToken
  let s ← Call.load
  -- only an `i128` underflow fails here; want of balance is found by the comparison further down
  let remaining ← Call.okOr ((s.balanceOf developer usdc).checkedSub amount)
    .insufficientDeveloperBalance
  checkMinBalance developer remaining
  let currentBalance := s.balanceOf developer usdc
  Call.ensure (¬currentBalance.val < amount.val) .insufficientDeveloperBalance
  let today := env.timestamp / 86400
  let daily := dailyState s developer today
  checkDailyCap daily amount (getDailyWithdrawCap s developer)
  let newBalance ← Call.okOr (currentBalance.checkedSub amount) .developerBalanceUnderflow
  Call.ensure (¬T.balance s.ledger usdc contract < amount.val) .insufficientContractBalance
  transferOut T usdc contract recipient amount
  Call.modify fun s => { s with
    developerBalance := s.developerBalance.set (developer, usdc) newBalance
    withdrawalToday := s.withdrawalToday.set developer
      { daily with amount := daily.amount.saturatingAdd amount } }
  publish (.developerWithdraw developer amount newBalance recipient usdc)

/-- Everything a withdrawal checks before its first write. -/
structure Withdrawal (T : TokenContract Address Ledger) (env : Env Address contract)
    (s : State Address Ledger) (developer : Address) (amount : I128) (recipient usdc : Address)
    (newBalance : I128) (ledger : Ledger) : Prop where
  authorized : developer ∈ env.signers
  positive : 0 < amount.val
  recipient_ne : recipient ≠ contract
  claimOpen : s.ClaimOpen env developer
  configured : s.usdc = some usdc
  remaining : newBalance.val = (s.balanceOf developer usdc).val - amount.val
  keepsMin : s.KeepsMinBalance developer newBalance
  covered : amount.val ≤ (s.balanceOf developer usdc).val
  withinCap : WithinCap (dailyState s developer (env.timestamp / 86400)) amount
    (getDailyWithdrawCap s developer)
  funded : amount.val ≤ T.balance s.ledger usdc contract
  paid : T.transfer s.ledger usdc contract recipient amount.val = some ledger

def State.withdrawn (s : State Address Ledger) (now : ℕ) (developer recipient usdc : Address)
    (amount newBalance : I128) (ledger : Ledger) : State Address Ledger :=
  let daily := dailyState s developer (now / 86400)
  { s with
    ledger := ledger
    developerBalance := s.developerBalance.set (developer, usdc) newBalance
    withdrawalToday := s.withdrawalToday.set developer
      { daily with amount := daily.amount.saturatingAdd amount }
    events := s.events ++ [.developerWithdraw developer amount newBalance recipient usdc] }

theorem run_withdrawDeveloperBalance_eq_ok {T : TokenContract Address Ledger}
    {env : Env Address contract} {developer : Address} {amount : I128} {«to» : Option Address} :
    (withdrawDeveloperBalance T env developer amount «to»).run s = .ok u s' ↔
      ∃ usdc newBalance ledger,
        Withdrawal T env s developer amount («to».getD developer) usdc newBalance ledger ∧
        s' = s.withdrawn env.timestamp developer («to».getD developer) usdc amount newBalance
          ledger := by
  simp only [withdrawDeveloperBalance, Call.run_bind_eq_ok, run_requireAuth_eq_ok,
    Call.run_ensure_eq_ok, Call.run_require_eq_ok, run_requireClaimWindowOpen_eq_ok,
    run_getUsdcToken_eq_ok, Call.run_load_eq_ok, Call.run_okOr_eq_ok,
    MachineInt.checkedSub_eq_some, run_checkMinBalance_eq_ok, run_checkDailyCap_eq_ok,
    run_transferOut_eq_ok, Call.run_modify_eq_ok, run_publish_eq_ok, existsAndEq, and_assoc,
    exists_and_left, exists_const, true_and, not_le, not_lt]
  constructor
  -- the entrypoint subtracts the amount twice, with one result
  · intro h
    obtain ⟨hauth, hpos, hrec, hopen, usdc, hu, rem, hrem, hmin, hcov, hcap, newBalance, hnew,
      hfund, ledger, hpaid, hs⟩ := h
    obtain rfl : rem = newBalance := MachineInt.ext (hrem.trans hnew.symm)
    exact ⟨usdc, rem, ledger,
      ⟨hauth, hpos, hrec, hopen, hu, hrem, hmin, hcov, hcap, hfund, hpaid⟩, hs.symm⟩
  · intro h
    obtain ⟨usdc, newBalance, ledger, h, rfl⟩ := h
    exact ⟨h.authorized, h.positive, h.recipient_ne, h.claimOpen, usdc, h.configured, newBalance,
      h.remaining, h.keepsMin, h.covered, h.withinCap, newBalance, h.remaining, h.funded, ledger,
      h.paid, rfl⟩

theorem state_of_run_withdrawDeveloperBalance_eq_err {T : TokenContract Address Ledger}
    {env : Env Address contract} {developer : Address} {amount : I128} {«to» : Option Address}
    {e : SettlementError}
    (h : (withdrawDeveloperBalance T env developer amount «to»).run s = .err e s') : s' = s := by
  simp [withdrawDeveloperBalance] at h
  grind

/-! Batch settlement. -/

structure SettleInput (Address : Type) where
  developer : Address
  amount : I128
  «to» : Option Address
deriving DecidableEq

inductive SettleOutcome where
  | success
  | amountNotPositive
  | claimWindowClosed
  | insufficientBalance
  | dailyWithdrawCapExceeded
  | developerBalanceUnderflow
  | otherError
deriving DecidableEq

def SettleOutcome.ofError : SettlementError → SettleOutcome
  | .amountNotPositive => .amountNotPositive
  | .claimWindowClosed => .claimWindowClosed
  | .insufficientDeveloperBalance => .insufficientBalance
  | .dailyWithdrawCapExceeded => .dailyWithdrawCapExceeded
  | .developerBalanceUnderflow => .developerBalanceUnderflow
  | _ => .otherError

theorem SettleOutcome.ofError_ne_success (e : SettlementError) :
    SettleOutcome.ofError e ≠ .success := by
  cases e <;> decide

/-- The loop of `batch_settle`: an error of one item is caught, a trap is not. All items run in
one frame, so that each takes its developer's authorization from those after it. -/
def settleAll (T : TokenContract Address Ledger) : Env Address contract →
    List (SettleInput Address) → Tx Address Ledger (List SettleOutcome)
  | _, [] => pure []
  | env, input :: inputs => do
    let res ← Call.attempt (withdrawDeveloperBalance T env input.developer input.amount input.to)
    let outcomes ← settleAll T (env.spend input.developer) inputs
    match res with
    | .ok _ => pure (.success :: outcomes)
    | .error e => pure (.ofError e :: outcomes)

def batchSettle (T : TokenContract Address Ledger) (env : Env Address contract)
    (settlements : List (SettleInput Address)) : Tx Address Ledger (List SettleOutcome) :=
  -- a limit of its own, not `MAX_BATCH_SIZE`
  if 64 < settlements.length then pure (settlements.map fun _ => .otherError)
  else settleAll T env settlements

/-- A pass of `settleAll` as a derivation, but for the authorizations it uses up: successful items
withdraw, failed ones leave the state as it was. -/
inductive Settled (T : TokenContract Address Ledger) (env : Env Address contract) :
    State Address Ledger → List (SettleInput Address) → List SettleOutcome →
      State Address Ledger → Prop
  | nil (s : State Address Ledger) : Settled T env s [] [] s
  | success {s s₁ s' input inputs outcomes}
      (item : (withdrawDeveloperBalance T env input.developer input.amount input.to).run s =
        .ok () s₁)
      (rest : Settled T env s₁ inputs outcomes s') :
      Settled T env s (input :: inputs) (.success :: outcomes) s'
  | failure {s s' input inputs outcomes e}
      (item : (withdrawDeveloperBalance T env input.developer input.amount input.to).run s =
        .err e s)
      (rest : Settled T env s inputs outcomes s') :
      Settled T env s (input :: inputs) (.ofError e :: outcomes) s'

theorem authorized_of_run_withdrawDeveloperBalance_eq_err {T : TokenContract Address Ledger}
    {env : Env Address contract} {developer : Address} {amount : I128} {«to» : Option Address}
    {e : SettlementError}
    (h : (withdrawDeveloperBalance T env developer amount «to»).run s = .err e s') :
    developer ∈ env.signers := by
  simp [withdrawDeveloperBalance] at h
  exact h.1

theorem withdrawDeveloperBalance_spend {T : TokenContract Address Ledger}
    {env : Env Address contract} {developer who : Address} (h : developer ≠ who) (amount : I128)
    («to» : Option Address) :
    withdrawDeveloperBalance T (env.spend who) developer amount «to» =
      withdrawDeveloperBalance T env developer amount «to» := by
  have hauth : (requireAuth (env.spend who) developer : Tx Address Ledger Unit) =
      requireAuth env developer := by
    simp [requireAuth, h]
  unfold withdrawDeveloperBalance
  rw [hauth]
  rfl

theorem settled_spend_iff {T : TokenContract Address Ledger} {env : Env Address contract}
    {who : Address} {inputs : List (SettleInput Address)} {outcomes : List SettleOutcome} :
    Settled T (env.spend who) s inputs outcomes s' ↔
      who ∉ inputs.map SettleInput.developer ∧ Settled T env s inputs outcomes s' := by
  constructor
  · intro h
    induction h with
    | nil s => exact ⟨List.not_mem_nil, .nil s⟩
    | success item _ ih =>
      obtain ⟨usdc, newBalance, ledger, withdrawal, -⟩ := run_withdrawDeveloperBalance_eq_ok.1 item
      have hne := (Env.mem_signers_spend.1 withdrawal.authorized).2
      rw [withdrawDeveloperBalance_spend hne] at item
      exact ⟨List.not_mem_cons_of_ne_of_not_mem hne.symm ih.1, .success item ih.2⟩
    | failure item _ ih =>
      have hauth := authorized_of_run_withdrawDeveloperBalance_eq_err item
      have hne := (Env.mem_signers_spend.1 hauth).2
      rw [withdrawDeveloperBalance_spend hne] at item
      exact ⟨List.not_mem_cons_of_ne_of_not_mem hne.symm ih.1, .failure item ih.2⟩
  · intro h
    obtain ⟨hwho, h⟩ := h
    induction h with
    | nil s => exact .nil s
    | success item _ ih =>
      obtain ⟨hne, hrest⟩ := List.ne_and_not_mem_of_not_mem_cons hwho
      rw [← withdrawDeveloperBalance_spend (Ne.symm hne)] at item
      exact .success item (ih hrest)
    | failure item _ ih =>
      obtain ⟨hne, hrest⟩ := List.ne_and_not_mem_of_not_mem_cons hwho
      rw [← withdrawDeveloperBalance_spend (Ne.symm hne)] at item
      exact .failure item (ih hrest)

/-- A batch goes through if no developer is listed twice, and then as if every item had all of the
authorizations. -/
theorem run_settleAll_eq_ok {T : TokenContract Address Ledger} {env : Env Address contract}
    {inputs : List (SettleInput Address)} {outcomes : List SettleOutcome} :
    (settleAll T env inputs).run s = .ok outcomes s' ↔
      (inputs.map SettleInput.developer).Nodup ∧ Settled T env s inputs outcomes s' := by
  induction inputs generalizing env s outcomes with
  | nil =>
    simp only [settleAll, Call.run_pure_eq_ok]
    constructor
    · rintro ⟨rfl, rfl⟩
      exact ⟨List.nodup_nil, .nil s⟩
    · rintro ⟨-, ⟨⟩⟩
      exact ⟨rfl, rfl⟩
  | cons input inputs ih =>
    simp only [settleAll, Call.run_bind_eq_ok, Call.run_attempt_eq_ok, List.map_cons,
      List.nodup_cons]
    constructor
    · rintro ⟨_, s₁, ⟨_, rfl, hw⟩ | ⟨e, rfl, hw⟩, outcomes, _, hrest, hres⟩
      · obtain ⟨rfl, rfl⟩ := Call.run_pure_eq_ok.1 hres
        obtain ⟨hnodup, hsettled⟩ := ih.1 hrest
        obtain ⟨hnew, hsettled⟩ := settled_spend_iff.1 hsettled
        exact ⟨⟨hnew, hnodup⟩, .success hw hsettled⟩
      · obtain ⟨rfl, rfl⟩ := Call.run_pure_eq_ok.1 hres
        obtain rfl := state_of_run_withdrawDeveloperBalance_eq_err hw
        obtain ⟨hnodup, hsettled⟩ := ih.1 hrest
        obtain ⟨hnew, hsettled⟩ := settled_spend_iff.1 hsettled
        exact ⟨⟨hnew, hnodup⟩, .failure hw hsettled⟩
    · rintro ⟨⟨hnew, hnodup⟩, _ | ⟨hw, hrest⟩ | ⟨hw, hrest⟩⟩
      · have hspent := ih.2 ⟨hnodup, settled_spend_iff.2 ⟨hnew, hrest⟩⟩
        exact ⟨_, _, .inl ⟨_, rfl, hw⟩, _, _, hspent, Call.run_pure_eq_ok.2 ⟨rfl, rfl⟩⟩
      · have hspent := ih.2 ⟨hnodup, settled_spend_iff.2 ⟨hnew, hrest⟩⟩
        exact ⟨_, _, .inr ⟨_, rfl, hw⟩, _, _, hspent, Call.run_pure_eq_ok.2 ⟨rfl, rfl⟩⟩

theorem run_batchSettle_eq_ok {T : TokenContract Address Ledger} {env : Env Address contract}
    {settlements : List (SettleInput Address)} {outcomes : List SettleOutcome} :
    (batchSettle T env settlements).run s = .ok outcomes s' ↔
      (64 < settlements.length ∧ settlements.map (fun _ => .otherError) = outcomes ∧ s = s') ∨
      (settlements.length ≤ 64 ∧ (settlements.map SettleInput.developer).Nodup ∧
        Settled T env s settlements outcomes s') := by
  simp only [batchSettle, Call.run_ite_eq_ok, Call.run_pure_eq_ok, run_settleAll_eq_ok, not_lt]

end Callora.Settlement
