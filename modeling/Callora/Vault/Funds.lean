import Callora.Vault.Types
import Mathlib.Algebra.Order.BigOperators.Group.List
import Mathlib.Algebra.Order.Ring.Int

/-! The entrypoints that move money: initialization, deposits, and the single and batched charges
that pay the settlement contract. Each comes with the condition under which it returns and the
state it then leaves. -/

namespace Callora.Vault
open Library

abbrev Tx (Address Ledger α : Type) : Type := Call VaultError (State Address Ledger) α

variable {Address Ledger : Type} {contract : Address} {s s' : State Address Ledger} {u : Unit}

def publish (event : Event Address) : Tx Address Ledger Unit :=
  .modify fun s => { s with events := s.events ++ [event] }

def transfer (T : TokenContract Address Ledger) (token «from» «to» : Address) (amount : I128) :
    Tx Address Ledger Unit := do
  let s ← Call.load
  let ledger ← Call.unwrap (T.transfer s.ledger token «from» «to» amount.val) .hostCall
  Call.modify fun s => { s with ledger := ledger }

def requirePositiveAmount (amount : I128) : Tx Address Ledger Unit :=
  Call.require (¬amount.val ≤ 0) (.message "amount must be positive")

def requireValidDepositAmount (amount minDeposit : I128) : Tx Address Ledger Unit := do
  requirePositiveAmount amount
  Call.require (¬amount.val < minDeposit.val) (.message "deposit below minimum")

def requireValidDeductAmount (amount minAmount maxDeduct : I128) : Tx Address Ledger Unit := do
  requirePositiveAmount amount
  Call.require (¬amount.val < minAmount.val) (.message "deduct below minimum")
  Call.require (¬maxDeduct.val < amount.val) (.message "deduct amount exceeds max_deduct")

def requireNotPaused : Tx Address Ledger Unit := do
  let s ← Call.load
  Call.require (isPaused s = false) (.message "Contract paused")

@[simp] theorem run_publish_eq_ok {event : Event Address} :
    (publish event).run s = .ok u s' ↔ { s with events := s.events ++ [event] } = s' :=
  Call.run_modify_eq_ok

@[simp] theorem run_transfer_eq_ok {T : TokenContract Address Ledger}
    {token «from» «to» : Address} {amount : I128} :
    (transfer T token «from» «to» amount).run s = .ok u s' ↔
      ∃ ledger, T.transfer s.ledger token «from» «to» amount.val = some ledger ∧
        { s with ledger := ledger } = s' := by
  simp [transfer]

@[simp] theorem run_requireValidDepositAmount_eq_ok {amount minDeposit : I128} :
    (requireValidDepositAmount amount minDeposit).run s = .ok u s' ↔
      (0 < amount.val ∧ minDeposit.val ≤ amount.val) ∧ s = s' := by
  simp [requireValidDepositAmount, requirePositiveAmount, and_right_comm]

@[simp] theorem run_requireValidDeductAmount_eq_ok {amount minAmount maxDeduct : I128} :
    (requireValidDeductAmount amount minAmount maxDeduct).run s = .ok u s' ↔
      (0 < amount.val ∧ minAmount.val ≤ amount.val ∧ amount.val ≤ maxDeduct.val) ∧ s = s' := by
  simp [requireValidDeductAmount, requirePositiveAmount, and_assoc]

@[simp] theorem run_requireNotPaused_eq_ok :
    requireNotPaused.run s = .ok u s' ↔ isPaused s = false ∧ s = s' := by
  simp [requireNotPaused, and_comm]

/-! Initialization. -/

structure InitArgs (Address : Type) where
  owner : Address
  usdcToken : Address
  initialBalance : I128
  authorizedCaller : Address
  minDeposit : I128
  revenuePool : Option Address
  maxDeduct : I128
  settlement : Address
deriving DecidableEq

/-- Anybody may call this once. Neither the sign of `initialBalance` nor its backing by the ledger
is checked. -/
def init (args : InitArgs Address) : Tx Address Ledger Unit := do
  let s ← Call.load
  Call.require (s.owner.isNone) (.message "Already initialized")
  Call.require (¬args.minDeposit.val ≤ 0) (.message "min_deposit must be positive")
  Call.require (¬args.maxDeduct.val ≤ 0) (.message "max_deduct must be positive")
  Call.require (¬args.maxDeduct.val < args.minDeposit.val)
    (.message "min_deposit cannot exceed max_deduct")
  Call.modify fun s => { s with
    owner := some args.owner
    usdcToken := some args.usdcToken
    balance := some args.initialBalance
    authorizedCaller := some args.authorizedCaller
    minDeposit := some args.minDeposit
    revenuePool := args.revenuePool <|> s.revenuePool
    maxDeduct := some args.maxDeduct
    settlement := some args.settlement
    paused := some false
    admin := some args.owner }

theorem run_init_eq_ok {args : InitArgs Address} :
    (init args).run s = .ok u s' ↔
      s.owner = none ∧ 0 < args.minDeposit.val ∧ 0 < args.maxDeduct.val ∧
        args.minDeposit.val ≤ args.maxDeduct.val ∧
      s' = { s with
        owner := some args.owner
        usdcToken := some args.usdcToken
        balance := some args.initialBalance
        authorizedCaller := some args.authorizedCaller
        minDeposit := some args.minDeposit
        revenuePool := args.revenuePool <|> s.revenuePool
        maxDeduct := some args.maxDeduct
        settlement := some args.settlement
        paused := some false
        admin := some args.owner } := by
  simp [init, eq_comm (a := s')]

variable [DecidableEq Address] {T : TokenContract Address Ledger} {env : Env Address contract}
  {caller : Address} {amount : I128}

/-! Deposits. -/

def deposit (T : TokenContract Address Ledger) (env : Env Address contract) (caller : Address)
    (amount : I128) : Tx Address Ledger Unit := do
  requireAuth env caller
  requireNotPaused
  let s ← Call.load
  let minDep ← Call.unwrap s.minDeposit .unwrapNone
  requireValidDepositAmount amount minDep
  let owner ← Call.unwrap s.owner .unwrapNone
  Call.require (caller = owner ∨ (s.depositor caller).getD false)
    (.message "Not authorized depositor")
  let newBal ← Call.unwrap (s.tracked.checkedAdd amount) .unwrapNone
  Call.modify fun s => { s with balance := some newBal }
  let tokenAddr ← Call.unwrap s.usdcToken .unwrapNone
  transfer T tokenAddr caller contract amount

structure Deposit (T : TokenContract Address Ledger) (env : Env Address contract)
    (s : State Address Ledger) (caller : Address) (amount newBal : I128) (usdc : Address)
    (ledger : Ledger) : Prop where
  authorized : caller ∈ env.signers
  unpaused : isPaused s = false
  positive : 0 < amount.val
  aboveMin : ∃ minDep, s.minDeposit = some minDep ∧ minDep.val ≤ amount.val
  eligible : ∃ owner, s.owner = some owner ∧ (caller = owner ∨ (s.depositor caller).getD false)
  total : newBal.val = s.tracked.val + amount.val
  configured : s.usdcToken = some usdc
  paid : T.transfer s.ledger usdc caller contract amount.val = some ledger

theorem run_deposit_eq_ok :
    (deposit T env caller amount).run s = .ok u s' ↔
      ∃ newBal usdc ledger, Deposit T env s caller amount newBal usdc ledger ∧
        s' = { s with balance := some newBal, ledger := ledger } := by
  simp only [deposit, Call.run_bind_eq_ok, run_requireAuth_eq_ok, run_requireNotPaused_eq_ok,
    Call.run_load_eq_ok, Call.run_unwrap_eq_ok, run_requireValidDepositAmount_eq_ok,
    Call.run_require_eq_ok, MachineInt.checkedAdd_eq_some, Call.run_modify_eq_ok,
    run_transfer_eq_ok, existsAndEq, and_assoc, exists_and_left, exists_const, true_and]
  constructor
  · intro h
    obtain ⟨hauth, hpaused, minDep, hmin, hpos, hle, owner, howner, helig, newBal, hnew, usdc,
      husdc, ledger, hpaid, hs⟩ := h
    exact ⟨newBal, usdc, ledger, ⟨hauth, hpaused, hpos, ⟨minDep, hmin, hle⟩, ⟨owner, howner, helig⟩,
      hnew, husdc, hpaid⟩, hs.symm⟩
  · intro h
    obtain ⟨newBal, usdc, ledger, h, rfl⟩ := h
    obtain ⟨minDep, hmin, hle⟩ := h.aboveMin
    obtain ⟨owner, howner, helig⟩ := h.eligible
    exact ⟨h.authorized, h.unpaused, minDep, hmin, h.positive, hle, owner, howner, helig, newBal,
      h.total, usdc, h.configured, ledger, h.paid, rfl⟩

def State.TakesDeposit (T : TokenContract Address Ledger) (s : State Address Ledger)
    (env : Env Address contract) (caller : Address) (amount : I128) : Prop :=
  caller ∈ env.signers ∧ isPaused s = false ∧ 0 < amount.val ∧
    (∃ minDep, s.minDeposit = some minDep ∧ minDep.val ≤ amount.val) ∧
    (∃ owner, s.owner = some owner ∧ (caller = owner ∨ (s.depositor caller).getD false)) ∧
    s.tracked.val + amount.val ≤ I128.max.val ∧
    ∃ usdc, s.usdcToken = some usdc ∧
      (T.transfer s.ledger usdc caller contract amount.val).isSome

omit [DecidableEq Address] in
theorem exists_deposit_iff :
    (∃ newBal usdc ledger, Deposit T env s caller amount newBal usdc ledger) ↔
      s.TakesDeposit T env caller amount := by
  constructor
  · intro h
    obtain ⟨newBal, usdc, ledger, h⟩ := h
    have hmax := newBal.le_hi
    rw [h.total] at hmax
    exact ⟨h.authorized, h.unpaused, h.positive, h.aboveMin, h.eligible, hmax, usdc, h.configured,
      h.paid ▸ rfl⟩
  · intro h
    obtain ⟨hauth, hpaused, hpos, hmin, helig, hmax, usdc, husdc, hfunds⟩ := h
    obtain ⟨newBal, hnew⟩ := (MachineInt.exists_val_eq_add hpos.le).2 hmax
    obtain ⟨ledger, hpaid⟩ := Option.isSome_iff_exists.1 hfunds
    exact ⟨newBal, usdc, ledger, ⟨hauth, hpaused, hpos, hmin, helig, hnew, husdc, hpaid⟩⟩

/-! Charges. -/

def requireDeductCaller (env : Env Address contract) (caller : Address) :
    Tx Address Ledger (I128 × I128) := do
  requireAuth env caller
  let s ← Call.load
  let authCaller ← Call.unwrap s.authorizedCaller .unwrapNone
  Call.require (caller = authCaller) (.message "Not authorized caller")
  requireNotPaused
  let minDep ← Call.unwrap s.minDeposit .unwrapNone
  let maxDeduct ← Call.unwrap s.maxDeduct .unwrapNone
  pure (minDep, maxDeduct)

def paySettlement (T : TokenContract Address Ledger) (contract : Address) (total : I128) :
    Tx Address Ledger Address := do
  let s ← Call.load
  Call.require (¬s.tracked.val < total.val) (.message "insufficient balance")
  let newBal ← Call.unwrap (s.tracked.checkedSub total)
    (.message "attempt to subtract with overflow")
  Call.modify fun s => { s with balance := some newBal }
  let usdcAddr ← Call.unwrap s.usdcToken .unwrapNone
  let settlementAddr ← Call.unwrap s.settlement .unwrapNone
  transfer T usdcAddr contract settlementAddr total
  pure settlementAddr

/-- `settlement::Client::record_deduction`, whose body is empty. -/
def recordDeduction (_settlement : Address) (_amount : I128) (_requestId : ℕ) :
    Tx Address Ledger Unit := pure ()

def deduct (T : TokenContract Address Ledger) (env : Env Address contract) (caller : Address)
    (amount : I128) (requestId : ℕ) : Tx Address Ledger Unit := do
  let bounds ← requireDeductCaller env caller
  requireValidDeductAmount amount bounds.1 bounds.2
  let settlementAddr ← paySettlement T contract amount
  recordDeduction settlementAddr amount requestId

def totalAmount (minDep maxDeduct : I128) : List (I128 × ℕ) → I128 → Tx Address Ledger I128
  | [], total => pure total
  | item :: items, total => do
    requireValidDeductAmount item.1 minDep maxDeduct
    let total ← Call.unwrap (total.checkedAdd item.1) (.message "overflow")
    totalAmount minDep maxDeduct items total

def batchDeduct (T : TokenContract Address Ledger) (env : Env Address contract) (caller : Address)
    (items : List (I128 × ℕ)) : Tx Address Ledger Unit := do
  let bounds ← requireDeductCaller env caller
  let total ← totalAmount bounds.1 bounds.2 items 0
  let settlementAddr ← paySettlement T contract total
  forM items fun item => recordDeduction settlementAddr item.1 item.2

def charged (amounts : List I128) : ℤ := (amounts.map MachineInt.val).sum

def State.AcceptsAmounts (s : State Address Ledger) (amounts : List I128) : Prop :=
  ∃ minDep maxDeduct, s.minDeposit = some minDep ∧ s.maxDeduct = some maxDeduct ∧
    ∀ a ∈ amounts, 0 < a.val ∧ minDep.val ≤ a.val ∧ a.val ≤ maxDeduct.val

/-- What a charge of `amounts` checks, and the balance and ledger it ends with. -/
structure Charge (T : TokenContract Address Ledger) (env : Env Address contract)
    (s : State Address Ledger) (caller : Address) (amounts : List I128) (newBal : I128)
    (usdc settlement : Address) (ledger : Ledger) : Prop where
  authorized : caller ∈ env.signers
  permitted : s.authorizedCaller = some caller
  unpaused : isPaused s = false
  accepted : s.AcceptsAmounts amounts
  covered : charged amounts ≤ s.tracked.val
  debited : newBal.val = s.tracked.val - charged amounts
  configured : s.usdcToken = some usdc
  payee : s.settlement = some settlement
  paid : T.transfer s.ledger usdc contract settlement (charged amounts) = some ledger

omit [DecidableEq Address] in
@[simp] theorem charged_nil : charged [] = 0 := rfl

omit [DecidableEq Address] in
@[simp] theorem charged_cons (a : I128) (amounts : List I128) :
    charged (a :: amounts) = a.val + charged amounts := List.sum_cons

omit [DecidableEq Address] in
theorem State.AcceptsAmounts.pos {amounts : List I128} (h : s.AcceptsAmounts amounts) :
    ∀ a ∈ amounts, 0 < a.val := by
  obtain ⟨minDep, maxDeduct, -, -, hall⟩ := h
  intro a ha
  exact (hall a ha).1

theorem charged_nonneg {amounts : List I128} (h : ∀ a ∈ amounts, 0 < a.val) :
    0 ≤ charged amounts := by
  apply List.sum_nonneg
  intro n hn
  obtain ⟨a, ha, rfl⟩ := List.mem_map.1 hn
  exact (h a ha).le

theorem charged_pos {amounts : List I128} (h : ∀ a ∈ amounts, 0 < a.val) (hne : amounts ≠ []) :
    0 < charged amounts := by
  cases amounts with
  | nil => exact absurd rfl hne
  | cons a amounts =>
    obtain ⟨ha, hrest⟩ := List.forall_mem_cons.1 h
    rw [charged_cons]
    exact Int.add_pos_of_pos_of_nonneg ha (charged_nonneg hrest)

@[simp] theorem run_requireDeductCaller_eq_ok {bounds : I128 × I128} :
    (requireDeductCaller env caller).run s = .ok bounds s' ↔
      caller ∈ env.signers ∧ s.authorizedCaller = some caller ∧ isPaused s = false ∧
        s.minDeposit = some bounds.1 ∧ s.maxDeduct = some bounds.2 ∧ s = s' := by
  obtain ⟨minDep, maxDeduct⟩ := bounds
  simp [requireDeductCaller]

omit [DecidableEq Address] in
@[simp] theorem run_paySettlement_eq_ok {total : I128} {settlement : Address} :
    (paySettlement T contract total).run s = .ok settlement s' ↔
      total.val ≤ s.tracked.val ∧ ∃ newBal : I128, newBal.val = s.tracked.val - total.val ∧
        ∃ usdc, s.usdcToken = some usdc ∧ s.settlement = some settlement ∧
        ∃ ledger, T.transfer s.ledger usdc contract settlement total.val = some ledger ∧
          { s with balance := some newBal, ledger := ledger } = s' := by
  simp [paySettlement]

omit [DecidableEq Address] in
@[simp] theorem run_recordDeduction_eq_ok {settlement : Address} {requestId : ℕ} :
    (recordDeduction settlement amount requestId).run s = .ok u s' ↔ s = s' := by
  simp [recordDeduction]

omit [DecidableEq Address] in
theorem run_recordDeductions_eq_ok {settlement : Address} {items : List (I128 × ℕ)} :
    (forM items fun item => recordDeduction settlement item.1 item.2).run s = .ok u s' ↔
      s = s' := by
  induction items with
  | nil => exact Call.run_forM_nil_eq_ok
  | cons item items ih =>
    rw [Call.run_forM_cons_eq_ok]
    simpa using ih

omit [DecidableEq Address] in
theorem run_totalAmount_eq_ok {minDep maxDeduct total sum : I128} {items : List (I128 × ℕ)} :
    (totalAmount minDep maxDeduct items total).run s = .ok sum s' ↔
      (∀ a ∈ items.map Prod.fst, 0 < a.val ∧ minDep.val ≤ a.val ∧ a.val ≤ maxDeduct.val) ∧
      sum.val = total.val + charged (items.map Prod.fst) ∧ s = s' := by
  induction items generalizing total s with
  | nil => simp [totalAmount, MachineInt.ext_iff, eq_comm (a := sum.val)]
  | cons item items ih =>
    simp only [totalAmount, Call.run_bind_eq_ok, run_requireValidDeductAmount_eq_ok,
      Call.run_unwrap_eq_ok, MachineInt.checkedAdd_eq_some, ih, List.map_cons,
      List.forall_mem_cons, charged_cons, existsAndEq, and_assoc, exists_and_left, exists_const,
      true_and]
    constructor
    · intro h
      obtain ⟨hpos, hmin, hmax, next, hnext, hitems, hsum, hs⟩ := h
      refine ⟨hpos, hmin, hmax, hitems, ?_, hs⟩
      rw [hsum, hnext, Int.add_assoc]
    · intro h
      obtain ⟨hpos, hmin, hmax, hitems, hsum, hs⟩ := h
      have hrest : 0 ≤ charged (items.map Prod.fst) :=
        charged_nonneg fun a ha => (hitems a ha).1
      have hle : total.val + item.1.val ≤ sum.val := by omega
      obtain ⟨next, hnext⟩ :=
        (MachineInt.exists_val_eq_add hpos.le).2 (hle.trans sum.le_hi)
      refine ⟨hpos, hmin, hmax, next, hnext, hitems, ?_, hs⟩
      rw [hsum, hnext, Int.add_assoc]

theorem run_deduct_eq_ok {requestId : ℕ} :
    (deduct T env caller amount requestId).run s = .ok u s' ↔
      ∃ newBal usdc settlement ledger,
        Charge T env s caller [amount] newBal usdc settlement ledger ∧
        s' = { s with balance := some newBal, ledger := ledger } := by
  have htotal : charged [amount] = amount.val := by
    rw [charged_cons, charged_nil, Int.add_zero]
  simp only [deduct, Call.run_bind_eq_ok, run_requireDeductCaller_eq_ok,
    run_requireValidDeductAmount_eq_ok, run_paySettlement_eq_ok, run_recordDeduction_eq_ok,
    existsAndEq, and_assoc, exists_and_left, exists_const, true_and]
  constructor
  · intro h
    obtain ⟨hauth, hpermit, hpaused, bounds, hmin, hmax, hpos, hlo, hhi, hcov, settlement, newBal,
      hnew, usdc, husdc, hsettle, ledger, hpaid, hs⟩ := h
    have haccepted : s.AcceptsAmounts [amount] := by
      refine ⟨bounds.1, bounds.2, hmin, hmax, fun a ha => ?_⟩
      rw [List.mem_singleton.1 ha]
      exact ⟨hpos, hlo, hhi⟩
    rw [← htotal] at hcov hnew hpaid
    exact ⟨newBal, usdc, settlement, ledger,
      ⟨hauth, hpermit, hpaused, haccepted, hcov, hnew, husdc, hsettle, hpaid⟩, hs.symm⟩
  · intro h
    obtain ⟨newBal, usdc, settlement, ledger, h, rfl⟩ := h
    obtain ⟨minDep, maxDeduct, hmin, hmax, hvalid⟩ := h.accepted
    obtain ⟨hpos, hlo, hhi⟩ := hvalid amount List.mem_cons_self
    have hcov := h.covered
    have hnew := h.debited
    have hpaid := h.paid
    rw [htotal] at hcov hnew hpaid
    exact ⟨h.authorized, h.permitted, h.unpaused, (minDep, maxDeduct), hmin, hmax, hpos, hlo, hhi,
      hcov, settlement, newBal, hnew, usdc, h.configured, h.payee, ledger, hpaid, rfl⟩

theorem run_batchDeduct_eq_ok {items : List (I128 × ℕ)} :
    (batchDeduct T env caller items).run s = .ok u s' ↔
      ∃ newBal usdc settlement ledger,
        Charge T env s caller (items.map Prod.fst) newBal usdc settlement ledger ∧
        s' = { s with balance := some newBal, ledger := ledger } := by
  simp only [batchDeduct, Call.run_bind_eq_ok, run_requireDeductCaller_eq_ok,
    run_totalAmount_eq_ok, run_paySettlement_eq_ok, run_recordDeductions_eq_ok,
    I128.zero_val, Int.zero_add, existsAndEq, and_assoc, exists_and_left, true_and]
  constructor
  · intro h
    obtain ⟨hauth, hpermit, hpaused, bounds, hmin, hmax, hvalid, total, htotal, hcov, settlement,
      newBal, hnew, usdc, husdc, hsettle, ledger, hpaid, hs⟩ := h
    rw [htotal] at hcov hnew hpaid
    exact ⟨newBal, usdc, settlement, ledger, ⟨hauth, hpermit, hpaused,
      ⟨bounds.1, bounds.2, hmin, hmax, hvalid⟩, hcov, hnew, husdc, hsettle, hpaid⟩, hs.symm⟩
  · intro h
    obtain ⟨newBal, usdc, settlement, ledger, h, rfl⟩ := h
    obtain ⟨minDep, maxDeduct, hmin, hmax, hvalid⟩ := h.accepted
    -- the tracked balance covers the total, so the running total cannot have overflowed
    have hrange := charged_nonneg h.accepted.pos
    obtain ⟨total, htotal⟩ : ∃ total : I128, total.val = charged (items.map Prod.fst) :=
      MachineInt.exists_val_eq.2
        ⟨by omega, h.covered.trans s.tracked.le_hi⟩
    have hcov := h.covered
    have hnew := h.debited
    have hpaid := h.paid
    rw [← htotal] at hcov hnew hpaid
    exact ⟨h.authorized, h.permitted, h.unpaused, (minDep, maxDeduct), hmin, hmax, hvalid, total,
      htotal, hcov, settlement, newBal, hnew, usdc, h.configured, h.payee, ledger, hpaid, rfl⟩

/-! When a charge goes through, as a condition on the state it meets. -/

def State.TakesCharge (T : TokenContract Address Ledger) (s : State Address Ledger)
    (env : Env Address contract) (caller : Address) (amounts : List I128) : Prop :=
  caller ∈ env.signers ∧ s.authorizedCaller = some caller ∧ isPaused s = false ∧
    s.AcceptsAmounts amounts ∧ charged amounts ≤ s.tracked.val ∧
    ∃ usdc settlement, s.usdcToken = some usdc ∧ s.settlement = some settlement ∧
      (T.transfer s.ledger usdc contract settlement (charged amounts)).isSome

omit [DecidableEq Address] in
theorem exists_charge_iff {amounts : List I128} :
    (∃ newBal usdc settlement ledger,
      Charge T env s caller amounts newBal usdc settlement ledger) ↔
      s.TakesCharge T env caller amounts := by
  constructor
  · rintro ⟨newBal, usdc, settlement, ledger, h⟩
    exact ⟨h.authorized, h.permitted, h.unpaused, h.accepted, h.covered, usdc, settlement,
      h.configured, h.payee, h.paid ▸ rfl⟩
  · rintro ⟨hauth, hpermit, hpaused, hacc, hcov, usdc, settlement, husdc, hsettle, hfunds⟩
    have hnonneg := charged_nonneg hacc.pos
    have hlo := s.tracked.lo_le
    have hhi := s.tracked.le_hi
    obtain ⟨newBal, hnew⟩ : ∃ newBal : I128, newBal.val = s.tracked.val - charged amounts :=
      MachineInt.exists_val_eq.2 ⟨by omega, by omega⟩
    obtain ⟨ledger, hpaid⟩ := Option.isSome_iff_exists.1 hfunds
    exact ⟨newBal, usdc, settlement, ledger,
      ⟨hauth, hpermit, hpaused, hacc, hcov, hnew, husdc, hsettle, hpaid⟩⟩

/-! The idle balance. -/

structure SweepPreview where
  onLedgerBalance : ℤ
  trackedBalance : I128
  idleBalance : I128
  hasIdle : Bool
deriving DecidableEq

/-- The surplus, or zero where the tracked balance exceeds the holdings. -/
def idleBalance (onLedger : ℤ) (tracked : I128) : Tx Address Ledger I128 :=
  if tracked.val < onLedger then
    Call.unwrap (MachineInt.narrow (onLedger - tracked.val))
      (.message "attempt to subtract with overflow")
  else pure 0

def dryRunSweepIdleBalance (T : TokenContract Address Ledger) (contract : Address) :
    Tx Address Ledger SweepPreview := do
  let s ← Call.load
  let usdcAddr ← Call.okOr s.usdcToken .notInitialized
  let onLedger := T.balance s.ledger usdcAddr contract
  let idle ← idleBalance onLedger s.tracked
  pure ⟨onLedger, s.tracked, idle, 0 < idle.val⟩

omit [DecidableEq Address] in
@[simp] theorem run_idleBalance_eq_ok {onLedger : ℤ} {tracked idle : I128} :
    (idleBalance onLedger tracked).run s = .ok idle s' ↔
      idle.val = max (onLedger - tracked.val) 0 ∧ s = s' := by
  unfold idleBalance
  by_cases h : tracked.val < onLedger
  · rw [if_pos h, Call.run_unwrap_eq_ok, MachineInt.narrow_eq_some, max_eq_left (by omega)]
  · rw [if_neg h, Call.run_pure_eq_ok, max_eq_right (by omega), MachineInt.ext_iff, I128.zero_val,
      eq_comm (a := (0 : ℤ))]

omit [DecidableEq Address] in
theorem run_dryRunSweepIdleBalance_eq_ok {preview : SweepPreview} :
    (dryRunSweepIdleBalance T contract).run s = .ok preview s' ↔
      ∃ usdc idle, s.usdcToken = some usdc ∧
        idle.val = max (T.balance s.ledger usdc contract - s.tracked.val) 0 ∧
        preview = ⟨T.balance s.ledger usdc contract, s.tracked, idle, 0 < idle.val⟩ ∧ s' = s := by
  simp [dryRunSweepIdleBalance, eq_comm (a := s'), eq_comm (a := preview), and_assoc]

end Callora.Vault
