import Callora.RevenuePool.Types
import Mathlib.Algebra.Order.BigOperators.Group.List
import Mathlib.Algebra.Order.Ring.Int

/-! The entrypoints that move money: the yield that the treasury deposits, and the single and
batched distributions. A batch is checked as a whole and then paid leg by leg. -/

namespace Callora.RevenuePool
open Library

abbrev Tx (Address Ledger α : Type) : Type := Call RevenuePoolError (State Address Ledger) α

variable {Address Ledger : Type} {contract : Address} {s s' : State Address Ledger} {u : Unit}

def publish (event : Event Address) : Tx Address Ledger Unit :=
  .modify fun s => { s with events := s.events ++ [event] }

def transfer (T : TokenContract Address Ledger) (token «from» «to» : Address) (amount : I128) :
    Tx Address Ledger Unit := do
  let s ← Call.load
  let ledger ← Call.unwrap (T.transfer s.ledger token «from» «to» amount.val) .hostCall
  Call.modify fun s => { s with ledger := ledger }

def getAdmin : Tx Address Ledger Address := do
  let s ← Call.load
  Call.unwrap s.admin (.message ERR_NOT_INITIALIZED)

def getUsdcToken : Tx Address Ledger Address := do
  let s ← Call.load
  Call.unwrap s.usdcToken (.message ERR_NOT_INITIALIZED)

def requireNotPaused : Tx Address Ledger Unit := do
  let s ← Call.load
  Call.require (isPaused s = false) (.message ERR_PAUSED)

def requirePositive (amount : I128) : Tx Address Ledger Unit :=
  Call.require (¬amount.val ≤ 0) (.message ERR_AMOUNT_NOT_POSITIVE)

def requireDistributable (amount maxDistribute : I128) : Tx Address Ledger Unit := do
  requirePositive amount
  Call.require (¬maxDistribute.val < amount.val) (.message ERR_AMOUNT_EXCEEDS_MAX_DISTRIBUTE)

def requireFunds (T : TokenContract Address Ledger) (contract usdc : Address) (amount : I128) :
    Tx Address Ledger Unit := do
  let s ← Call.load
  Call.require (¬T.balance s.ledger usdc contract < amount.val) (.message ERR_INSUFFICIENT_BALANCE)

def balance (T : TokenContract Address Ledger) (contract : Address) : Tx Address Ledger ℤ := do
  let usdc ← getUsdcToken
  let s ← Call.load
  pure (T.balance s.ledger usdc contract)

@[simp] theorem run_publish_eq_ok {event : Event Address} :
    (publish event).run s = .ok u s' ↔ { s with events := s.events ++ [event] } = s' :=
  Call.run_modify_eq_ok

@[simp] theorem run_transfer_eq_ok {T : TokenContract Address Ledger}
    {token «from» «to» : Address} {amount : I128} :
    (transfer T token «from» «to» amount).run s = .ok u s' ↔
      ∃ ledger, T.transfer s.ledger token «from» «to» amount.val = some ledger ∧
        { s with ledger := ledger } = s' := by
  simp [transfer]

@[simp] theorem run_getAdmin_eq_ok {admin : Address} :
    getAdmin.run s = .ok admin s' ↔ s.admin = some admin ∧ s = s' := by
  simp [getAdmin, and_comm]

@[simp] theorem run_getUsdcToken_eq_ok {usdc : Address} :
    getUsdcToken.run s = .ok usdc s' ↔ s.usdcToken = some usdc ∧ s = s' := by
  simp [getUsdcToken, and_comm]

@[simp] theorem run_requireNotPaused_eq_ok :
    requireNotPaused.run s = .ok u s' ↔ isPaused s = false ∧ s = s' := by
  simp [requireNotPaused, and_comm]

@[simp] theorem run_requirePositive_eq_ok {amount : I128} :
    (requirePositive amount).run s = .ok u s' ↔ 0 < amount.val ∧ s = s' := by
  simp [requirePositive]

@[simp] theorem run_requireDistributable_eq_ok {amount maxDistribute : I128} :
    (requireDistributable amount maxDistribute).run s = .ok u s' ↔
      (0 < amount.val ∧ amount.val ≤ maxDistribute.val) ∧ s = s' := by
  simp [requireDistributable, and_right_comm]

@[simp] theorem run_requireFunds_eq_ok {T : TokenContract Address Ledger} {usdc : Address}
    {amount : I128} : (requireFunds T contract usdc amount).run s = .ok u s' ↔
      amount.val ≤ T.balance s.ledger usdc contract ∧ s = s' := by
  simp [requireFunds, and_comm]

theorem run_balance_eq_ok {T : TokenContract Address Ledger} {held : ℤ} :
    (balance T contract).run s = .ok held s' ↔ ∃ usdc, s.usdcToken = some usdc ∧
      held = T.balance s.ledger usdc contract ∧ s' = s := by
  simp [balance, and_comm, eq_comm (a := held), eq_comm (a := s')]

variable [DecidableEq Address] {T : TokenContract Address Ledger} {env : Env Address contract}
  {caller : Address} {amount : I128}

def requireAdmin (caller : Address) : Tx Address Ledger Unit := do
  let admin ← getAdmin
  Call.require (caller = admin) (.message ERR_UNAUTHORIZED)

def validateRecipient (recipient contractSelf : Address) : Tx Address Ledger Unit :=
  Call.require (recipient ≠ contractSelf)
    (.message "invalid recipient: cannot distribute to the contract itself")

def State.ByAdmin (s : State Address Ledger) (env : Env Address contract) (caller : Address) :
    Prop := caller ∈ env.signers ∧ s.admin = some caller

@[simp] theorem run_requireAdmin_eq_ok :
    (requireAdmin caller).run s = .ok u s' ↔ s.admin = some caller ∧ s = s' := by
  simp [requireAdmin, and_comm]

@[simp] theorem run_validateRecipient_eq_ok {recipient contractSelf : Address} :
    (validateRecipient recipient contractSelf).run s = .ok u s' ↔
      recipient ≠ contractSelf ∧ s = s' := by
  simp [validateRecipient]

/-! Initialization. -/

/-- Anybody may call this once. -/
def init (contract admin usdcToken : Address) : Tx Address Ledger Unit := do
  let s ← Call.load
  Call.require (s.admin.isNone) (.message "revenue pool already initialized")
  Call.require (usdcToken ≠ contract)
    (.message "invalid config: usdc_token cannot be the contract itself")
  Call.require (usdcToken ≠ admin)
    (.message "invalid config: usdc_token cannot be the admin address")
  Call.modify fun s => { s with
    admin := some admin
    usdcToken := some usdcToken
    paused := some false }
  publish (.init admin usdcToken)

theorem run_init_eq_ok {admin usdcToken : Address} :
    (init contract admin usdcToken).run s = .ok u s' ↔
      s.admin = none ∧ usdcToken ≠ contract ∧ usdcToken ≠ admin ∧ s' = { s with
        admin := some admin
        usdcToken := some usdcToken
        paused := some false
        events := s.events ++ [.init admin usdcToken] } := by
  simp [init, eq_comm (a := s')]

/-! Yield. -/

/-- The total is written before the transfer that it counts. -/
def depositYield (T : TokenContract Address Ledger) (env : Env Address contract)
    (treasury : Address) (amount : I128) (source : String) : Tx Address Ledger Unit := do
  requireAuth env treasury
  let admin ← getAdmin
  Call.require (treasury = admin) (.message "unauthorized: caller is not treasury")
  requirePositive amount
  let s ← Call.load
  let newTotal ← Call.unwrap ((getCumulativeYieldDeposited s).checkedAdd amount)
    (.message "cumulative yield overflow")
  let usdc ← getUsdcToken
  Call.modify fun s => { s with cumulativeYieldDeposited := some newTotal }
  transfer T usdc treasury contract amount
  publish (.yieldDeposited treasury amount source newTotal)

structure YieldDeposit (T : TokenContract Address Ledger) (env : Env Address contract)
    (s : State Address Ledger) (treasury : Address) (amount newTotal : I128) (usdc : Address)
    (ledger : Ledger) : Prop where
  admin : s.ByAdmin env treasury
  positive : 0 < amount.val
  total : newTotal.val = (getCumulativeYieldDeposited s).val + amount.val
  configured : s.usdcToken = some usdc
  paid : T.transfer s.ledger usdc treasury contract amount.val = some ledger

theorem run_depositYield_eq_ok {treasury : Address} {source : String} :
    (depositYield T env treasury amount source).run s = .ok u s' ↔
      ∃ newTotal usdc ledger, YieldDeposit T env s treasury amount newTotal usdc ledger ∧
        s' = { s with
          cumulativeYieldDeposited := some newTotal
          ledger := ledger
          events := s.events ++ [.yieldDeposited treasury amount source newTotal] } := by
  simp only [depositYield, Call.run_bind_eq_ok, run_requireAuth_eq_ok, run_getAdmin_eq_ok,
    Call.run_require_eq_ok, run_requirePositive_eq_ok, Call.run_load_eq_ok, Call.run_unwrap_eq_ok,
    MachineInt.checkedAdd_eq_some, run_getUsdcToken_eq_ok, Call.run_modify_eq_ok,
    run_transfer_eq_ok, run_publish_eq_ok, existsAndEq, and_assoc, exists_and_left, exists_const,
    true_and]
  constructor
  · intro h
    obtain ⟨hauth, hadmin, hpos, newTotal, htotal, usdc, husdc, ledger, hpaid, hs⟩ := h
    exact ⟨newTotal, usdc, ledger, ⟨⟨hauth, hadmin⟩, hpos, htotal, husdc, hpaid⟩, hs.symm⟩
  · intro h
    obtain ⟨newTotal, usdc, ledger, h, rfl⟩ := h
    exact ⟨h.admin.1, h.admin.2, h.positive, newTotal, h.total, usdc, h.configured, ledger, h.paid,
      rfl⟩

/-! Distributions. -/

def totalAmount (payments : List (Address × I128)) : ℤ := (payments.map fun p => p.2.val).sum

def validatePayments (maxDistribute : I128) :
    List (Address × I128) → Store Address Bool → I128 → Tx Address Ledger I128
  | [], _, total => pure total
  | payment :: payments, seen, total => do
    Call.require ((seen payment.1).isNone) (.message ERR_DUPLICATE_RECIPIENT)
    requireDistributable payment.2 maxDistribute
    let total ← Call.unwrap (total.checkedAdd payment.2) (.message "total overflow")
    validatePayments maxDistribute payments (seen.set payment.1 true) total

def payLeg (T : TokenContract Address Ledger) (contract usdc : Address)
    (payment : Address × I128) : Tx Address Ledger Unit := do
  validateRecipient payment.1 contract
  transfer T usdc contract payment.1 payment.2
  publish (.batchDistribute payment.1 payment.2)

def distribute (T : TokenContract Address Ledger) (env : Env Address contract)
    (caller «to» : Address) (amount : I128) : Tx Address Ledger Unit := do
  requireAuth env caller
  requireNotPaused
  requireAdmin caller
  let s ← Call.load
  requireDistributable amount (getMaxDistribute s)
  let usdc ← getUsdcToken
  validateRecipient «to» contract
  requireFunds T contract usdc amount
  transfer T usdc contract «to» amount
  publish (.distribute «to» amount)

def batchDistribute (T : TokenContract Address Ledger) (env : Env Address contract)
    (caller : Address) (payments : List (Address × I128)) : Tx Address Ledger Unit := do
  requireAuth env caller
  requireNotPaused
  requireAdmin caller
  Call.ensure (payments.length ≠ 0) .batchEmpty
  Call.ensure (¬MAX_BATCH_SIZE < payments.length) .batchTooLarge
  let s ← Call.load
  let total ← validatePayments (getMaxDistribute s) payments .empty 0
  let usdc ← getUsdcToken
  requireFunds T contract usdc total
  forM payments (payLeg T contract usdc)

def payAll (T : TokenContract Address Ledger) (contract usdc : Address) :
    Ledger → List (Address × I128) → Option Ledger
  | ledger, [] => some ledger
  | ledger, payment :: payments =>
    (T.transfer ledger usdc contract payment.1 payment.2.val).bind fun ledger =>
      payAll T contract usdc ledger payments

/-- What a distribution to the recipients of `payments` checks, and the ledger it ends with. -/
structure Distribution (T : TokenContract Address Ledger) (env : Env Address contract)
    (s : State Address Ledger) (caller : Address) (payments : List (Address × I128))
    (usdc : Address) (ledger : Ledger) : Prop where
  admin : s.ByAdmin env caller
  unpaused : isPaused s = false
  capped : ∀ p ∈ payments, 0 < p.2.val ∧ p.2.val ≤ (getMaxDistribute s).val
  external : ∀ p ∈ payments, p.1 ≠ contract
  configured : s.usdcToken = some usdc
  covered : totalAmount payments ≤ T.balance s.ledger usdc contract
  paid : payAll T contract usdc s.ledger payments = some ledger

section
omit [DecidableEq Address]

@[simp] theorem totalAmount_nil : totalAmount ([] : List (Address × I128)) = 0 := rfl

@[simp] theorem totalAmount_cons (p : Address × I128) (payments : List (Address × I128)) :
    totalAmount (p :: payments) = p.2.val + totalAmount payments := List.sum_cons

theorem totalAmount_nonneg {payments : List (Address × I128)} (h : ∀ p ∈ payments, 0 < p.2.val) :
    0 ≤ totalAmount payments := by
  apply List.sum_nonneg
  intro n hn
  obtain ⟨p, hp, rfl⟩ := List.mem_map.1 hn
  exact (h p hp).le

theorem payAll_singleton {usdc : Address} {l : Ledger} {p : Address × I128} :
    payAll T contract usdc l [p] = T.transfer l usdc contract p.1 p.2.val := by
  simp only [payAll, Option.bind_fun_some]

end

/-- No recipient twice, every amount within the cap, and a total that does not overflow; positive
amounts overflow on the way iff their total does. -/
theorem run_validatePayments_eq_ok {maxDistribute total sum : I128} {seen : Store Address Bool}
    {payments : List (Address × I128)} :
    (validatePayments maxDistribute payments seen total).run s = .ok sum s' ↔
      ((payments.map Prod.fst).Nodup ∧ ∀ p ∈ payments, seen p.1 = none) ∧
      (∀ p ∈ payments, 0 < p.2.val ∧ p.2.val ≤ maxDistribute.val) ∧
      sum.val = total.val + totalAmount payments ∧ s = s' := by
  induction payments generalizing seen total s with
  | nil => simp [validatePayments, MachineInt.ext_iff, eq_comm (a := sum.val)]
  | cons p payments ih =>
    have hseen : (∀ q ∈ payments, seen.set p.1 true q.1 = none) ↔
        p.1 ∉ payments.map Prod.fst ∧ ∀ q ∈ payments, seen q.1 = none := by
      constructor
      · intro h
        refine ⟨fun hmem => ?_, fun q hq => ?_⟩
        · obtain ⟨q, hq, hqp⟩ := List.mem_map.1 hmem
          have hset := h q hq
          rw [hqp, Store.set_self] at hset
          cases hset
        · have hset := h q hq
          rw [Store.set_apply] at hset
          split_ifs at hset
          exact hset
      · rintro ⟨hp, hrest⟩ q hq
        have hne : q.1 ≠ p.1 := fun he => hp (List.mem_map.2 ⟨q, hq, he⟩)
        rw [Store.set_of_ne hne]
        exact hrest q hq
    simp only [validatePayments, Call.run_bind_eq_ok, Call.run_require_eq_ok,
      run_requireDistributable_eq_ok, Call.run_unwrap_eq_ok, MachineInt.checkedAdd_eq_some, ih,
      List.map_cons, List.nodup_cons, List.forall_mem_cons, totalAmount_cons, hseen,
      Option.isNone_iff_eq_none, existsAndEq, and_assoc, exists_and_left, exists_const, true_and]
    constructor
    · intro h
      obtain ⟨hp, hpos, hmax, next, hnext, hnodup, hnot, hrest, hcaps, hsum, hs⟩ := h
      refine ⟨hnot, hnodup, hp, hrest, hpos, hmax, hcaps, ?_, hs⟩
      rw [hsum, hnext, Int.add_assoc]
    · intro h
      obtain ⟨hnot, hnodup, hp, hrest, hpos, hmax, hcaps, hsum, hs⟩ := h
      have hnonneg : 0 ≤ totalAmount payments := totalAmount_nonneg fun q hq => (hcaps q hq).1
      have hle : total.val + p.2.val ≤ sum.val := by omega
      obtain ⟨next, hnext⟩ :=
        (MachineInt.exists_val_eq_add hpos.le).2 (hle.trans sum.le_hi)
      refine ⟨hp, hpos, hmax, next, hnext, hnodup, hnot, hrest, hcaps, ?_, hs⟩
      rw [hsum, hnext, Int.add_assoc]

theorem run_payLeg_eq_ok {usdc : Address} {payment : Address × I128} :
    (payLeg T contract usdc payment).run s = .ok u s' ↔ payment.1 ≠ contract ∧
      ∃ ledger, T.transfer s.ledger usdc contract payment.1 payment.2.val = some ledger ∧
        { s with
          ledger := ledger
          events := s.events ++ [.batchDistribute payment.1 payment.2] } = s' := by
  simp [payLeg]

theorem run_payLegs_eq_ok {usdc : Address} {payments : List (Address × I128)} :
    (forM payments (payLeg T contract usdc)).run s = .ok u s' ↔
      (∀ p ∈ payments, p.1 ≠ contract) ∧
      ∃ ledger, payAll T contract usdc s.ledger payments = some ledger ∧
        s' = { s with
          ledger := ledger
          events := s.events ++ payments.map fun p => .batchDistribute p.1 p.2 } := by
  induction payments generalizing s with
  | nil => simp [payAll, eq_comm (a := s')]
  | cons p payments ih =>
    simp only [Call.run_forM_cons_eq_ok, run_payLeg_eq_ok, ih, List.forall_mem_cons, payAll,
      Option.bind_eq_some_iff, List.map_cons]
    constructor
    · rintro ⟨_, ⟨hp, mid, hmid, rfl⟩, hrest, ledger, hpaid, rfl⟩
      refine ⟨⟨hp, hrest⟩, ledger, ⟨mid, hmid, hpaid⟩, ?_⟩
      rw [List.append_assoc]
      rfl
    · rintro ⟨⟨hp, hrest⟩, ledger, ⟨mid, hmid, hpaid⟩, rfl⟩
      refine ⟨_, ⟨hp, mid, hmid, rfl⟩, hrest, ledger, hpaid, ?_⟩
      rw [List.append_assoc]
      rfl

theorem run_distribute_eq_ok {«to» : Address} :
    (distribute T env caller «to» amount).run s = .ok u s' ↔
      ∃ usdc ledger, Distribution T env s caller [(«to», amount)] usdc ledger ∧
        s' = { s with ledger := ledger, events := s.events ++ [.distribute «to» amount] } := by
  have htotal : totalAmount [(«to», amount)] = amount.val := by
    rw [totalAmount_cons, totalAmount_nil, Int.add_zero]
  simp only [distribute, Call.run_bind_eq_ok, run_requireAuth_eq_ok, run_requireNotPaused_eq_ok,
    run_requireAdmin_eq_ok, Call.run_load_eq_ok, run_requireDistributable_eq_ok,
    run_getUsdcToken_eq_ok, run_validateRecipient_eq_ok, run_requireFunds_eq_ok,
    run_transfer_eq_ok, run_publish_eq_ok, existsAndEq, and_assoc, exists_and_left, exists_const,
    true_and]
  constructor
  · intro h
    obtain ⟨hauth, hpaused, hadmin, hpos, hmax, usdc, husdc, hto, hcov, ledger, hpaid, hs⟩ := h
    refine ⟨usdc, ledger, ⟨⟨hauth, hadmin⟩, hpaused, ?_, ?_, husdc, ?_, ?_⟩, hs.symm⟩
    · exact List.forall_mem_singleton.2 ⟨hpos, hmax⟩
    · exact List.forall_mem_singleton.2 hto
    · rw [htotal]
      exact hcov
    · rw [payAll_singleton]
      exact hpaid
  · intro h
    obtain ⟨usdc, ledger, h, rfl⟩ := h
    have hcap := h.capped («to», amount) List.mem_cons_self
    have hto := h.external («to», amount) List.mem_cons_self
    have hcov := h.covered
    have hpaid := h.paid
    rw [htotal] at hcov
    rw [payAll_singleton] at hpaid
    exact ⟨h.admin.1, h.unpaused, h.admin.2, hcap.1, hcap.2, usdc, h.configured, hto, hcov, ledger,
      hpaid, rfl⟩

structure ValidBatch (payments : List (Address × I128)) : Prop where
  nonempty : payments ≠ []
  length_le : payments.length ≤ MAX_BATCH_SIZE
  nodup : (payments.map Prod.fst).Nodup
  total_le : totalAmount payments ≤ I128.max.val

theorem run_batchDistribute_eq_ok {payments : List (Address × I128)} :
    (batchDistribute T env caller payments).run s = .ok u s' ↔
      ValidBatch payments ∧ ∃ usdc ledger, Distribution T env s caller payments usdc ledger ∧
        s' = { s with
          ledger := ledger
          events := s.events ++ payments.map fun p => .batchDistribute p.1 p.2 } := by
  simp only [batchDistribute, Call.run_bind_eq_ok, run_requireAuth_eq_ok,
    run_requireNotPaused_eq_ok, run_requireAdmin_eq_ok, Call.run_ensure_eq_ok, Call.run_load_eq_ok,
    run_validatePayments_eq_ok, run_getUsdcToken_eq_ok, run_requireFunds_eq_ok,
    run_payLegs_eq_ok, I128.zero_val, Int.zero_add, Store.empty_apply, implies_true, existsAndEq,
    and_assoc, exists_and_left, exists_const, true_and]
  constructor
  · intro h
    obtain ⟨hauth, hpaused, hadmin, hne, hlen, hnodup, hcap, total, htotal, usdc, husdc, hcov, hto,
      ledger, hpaid, hs⟩ := h
    have hbatch : ValidBatch payments := by
      refine ⟨fun he => hne (List.length_eq_zero_iff.2 he), not_lt.1 hlen, hnodup, ?_⟩
      rw [← htotal]
      exact total.le_hi
    rw [htotal] at hcov
    exact ⟨hbatch, usdc, ledger, ⟨⟨hauth, hadmin⟩, hpaused, hcap, hto, husdc, hcov, hpaid⟩, hs⟩
  · intro h
    obtain ⟨hbatch, usdc, ledger, h, rfl⟩ := h
    have hnonneg := totalAmount_nonneg fun p hp => (h.capped p hp).1
    obtain ⟨total, htotal⟩ : ∃ total : I128, total.val = totalAmount payments :=
      MachineInt.exists_val_eq.2 ⟨by omega, hbatch.total_le⟩
    have hcov := h.covered
    rw [← htotal] at hcov
    have hne : payments.length ≠ 0 := fun he => hbatch.nonempty (List.length_eq_zero_iff.1 he)
    exact ⟨h.admin.1, h.unpaused, h.admin.2, hne, not_lt.2 hbatch.length_le, hbatch.nodup, h.capped,
      total, htotal, usdc, h.configured, hcov, h.external, ledger, h.paid, rfl⟩

end Callora.RevenuePool
