import Callora.Library.Traced
import Callora.RevenuePool.Run

/-! What a batch of distributions has done by the time it fails. A call is traced with the transfers
it asks the token for and the events it publishes. -/

namespace Callora.RevenuePool
open Library

/-- A transfer that the token was asked for, and whether it returned; or an event. -/
inductive SideEffect (Address : Type) where
  | transfer («to» : Address) (amount : I128) (returned : Bool)
  | event (event : Event Address)
deriving DecidableEq

abbrev TracedTx (Address Ledger α : Type) : Type :=
  Traced RevenuePoolError (State Address Ledger) (SideEffect Address) α

variable {Address Ledger : Type} {contract : Address} {s s' : State Address Ledger}

def tracePublish (event : Event Address) : TracedTx Address Ledger Unit := do
  Traced.emit (.event event)
  Traced.lift (publish event)

def traceTransfer (T : TokenContract Address Ledger) (token «from» «to» : Address)
    (amount : I128) : TracedTx Address Ledger Unit := do
  let s ← Traced.lift Call.load
  Traced.emit (.transfer «to» amount (T.transfer s.ledger token «from» «to» amount.val).isSome)
  Traced.lift (transfer T token «from» «to» amount)

variable [DecidableEq Address]

def checkBatch (T : TokenContract Address Ledger) (env : Env Address contract)
    (caller : Address) (payments : List (Address × I128)) : Tx Address Ledger Address := do
  requireAuth env caller
  requireNotPaused
  requireAdmin caller
  Call.ensure (payments.length ≠ 0) .batchEmpty
  Call.ensure (¬MAX_BATCH_SIZE < payments.length) .batchTooLarge
  let s ← Call.load
  let total ← validatePayments (getMaxDistribute s) payments .empty 0
  let usdc ← getUsdcToken
  requireFunds T contract usdc total
  pure usdc

def tracePayLeg (T : TokenContract Address Ledger) (contract usdc : Address)
    (payment : Address × I128) : TracedTx Address Ledger Unit := do
  Traced.lift (validateRecipient payment.1 contract)
  traceTransfer T usdc contract payment.1 payment.2
  tracePublish (.batchDistribute payment.1 payment.2)

def traceBatchDistribute (T : TokenContract Address Ledger) (env : Env Address contract)
    (caller : Address) (payments : List (Address × I128)) : TracedTx Address Ledger Unit := do
  let usdc ← Traced.lift (checkBatch T env caller payments)
  forM payments (tracePayLeg T contract usdc)

variable {T : TokenContract Address Ledger} {env : Env Address contract} {caller usdc : Address}
  {payments : List (Address × I128)} {u : Unit}

omit [DecidableEq Address] in
theorem forget_traceTransfer (token «from» «to» : Address) (amount : I128) :
    (traceTransfer T token «from» «to» amount).forget = transfer T token «from» «to» amount := by
  have := @Call.lawfulMonad RevenuePoolError (State Address Ledger)
  unfold traceTransfer
  simp only [Traced.forget_bind, Traced.forget_lift, Traced.forget_emit, pure_bind]
  rfl

theorem forget_tracePayLeg (payment : Address × I128) :
    (tracePayLeg T contract usdc payment).forget = payLeg T contract usdc payment := by
  have := @Call.lawfulMonad RevenuePoolError (State Address Ledger)
  unfold tracePayLeg tracePublish
  simp only [Traced.forget_bind, Traced.forget_lift, Traced.forget_emit, pure_bind,
    forget_traceTransfer]
  rfl

theorem forget_traceBatchDistribute :
    (traceBatchDistribute T env caller payments).forget =
      batchDistribute T env caller payments := by
  have := @Call.lawfulMonad RevenuePoolError (State Address Ledger)
  unfold traceBatchDistribute checkBatch
  simp only [Traced.forget_bind, Traced.forget_lift, Traced.forget_forM, forget_tracePayLeg,
    bind_assoc, pure_bind]
  rfl

structure Checked (T : TokenContract Address Ledger) (env : Env Address contract)
    (s : State Address Ledger) (caller : Address) (payments : List (Address × I128))
    (usdc : Address) : Prop where
  batch : ValidBatch payments
  admin : s.ByAdmin env caller
  unpaused : isPaused s = false
  capped : ∀ p ∈ payments, 0 < p.2.val ∧ p.2.val ≤ (getMaxDistribute s).val
  configured : s.usdcToken = some usdc
  covered : totalAmount payments ≤ T.balance s.ledger usdc contract

theorem run_checkBatch_eq_ok :
    (checkBatch T env caller payments).run s = .ok usdc s' ↔
      Checked T env s caller payments usdc ∧ s = s' := by
  simp only [checkBatch, Call.run_bind_eq_ok, run_requireAuth_eq_ok,
    run_requireNotPaused_eq_ok, run_requireAdmin_eq_ok, Call.run_ensure_eq_ok, Call.run_load_eq_ok,
    run_validatePayments_eq_ok, run_getUsdcToken_eq_ok, run_requireFunds_eq_ok, Call.run_pure_eq_ok,
    I128.zero_val, Int.zero_add, Store.empty_apply, implies_true, existsAndEq,
    and_assoc, exists_and_left, exists_const, true_and]
  constructor
  · intro h
    obtain ⟨hauth, hpaused, hadmin, hne, hlen, hnodup, hcap, total, htotal, husdc, hcov, hs⟩ := h
    have hbatch : ValidBatch payments := by
      refine ⟨fun he => hne (List.length_eq_zero_iff.2 he), not_lt.1 hlen, hnodup, ?_⟩
      rw [← htotal]
      exact total.le_hi
    rw [htotal] at hcov
    exact ⟨⟨hbatch, ⟨hauth, hadmin⟩, hpaused, hcap, husdc, hcov⟩, hs⟩
  · intro h
    obtain ⟨h, hs⟩ := h
    have hnonneg := totalAmount_nonneg fun p hp => (h.capped p hp).1
    obtain ⟨total, htotal⟩ : ∃ total : I128, total.val = totalAmount payments :=
      MachineInt.exists_val_eq.2 ⟨by omega, h.batch.total_le⟩
    have hcov := h.covered
    rw [← htotal] at hcov
    have hne : payments.length ≠ 0 := fun he => h.batch.nonempty (List.length_eq_zero_iff.1 he)
    exact ⟨h.admin.1, h.unpaused, h.admin.2, hne, not_lt.2 h.batch.length_le, h.batch.nodup,
      h.capped, total, htotal, h.configured, hcov, hs⟩

/-! The paying loop. -/

def SideEffect.IsTrapped : SideEffect Address → Prop
  | .transfer _ _ returned => returned = false
  | .event _ => False

omit [DecidableEq Address] in
theorem not_isTrapped_of_paid («to» : Address) (amount : I128) :
    ∀ e ∈ ([.transfer «to» amount true, .event (.batchDistribute «to» amount)] :
      List (SideEffect Address)), ¬e.IsTrapped := by
  intro e he
  rcases List.mem_cons.1 he with rfl | he
  · exact Bool.noConfusion
  · rw [List.mem_singleton.1 he]
    exact not_false

section
variable {payment : Address × I128} {ledger : Ledger}

omit [DecidableEq Address] in
theorem run_tracePublish (event : Event Address) :
    (tracePublish event).run s =
      ([.event event], .ok () { s with events := s.events ++ [event] }) := rfl

omit [DecidableEq Address] in
theorem run_traceTransfer (token «from» «to» : Address) (amount : I128) :
    (traceTransfer T token «from» «to» amount).run s =
      ([.transfer «to» amount (T.transfer s.ledger token «from» «to» amount.val).isSome],
        (transfer T token «from» «to» amount).run s) := rfl

theorem run_tracePayLeg_self (hself : payment.1 = contract) :
    (tracePayLeg T contract usdc payment).run s = ([], .trap
      (.message "invalid recipient: cannot distribute to the contract itself")) := by
  have hrecipient : (validateRecipient payment.1 contract : Tx Address Ledger Unit).run s = .trap
      (.message "invalid recipient: cannot distribute to the contract itself") :=
    Call.run_require_eq_trap.2 ⟨not_not.2 hself, rfl⟩
  exact Traced.run_bind_of_trap (by rw [Traced.run_lift, hrecipient])

theorem run_tracePayLeg_of_ne (T : TokenContract Address Ledger) (usdc : Address)
    (s : State Address Ledger) (hne : payment.1 ≠ contract) :
    (tracePayLeg T contract usdc payment).run s =
      match T.transfer s.ledger usdc contract payment.1 payment.2.val with
      | none => ([.transfer payment.1 payment.2 false], .trap .hostCall)
      | some ledger => ([.transfer payment.1 payment.2 true,
          .event (.batchDistribute payment.1 payment.2)], .ok () { s with
            ledger := ledger
            events := s.events ++ [.batchDistribute payment.1 payment.2] }) := by
  have hrecipient : (validateRecipient payment.1 contract : Tx Address Ledger Unit).run s =
      .ok () s := run_validateRecipient_eq_ok.2 ⟨hne, rfl⟩
  have htraced := run_traceTransfer (T := T) (s := s) usdc contract payment.1 payment.2
  unfold tracePayLeg
  rw [Traced.run_bind_of_ok (by rw [Traced.run_lift, hrecipient])]
  cases hpaid : T.transfer s.ledger usdc contract payment.1 payment.2.val with
  | none =>
    have htransfer : (transfer T usdc contract payment.1 payment.2).run s = .trap .hostCall := by
      simp [transfer, hpaid]
    rw [hpaid, htransfer] at htraced
    rw [Traced.run_bind_of_trap htraced]
    rfl
  | some ledger =>
    have htransfer : (transfer T usdc contract payment.1 payment.2).run s =
        .ok () { s with ledger := ledger } := run_transfer_eq_ok.2 ⟨ledger, hpaid, rfl⟩
    rw [hpaid, htransfer] at htraced
    rw [Traced.run_bind_of_ok htraced, run_tracePublish]
    rfl

end

theorem trace_payLegs_eq_nil_iff :
    ((forM payments (tracePayLeg T contract usdc)).run s).1 = [] ↔
      ∀ p ∈ payments.head?, p.1 = contract := by
  cases payments with
  | nil =>
    refine iff_of_true rfl fun p hp => ?_
    cases hp
  | cons p payments =>
    rw [List.forM_cons, List.head?_cons]
    have hhead : (∀ q ∈ some p, q.1 = contract) ↔ p.1 = contract := by simp
    rw [hhead]
    by_cases hself : p.1 = contract
    · rw [Traced.run_bind_of_trap (run_tracePayLeg_self hself)]
      exact iff_of_true rfl hself
    · have hleg := run_tracePayLeg_of_ne T usdc s hself
      refine iff_of_false ?_ hself
      cases hpaid : T.transfer s.ledger usdc contract p.1 p.2.val with
      | none =>
        rw [hpaid] at hleg
        rw [Traced.run_bind_of_trap hleg]
        exact List.cons_ne_nil _ _
      | some ledger =>
        rw [hpaid] at hleg
        rw [Traced.run_bind_of_ok hleg]
        exact List.cons_ne_nil _ _

def ReachesPool (T : TokenContract Address Ledger) (contract usdc : Address) (ledger : Ledger)
    (payments : List (Address × I128)) : Prop :=
  ∃ paid self rest, payments = paid ++ self :: rest ∧ self.1 = contract ∧
    (∀ p ∈ paid, p.1 ≠ contract) ∧ ∃ ledger', payAll T contract usdc ledger paid = some ledger'

omit [DecidableEq Address] in
theorem reachesPool_cons {ledger : Ledger} {p : Address × I128} :
    ReachesPool T contract usdc ledger (p :: payments) ↔ p.1 = contract ∨ p.1 ≠ contract ∧
      ∃ next, T.transfer ledger usdc contract p.1 p.2.val = some next ∧
        ReachesPool T contract usdc next payments := by
  unfold ReachesPool
  constructor
  · intro h
    obtain ⟨paid, self, rest, hsplit, hself, hext, ledger', hpaid⟩ := h
    rcases paid with _ | ⟨q, paid⟩
    · obtain ⟨rfl, -⟩ := List.cons.inj hsplit
      exact .inl hself
    · obtain ⟨rfl, rfl⟩ := List.cons.inj hsplit
      obtain ⟨hp, hext⟩ := List.forall_mem_cons.1 hext
      obtain ⟨next, hnext, hpaid⟩ := Option.bind_eq_some_iff.1 hpaid
      exact .inr ⟨hp, next, hnext, paid, self, rest, rfl, hself, hext, ledger', hpaid⟩
  · intro h
    rcases h with hself | ⟨hp, next, hnext, paid, self, rest, rfl, hself, hext, ledger', hpaid⟩
    · exact ⟨[], p, payments, rfl, hself, List.forall_mem_nil _, ledger, rfl⟩
    · refine ⟨p :: paid, self, rest, rfl, hself, List.forall_mem_cons.2 ⟨hp, hext⟩, ledger', ?_⟩
      exact Option.bind_eq_some_iff.2 ⟨next, hnext, hpaid⟩

theorem payLegs_fails_iff :
    ((∀ s', ((forM payments (tracePayLeg T contract usdc)).run s).2 ≠ .ok () s') ∧
        ∀ e ∈ ((forM payments (tracePayLeg T contract usdc)).run s).1, ¬e.IsTrapped) ↔
      ReachesPool T contract usdc s.ledger payments := by
  induction payments generalizing s with
  | nil =>
    refine iff_of_false (fun h => h.1 s rfl) fun h => ?_
    obtain ⟨paid, self, rest, hsplit, -⟩ := h
    exact List.append_ne_nil_of_right_ne_nil paid (List.cons_ne_nil self rest) hsplit.symm
  | cons p payments ih =>
    rw [List.forM_cons, reachesPool_cons]
    by_cases hself : p.1 = contract
    · rw [Traced.run_bind_of_trap (run_tracePayLeg_self hself)]
      refine iff_of_true ⟨fun s' h => ?_, List.forall_mem_nil _⟩ (.inl hself)
      cases h
    · rw [or_iff_right hself, and_iff_right hself]
      have hleg := run_tracePayLeg_of_ne T usdc s hself
      cases hpaid : T.transfer s.ledger usdc contract p.1 p.2.val with
      | none =>
        rw [hpaid] at hleg
        rw [Traced.run_bind_of_trap hleg]
        refine iff_of_false (fun h => h.2 _ (List.mem_singleton_self _) rfl) fun h => ?_
        obtain ⟨next, hnext, -⟩ := h
        cases hnext
      | some ledger =>
        rw [hpaid] at hleg
        rw [Traced.run_bind_of_ok hleg, List.forall_mem_append,
          and_iff_right (not_isTrapped_of_paid _ _), ih]
        simp only [Option.some.injEq, exists_eq_left']

/-! Validation before effects. -/

/-- If the batch fails, and not in a transfer, then it has neither asked for a transfer nor
published an event. -/
def ValidatesFirst (T : TokenContract Address Ledger) (env : Env Address contract)
    (s : State Address Ledger) (caller : Address) (payments : List (Address × I128)) : Prop :=
  (∀ s', (batchDistribute T env caller payments).run s ≠ .ok () s') →
    (∀ e ∈ ((traceBatchDistribute T env caller payments).run s).1, ¬e.IsTrapped) →
      ((traceBatchDistribute T env caller payments).run s).1 = []

/-- The recipients of the legs are looked at in the paying loop: a batch that passes the other
checks fails after its first payments if a later leg goes to the pool and the legs before it are
paid. -/
theorem validatesFirst_iff :
    ValidatesFirst T env s caller payments ↔ ¬∃ usdc, Checked T env s caller payments usdc ∧
      ReachesPool T contract usdc s.ledger payments ∧ ∀ p ∈ payments.head?, p.1 ≠ contract := by
  have hforget : (batchDistribute T env caller payments).run s =
      ((traceBatchDistribute T env caller payments).run s).2 := by
    rw [← forget_traceBatchDistribute, Traced.run_forget]
  have hrejected {o : Outcome RevenuePoolError (State Address Ledger) Unit}
      (hrun : (traceBatchDistribute T env caller payments).run s = ([], o))
      (hcheck : ∀ usdc s', (checkBatch T env caller payments).run s ≠ .ok usdc s') :
      ValidatesFirst T env s caller payments ↔ ¬∃ usdc, Checked T env s caller payments usdc ∧
        ReachesPool T contract usdc s.ledger payments ∧ ∀ p ∈ payments.head?, p.1 ≠ contract := by
    refine iff_of_true (fun _ _ => by rw [hrun]) fun h => ?_
    obtain ⟨usdc, hchecked, -⟩ := h
    exact hcheck usdc s (run_checkBatch_eq_ok.2 ⟨hchecked, rfl⟩)
  rcases hcheck : (checkBatch T env caller payments).run s with ⟨usdc, s₁⟩ | ⟨e, s₁⟩ | r
  · obtain ⟨hchecked, rfl⟩ := run_checkBatch_eq_ok.1 hcheck
    have hrun : (traceBatchDistribute T env caller payments).run s =
        (forM payments (tracePayLeg T contract usdc)).run s := by
      unfold traceBatchDistribute
      rw [Traced.run_bind_of_ok (by rw [Traced.run_lift, hcheck]), List.nil_append]
    obtain ⟨p, rest, rfl⟩ := List.exists_cons_of_ne_nil hchecked.batch.nonempty
    unfold ValidatesFirst
    rw [hforget, hrun, ← and_imp, payLegs_fails_iff, trace_payLegs_eq_nil_iff]
    constructor
    · intro h hlate
      obtain ⟨usdc', hchecked', hreaches, hfirst⟩ := hlate
      obtain rfl := Option.some.inj (hchecked.configured.symm.trans hchecked'.configured)
      exact hfirst p rfl (h hreaches p rfl)
    · intro h hreaches q hq
      by_contra hne
      refine h ⟨usdc, hchecked, hreaches, fun q' hq' => ?_⟩
      rw [← Option.mem_unique hq hq']
      exact hne
  · refine hrejected (Traced.run_bind_of_err (by rw [Traced.run_lift, hcheck])) fun usdc s' h => ?_
    rw [hcheck] at h
    cases h
  · refine hrejected (Traced.run_bind_of_trap (by rw [Traced.run_lift, hcheck])) fun usdc s' h => ?_
    rw [hcheck] at h
    cases h

/-- The admin 1 distributes to 5 and, by mistake, to the pool 0: 5 is paid before the mistake is
noticed. -/
theorem distributes_before_validating :
    ¬∀ (T : TokenContract ℕ (Balances ℕ)) (env : Env ℕ 0) (s : State ℕ (Balances ℕ)) (caller : ℕ)
      (payments : List (ℕ × I128)), ValidatesFirst T env s caller payments := by
  intro h
  have hfirst := h (balanceToken ℕ).toTokenContract (.signedBy 1 0 (by decide)) guardedPool 1
    [(5, ⟨30, by decide⟩), (0, ⟨20, by decide⟩)]
  have hrun : (batchDistribute (balanceToken ℕ).toTokenContract
      (.signedBy 1 0 (by decide) : Env ℕ 0) 1
      [(5, ⟨30, by decide⟩), (0, ⟨20, by decide⟩)]).run guardedPool = .trap
        (.message "invalid recipient: cannot distribute to the contract itself") := rfl
  have htrace : ((traceBatchDistribute (balanceToken ℕ).toTokenContract
      (.signedBy 1 0 (by decide) : Env ℕ 0) 1
      [(5, ⟨30, by decide⟩), (0, ⟨20, by decide⟩)]).run guardedPool).1 =
        [.transfer 5 ⟨30, by decide⟩ true, .event (.batchDistribute 5 ⟨30, by decide⟩)] := rfl
  unfold ValidatesFirst at hfirst
  rw [hrun, htrace] at hfirst
  refine List.cons_ne_nil _ _ (hfirst (fun s' hok => ?_) (not_isTrapped_of_paid _ _))
  cases hok

end Callora.RevenuePool
