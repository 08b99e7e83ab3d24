import Callora.Vault.Run

/-! A batch of charges against the charges one by one. The batch adds up first and pays once, the
others compare and pay as they go; with a token that moves exact amounts they come to the same, as
long as the vault does not pay itself. -/

namespace Callora.Vault
open Library

variable {Address Ledger : Type} [DecidableEq Address] {contract : Address}
  {env : Env Address contract} {s s' : State Address Ledger} {caller : Address} {amount : I128}
  {items : List (I128 × ℕ)} {u : Unit}

/-- A call of `record_deduction`: the settlement it is made to, the amount and the request id. -/
structure Deduction (Address : Type) where
  settlement : Address
  amount : I128
  requestId : ℕ
deriving DecidableEq

abbrev RecordedTx (Address Ledger α : Type) : Type :=
  Call VaultError (State Address Ledger × List (Deduction Address)) α

def recorded (settlement : Address) (amount : I128) (requestId : ℕ) :
    RecordedTx Address Ledger Unit := do
  Call.onFst (recordDeduction settlement amount requestId)
  Call.modify fun p => (p.1, p.2 ++ [⟨settlement, amount, requestId⟩])

def deductRecorded (T : TokenContract Address Ledger) (env : Env Address contract)
    (caller : Address) (amount : I128) (requestId : ℕ) : RecordedTx Address Ledger Unit := do
  let settlementAddr ← Call.onFst do
    let bounds ← requireDeductCaller env caller
    requireValidDeductAmount amount bounds.1 bounds.2
    paySettlement T contract amount
  recorded settlementAddr amount requestId

def batchDeductRecorded (T : TokenContract Address Ledger) (env : Env Address contract)
    (caller : Address) (items : List (I128 × ℕ)) : RecordedTx Address Ledger Unit := do
  let settlementAddr ← Call.onFst do
    let bounds ← requireDeductCaller env caller
    let total ← totalAmount bounds.1 bounds.2 items 0
    paySettlement T contract total
  forM items fun item => recorded settlementAddr item.1 item.2

def deductions (settlement : Address) (items : List (I128 × ℕ)) : List (Deduction Address) :=
  items.map fun item => ⟨settlement, item.1, item.2⟩

section
variable {T : TokenContract Address Ledger} {l l' : List (Deduction Address)}

omit [DecidableEq Address] in
@[simp] theorem run_recorded_eq_ok {settlement : Address} {requestId : ℕ} :
    (recorded settlement amount requestId).run (s, l) = .ok u (s', l') ↔
      s = s' ∧ l ++ [⟨settlement, amount, requestId⟩] = l' := by
  simp [recorded]

omit [DecidableEq Address] in
theorem run_recordedAll_eq_ok {settlement : Address} :
    (forM items fun item => recorded settlement item.1 item.2).run (s, l) = .ok u (s', l') ↔
      s = s' ∧ l ++ deductions settlement items = l' := by
  induction items generalizing l with
  | nil => simp [deductions]
  | cons item items ih =>
    rw [Call.run_forM_cons_eq_ok, deductions, List.map_cons, List.append_cons]
    constructor
    · rintro ⟨⟨s₁, l₁⟩, hitem, hitems⟩
      obtain ⟨rfl, rfl⟩ := run_recorded_eq_ok.1 hitem
      exact ih.1 hitems
    · rintro hitems
      exact ⟨_, run_recorded_eq_ok.2 ⟨rfl, rfl⟩, ih.2 hitems⟩

theorem run_deductRecorded_eq_ok {requestId : ℕ} :
    (deductRecorded T env caller amount requestId).run (s, l) = .ok u (s', l') ↔
      (deduct T env caller amount requestId).run s = .ok u s' ∧
        ∃ settlement, s.settlement = some settlement ∧
          l ++ [⟨settlement, amount, requestId⟩] = l' := by
  simp only [deductRecorded, deduct, Call.run_bind_eq_ok, Call.run_onFst_eq_ok,
    run_requireDeductCaller_eq_ok, run_requireValidDeductAmount_eq_ok, run_paySettlement_eq_ok,
    run_recorded_eq_ok, run_recordDeduction_eq_ok, Prod.exists, existsAndEq, and_assoc,
    exists_and_left, exists_const, true_and]
  grind

theorem run_batchDeductRecorded_eq_ok :
    (batchDeductRecorded T env caller items).run (s, l) = .ok u (s', l') ↔
      (batchDeduct T env caller items).run s = .ok u s' ∧
        ∃ settlement, s.settlement = some settlement ∧
          l ++ deductions settlement items = l' := by
  simp only [batchDeductRecorded, batchDeduct, Call.run_bind_eq_ok, Call.run_onFst_eq_ok,
    run_requireDeductCaller_eq_ok, run_totalAmount_eq_ok, run_paySettlement_eq_ok,
    run_recordedAll_eq_ok, run_recordDeductions_eq_ok, Prod.exists, existsAndEq, and_assoc,
    exists_and_left, true_and]
  grind

end

/-! What charges amount to. -/

variable {T : ExactToken Address Ledger} {usdc settlement : Address} {amounts : List I128}

/-- `s'` is `s` after `amounts` were paid to `settlement`, by however many transfers. -/
structure PaidOut (T : ExactToken Address Ledger) (contract usdc settlement : Address)
    (amounts : List I128) (s s' : State Address Ledger) : Prop where
  frame : s' = { s with balance := s'.balance, ledger := s'.ledger }
  tracked : s'.tracked.val = s.tracked.val - charged amounts
  ledger : ∀ t z, T.balance s'.ledger t z = T.balance s.ledger t z -
    (if t = usdc ∧ z = contract then charged amounts else 0) +
    (if t = usdc ∧ z = settlement then charged amounts else 0)

theorem PaidOut.nil (s : State Address Ledger) : PaidOut T contract usdc settlement [] s s where
  frame := rfl
  tracked := by rw [charged_nil, Int.sub_zero]
  ledger t z := by simp

theorem PaidOut.cons {s₁ : State Address Ledger} {a : I128}
    (h : PaidOut T contract usdc settlement [a] s s₁)
    (hrest : PaidOut T contract usdc settlement amounts s₁ s') :
    PaidOut T contract usdc settlement (a :: amounts) s s' where
  frame := by
    rw [hrest.frame, h.frame]
  tracked := by
    rw [hrest.tracked, h.tracked, charged_cons, charged_cons, charged_nil]
    omega
  ledger t z := by
    rw [hrest.ledger, h.ledger, charged_cons, charged_cons, charged_nil]
    split_ifs <;> omega

theorem PaidOut.agree {s₁ s₂ : State Address Ledger}
    (h₁ : PaidOut T contract usdc settlement amounts s s₁)
    (h₂ : PaidOut T contract usdc settlement amounts s s₂) :
    s₁.tracked = s₂.tracked ∧
      (∀ t z, T.balance s₁.ledger t z = T.balance s₂.ledger t z) ∧
      s₂ = { s₁ with balance := s₂.balance, ledger := s₂.ledger } := by
  refine ⟨MachineInt.ext (h₁.tracked.trans h₂.tracked.symm), ?_, ?_⟩
  · intro t z
    rw [h₁.ledger, h₂.ledger]
  · rw [h₂.frame, h₁.frame]

theorem paidOut_of_charge {newBal : I128} {ledger : Ledger}
    (h : Charge T.toTokenContract env s caller amounts newBal usdc settlement ledger) :
    PaidOut T contract usdc settlement amounts s
      { s with balance := some newBal, ledger := ledger } where
  frame := rfl
  tracked := h.debited
  ledger := T.balance_transfer h.paid

theorem paidOut_of_deduct {requestId : ℕ} {l l' : List (Deduction Address)}
    (husdc : s.usdcToken = some usdc) (hsettle : s.settlement = some settlement)
    (h : (deductRecorded T.toTokenContract env caller amount requestId).run (s, l) =
      .ok u (s', l')) :
    PaidOut T contract usdc settlement [amount] s s' ∧
      l' = l ++ [⟨settlement, amount, requestId⟩] := by
  obtain ⟨hdeduct, settlement', hsettle', rfl⟩ := run_deductRecorded_eq_ok.1 h
  obtain ⟨newBal, usdc', payee, ledger, hcharge, rfl⟩ := run_deduct_eq_ok.1 hdeduct
  obtain rfl := Option.some.inj (husdc.symm.trans hcharge.configured)
  obtain rfl := Option.some.inj (hsettle.symm.trans hcharge.payee)
  obtain rfl := Option.some.inj (hsettle.symm.trans hsettle')
  exact ⟨paidOut_of_charge hcharge, rfl⟩

theorem paidOut_of_deducts {l l' : List (Deduction Address)}
    (husdc : s.usdcToken = some usdc) (hsettle : s.settlement = some settlement)
    (h : (forM items fun item => deductRecorded T.toTokenContract env caller item.1 item.2).run
      (s, l) = .ok u (s', l')) :
    PaidOut T contract usdc settlement (items.map Prod.fst) s s' ∧
      l' = l ++ deductions settlement items := by
  induction items generalizing s l with
  | nil =>
    obtain ⟨rfl, rfl⟩ := Prod.mk.inj (Call.run_forM_nil_eq_ok.1 h)
    exact ⟨.nil s, (List.append_nil l).symm⟩
  | cons item items ih =>
    obtain ⟨⟨s₁, l₁⟩, hitem, hitems⟩ := Call.run_forM_cons_eq_ok.1 h
    obtain ⟨hpaid, rfl⟩ := paidOut_of_deduct husdc hsettle hitem
    have husdc₁ : s₁.usdcToken = some usdc := by
      rw [hpaid.frame]
      exact husdc
    have hsettle₁ : s₁.settlement = some settlement := by
      rw [hpaid.frame]
      exact hsettle
    obtain ⟨hrest, rfl⟩ := ih husdc₁ hsettle₁ hitems
    refine ⟨hpaid.cons hrest, ?_⟩
    rw [List.append_assoc, List.singleton_append]
    rfl

/-! When charges go through. -/

omit [DecidableEq Address] in
theorem acceptsAmounts_cons {a : I128} :
    s.AcceptsAmounts (a :: amounts) ↔ s.AcceptsAmounts [a] ∧ s.AcceptsAmounts amounts := by
  constructor
  · intro h
    obtain ⟨minDep, maxDeduct, hmin, hmax, hall⟩ := h
    obtain ⟨ha, hrest⟩ := List.forall_mem_cons.1 hall
    exact ⟨⟨minDep, maxDeduct, hmin, hmax, List.forall_mem_singleton.2 ha⟩,
      minDep, maxDeduct, hmin, hmax, hrest⟩
  · intro h
    obtain ⟨⟨minDep, maxDeduct, hmin, hmax, ha⟩, minDep', maxDeduct', hmin', hmax', hrest⟩ := h
    obtain rfl := Option.some.inj (hmin.symm.trans hmin')
    obtain rfl := Option.some.inj (hmax.symm.trans hmax')
    exact ⟨minDep, maxDeduct, hmin, hmax,
      List.forall_mem_cons.2 ⟨ha a List.mem_cons_self, hrest⟩⟩

theorem takesCharge_iff (husdc : s.usdcToken = some usdc)
    (hsettle : s.settlement = some settlement) :
    s.TakesCharge T.toTokenContract env caller amounts ↔
      (caller ∈ env.signers ∧ s.authorizedCaller = some caller ∧ isPaused s = false) ∧
        s.AcceptsAmounts amounts ∧ charged amounts ≤ s.tracked.val ∧
        charged amounts ≤ T.balance s.ledger usdc contract := by
  constructor
  · intro h
    obtain ⟨hauth, hpermit, hpaused, hacc, hcov, usdc', settlement', husdc', hsettle', hfunds⟩ := h
    obtain rfl := Option.some.inj (husdc.symm.trans husdc')
    exact ⟨⟨hauth, hpermit, hpaused⟩, hacc, hcov, ((T.transfer_isSome ..).1 hfunds).2⟩
  · intro h
    obtain ⟨⟨hauth, hpermit, hpaused⟩, hacc, hcov, hheld⟩ := h
    have hnonneg := charged_nonneg hacc.pos
    exact ⟨hauth, hpermit, hpaused, hacc, hcov, usdc, settlement, husdc, hsettle,
      (T.transfer_isSome ..).2 ⟨hnonneg, hheld⟩⟩

theorem takesCharge_after {a newBal : I128} {ledger : Ledger}
    (hexternal : s.settlement ≠ some contract)
    (h : Charge T.toTokenContract env s caller [a] newBal usdc settlement ledger) :
    State.TakesCharge T.toTokenContract { s with balance := some newBal, ledger := ledger } env
      caller amounts ↔ s.TakesCharge T.toTokenContract env caller (a :: amounts) := by
  have hne : contract ≠ settlement := by
    rintro rfl
    exact hexternal h.payee
  have hcharged : charged [a] = a.val := by
    rw [charged_cons, charged_nil, Int.add_zero]
  have htracked : (State.tracked { s with balance := some newBal, ledger := ledger }).val =
      s.tracked.val - a.val := hcharged ▸ h.debited
  have hheld : T.balance ledger usdc contract = T.balance s.ledger usdc contract - a.val := by
    rw [T.balance_sender h.paid, if_neg hne, Int.add_zero, hcharged]
  rw [takesCharge_iff (s := { s with balance := some newBal, ledger := ledger }) h.configured
    h.payee, takesCharge_iff h.configured h.payee, acceptsAmounts_cons,
    and_iff_right h.accepted, htracked, hheld, charged_cons]
  have hcov : charged amounts ≤ s.tracked.val - a.val ↔
      a.val + charged amounts ≤ s.tracked.val := by omega
  have hfunds : charged amounts ≤ T.balance s.ledger usdc contract - a.val ↔
      a.val + charged amounts ≤ T.balance s.ledger usdc contract := by omega
  rw [hcov, hfunds]
  exact Iff.rfl

theorem takesCharge_head {a : I128}
    (h : s.TakesCharge T.toTokenContract env caller (a :: amounts)) :
    s.TakesCharge T.toTokenContract env caller [a] := by
  obtain ⟨-, -, -, -, -, usdc, settlement, husdc, hsettle, -⟩ := id h
  rw [takesCharge_iff husdc hsettle, acceptsAmounts_cons] at h
  obtain ⟨hcaller, ⟨ha, hrest⟩, hcov, hheld⟩ := h
  have hnonneg := charged_nonneg hrest.pos
  have hle : charged [a] ≤ charged (a :: amounts) := by
    rw [charged_cons, charged_cons, charged_nil]
    omega
  exact (takesCharge_iff husdc hsettle).2 ⟨hcaller, ha, hle.trans hcov, hle.trans hheld⟩

theorem exists_deducts_iff {l : List (Deduction Address)} (hexternal : s.settlement ≠ some contract)
    (hne : items ≠ []) :
    (∃ p, (forM items fun item =>
      deductRecorded T.toTokenContract env caller item.1 item.2).run (s, l) = .ok () p) ↔
      s.TakesCharge T.toTokenContract env caller (items.map Prod.fst) := by
  induction items generalizing s l with
  | nil => exact absurd rfl hne
  | cons item items ih =>
    constructor
    · intro h
      obtain ⟨p, hrun⟩ := h
      obtain ⟨⟨s₁, l₁⟩, hitem, hitems⟩ := Call.run_forM_cons_eq_ok.1 hrun
      obtain ⟨hdeduct, -⟩ := run_deductRecorded_eq_ok.1 hitem
      obtain ⟨newBal, usdc, settlement, ledger, hcharge, rfl⟩ := run_deduct_eq_ok.1 hdeduct
      by_cases hlast : items = []
      · rw [hlast]
        exact exists_charge_iff.1 ⟨newBal, usdc, settlement, ledger, hcharge⟩
      · have hrest := (ih (s := { s with balance := some newBal, ledger := ledger }) hexternal
          hlast).1 ⟨p, hitems⟩
        exact (takesCharge_after hexternal hcharge).1 hrest
    · intro htakes
      obtain ⟨newBal, usdc, settlement, ledger, hcharge⟩ :=
        exists_charge_iff.2 (takesCharge_head htakes)
      have hitem : (deductRecorded T.toTokenContract env caller item.1 item.2).run (s, l) =
          .ok () ({ s with balance := some newBal, ledger := ledger },
            l ++ [⟨settlement, item.1, item.2⟩]) :=
        run_deductRecorded_eq_ok.2 ⟨run_deduct_eq_ok.2
          ⟨newBal, usdc, settlement, ledger, hcharge, rfl⟩, settlement, hcharge.payee, rfl⟩
      by_cases hlast : items = []
      · rw [hlast]
        exact ⟨_, Call.run_forM_cons_eq_ok.2 ⟨_, hitem, Call.run_forM_nil_eq_ok.2 rfl⟩⟩
      · obtain ⟨p, hitems⟩ := (ih (s := { s with balance := some newBal, ledger := ledger })
          hexternal hlast).2 ((takesCharge_after hexternal hcharge).2 htakes)
        exact ⟨p, Call.run_forM_cons_eq_ok.2 ⟨_, hitem, hitems⟩⟩

theorem exists_batchDeduct_iff {l : List (Deduction Address)} :
    (∃ p, (batchDeductRecorded T.toTokenContract env caller items).run (s, l) = .ok () p) ↔
      s.TakesCharge T.toTokenContract env caller (items.map Prod.fst) := by
  rw [← exists_charge_iff]
  constructor
  · intro h
    obtain ⟨⟨s', l'⟩, hrun⟩ := h
    obtain ⟨hbatch, -⟩ := run_batchDeductRecorded_eq_ok.1 hrun
    obtain ⟨newBal, usdc, settlement, ledger, hcharge, -⟩ := run_batchDeduct_eq_ok.1 hbatch
    exact ⟨newBal, usdc, settlement, ledger, hcharge⟩
  · intro h
    obtain ⟨newBal, usdc, settlement, ledger, hcharge⟩ := h
    exact ⟨(_, _), run_batchDeductRecorded_eq_ok.2 ⟨run_batchDeduct_eq_ok.2
      ⟨newBal, usdc, settlement, ledger, hcharge, rfl⟩, settlement, hcharge.payee, rfl⟩⟩

theorem deduct_of_deductRecorded_eq_none {requestId : ℕ} {l : List (Deduction Address)}
    (h : (deductRecorded T.toTokenContract env caller amount requestId).commit (s, l) = none) :
    (deduct T.toTokenContract env caller amount requestId).commit s = none := by
  rw [Call.commit_eq_none] at h ⊢
  intro u s' hrun
  obtain ⟨newBal, usdc, settlement, ledger, hcharge, -⟩ := run_deduct_eq_ok.1 hrun
  exact h u (s', _) (run_deductRecorded_eq_ok.2 ⟨hrun, settlement, hcharge.payee, rfl⟩)

theorem batchDeduct_of_batchDeductRecorded_eq_none {l : List (Deduction Address)}
    (h : (batchDeductRecorded T.toTokenContract env caller items).commit (s, l) = none) :
    (batchDeduct T.toTokenContract env caller items).commit s = none := by
  rw [Call.commit_eq_none] at h ⊢
  intro u s' hrun
  obtain ⟨newBal, usdc, settlement, ledger, hcharge, -⟩ := run_batchDeduct_eq_ok.1 hrun
  exact h u (s', _) (run_batchDeductRecorded_eq_ok.2 ⟨hrun, settlement, hcharge.payee, rfl⟩)

/-- A batch of charges and the charges one by one go through together, and leave the same tracked
balance, the same balances of every token and the same record of deductions; what fails changes
nothing. -/
theorem batchDeduct_eq_deducts (T : ExactToken Address Ledger) (env : Env Address contract)
    (s : State Address Ledger) (l : List (Deduction Address)) (caller : Address)
    (items : List (I128 × ℕ)) (hexternal : s.settlement ≠ some contract) (hne : items ≠ []) :
    let batch := (batchDeductRecorded T.toTokenContract env caller items).commit (s, l)
    let singles := (forM items fun item =>
      deductRecorded T.toTokenContract env caller item.1 item.2).commit (s, l)
    (batch.isSome ↔ singles.isSome) ∧
    (∀ s₁ l₁ s₂ l₂, batch = some ((), s₁, l₁) → singles = some ((), s₂, l₂) →
      s₁.tracked = s₂.tracked ∧
      (∀ t z, T.balance s₁.ledger t z = T.balance s₂.ledger t z) ∧ l₁ = l₂ ∧
      s₂ = { s₁ with balance := s₂.balance, ledger := s₂.ledger }) ∧
    (batch = none → (vault T.toTokenContract contract).next s
      (.call env (.batchDeduct caller items)) = s) ∧
    ∀ t amount requestId,
      (deductRecorded T.toTokenContract env caller amount requestId).commit (t, l) = none →
      (vault T.toTokenContract contract).next t (.call env (.deduct caller amount requestId)) =
        t := by
  intro batch singles
  refine ⟨?_, ?_, ?_, ?_⟩
  · rw [Call.commit_isSome, Call.commit_isSome]
    exact exists_batchDeduct_iff.trans (exists_deducts_iff hexternal hne).symm
  · intro s₁ l₁ s₂ l₂ hbatch hsingles
    obtain ⟨hrun, settlement, hsettle, rfl⟩ :=
      run_batchDeductRecorded_eq_ok.1 (Call.commit_eq_some.1 hbatch)
    obtain ⟨newBal, usdc, payee, ledger, hcharge, rfl⟩ := run_batchDeduct_eq_ok.1 hrun
    obtain rfl := Option.some.inj (hsettle.symm.trans hcharge.payee)
    obtain ⟨hpaid, rfl⟩ :=
      paidOut_of_deducts hcharge.configured hsettle (Call.commit_eq_some.1 hsingles)
    obtain ⟨htracked, hledger, hframe⟩ := (paidOut_of_charge hcharge).agree hpaid
    exact ⟨htracked, hledger, rfl, hframe⟩
  · intro hfails
    exact Machine.next_of_rollback (batchDeduct_of_batchDeductRecorded_eq_none hfails)
  · intro t amount requestId hfails
    exact Machine.next_of_rollback (deduct_of_deductRecorded_eq_none hfails)

theorem batchDeduct_eq_deducts_backed :
    let env : Env ℕ 0 := .signedBy 2 0 (by decide)
    let items : List (I128 × ℕ) := [(⟨30, by decide⟩, 8), (⟨10, by decide⟩, 9)]
    let T := (balanceToken ℕ).toTokenContract
    let batch := (batchDeductRecorded T env 2 items).commit (backedVault, [])
    let singles := (forM items fun item =>
      deductRecorded T env 2 item.1 item.2).commit (backedVault, [])
    batch.isSome ∧ (batch.isSome ↔ singles.isSome) :=
  ⟨rfl, (batchDeduct_eq_deducts (balanceToken ℕ) _ backedVault [] 2 _ (by decide)
    (List.cons_ne_nil _ _)).1⟩

end Callora.Vault
