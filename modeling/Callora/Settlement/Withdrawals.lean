import Callora.Settlement.Events
import Callora.Settlement.Limits

/-! When a developer's withdrawal goes through and what it then changes, and which error an
overdraft meets, alone and in a batch. -/

namespace Callora.Settlement
open Library

variable {Address Ledger : Type} [LinearOrder Address] {contract : Address}
  {env : Env Address contract} {s s' : State Address Ledger} {developer recipient usdc : Address}
  {amount : I128}

structure Withdrawable (T : TokenContract Address Ledger) (env : Env Address contract)
    (s : State Address Ledger) (developer : Address) (amount : I128) (recipient usdc : Address) :
    Prop where
  positive : 0 < amount.val
  recipient_ne : recipient ≠ contract
  claimOpen : s.ClaimOpen env developer
  configured : s.usdc = some usdc
  covered : amount.val ≤ (s.balanceOf developer usdc).val
  keepsMin : (getDeveloperMinBalance s developer).val = 0 ∨
    (getDeveloperMinBalance s developer).val ≤ (s.balanceOf developer usdc).val - amount.val
  withinCap : (getDailyWithdrawCap s developer).val ≤ 0 ∨
    (getWithdrawalToday env s developer).val + amount.val ≤ (getDailyWithdrawCap s developer).val
  funded : amount.val ≤ T.balance s.ledger usdc contract

structure Withdrew (T : TokenContract Address Ledger) (env : Env Address contract)
    (s : State Address Ledger) (developer : Address) (amount : I128) (recipient usdc : Address)
    (s' : State Address Ledger) : Prop where
  frame : ∃ newBalance total ledger,
    newBalance.val = (s.balanceOf developer usdc).val - amount.val ∧
    total.val = min I128.max.val ((getWithdrawalToday env s developer).val + amount.val) ∧
    s' = { s with
      ledger := ledger
      developerBalance := s.developerBalance.set (developer, usdc) newBalance
      withdrawalToday := s.withdrawalToday.set developer ⟨env.timestamp / 86400, total⟩
      events := s.events ++ [.developerWithdraw developer amount newBalance recipient usdc] }
  paid : ∀ token who, T.balance s'.ledger token who = T.balance s.ledger token who -
    (if token = usdc ∧ who = contract then amount.val else 0) +
    (if token = usdc ∧ who = recipient then amount.val else 0)

omit [LinearOrder Address] in
theorem day_dailyState (now : ℕ) : (dailyState s developer now).day = now := by
  unfold dailyState
  dsimp only
  split_ifs with hday
  · rfl
  · exact not_not.1 hday

omit [LinearOrder Address] in
theorem withinCap_iff {daily : DailyWithdrawState} {cap : I128} (hpos : 0 < amount.val) :
    WithinCap daily amount cap ↔ cap.val ≤ 0 ∨ daily.amount.val + amount.val ≤ cap.val := by
  unfold WithinCap
  constructor
  · intro h
    rcases le_or_gt cap.val 0 with hcap | hcap
    · exact .inl hcap
    · obtain ⟨projected, hsum, hle⟩ := h hcap
      exact .inr (hsum ▸ hle)
  · intro h hcap
    have hle := h.resolve_left hcap.not_ge
    obtain ⟨projected, hsum⟩ := (MachineInt.exists_val_eq_add hpos.le).2 (hle.trans cap.le_hi)
    exact ⟨projected, hsum, hsum.trans_le hle⟩

omit [LinearOrder Address] in
theorem keepsMinBalance_iff {remaining : I128} (hremaining : 0 ≤ remaining.val) :
    s.KeepsMinBalance developer remaining ↔ (getDeveloperMinBalance s developer).val = 0 ∨
      (getDeveloperMinBalance s developer).val ≤ remaining.val := by
  unfold State.KeepsMinBalance
  omega

theorem exists_withdrawal_iff {T : ExactToken Address Ledger} (hauth : developer ∈ env.signers) :
    (∃ newBalance ledger, Withdrawal T.toTokenContract env s developer amount recipient usdc
      newBalance ledger) ↔
    Withdrawable T.toTokenContract env s developer amount recipient usdc := by
  constructor
  · intro h
    obtain ⟨newBalance, ledger, h⟩ := h
    have hremaining : 0 ≤ newBalance.val := by
      rw [h.remaining]
      exact Int.sub_nonneg_of_le h.covered
    have hmin := (keepsMinBalance_iff hremaining).1 h.keepsMin
    have hcap := (withinCap_iff h.positive).1 h.withinCap
    rw [h.remaining] at hmin
    rw [← getWithdrawalToday_eq] at hcap
    exact ⟨h.positive, h.recipient_ne, h.claimOpen, h.configured, h.covered, hmin, hcap, h.funded⟩
  · intro h
    have hremaining := Int.sub_nonneg_of_le h.covered
    obtain ⟨newBalance, hnew⟩ : ∃ newBalance : I128,
        newBalance.val = (s.balanceOf developer usdc).val - amount.val := by
      rw [MachineInt.exists_val_eq]
      have hhi := (s.balanceOf developer usdc).le_hi
      have hpos := h.positive
      omega
    have hpaid := (T.transfer_isSome s.ledger usdc contract recipient amount.val).2
      ⟨h.positive.le, h.funded⟩
    obtain ⟨ledger, hpaid⟩ := Option.isSome_iff_exists.1 hpaid
    have hmin := h.keepsMin
    have hcap := h.withinCap
    rw [← hnew] at hremaining hmin
    rw [getWithdrawalToday_eq] at hcap
    exact ⟨newBalance, ledger, hauth, h.positive, h.recipient_ne, h.claimOpen, h.configured, hnew,
      (keepsMinBalance_iff hremaining).2 hmin, h.covered, (withinCap_iff h.positive).2 hcap,
      h.funded, hpaid⟩

theorem withdrew_of_withdrawal {T : ExactToken Address Ledger} {newBalance : I128}
    {ledger : Ledger} (h : Withdrawal T.toTokenContract env s developer amount recipient usdc
      newBalance ledger) :
    Withdrew T.toTokenContract env s developer amount recipient usdc
      (s.withdrawn env.timestamp developer recipient usdc amount newBalance ledger) := by
  constructor
  · refine ⟨newBalance, (getWithdrawalToday env s developer).saturatingAdd amount, ledger,
      h.remaining, MachineInt.saturatingAdd_val h.positive.le, ?_⟩
    simp only [getWithdrawalToday_eq, State.withdrawn, day_dailyState]
  · intro token who
    exact T.balance_transfer h.paid token who

/-- A withdrawal that its developer authorizes goes through exactly under the conditions above; it
then has the effect above, and otherwise none at all. -/
theorem withdrawal_exact (T : ExactToken Address Ledger) (env : Env Address contract)
    (s : State Address Ledger) (developer : Address) (amount : I128) («to» : Option Address)
    (hauth : developer ∈ env.signers) :
    let m := settlement T.toTokenContract contract
    let input := .call env (.withdrawDeveloperBalance developer amount «to»)
    let recipient := «to».getD developer
    ((∃ s', m.step s input = some (.unit, s')) ↔
      ∃ usdc, Withdrawable T.toTokenContract env s developer amount recipient usdc) ∧
    (∀ r s', m.step s input = some (r, s') → r = .unit ∧ ∃ usdc, s.usdc = some usdc ∧
      Withdrew T.toTokenContract env s developer amount recipient usdc s') ∧
    (m.step s input = none → m.next s input = s) := by
  intro m input recipient
  have hstep (r : Ret) (s' : State Address Ledger) : m.step s input = some (r, s') ↔
      ∃ u, (withdrawDeveloperBalance T.toTokenContract env developer amount «to»).run s =
        .ok u s' ∧ Ret.unit = r :=
    Call.commit_eq_some.trans run_returning_eq_ok
  refine ⟨?_, ?_, Machine.next_of_rollback⟩
  · constructor
    · intro h
      obtain ⟨s', h⟩ := h
      obtain ⟨u, hrun, -⟩ := (hstep _ _).1 h
      obtain ⟨usdc, newBalance, ledger, hw, -⟩ := run_withdrawDeveloperBalance_eq_ok.1 hrun
      exact ⟨usdc, (exists_withdrawal_iff hauth).1 ⟨newBalance, ledger, hw⟩⟩
    · intro h
      obtain ⟨usdc, hw⟩ := h
      obtain ⟨newBalance, ledger, hw⟩ := (exists_withdrawal_iff hauth).2 hw
      have hrun := (run_withdrawDeveloperBalance_eq_ok (u := ())).2
        ⟨usdc, newBalance, ledger, hw, rfl⟩
      exact ⟨_, (hstep _ _).2 ⟨(), hrun, rfl⟩⟩
  · intro r s' h
    obtain ⟨u, hrun, hr⟩ := (hstep _ _).1 h
    obtain ⟨usdc, newBalance, ledger, hw, rfl⟩ := run_withdrawDeveloperBalance_eq_ok.1 hrun
    exact ⟨hr.symm, usdc, hw.configured, withdrew_of_withdrawal hw⟩

theorem withdrawal_exact_two :
    let m := settlement (balanceToken ℕ).toTokenContract 0
    ∃ s', m.step (twoDevelopers ⟨100, by decide⟩)
        (.call twoSigners (.withdrawDeveloperBalance 4 ⟨40, by decide⟩ (some 6))) =
          some (.unit, s') ∧
      (s'.balanceOf 4 3).val = 60 ∧ s'.ledger 3 0 = 160 ∧ s'.ledger 3 6 = 240 := by
  intro m
  have hexact := withdrawal_exact (balanceToken ℕ) twoSigners
    (twoDevelopers ⟨100, by decide⟩) 4 ⟨40, by decide⟩ (some 6) (by decide)
  obtain ⟨hiff, heffect, -⟩ := hexact
  have hopen : (twoDevelopers ⟨100, by decide⟩).ClaimOpen twoSigners 4 := by
    intro window hwindow
    cases hwindow
  obtain ⟨s', hstep⟩ := hiff.2 ⟨3, by decide, by decide, hopen, rfl, by decide, .inl rfl,
    .inl (by decide), by decide⟩
  obtain ⟨-, usdc, husdc, hw⟩ := heffect .unit s' hstep
  obtain rfl : 3 = usdc := Option.some.inj husdc
  obtain ⟨newBalance, total, ledger, hnew, -, hs'⟩ := hw.frame
  refine ⟨s', hstep, ?_, hw.paid 3 0, hw.paid 3 6⟩
  rw [balanceOf_of_set (congrArg State.developerBalance hs'), hnew]
  rfl

/-! Overdrafts. -/

/-- A withdrawal that only the developer's balance stands against. -/
structure Overdraws (env : Env Address contract) (s : State Address Ledger)
    (input : SettleInput Address) (usdc : Address) : Prop where
  positive : 0 < input.amount.val
  recipient_ne : input.to.getD input.developer ≠ contract
  claimOpen : s.ClaimOpen env input.developer
  configured : s.usdc = some usdc
  overdrawn : (s.balanceOf input.developer usdc).val < input.amount.val

variable {T : TokenContract Address Ledger} {input : SettleInput Address}

/-- The minimum balance is looked at before the balance itself. -/
theorem run_withdrawItem_of_overdraws (hauth : input.developer ∈ env.signers)
    (h : Overdraws env s input usdc) (hbalance : 0 ≤ (s.balanceOf input.developer usdc).val) :
    (withdrawItem T env input).run s =
      .err (if 0 < (getDeveloperMinBalance s input.developer).val then .minBalanceViolation
        else .insufficientDeveloperBalance) s := by
  obtain ⟨remaining, hremaining⟩ : ∃ remaining : I128,
      remaining.val = (s.balanceOf input.developer usdc).val - input.amount.val := by
    rw [MachineInt.exists_val_eq]
    have hlo := hbalance
    have hhi := input.amount.le_hi
    have hover := h.overdrawn
    omega
  have hkeeps : s.KeepsMinBalance input.developer remaining ↔
      ¬0 < (getDeveloperMinBalance s input.developer).val := by
    have hover := h.overdrawn
    unfold State.KeepsMinBalance
    omega
  split_ifs with hmin
  · have hviolates : ∃ a : I128, a.val = (s.balanceOf input.developer usdc).val - input.amount.val ∧
        ¬s.KeepsMinBalance input.developer a :=
      ⟨remaining, hremaining, mt hkeeps.1 (not_not.2 hmin)⟩
    simpa [withdrawItem, withdrawDeveloperBalance, hauth, h.positive, h.recipient_ne, h.claimOpen,
      h.configured] using hviolates
  · have hkept : ∃ a : I128, a.val = (s.balanceOf input.developer usdc).val - input.amount.val ∧
        s.KeepsMinBalance input.developer a := ⟨remaining, hremaining, hkeeps.2 hmin⟩
    simpa [withdrawItem, withdrawDeveloperBalance, hauth, h.positive, h.recipient_ne, h.claimOpen,
      h.configured, h.overdrawn] using Or.inr hkept

theorem authorized_of_settled {settlements : List (SettleInput Address)}
    {outcomes : List SettleOutcome} (h : Settled T env s settlements outcomes s') :
    ∀ input ∈ settlements, input.developer ∈ env.signers := by
  induction h with
  | nil => exact List.forall_mem_nil _
  | success item _ ih =>
    obtain ⟨usdc, newBalance, ledger, hw, -⟩ := run_withdrawDeveloperBalance_eq_ok.1 item
    exact List.forall_mem_cons.2 ⟨hw.authorized, ih⟩
  | failure item _ ih =>
    simp only [withdrawDeveloperBalance, Call.run_bind_eq_err, run_requireAuth_eq_err,
      run_requireAuth_eq_ok, false_or] at item
    obtain ⟨-, -, ⟨hauth, -⟩, -⟩ := item
    exact List.forall_mem_cons.2 ⟨hauth, ih⟩

theorem settledBefore_invariant {P : State Address Ledger → Prop} (h₀ : P s)
    (hstep : ∀ input t t', P t → (withdrawItem T env input).run t = .ok () t' → P t')
    (settlements : List (SettleInput Address)) (i : ℕ) :
    P (settledBefore T env s settlements i) := by
  unfold settledBefore
  generalize settlements.take i = inputs
  induction inputs generalizing s with
  | nil => exact h₀
  | cons input inputs ih =>
    rw [List.foldl_cons]
    apply ih
    cases hrun : (withdrawItem T env input).run s with
    | ok _ s' =>
      rw [settleItem_of_ok hrun]
      exact hstep input s s' h₀ hrun
    | err _ s' =>
      rw [settleItem_of_err hrun]
      exact h₀
    | trap _ =>
      simp only [settleItem, hrun]
      exact h₀

theorem minBalance_nonneg_run (T : TokenContract Address Ledger) (ledger : Ledger)
    (inputs : List (Input Address Ledger contract)) (developer : Address) :
    0 ≤ (getDeveloperMinBalance ((settlement T contract).run (.deployed ledger) inputs)
      developer).val := by
  have hrun : MinBalancesNonneg ((settlement T contract).run (.deployed ledger) inputs) := by
    refine Machine.invariant (fun d minBalance h => by cases h) ?_ inputs
    intro t input r t' ht hstep
    obtain ⟨env, op, rfl, heff⟩ | ⟨ledger, rfl, rfl, rfl⟩ := effect_of_step hstep
    · exact minBalancesNonneg_of_effect ht heff
    · exact ht
  unfold getDeveloperMinBalance
  rcases hmin : ((settlement T contract).run (.deployed ledger) inputs).developerMinBalance
    developer with _ | minBalance
  · exact le_rfl
  · exact hrun developer minBalance hmin

theorem classified_iff (hauth : input.developer ∈ env.signers) (h : Overdraws env s input usdc)
    (hbalance : 0 ≤ (s.balanceOf input.developer usdc).val)
    (hmin : 0 ≤ (getDeveloperMinBalance s input.developer).val) :
    (withdrawItem T env input).run s = .err .insufficientDeveloperBalance s ↔
      (getDeveloperMinBalance s input.developer).val = 0 := by
  rw [run_withdrawItem_of_overdraws hauth h hbalance]
  split_ifs with hpos
  · simp [hpos.ne']
  · simp [le_antisymm (not_lt.1 hpos) hmin]

/-- An overdraft is reported as such, by the entrypoint and for an item of a batch, exactly if no
minimum balance is configured for the developer. -/
theorem overdraft_classified_iff (T : TokenContract Address Ledger) (ledger : Ledger)
    (inputs : List (Input Address Ledger contract)) (env : Env Address contract) :
    let s := (settlement T contract).run (.deployed ledger) inputs
    (∀ input usdc, input.developer ∈ env.signers → Overdraws env s input usdc →
      ((withdrawDeveloperBalance T env input.developer input.amount input.to).run s =
          .err .insufficientDeveloperBalance s ↔
        (getDeveloperMinBalance s input.developer).val = 0)) ∧
    ∀ settlements outcomes s' i input usdc, settlements.length ≤ 64 →
      (batchSettle T env settlements).run s = .ok outcomes s' → settlements[i]? = some input →
      Overdraws env (settledBefore T env s settlements i) input usdc →
      (outcomes[i]? = some .insufficientBalance ↔
        (getDeveloperMinBalance s input.developer).val = 0) := by
  intro s
  obtain ⟨hs, -⟩ := books_run T ledger inputs
  have hmin := minBalance_nonneg_run T ledger inputs
  constructor
  · intro input usdc hauth h
    exact classified_iff hauth h (hs.nonneg (.developer input.developer usdc))
      (hmin input.developer)
  · intro settlements outcomes s' i input usdc hsize hrun hi h
    obtain ⟨hlarge, -⟩ | ⟨-, -, hsettled⟩ := run_batchSettle_eq_ok.1 hrun
    · exact absurd hsize hlarge.not_ge
    have hauth := authorized_of_settled hsettled input (List.mem_of_getElem? hi)
    have hbefore : (∀ k, 0 ≤ books (settledBefore T env s settlements i) k) ∧
        (settledBefore T env s settlements i).developerMinBalance = s.developerMinBalance := by
      apply settledBefore_invariant (P := fun t => (∀ k, 0 ≤ books t k) ∧
        t.developerMinBalance = s.developerMinBalance) ⟨hs.nonneg, rfl⟩
      intro input t t' ht hrun
      obtain ⟨usdc, newBalance, ledger, hw, rfl⟩ := run_withdrawDeveloperBalance_eq_ok.1 hrun
      exact ⟨nonneg_of_withdrawal ht.1 hw, ht.2⟩
    have hsame : getDeveloperMinBalance (settledBefore T env s settlements i) input.developer =
        getDeveloperMinBalance s input.developer := by
      unfold getDeveloperMinBalance
      rw [hbefore.2]
    rw [outcome_of_settled hsettled hi, run_withdrawItem_of_overdraws hauth h
      (hbefore.1 (.developer input.developer usdc)), hsame]
    have hnonneg := hmin input.developer
    split_ifs with hpos
    · simp [SettleOutcome.ofRun, SettleOutcome.ofError, hpos.ne']
    · simp [SettleOutcome.ofRun, SettleOutcome.ofError, le_antisymm (not_lt.1 hpos) hnonneg]

def creditedWithMinimum (minBalance : I128) : List (Input ℕ (Balances ℕ) 0) :=
  [.call (.signedBy 8 0 (by decide)) (.init 8 11),
    .call (.signedBy 8 0 (by decide)) (.setUsdcToken 8 3),
    .call (.signedBy 11 0 (by decide)) (.receivePayment 11 ⟨5, by decide⟩ false (some 4) 3 1),
    .call (.signedBy 8 0 (by decide)) (.setDeveloperMinBalance 8 4 minBalance)]

theorem overdraft_classified_zero :
    let T := (balanceToken ℕ).toTokenContract
    let s := (settlement T 0).run (.deployed fun _ _ => 0) (creditedWithMinimum 0)
    (withdrawDeveloperBalance T (.signedBy 4 0 (by decide) : Env ℕ 0) 4 ⟨7, by decide⟩ none).run s =
      .err .insufficientDeveloperBalance s := by
  intro T s
  obtain ⟨hclassified, -⟩ := overdraft_classified_iff T (fun _ _ => 0)
    (creditedWithMinimum 0) (.signedBy 4 0 (by decide))
  have hopen : s.ClaimOpen (.signedBy 4 0 (by decide) : Env ℕ 0) 4 := by
    intro window hwindow
    cases hwindow
  exact (hclassified ⟨4, ⟨7, by decide⟩, none⟩ 3 (by decide)
    ⟨by decide, by decide, hopen, rfl, by decide⟩).2 rfl

/-- With the minimum 10, the same withdrawal is said to violate the minimum balance, and a batch
reports no more than that something went wrong. -/
theorem overdraft_misclassified :
    let T := (balanceToken ℕ).toTokenContract
    let env : Env ℕ 0 := .signedBy 4 0 (by decide)
    let s := (settlement T 0).run (.deployed fun _ _ => 0) (creditedWithMinimum ⟨10, by decide⟩)
    let input : SettleInput ℕ := ⟨4, ⟨7, by decide⟩, none⟩
    Overdraws env s input 3 ∧
      (withdrawDeveloperBalance T env 4 ⟨7, by decide⟩ none).run s = .err .minBalanceViolation s ∧
      (withdrawDeveloperBalance T env 4 ⟨7, by decide⟩ none).run s ≠
        .err .insufficientDeveloperBalance s ∧
      (batchSettle T env [input]).run s = .ok [.otherError] s := by
  intro T env s input
  have hopen : s.ClaimOpen env 4 := by
    intro window hwindow
    cases hwindow
  have hrun : (withdrawDeveloperBalance T env 4 ⟨7, by decide⟩ none).run s =
      .err .minBalanceViolation s := rfl
  refine ⟨⟨by decide, by decide, hopen, rfl, by decide⟩, hrun, ?_, rfl⟩
  intro herr
  cases hrun.symm.trans herr

end Callora.Settlement
