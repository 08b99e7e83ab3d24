import Callora.Settlement.Governance

/-! Batch settlement against withdrawals one by one: every outcome is that of the withdrawal in the
state the earlier items left, and failed items leave no trace. The batch that is resumed with a
cursor is held against the same withdrawals. -/

namespace Callora.Settlement
open Library

variable {Address Ledger : Type} [LinearOrder Address] {contract : Address}
  {T : TokenContract Address Ledger} {env : Env Address contract} {s s' : State Address Ledger}

variable (T env) in
def withdrawItem (input : SettleInput Address) : Tx Address Ledger Unit :=
  withdrawDeveloperBalance T env input.developer input.amount input.to

variable (T env) in
def settleItem (s : State Address Ledger) (input : SettleInput Address) : State Address Ledger :=
  match (withdrawItem T env input).run s with
  | .ok _ s' => s'
  | _ => s

variable (T env) in
/-- The state that item `i` of a batch meets. -/
def settledBefore (s : State Address Ledger) (settlements : List (SettleInput Address)) (i : ℕ) :
    State Address Ledger :=
  (settlements.take i).foldl (settleItem T env) s

def SettleOutcome.ofRun : Outcome SettlementError (State Address Ledger) Unit →
    Option SettleOutcome
  | .ok _ _ => some .success
  | .err e _ => some (.ofError e)
  | .trap _ => none

def succeeded (settlements : List (SettleInput Address)) (outcomes : List SettleOutcome) :
    List (SettleInput Address) :=
  ((settlements.zip outcomes).filter fun p => p.2 = .success).map Prod.fst

theorem settleItem_of_ok {input : SettleInput Address} {u : Unit}
    (h : (withdrawItem T env input).run s = .ok u s') : settleItem T env s input = s' := by
  simp only [settleItem, h]

theorem settleItem_of_err {input : SettleInput Address} {e : SettlementError}
    (h : (withdrawItem T env input).run s = .err e s') : settleItem T env s input = s := by
  simp only [settleItem, h]

theorem settledBefore_cons (input : SettleInput Address) (inputs : List (SettleInput Address))
    (i : ℕ) : settledBefore T env s (input :: inputs) (i + 1) =
      settledBefore T env (settleItem T env s input) inputs i := rfl

theorem length_of_settled {inputs : List (SettleInput Address)} {outcomes : List SettleOutcome}
    (h : Settled T env s inputs outcomes s') : outcomes.length = inputs.length := by
  induction h with
  | nil => rfl
  | success _ _ ih => rw [List.length_cons, List.length_cons, ih]
  | failure _ _ ih => rw [List.length_cons, List.length_cons, ih]

theorem foldl_of_settled {inputs : List (SettleInput Address)} {outcomes : List SettleOutcome}
    (h : Settled T env s inputs outcomes s') : s' = inputs.foldl (settleItem T env) s := by
  induction h with
  | nil => rfl
  | success item _ ih => rw [List.foldl_cons, settleItem_of_ok item, ih]
  | failure item _ ih => rw [List.foldl_cons, settleItem_of_err item, ih]

theorem outcome_of_settled {inputs : List (SettleInput Address)} {outcomes : List SettleOutcome}
    (h : Settled T env s inputs outcomes s') {i : ℕ} {input : SettleInput Address}
    (hi : inputs[i]? = some input) :
    outcomes[i]? =
      SettleOutcome.ofRun ((withdrawItem T env input).run (settledBefore T env s inputs i)) := by
  induction h generalizing i with
  | nil => simp at hi
  | success item _ ih =>
    cases i with
    | zero =>
      obtain rfl := Option.some.inj hi
      exact congrArg SettleOutcome.ofRun item.symm
    | succ i =>
      rw [settledBefore_cons, settleItem_of_ok item]
      exact ih hi
  | failure item _ ih =>
    cases i with
    | zero =>
      obtain rfl := Option.some.inj hi
      exact congrArg SettleOutcome.ofRun item.symm
    | succ i =>
      rw [settledBefore_cons, settleItem_of_err item]
      exact ih hi

theorem succeeded_of_settled {inputs : List (SettleInput Address)} {outcomes : List SettleOutcome}
    (h : Settled T env s inputs outcomes s') :
    (forM (succeeded inputs outcomes) (withdrawItem T env)).run s = .ok () s' := by
  induction h with
  | nil => exact Call.run_forM_nil_eq_ok.2 rfl
  | success item _ ih => exact Call.run_forM_cons_eq_ok.2 ⟨_, item, ih⟩
  | @failure s s' input inputs outcomes e item _ ih =>
    have hskip : succeeded (input :: inputs) (.ofError e :: outcomes) =
        succeeded inputs outcomes := by
      simp [succeeded, SettleOutcome.ofError_ne_success]
    rw [hskip]
    exact ih

/-- A batch of at most 64 items that returns reports for every item what its withdrawal would
return in the state left by the items before it, and leaves what the successful withdrawals alone
leave; a longer batch reports an error for every item and changes nothing. -/
theorem batchSettle_refines_withdrawals (T : TokenContract Address Ledger)
    (env : Env Address contract) (s : State Address Ledger)
    (settlements : List (SettleInput Address)) :
    (∀ outcomes s', settlements.length ≤ 64 →
      (batchSettle T env settlements).run s = .ok outcomes s' →
      outcomes.length = settlements.length ∧
      (∀ i input, settlements[i]? = some input →
        outcomes[i]? = SettleOutcome.ofRun
          ((withdrawItem T env input).run (settledBefore T env s settlements i))) ∧
      s' = settledBefore T env s settlements settlements.length ∧
      (forM (succeeded settlements outcomes) (withdrawItem T env)).run s = .ok () s') ∧
    (∀ i input e t, settlements[i]? = some input →
      (withdrawItem T env input).run (settledBefore T env s settlements i) = .err e t →
      t = settledBefore T env s settlements i ∧
        settledBefore T env s settlements (i + 1) = settledBefore T env s settlements i) ∧
    (64 < settlements.length → (batchSettle T env settlements).run s =
      .ok (List.replicate settlements.length .otherError) s) := by
  refine ⟨fun outcomes s' hsize hrun => ?_, fun i input e t hi herr => ⟨?_, ?_⟩, fun hsize => ?_⟩
  · obtain ⟨hlarge, -⟩ | ⟨-, -, hsettled⟩ := run_batchSettle_eq_ok.1 hrun
    · exact absurd hsize hlarge.not_ge
    · refine ⟨length_of_settled hsettled, fun i input hi => outcome_of_settled hsettled hi, ?_,
        succeeded_of_settled hsettled⟩
      rw [settledBefore, List.take_length]
      exact foldl_of_settled hsettled
  · exact state_of_run_withdrawDeveloperBalance_eq_err herr
  · rw [settledBefore, List.take_add_one, hi, List.foldl_append]
    exact settleItem_of_err herr
  · refine run_batchSettle_eq_ok.2 (.inl ⟨hsize, ?_, rfl⟩)
    exact List.map_const' ..

/-! When a batch returns. -/

omit [LinearOrder Address] in
theorem recipient_eq_contract {developer : Address} {«to» : Option Address}
    (h : developer ∈ env.signers) : «to».getD developer = contract ↔ «to» = some contract := by
  cases «to» with
  | none => simpa using Env.ne_contract h
  | some recipient => simp

theorem traps_withdrawItem_iff {input : SettleInput Address} (hauth : input.developer ∈ env.signers)
    (htransfer : ∀ ledger token recipient a, 0 < a → a ≤ T.balance ledger token contract →
      (T.transfer ledger token contract recipient a).isSome) :
    (∃ r, (withdrawItem T env input).run s = .trap r) ↔
      0 < input.amount.val ∧ input.to = some contract := by
  simp [withdrawItem, withdrawDeveloperBalance, hauth, recipient_eq_contract hauth]
  intro hpos
  constructor
  · rintro ⟨r, ⟨hto, -⟩ | ⟨-, -, usdc, -, remaining, -, -, -, -, -, hfunds, hnone, -⟩⟩
    · exact hto
    · have hpaid := htransfer s.ledger usdc (input.to.getD input.developer) _ hpos hfunds
      rw [hnone] at hpaid
      cases hpaid
  · intro hto
    exact ⟨_, .inl ⟨hto, rfl⟩⟩

theorem exists_run_settleAll_iff {inputs : List (SettleInput Address)}
    (hauth : ∀ input ∈ inputs, input.developer ∈ env.signers)
    (htransfer : ∀ ledger token recipient a, 0 < a → a ≤ T.balance ledger token contract →
      (T.transfer ledger token contract recipient a).isSome) :
    (∃ outcomes s', Settled T env s inputs outcomes s') ↔
      ∀ input ∈ inputs, 0 < input.amount.val → input.to ≠ some contract := by
  induction inputs generalizing s with
  | nil => exact iff_of_true ⟨[], s, .nil s⟩ (List.forall_mem_nil _)
  | cons input inputs ih =>
    obtain ⟨hinput, hinputs⟩ := List.forall_mem_cons.1 hauth
    have htraps {t : State Address Ledger} := traps_withdrawItem_iff (s := t) hinput htransfer
    rw [List.forall_mem_cons]
    constructor
    · intro hsettles
      obtain ⟨outcomes, s', hsettled⟩ := hsettles
      have hhead : ¬∃ r, (withdrawItem T env input).run s = .trap r := by
        intro htrap
        obtain ⟨r, hr⟩ := htrap
        cases hsettled with
        | success item _ => cases hr.symm.trans item
        | failure item _ => cases hr.symm.trans item
      rw [htraps, not_and] at hhead
      refine ⟨hhead, ?_⟩
      cases hsettled with
      | success _ rest => exact (ih hinputs).1 ⟨_, _, rest⟩
      | failure _ rest => exact (ih hinputs).1 ⟨_, _, rest⟩
    · intro hexternal
      obtain ⟨hhead, hrest⟩ := hexternal
      have hreturns : ∀ r, (withdrawItem T env input).run s ≠ .trap r := by
        intro r hr
        obtain ⟨hpos, hto⟩ := htraps.1 ⟨r, hr⟩
        exact hhead hpos hto
      rcases Call.returns_of_not_trap hreturns with ⟨⟨⟩, s₁, hok⟩ | ⟨e, s₁, herr⟩
      · obtain ⟨outcomes, s', hsettled⟩ := (ih (s := s₁) hinputs).2 hrest
        exact ⟨_, s', .success hok hsettled⟩
      · obtain rfl := state_of_run_withdrawDeveloperBalance_eq_err herr
        obtain ⟨outcomes, s', hsettled⟩ := (ih (s := s₁) hinputs).2 hrest
        exact ⟨_, s', .failure herr hsettled⟩

/-- A batch of authorized items returns, with every item paid that its guards let through, exactly
if no developer is listed twice and no item of positive amount names the contract itself as
recipient: the second authorization and that check trap where the others return an error. -/
theorem batchSettle_partial_success_iff {settlements : List (SettleInput Address)}
    (hsize : settlements.length ≤ 64)
    (hauth : ∀ input ∈ settlements, input.developer ∈ env.signers)
    (htransfer : ∀ ledger token recipient a, 0 < a → a ≤ T.balance ledger token contract →
      (T.transfer ledger token contract recipient a).isSome) :
    (∃ outcomes s', (batchSettle T env settlements).run s = .ok outcomes s' ∧
      ∀ i input usdc newBalance ledger, settlements[i]? = some input →
        Withdrawal T env (settledBefore T env s settlements i) input.developer input.amount
          (input.to.getD input.developer) usdc newBalance ledger →
        outcomes[i]? = some .success) ↔
    (settlements.map SettleInput.developer).Nodup ∧
      ∀ input ∈ settlements, 0 < input.amount.val → input.to ≠ some contract := by
  rw [← exists_run_settleAll_iff (s := s) hauth htransfer]
  constructor
  · intro h
    obtain ⟨outcomes, s', hrun, -⟩ := h
    obtain ⟨hlarge, -⟩ | ⟨-, hnodup, hsettled⟩ := run_batchSettle_eq_ok.1 hrun
    · exact absurd hsize hlarge.not_ge
    · exact ⟨hnodup, outcomes, s', hsettled⟩
  · intro h
    obtain ⟨hnodup, outcomes, s', hsettled⟩ := h
    have hreturns := run_batchSettle_eq_ok.2 (.inr ⟨hsize, hnodup, hsettled⟩)
    refine ⟨outcomes, s', hreturns, ?_⟩
    intro i input usdc newBalance ledger hi hvalid
    have hrun := (run_withdrawDeveloperBalance_eq_ok (u := ())).2
      ⟨usdc, newBalance, ledger, hvalid, rfl⟩
    rw [outcome_of_settled hsettled hi, withdrawItem, hrun]
    rfl

def twoDevelopers (balance : I128) : State ℕ (Balances ℕ) where
  admin := some 1
  vault := some 2
  globalPool := some ⟨0, 0⟩
  totalReceived := some 0
  usdc := some 3
  developerIndex := some [4, 5]
  developerBalance := (Store.empty.set (4, 3) balance).set (5, 3) balance
  ledger := fun _ _ => 200

def twoSigners : Env ℕ 0 := ⟨0, [4, 5], by decide, fun _ => true⟩

theorem batchSettle_partial_success_two :
    let T := (balanceToken ℕ).toTokenContract
    let s := twoDevelopers ⟨100, by decide⟩
    let items : List (SettleInput ℕ) := [⟨4, ⟨300, by decide⟩, none⟩, ⟨5, ⟨10, by decide⟩, some 6⟩]
    ∃ outcomes s', (batchSettle T twoSigners items).run s = .ok outcomes s' ∧
      ∀ i input usdc newBalance ledger, items[i]? = some input →
        Withdrawal T twoSigners (settledBefore T twoSigners s items i) input.developer
          input.amount (input.to.getD input.developer) usdc newBalance ledger →
        outcomes[i]? = some .success :=
  (batchSettle_partial_success_iff (by decide) (by decide) fun l t x a hpos hle =>
    ((balanceToken ℕ).transfer_isSome l t 0 x a).2 ⟨hpos.le, hle⟩).2 (by decide)

/-- Developer 4 names the contract as recipient, and developer 5, whose withdrawal alone goes
through, is not paid. -/
theorem batchSettle_traps_on_recipient :
    let s := twoDevelopers ⟨100, by decide⟩
    (batchSettle (balanceToken ℕ).toTokenContract twoSigners
      [⟨4, ⟨10, by decide⟩, some 0⟩, ⟨5, ⟨10, by decide⟩, none⟩]).run s =
        .trap (.message "invalid recipient: cannot withdraw to contract itself") ∧
    ∃ s', (batchSettle (balanceToken ℕ).toTokenContract twoSigners
      [⟨5, ⟨10, by decide⟩, none⟩]).run s = .ok [.success] s' :=
  ⟨rfl, _, rfl⟩

-- nor is anybody paid when developer 4 is listed twice
example : (batchSettle (balanceToken ℕ).toTokenContract twoSigners
    [⟨4, ⟨10, by decide⟩, none⟩, ⟨4, ⟨10, by decide⟩, none⟩, ⟨5, ⟨10, by decide⟩, none⟩]).run
      (twoDevelopers ⟨100, by decide⟩) = .trap .unauthorized := rfl

/-! Withdrawals with a cursor. -/

def listed (developers : List Address) (amounts : List I128) : List (SettleInput Address) :=
  (developers.zip amounts).map fun p => ⟨p.1, p.2, none⟩

structure WithdrawalPage (Address Ledger : Type) where
  cursor : ℕ
  pre : State Address Ledger
  next : ℕ
  post : State Address Ledger

/-- The calls from `cursor` on, each given the cursor that the one before it returned, up to the
first that reports completion. -/
inductive WithdrawalWalk (developers : List Address) (amounts : List I128) (limit : ℕ) :
    ℕ → State Address Ledger → List (WithdrawalPage Address Ledger) → State Address Ledger → Prop
  | last {cursor next : ℕ} {s s' : State Address Ledger}
      (page : (batchWithdrawBalanceCursor developers amounts cursor limit).run s =
        .ok (next, true) s') :
      WithdrawalWalk developers amounts limit cursor s [⟨cursor, s, next, s'⟩] s'
  | more {cursor next : ℕ} {s s₁ s' : State Address Ledger} {pages}
      (page : (batchWithdrawBalanceCursor developers amounts cursor limit).run s =
        .ok (next, false) s₁)
      (rest : WithdrawalWalk developers amounts limit next s₁ pages s') :
      WithdrawalWalk developers amounts limit cursor s (⟨cursor, s, next, s₁⟩ :: pages) s'

variable (T env) in
/-- The call pays the entries between its two cursors, at most `limit` and a batch of them. -/
def WithdrawalPage.Pays (developers : List Address) (amounts : List I128) (limit : ℕ)
    (page : WithdrawalPage Address Ledger) : Prop :=
  page.cursor ≤ page.next ∧ page.next ≤ developers.length ∧
    page.next - page.cursor ≤ min limit MAX_BATCH_SIZE ∧
    (forM (((listed developers amounts).take page.next).drop page.cursor)
      (withdrawItem T env)).run page.pre = .ok () page.post

variable (T env) in
def PaysByCursor (developers : List Address) (amounts : List I128) (limit : ℕ)
    (s s' : State Address Ledger) : Prop :=
  ∃ pages, WithdrawalWalk developers amounts limit 0 s pages s' ∧
    ∀ page ∈ pages, page.Pays T env developers amounts limit

omit [LinearOrder Address] in
theorem length_listed {developers : List Address} {amounts : List I128}
    (hlen : developers.length = amounts.length) :
    (listed developers amounts).length = developers.length := by
  rw [listed, List.length_map, List.length_zip, hlen, min_self]

omit [LinearOrder Address] in
theorem pages_of_withdrawalWalk {developers : List Address} {amounts : List I128}
    {limit cursor : ℕ} {pages : List (WithdrawalPage Address Ledger)}
    (h : WithdrawalWalk developers amounts limit cursor s pages s') :
    pages = [⟨cursor, s, 0, s⟩] ∧ s' = s := by
  cases h with
  | last page =>
    obtain ⟨-, hresult, rfl⟩ := run_batchWithdrawBalanceCursor_eq_ok.1 page
    obtain ⟨rfl, -⟩ := Prod.mk.inj hresult
    exact ⟨rfl, rfl⟩
  | more page rest =>
    obtain ⟨-, hresult, -⟩ := run_batchWithdrawBalanceCursor_eq_ok.1 page
    cases hresult

theorem length_events_of_withdrawals {items : List (SettleInput Address)}
    (h : (forM items (withdrawItem T env)).run s = .ok () s') :
    s'.events.length = s.events.length + items.length := by
  induction items generalizing s with
  | nil =>
    obtain rfl := Call.run_forM_nil_eq_ok.1 h
    rfl
  | cons item items ih =>
    obtain ⟨s₁, hitem, hitems⟩ := Call.run_forM_cons_eq_ok.1 h
    obtain ⟨usdc, newBalance, ledger, -, rfl⟩ := run_withdrawDeveloperBalance_eq_ok.1 hitem
    have hevents := ih hitems
    rw [hevents, State.withdrawn, List.length_append, List.length_singleton, List.length_cons,
      Nat.add_assoc, Nat.add_comm 1]

/-- When the listed withdrawals go through one by one, the walk with a cursor has the same effect
exactly if nothing is listed. -/
theorem paysByCursor_iff {developers : List Address} {amounts : List I128} (limit : ℕ)
    (hlen : developers.length = amounts.length)
    (hpaid : (forM (listed developers amounts) (withdrawItem T env)).run s = .ok () s') :
    PaysByCursor T env developers amounts limit s s' ↔ developers = [] := by
  constructor
  · intro hpays
    obtain ⟨pages, hwalk, -⟩ := hpays
    obtain ⟨-, rfl⟩ := pages_of_withdrawalWalk hwalk
    -- as many events were published as there are entries
    have hevents := length_events_of_withdrawals hpaid
    rw [length_listed hlen] at hevents
    exact List.length_eq_zero_iff.1 (Nat.left_eq_add.1 hevents)
  · rintro rfl
    obtain rfl := Call.run_forM_nil_eq_ok.1 hpaid
    refine ⟨[⟨0, s, 0, s⟩], .last (run_batchWithdrawBalanceCursor_eq_ok.2 ⟨hlen, rfl, rfl⟩), ?_⟩
    intro page hpage
    obtain rfl := List.mem_singleton.1 hpage
    exact ⟨le_rfl, le_rfl, Nat.zero_le _, hpaid⟩

theorem paysByCursor_two :
    let s := twoDevelopers ⟨100, by decide⟩
    ∃ s', (PaysByCursor (balanceToken ℕ).toTokenContract twoSigners [4, 5]
      [⟨40, by decide⟩, ⟨10, by decide⟩] 1 s s' ↔ [4, 5] = []) :=
  ⟨_, paysByCursor_iff 1 rfl rfl⟩

/-- Developer 4 withdraws 40 by itself; with the cursor it is told that it was paid. -/
theorem cursor_pays_nobody :
    let s := twoDevelopers ⟨100, by decide⟩
    ∃ s', (forM (listed [4] [⟨40, by decide⟩])
        (withdrawItem (balanceToken ℕ).toTokenContract twoSigners)).run s = .ok () s' ∧
      (s'.balanceOf 4 3).val = 60 ∧
      (batchWithdrawBalanceCursor [4] [⟨40, by decide⟩] 0 1).run s = .ok (0, true) s ∧
      ¬PaysByCursor (balanceToken ℕ).toTokenContract twoSigners [4] [⟨40, by decide⟩] 1 s s' := by
  intro s
  refine ⟨_, rfl, rfl, rfl, ?_⟩
  intro hpays
  obtain ⟨pages, hwalk, -⟩ := hpays
  obtain ⟨-, hsame⟩ := pages_of_withdrawalWalk hwalk
  cases congrArg (fun s => (s.balanceOf 4 3).val) hsame

end Callora.Settlement
