import Callora.Library.Custody
import Callora.Vault.Run

/-! Does the vault hold what it owes? Its tracked balance and its holdings of the USDC token are a
custody; every operation but one moves it as a custodian may, and `execute_sweep` takes what was
proposed long before. -/

namespace Callora.Vault
open Library

variable {Address Ledger : Type} [DecidableEq Address] {contract : Address}
  {T : ExactToken Address Ledger} {env : Env Address contract} {s s' : State Address Ledger}

structure State.Initialized (s : State Address Ledger) : Prop where
  owner : s.owner ≠ none
  usdcToken : s.usdcToken ≠ none
  balance : s.balance ≠ none

def State.onLedger (T : TokenContract Address Ledger) (contract : Address)
    (s : State Address Ledger) : ℤ :=
  (s.usdcToken.map fun usdc => T.balance s.ledger usdc contract).getD 0

def State.custody (T : TokenContract Address Ledger) (contract : Address)
    (s : State Address Ledger) : Custody ℤ := ⟨s.tracked.val, s.onLedger T contract⟩

/-- Initialized, and `0 ≤ Balance ≤ ledger`. -/
def State.Solvent (T : TokenContract Address Ledger) (contract : Address)
    (s : State Address Ledger) : Prop := s.Initialized ∧ (s.custody T contract).Solvent

instance (s : State Address Ledger) : Decidable s.Initialized :=
  decidable_of_iff (s.owner ≠ none ∧ s.usdcToken ≠ none ∧ s.balance ≠ none)
    ⟨fun h => ⟨h.1, h.2.1, h.2.2⟩, fun h => ⟨h.owner, h.usdcToken, h.balance⟩⟩

instance (T : TokenContract Address Ledger) (s : State Address Ledger) :
    Decidable (s.Solvent T contract) := inferInstanceAs (Decidable (_ ∧ _ ∧ _))

omit [DecidableEq Address] in
theorem State.custody_eq {T : TokenContract Address Ledger} {usdc : Address}
    (h : s.usdcToken = some usdc) :
    s.custody T contract = ⟨s.tracked.val, T.balance s.ledger usdc contract⟩ := by
  simp only [custody, onLedger, h, Option.map_some, Option.getD_some]

/-- The vault's holdings after it paid, its own address not being ruled out as a payee. -/
theorem onLedger_of_payment {usdc payee : Address} {a : ℤ} {ledger : Ledger}
    (h : T.transfer s.ledger usdc contract payee a = some ledger) :
    T.balance ledger usdc contract =
      T.balance s.ledger usdc contract - if contract = payee then 0 else a := by
  rw [T.balance_sender h]
  split_ifs <;> omega

theorem custody_of_deposit {caller usdc : Address} {amount newBal : I128} {ledger : Ledger}
    (h : Deposit T.toTokenContract env s caller amount newBal usdc ledger) :
    State.custody T.toTokenContract contract { s with balance := some newBal, ledger := ledger } =
      ⟨(s.custody T.toTokenContract contract).owed + amount.val,
        (s.custody T.toTokenContract contract).held + amount.val⟩ := by
  have hreceived := T.balance_receiver h.paid (env.ne_contract h.authorized).symm
  rw [State.custody_eq (s := { s with balance := some newBal, ledger := ledger }) h.configured,
    State.custody_eq h.configured, hreceived, Custody.mk.injEq]
  exact ⟨h.total, rfl⟩

theorem custody_of_charge {caller usdc settlement : Address} {amounts : List I128}
    {newBal : I128} {ledger : Ledger}
    (h : Charge T.toTokenContract env s caller amounts newBal usdc settlement ledger) :
    State.custody T.toTokenContract contract { s with balance := some newBal, ledger := ledger } =
      ⟨(s.custody T.toTokenContract contract).owed - charged amounts,
        (s.custody T.toTokenContract contract).held -
          if contract = settlement then 0 else charged amounts⟩ := by
  have hpaid := onLedger_of_payment h.paid
  rw [State.custody_eq (s := { s with balance := some newBal, ledger := ledger }) h.configured,
    State.custody_eq h.configured, hpaid, Custody.mk.injEq]
  exact ⟨h.debited, rfl⟩

theorem step_of_charge {caller usdc settlement : Address} {amounts : List I128}
    {newBal : I128} {ledger : Ledger}
    (h : Charge T.toTokenContract env s caller amounts newBal usdc settlement ledger) :
    Custody.Step (s.custody T.toTokenContract contract)
      (State.custody T.toTokenContract contract
        { s with balance := some newBal, ledger := ledger }) := by
  have hnonneg := charged_nonneg h.accepted.pos
  rw [custody_of_charge h]
  split_ifs
  · rw [Int.sub_zero]
    exact .release hnonneg h.covered
  · exact .debit hnonneg h.covered

/-- Outside `execute_sweep` a call on an initialized vault is a custodian's move. -/
theorem custody_of_effect {op : Op Address} (hinit : s.Initialized)
    (hop : ∀ caller, op ≠ .executeSweep caller) (h : Effect T.toTokenContract env s op s') :
    s'.Initialized ∧ Custody.Step (s.custody T.toTokenContract contract)
      (s'.custody T.toTokenContract contract) := by
  cases h with
  | init fresh => exact absurd fresh hinit.owner
  | deposit deposit =>
    refine ⟨⟨hinit.owner, hinit.usdcToken, Option.some_ne_none _⟩, ?_⟩
    rw [custody_of_deposit deposit]
    exact .credit deposit.positive.le
  | deduct charge =>
    exact ⟨⟨hinit.owner, hinit.usdcToken, Option.some_ne_none _⟩, step_of_charge charge⟩
  | batchDeduct charge =>
    exact ⟨⟨hinit.owner, hinit.usdcToken, Option.some_ne_none _⟩, step_of_charge charge⟩
  | @executeSweep caller => exact absurd rfl (hop caller)
  | _ => exact ⟨⟨hinit.owner, hinit.usdcToken, hinit.balance⟩, .stay⟩

theorem custody_of_thirdParty {token «from» «to» : Address} {amount : ℤ} {ledger : Ledger}
    (hinit : s.Initialized) (external : «from» ≠ contract)
    (h : T.transfer s.ledger token «from» «to» amount = some ledger) :
    State.Initialized { s with ledger := ledger } ∧
      Custody.Step (s.custody T.toTokenContract contract)
        (State.custody T.toTokenContract contract { s with ledger := ledger }) := by
  refine ⟨⟨hinit.owner, hinit.usdcToken, hinit.balance⟩, ?_⟩
  obtain ⟨usdc, husdc⟩ := Option.ne_none_iff_exists'.1 hinit.usdcToken
  have hle := T.le_balance_of_ne h external.symm usdc
  have hreceived : T.balance ledger usdc contract = T.balance s.ledger usdc contract +
      (T.balance ledger usdc contract - T.balance s.ledger usdc contract) := by omega
  rw [State.custody_eq (s := { s with ledger := ledger }) husdc, State.custody_eq husdc, hreceived]
  exact .receive (Int.sub_nonneg_of_le hle)

theorem custody_of_sweep {caller : Address} (hinit : s.Initialized)
    (h : Effect T.toTokenContract env s (.executeSweep caller) s') :
    ∃ proposal, s.pendingSweep = some proposal ∧ s'.Initialized ∧
      s'.custody T.toTokenContract contract = (s.custody T.toTokenContract contract).take
        (if contract = proposal.action.to then 0 else proposal.action.amount.val) := by
  cases h with
  | @executeSweep _ usdc proposal ledger admin pending due configured funded paid =>
    refine ⟨proposal, pending, ⟨hinit.owner, hinit.usdcToken, hinit.balance⟩, ?_⟩
    have hpaid := onLedger_of_payment paid
    rw [State.custody_eq configured, Custody.take, ← hpaid]
    exact State.custody_eq configured

/-- The pending sweep pays the vault itself, or no more than the vault now holds beyond what it
tracks. -/
def State.SweepIsIdle (T : TokenContract Address Ledger) (contract : Address)
    (s : State Address Ledger) : Prop :=
  ∀ proposal, s.pendingSweep = some proposal →
    contract = proposal.action.to ∨
      proposal.action.amount.val ≤ (s.custody T contract).surplus

def State.SweepsIdle (T : TokenContract Address Ledger) (s : State Address Ledger) :
    Input Address contract → Prop
  | .call _ (.executeSweep _) => s.SweepIsIdle T contract
  | _ => True

theorem idleBalance_eq_surplus (hs : s.Solvent T.toTokenContract contract)
    (hheld : s.onLedger T.toTokenContract contract ≤ I128.max.val) :
    ∃ preview, (dryRunSweepIdleBalance T.toTokenContract contract).run s = .ok preview s ∧
      preview.idleBalance.val = (s.custody T.toTokenContract contract).surplus := by
  obtain ⟨usdc, husdc⟩ := Option.ne_none_iff_exists'.1 hs.1.usdcToken
  have hcustody : s.custody T.toTokenContract contract =
      ⟨s.tracked.val, T.balance s.ledger usdc contract⟩ := State.custody_eq husdc
  have howed : 0 ≤ s.tracked.val := hs.2.1
  have hsurplus : (s.custody T.toTokenContract contract).surplus =
      T.balance s.ledger usdc contract - s.tracked.val := congrArg Custody.surplus hcustody
  have hnonneg := hs.2.surplus_nonneg
  rw [hsurplus] at hnonneg
  rw [show s.onLedger T.toTokenContract contract = T.balance s.ledger usdc contract from
    congrArg Custody.held hcustody] at hheld
  obtain ⟨idle, hidle⟩ : ∃ idle : I128,
      idle.val = T.balance s.ledger usdc contract - s.tracked.val :=
    MachineInt.exists_val_eq.2 ⟨by omega, (Int.sub_le_self _ howed).trans hheld⟩
  refine ⟨_, run_dryRunSweepIdleBalance_eq_ok.2 ⟨usdc, idle, husdc, ?_, rfl, rfl⟩, ?_⟩
  · rw [hidle, max_eq_left hnonneg]
  · rw [hsurplus]
    exact hidle

theorem solvent_of_step {input : Input Address contract} {r : Unit}
    (hs : s.Solvent T.toTokenContract contract)
    (h : (vault T.toTokenContract contract).step s input = some (r, s'))
    (hsweep : ∀ env caller, input ≠ .call env (.executeSweep caller)) :
    s'.Solvent T.toTokenContract contract := by
  obtain ⟨env, op, rfl, heff⟩ | ⟨token, «from», «to», amount, external, ledger, rfl, hpaid, rfl⟩ :=
    effect_of_step h
  · have hop (caller : Address) : op ≠ .executeSweep caller := by
      rintro rfl
      exact hsweep env caller rfl
    obtain ⟨hinit, hstep⟩ := custody_of_effect hs.1 hop heff
    exact ⟨hinit, hs.2.step hstep⟩
  · obtain ⟨hinit, hstep⟩ := custody_of_thirdParty hs.1 external hpaid
    exact ⟨hinit, hs.2.step hstep⟩

theorem solvent_sweep_iff {caller : Address} (hs : s.Solvent T.toTokenContract contract)
    (h : Effect T.toTokenContract env s (.executeSweep caller) s') :
    s'.Solvent T.toTokenContract contract ↔ s.SweepIsIdle T.toTokenContract contract := by
  obtain ⟨proposal, hpending, hinit, hcustody⟩ := custody_of_sweep hs.1 h
  have hidle : s.SweepIsIdle T.toTokenContract contract ↔ contract = proposal.action.to ∨
      proposal.action.amount.val ≤ (s.custody T.toTokenContract contract).surplus := by
    constructor
    · intro hi
      exact hi proposal hpending
    · intro hi p hp
      obtain rfl := Option.some.inj (hpending.symm.trans hp)
      exact hi
  have hsurplus := hs.2.surplus_nonneg
  rw [hidle, State.Solvent, and_iff_right hinit, hcustody, Custody.solvent_take_iff hs.2]
  split_ifs with hto
  · exact iff_of_true hsurplus (.inl hto)
  · rw [or_iff_right hto]

theorem solvent_step_iff {input : Input Address contract} {r : Unit}
    (hs : s.Solvent T.toTokenContract contract)
    (h : (vault T.toTokenContract contract).step s input = some (r, s')) :
    s'.Solvent T.toTokenContract contract ↔ s.SweepsIdle T.toTokenContract input := by
  by_cases hsweep : ∃ env caller, input = .call env (.executeSweep caller)
  · obtain ⟨env, caller, rfl⟩ := hsweep
    exact solvent_sweep_iff hs (effect_of_call (Call.commit_eq_some.1 h))
  · have hother (env : Env Address contract) (caller : Address) :
        input ≠ .call env (.executeSweep caller) := fun he => hsweep ⟨env, caller, he⟩
    have hidle : s.SweepsIdle T.toTokenContract input := by
      unfold State.SweepsIdle
      split
      · exact absurd rfl (hother _ _)
      · trivial
    exact iff_of_true (solvent_of_step hs h hother) hidle

/-- From a solvent state a committed step leads to a solvent state exactly if it sweeps no more
than the idle balance, and a run passes through solvent states only exactly if all its steps do. -/
theorem solvent_iff_sweepsIdle (T : ExactToken Address Ledger) (contract : Address)
    {s : State Address Ledger} (hs : s.Solvent T.toTokenContract contract) :
    (∀ input r s', (vault T.toTokenContract contract).step s input = some (r, s') →
      (s'.Solvent T.toTokenContract contract ↔ s.SweepsIdle T.toTokenContract input)) ∧
    ∀ inputs : List (Input Address contract),
      (∀ js ks, inputs = js ++ ks →
        ((vault T.toTokenContract contract).run s js).Solvent T.toTokenContract contract) ↔
      ∀ e ∈ (vault T.toTokenContract contract).log s inputs,
        e.pre.SweepsIdle T.toTokenContract e.input := by
  refine ⟨fun input r s' h => solvent_step_iff hs h, fun inputs => ?_⟩
  apply Machine.always_run_iff hs
  intro t input r t' ht hstep
  exact solvent_step_iff ht hstep

theorem solvent_iff_sweepsIdle_backed :
    (∀ input r s', (vault (balanceToken ℕ).toTokenContract 0).step backedVault input =
      some (r, s') → (s'.Solvent (balanceToken ℕ).toTokenContract 0 ↔
        backedVault.SweepsIdle (balanceToken ℕ).toTokenContract input)) ∧
    ∀ inputs : List (Input ℕ 0),
      (∀ js ks, inputs = js ++ ks →
        ((vault (balanceToken ℕ).toTokenContract 0).run backedVault js).Solvent
          (balanceToken ℕ).toTokenContract 0) ↔
      ∀ e ∈ (vault (balanceToken ℕ).toTokenContract 0).log backedVault inputs,
        e.pre.SweepsIdle (balanceToken ℕ).toTokenContract e.input :=
  solvent_iff_sweepsIdle (balanceToken ℕ) 0 (by decide)

/-- A sweep of 60 proposed and executed while the owner's deposit of 100 is all the vault holds. -/
theorem executeSweep_takes_tracked :
    let inputs : List (Input ℕ 0) :=
      [.call (.signedBy 1 0 (by decide)) (.init (ownedBy1 0)),
        .call (.signedBy 1 0 (by decide)) (.deposit 1 ⟨100, by decide⟩),
        .call (.signedBy 1 0 (by decide)) (.proposeSweep 1 5 ⟨60, by decide⟩),
        .call (.signedBy 1 172800 (by decide)) (.executeSweep 1)]
    let run := (vault (balanceToken ℕ).toTokenContract 0).run (.deployed (hundredOf 1))
    ((vault (balanceToken ℕ).toTokenContract 0).log (.deployed (hundredOf 1)) inputs).length = 4 ∧
    (run (inputs.take 3)).Solvent (balanceToken ℕ).toTokenContract 0 ∧
    (run inputs).tracked.val = 100 ∧
    (run inputs).onLedger (balanceToken ℕ).toTokenContract 0 = 40 ∧
    ¬(run inputs).Solvent (balanceToken ℕ).toTokenContract 0 := by
  decide

/-! Solvency from initialization. -/

def Input.MovesFunds : Input Address contract → Prop
  | .call _ (.deposit _ _) | .call _ (.deduct _ _ _) | .call _ (.batchDeduct _ _) => True
  | _ => False

theorem solvent_init_iff {args : InitArgs Address} (h : (init args).run s = .ok () s') :
    s'.Solvent T.toTokenContract contract ↔ 0 ≤ args.initialBalance.val ∧
      args.initialBalance.val ≤ T.balance s.ledger args.usdcToken contract := by
  obtain ⟨-, -, -, -, rfl⟩ := run_init_eq_ok.1 h
  apply and_iff_right
  exact ⟨Option.some_ne_none _, Option.some_ne_none _, Option.some_ne_none _⟩

/-- Deposits and charges keep the vault solvent, so its run from a successful `init` passes through
solvent states only exactly if `init` was given a nonnegative balance that the ledger backs. -/
theorem solvent_from_init_iff (T : ExactToken Address Ledger) (contract : Address)
    {args : InitArgs Address} {s₀ s₁ : State Address Ledger}
    (hinit : (init args).run s₀ = .ok () s₁) (inputs : List (Input Address contract))
    (hfunds : ∀ input ∈ inputs, input.MovesFunds) :
    (∀ js ks, inputs = js ++ ks →
      ((vault T.toTokenContract contract).run s₁ js).Solvent T.toTokenContract contract) ↔
    0 ≤ args.initialBalance.val ∧
      args.initialBalance.val ≤ T.balance s₀.ledger args.usdcToken contract := by
  rw [← solvent_init_iff hinit]
  constructor
  · intro hrun
    exact hrun [] inputs rfl
  · rintro hs js ks rfl
    apply Machine.invariant_of_forall (A := fun _ input => input.MovesFunds) hs
    · intro s input r s' hs hmoves hstep
      apply solvent_of_step hs hstep
      rintro env caller rfl
      exact hmoves
    · rintro ms input ns rfl
      exact hfunds input (by simp)

theorem solvent_from_init_backed :
    let inputs : List (Input ℕ 0) :=
      [.call (.signedBy 2 0 (by decide)) (.deduct 2 ⟨60, by decide⟩ 7),
        .call (.signedBy 2 0 (by decide))
          (.batchDeduct 2 [(⟨30, by decide⟩, 8), (⟨10, by decide⟩, 9)])]
    ∀ js ks, inputs = js ++ ks → ((vault (balanceToken ℕ).toTokenContract 0).run backedVault
      js).Solvent (balanceToken ℕ).toTokenContract 0 :=
  have hinit : (init (ownedBy1 ⟨100, by decide⟩)).run (.deployed (hundredOf 0)) =
      .ok () backedVault := rfl
  (solvent_from_init_iff (balanceToken ℕ) 0 hinit _ (by simp [Input.MovesFunds])).2 (by decide)

/-- A balance of 100 declared on an empty ledger, and a negative one. -/
theorem init_unbacked :
    (∃ s₁, (init (ownedBy1 ⟨100, by decide⟩)).run (.deployed fun _ _ => 0) = .ok () s₁ ∧
      ¬s₁.Solvent (balanceToken ℕ).toTokenContract 0) ∧
    ∃ s₁, (init (ownedBy1 ⟨-1, by decide⟩)).run (.deployed fun _ _ => 0) = .ok () s₁ ∧
      ¬s₁.Solvent (balanceToken ℕ).toTokenContract 0 :=
  ⟨⟨_, rfl, by decide⟩, _, rfl, by decide⟩

end Callora.Vault
