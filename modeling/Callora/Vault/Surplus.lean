import Callora.Vault.Solvency

/-! The vault's two balances over a run. The tracked one moves with deposits and charges alone; what
the vault holds beyond it is what it was given, with the charges it has paid to itself and without
what was swept. -/

namespace Callora.Vault
open Library

variable {Address Ledger : Type} [DecidableEq Address] {contract usdc : Address}
  {T : ExactToken Address Ledger} {env : Env Address contract} {s s' : State Address Ledger}
  {op : Op Address}

/-! What a committed step moves. -/

def Op.deposited : Op Address → ℤ
  | .deposit _ amount => amount.val
  | _ => 0

def Op.deducted (op : Op Address) : ℤ :=
  (op.charge.map fun c => charged (c.2.map Prod.fst)).getD 0

/-- What a charge pays to the vault itself, where that is the configured settlement. -/
def Op.kept (contract : Address) (s : State Address Ledger) (op : Op Address) : ℤ :=
  if s.settlement = some contract then op.deducted else 0

/-- What an executed sweep pays to others. -/
def Op.swept (contract : Address) (s : State Address Ledger) : Op Address → ℤ
  | .executeSweep _ => (s.pendingSweep.map fun proposal =>
      if contract = proposal.action.to then 0 else proposal.action.amount.val).getD 0
  | _ => 0

def ofCall (f : State Address Ledger → Op Address → ℤ) (e : LogEntry Address Ledger contract) : ℤ :=
  match e.input with
  | .call _ op => f e.pre op
  | .thirdParty _ _ _ _ _ => 0

def given (usdc : Address) (e : LogEntry Address Ledger contract) : ℤ :=
  match e.input with
  | .thirdParty token _ «to» amount _ => if usdc = token ∧ contract = «to» then amount else 0
  | .call _ _ => 0

def deposited (e : LogEntry Address Ledger contract) : ℤ := ofCall (fun _ op => op.deposited) e

def deducted (e : LogEntry Address Ledger contract) : ℤ := ofCall (fun _ op => op.deducted) e

def kept (e : LogEntry Address Ledger contract) : ℤ := ofCall (Op.kept contract) e

def swept (e : LogEntry Address Ledger contract) : ℤ := ofCall (Op.swept contract) e

structure State.Holds (usdc : Address) (s : State Address Ledger) : Prop where
  owner : s.owner ≠ none
  configured : s.usdcToken = some usdc

theorem holds_of_step {T : TokenContract Address Ledger} {input : Input Address contract} {r : Unit}
    (hs : s.Holds usdc) (h : (vault T contract).step s input = some (r, s')) : s'.Holds usdc := by
  obtain ⟨howner, husdc⟩ := hs
  obtain ⟨env, op, rfl, heff⟩ | ⟨token, «from», «to», amount, external, ledger, rfl, -, rfl⟩ :=
    effect_of_step h
  · cases heff with
    | init fresh => exact absurd fresh howner
    | _ => exact ⟨howner, husdc⟩
  · exact ⟨howner, husdc⟩

structure Moved (T : TokenContract Address Ledger) (contract usdc : Address)
    (s : State Address Ledger) (op : Op Address) (s' : State Address Ledger) : Prop where
  tracked : s'.tracked.val = s.tracked.val + op.deposited - op.deducted
  held : T.balance s'.ledger usdc contract = T.balance s.ledger usdc contract + op.deposited -
    op.deducted + op.kept contract s - op.swept contract s

theorem moved_of_charge {caller usdc' settlement : Address} {items : List (I128 × ℕ)}
    {newBal : I128} {ledger : Ledger} (hs : s.Holds usdc)
    (hop : op.charge = some (caller, items)) (hdeposited : op.deposited = 0)
    (hswept : op.swept contract s = 0)
    (h : Charge T.toTokenContract env s caller (items.map Prod.fst) newBal usdc' settlement
      ledger) :
    Moved T.toTokenContract contract usdc s op
      { s with balance := some newBal, ledger := ledger } := by
  obtain rfl := Option.some.inj (h.configured.symm.trans hs.configured)
  have hdeducted : op.deducted = charged (items.map Prod.fst) := by
    simp only [Op.deducted, hop, Option.map_some, Option.getD_some]
  have hkept : op.kept contract s =
      if contract = settlement then charged (items.map Prod.fst) else 0 := by
    simp only [Op.kept, hdeducted, h.payee, Option.some.injEq, eq_comm]
  have hpaid := onLedger_of_payment h.paid
  have hdebited : newBal.val = s.tracked.val - charged (items.map Prod.fst) := h.debited
  constructor
  · rw [hdeposited, hdeducted, Int.add_zero]
    exact hdebited
  · change T.balance ledger usdc' contract = _
    rw [hpaid, hdeposited, hdeducted, hkept, hswept]
    split_ifs <;> omega

theorem moved_of_effect (hs : s.Holds usdc) (h : Effect T.toTokenContract env s op s') :
    Moved T.toTokenContract contract usdc s op s' := by
  have hstay {t : State Address Ledger} (htracked : t.tracked = s.tracked)
      (hledger : t.ledger = s.ledger) (hdeposited : op.deposited = 0) (hdeducted : op.deducted = 0)
      (hswept : op.swept contract s = 0) : Moved T.toTokenContract contract usdc s op t := by
    have hkept : op.kept contract s = 0 := by
      rw [Op.kept, hdeducted, ite_self]
    constructor
    · rw [htracked, hdeposited, hdeducted]
      omega
    · rw [hledger, hdeposited, hdeducted, hkept, hswept]
      omega
  cases h with
  | init fresh => exact absurd fresh hs.owner
  | @deposit caller usdc' amount newBal ledger deposit =>
    obtain rfl := Option.some.inj (deposit.configured.symm.trans hs.configured)
    have hreceived := T.balance_receiver deposit.paid (env.ne_contract deposit.authorized).symm
    have hkept : Op.kept contract s (.deposit caller amount) = 0 := ite_self _
    constructor
    · change newBal.val = s.tracked.val + amount.val - 0
      rw [deposit.total, Int.sub_zero]
    · change T.balance ledger usdc' contract =
        T.balance s.ledger usdc' contract + amount.val - 0 + Op.kept contract s _ - 0
      rw [hreceived, hkept]
      omega
  | @deduct caller usdc' settlement amount newBal requestId ledger charge =>
    have hop : (Op.deduct caller amount requestId).charge =
        some (caller, [(amount, requestId)]) := rfl
    exact moved_of_charge hs hop rfl rfl charge
  | batchDeduct charge => exact moved_of_charge hs rfl rfl rfl charge
  | @executeSweep caller usdc' proposal ledger admin pending due configured funded paid =>
    obtain rfl := Option.some.inj (configured.symm.trans hs.configured)
    have hkept : Op.kept contract s (.executeSweep caller) = 0 := ite_self _
    have hswept : Op.swept contract s (.executeSweep caller) =
        if contract = proposal.action.to then 0 else proposal.action.amount.val := by
      simp only [Op.swept, pending, Option.map_some, Option.getD_some]
    have hpaid := onLedger_of_payment paid
    constructor
    · change s.tracked.val = s.tracked.val + 0 - 0
      omega
    · change T.balance ledger usdc' contract =
        T.balance s.ledger usdc' contract + 0 - 0 + Op.kept contract s _ - Op.swept contract s _
      rw [hpaid, hkept, hswept]
      omega
  | _ => exact hstay rfl rfl rfl rfl rfl

theorem moved_of_step {input : Input Address contract} {r : Unit} (hs : s.Holds usdc)
    (h : (vault T.toTokenContract contract).step s input = some (r, s')) :
    let e : LogEntry Address Ledger contract := ⟨s, input, r, s'⟩
    s'.tracked.val = s.tracked.val + (deposited e - deducted e) ∧
      T.balance s'.ledger usdc contract = T.balance s.ledger usdc contract +
        (deposited e - deducted e + given usdc e + kept e - swept e) := by
  intro e
  obtain ⟨env, op, rfl, heff⟩ | ⟨token, «from», «to», amount, external, ledger, rfl, hpaid, rfl⟩ :=
    effect_of_step h
  · obtain ⟨htracked, hheld⟩ := moved_of_effect hs heff
    have hgiven : given usdc e = 0 := rfl
    change s'.tracked.val = s.tracked.val + (op.deposited - op.deducted) ∧
      T.balance s'.ledger usdc contract = T.balance s.ledger usdc contract +
        (op.deposited - op.deducted + given usdc e + op.kept contract s - op.swept contract s)
    rw [htracked, hheld, hgiven]
    constructor
    · omega
    · omega
  · have hmoved := T.balance_transfer hpaid usdc contract
    rw [if_neg fun hk => external hk.2.symm] at hmoved
    change s.tracked.val = s.tracked.val + (0 - 0) ∧ T.balance ledger usdc contract =
      T.balance s.ledger usdc contract +
        (0 - 0 + (if usdc = token ∧ contract = «to» then amount else 0) + 0 - 0)
    rw [hmoved]
    constructor
    · omega
    · omega

/-! Runs. -/

omit [DecidableEq Address] in
theorem sum_tracked (l : List (LogEntry Address Ledger contract)) :
    (l.map fun e => deposited e - deducted e).sum =
      (l.map deposited).sum - (l.map deducted).sum := by
  induction l with
  | nil => rfl
  | cons e l ih =>
    simp only [List.map_cons, List.sum_cons, ih]
    omega

theorem sum_held (usdc : Address) (l : List (LogEntry Address Ledger contract)) :
    (l.map fun e => deposited e - deducted e + given usdc e + kept e - swept e).sum =
      (l.map deposited).sum - (l.map deducted).sum + (l.map (given usdc)).sum +
        (l.map kept).sum - (l.map swept).sum := by
  induction l with
  | nil => rfl
  | cons e l ih =>
    simp only [List.map_cons, List.sum_cons, ih]
    omega

omit [DecidableEq Address] in
theorem holds_of_init {args : InitArgs Address} (h : (init args).run s = .ok () s') :
    s'.Holds args.usdcToken ∧ s'.ledger = s.ledger ∧ s'.tracked = args.initialBalance := by
  obtain ⟨-, -, -, -, rfl⟩ := run_init_eq_ok.1 h
  exact ⟨⟨Option.some_ne_none _, rfl⟩, rfl, rfl⟩

/-- After a successful `init` the tracked balance is the declared one, with what was deposited and
without what was charged. What the vault holds beyond it is what it held beyond it at first, with
what others gave it and what it charged to itself, less what was swept; so it still holds what it
tracks exactly as long as no more than that was swept. -/
theorem vault_accounted (T : ExactToken Address Ledger) {args : InitArgs Address}
    {s₀ s : State Address Ledger} (hinit : (init args).run s₀ = .ok () s)
    (inputs : List (Input Address contract)) :
    let m := vault T.toTokenContract contract
    let t := m.run s inputs
    let l := m.log s inputs
    let held := T.balance t.ledger args.usdcToken contract
    let idle := T.balance s₀.ledger args.usdcToken contract - args.initialBalance.val +
      (l.map (given args.usdcToken)).sum + (l.map kept).sum
    t.tracked.val = args.initialBalance.val + (l.map deposited).sum - (l.map deducted).sum ∧
      held - t.tracked.val = idle - (l.map swept).sum ∧
      (t.tracked.val ≤ held ↔ (l.map swept).sum ≤ idle) := by
  intro m t l held idle
  obtain ⟨hs, hledger, hinitial⟩ := holds_of_init hinit
  have htracked : t.tracked.val =
      s.tracked.val + (l.map fun e => deposited e - deducted e).sum :=
    Machine.run_eq_add_sum (m := m) (g := fun t => t.tracked.val) hs
      (fun _ _ _ _ ht hstep => holds_of_step ht hstep)
      (fun _ _ _ _ ht hstep => (moved_of_step ht hstep).1) inputs
  have hheld : held = T.balance s.ledger args.usdcToken contract + (l.map fun e =>
      deposited e - deducted e + given args.usdcToken e + kept e - swept e).sum :=
    Machine.run_eq_add_sum (m := m) (g := fun t => T.balance t.ledger args.usdcToken contract) hs
      (fun _ _ _ _ ht hstep => holds_of_step ht hstep)
      (fun _ _ _ _ ht hstep => (moved_of_step ht hstep).2) inputs
  rw [hinitial, sum_tracked] at htracked
  rw [hledger, sum_held] at hheld
  have hidle : held - t.tracked.val = idle - (l.map swept).sum := by
    rw [htracked, hheld]
    simp only [idle]
    omega
  refine ⟨?_, hidle, ?_⟩
  · rw [htracked]
    omega
  · omega

theorem vault_accounted_swept :
    let ledger : Balances ℕ := fun token _ => if token = 4 then 100 else 0
    let s₀ : State ℕ (Balances ℕ) := .deployed ledger
    let s := (init (ownedBy1 ⟨100, by decide⟩)).after s₀
    let inputs : List (Input ℕ 0) :=
      [.thirdParty 4 8 0 15 (by decide),
        .call (.signedBy 2 0 (by decide)) (.deduct 2 ⟨60, by decide⟩ 7),
        .call (.signedBy 1 0 (by decide)) (.proposeSweep 1 5 ⟨10, by decide⟩),
        .call (.signedBy 1 172800 (by decide)) (.executeSweep 1)]
    let t := (vault (balanceToken ℕ).toTokenContract 0).run s inputs
    t.tracked.val = 100 + 0 - 60 ∧ (balanceToken ℕ).balance t.ledger 4 0 - t.tracked.val = 5 := by
  intro ledger s₀ s inputs t
  let l := (vault (balanceToken ℕ).toTokenContract 0).log s inputs
  have hinit : (init (ownedBy1 ⟨100, by decide⟩)).run s₀ = .ok () s := rfl
  obtain ⟨htracked, hidle, -⟩ := vault_accounted (balanceToken ℕ) hinit inputs
  have hdeposited : (l.map deposited).sum = 0 := by decide +kernel
  have hdeducted : (l.map deducted).sum = 60 := by decide +kernel
  have hgiven : (l.map (given 4)).sum = 15 := by decide +kernel
  have hkept : (l.map kept).sum = 0 := by decide +kernel
  have hswept : (l.map swept).sum = 10 := by decide +kernel
  have hstart : (balanceToken ℕ).balance s₀.ledger 4 0 = 100 := rfl
  constructor
  · rw [hdeposited, hdeducted] at htracked
    exact htracked
  · have htoken : (ownedBy1 ⟨100, by decide⟩).usdcToken = 4 := rfl
    rw [htoken, hstart, hgiven, hkept, hswept] at hidle
    exact hidle

end Callora.Vault
