import Callora.Vault.Solvency

/-! Who may do what to an initialized vault. Every successful call is made in one of six capacities,
and each capacity comes with what it can write and what it can pay; in the hands of anybody else the
vault does not move. -/

namespace Callora.Vault
open Library

variable {Address Ledger : Type} [DecidableEq Address] {contract : Address}
  {env : Env Address contract} {s s' : State Address Ledger} {op : Op Address}

/-- The capacity in which a successful call is made, and what it may write. -/
inductive Acts (T : TokenContract Address Ledger) (env : Env Address contract)
    (s : State Address Ledger) : Op Address → State Address Ledger → Prop
  | charge {op : Op Address} {caller usdc settlement : Address} {items : List (I128 × ℕ)}
      {newBal : I128} {ledger : Ledger} (isCharge : op.charge = some (caller, items))
      (charge : Charge T env s caller (items.map Prod.fst) newBal usdc settlement ledger) :
      Acts T env s op { s with balance := some newBal, ledger := ledger }
  | deposit {caller usdc : Address} {amount newBal : I128} {ledger : Ledger}
      (deposit : Deposit T env s caller amount newBal usdc ledger) :
      Acts T env s (.deposit caller amount) { s with balance := some newBal, ledger := ledger }
  | owner {op : Op Address} {caller : Address} {authorizedCaller paused maxDeduct settlement
      reserveCap markers events} (owner : s.ByOwner env caller) :
      Acts T env s op { s with
        authorizedCaller := authorizedCaller
        paused := paused
        maxDeduct := maxDeduct
        settlement := settlement
        reserveCap := reserveCap
        processedRequest := markers
        events := events }
  | admin {op : Op Address} {caller : Address} {pendingAdmin window pausing upgrade sweep paused
      version wasm events} (admin : s.ByAdmin env caller)
      (pauses : paused = s.paused ∨ paused = some true) :
      Acts T env s op { s with
        pendingAdmin := pendingAdmin
        timelockWindow := window
        pendingPause := pausing
        pendingUpgrade := upgrade
        pendingSweep := sweep
        paused := paused
        contractVersion := version
        wasm := wasm
        events := events }
  | sweep {caller usdc : Address} {proposal : PendingSweep Address} {ledger : Ledger} {events}
      (admin : s.ByAdmin env caller) (pending : s.pendingSweep = some proposal)
      (configured : s.usdcToken = some usdc)
      (paid : T.transfer s.ledger usdc contract proposal.action.to proposal.action.amount.val =
        some ledger) :
      Acts T env s (.executeSweep caller)
        { s with ledger := ledger, pendingSweep := none, events := events }
  | accept {newAdmin : Address} (nominated : s.pendingAdmin = some newAdmin)
      (authorized : newAdmin ∈ env.signers) :
      Acts T env s .acceptAdmin { s with admin := some newAdmin, pendingAdmin := none }

theorem acts_of_effect {T : TokenContract Address Ledger} (hs : s.owner ≠ none)
    (h : Effect T env s op s') : Acts T env s op s' := by
  cases h with
  | init fresh => exact absurd fresh hs
  | deposit deposit => exact .deposit deposit
  | @deduct caller _ _ amount _ requestId _ charge =>
    have hop : (Op.deduct caller amount requestId).charge = some (caller, [(amount, requestId)]) :=
      rfl
    exact .charge hop charge
  | batchDeduct charge => exact .charge rfl charge
  | setAuthorizedCaller owner | pause owner | unpause owner | setMaxDeduct owner
  | setSettlement owner | setReserveCap owner | prune owner => exact .owner owner
  | acceptAdmin nominated authorized => exact .accept nominated authorized
  | executePause admin => exact .admin admin (.inr rfl)
  | executeSweep admin pending due configured funded paid =>
    exact .sweep admin pending configured paid
  | setAdmin admin | setTimelockWindow admin | proposePause admin | cancelPause admin
  | proposeUpgrade admin | executeUpgrade admin | cancelUpgrade admin | proposeSweep admin
  | cancelSweep admin => exact .admin admin (.inl rfl)

/-! What an entry of the log does, and who stands behind it. -/

def Deducts (T : TokenContract Address Ledger) (e : LogEntry Address Ledger contract) : Prop :=
  ∃ env op caller items usdc settlement, e.input = .call env op ∧
    op.charge = some (caller, items) ∧ caller ∈ env.signers ∧
    e.pre.authorizedCaller = some caller ∧ isPaused e.pre = false ∧
    e.pre.usdcToken = some usdc ∧ e.pre.settlement = some settlement ∧
    T.transfer e.pre.ledger usdc contract settlement (charged (items.map Prod.fst)) =
      some e.post.ledger

def Deposits (T : TokenContract Address Ledger) (e : LogEntry Address Ledger contract) : Prop :=
  ∃ env caller amount usdc, e.input = .call env (.deposit caller amount) ∧
    caller ∈ env.signers ∧
    (e.pre.owner = some caller ∨ (e.pre.depositor caller).getD false = true) ∧
    isPaused e.pre = false ∧ e.pre.usdcToken = some usdc ∧
    e.post.tracked.val = e.pre.tracked.val + amount.val ∧
    T.transfer e.pre.ledger usdc caller contract amount.val = some e.post.ledger

def Sweeps (T : TokenContract Address Ledger) (e : LogEntry Address Ledger contract) : Prop :=
  ∃ env caller usdc proposal, e.input = .call env (.executeSweep caller) ∧
    e.pre.ByAdmin env caller ∧ e.pre.pendingSweep = some proposal ∧
    e.pre.usdcToken = some usdc ∧
    T.transfer e.pre.ledger usdc contract proposal.action.to proposal.action.amount.val =
      some e.post.ledger

def OwnerActs (e : LogEntry Address Ledger contract) : Prop :=
  ∃ env op caller, e.input = .call env op ∧ e.pre.ByOwner env caller

def AdminActs (e : LogEntry Address Ledger contract) : Prop :=
  ∃ env op caller, e.input = .call env op ∧ e.pre.ByAdmin env caller

def SuccessorAccepts (e : LogEntry Address Ledger contract) : Prop :=
  ∃ env newAdmin, e.input = .call env .acceptAdmin ∧ e.pre.pendingAdmin = some newAdmin ∧
    newAdmin ∈ env.signers ∧ e.post.admin = some newAdmin

def OwnerSettingsDiffer (s s' : State Address Ledger) : Prop :=
  s'.authorizedCaller ≠ s.authorizedCaller ∨ s'.maxDeduct ≠ s.maxDeduct ∨
    s'.settlement ≠ s.settlement ∨ s'.reserveCap ≠ s.reserveCap ∨
    s'.processedRequest ≠ s.processedRequest ∨ (isPaused s = true ∧ isPaused s' = false)

def AdminSlotsDiffer (s s' : State Address Ledger) : Prop :=
  s'.pendingPause ≠ s.pendingPause ∨ s'.pendingUpgrade ≠ s.pendingUpgrade ∨
    s'.pendingSweep ≠ s.pendingSweep ∨ s'.timelockWindow ≠ s.timelockWindow ∨
    s'.contractVersion ≠ s.contractVersion ∨ s'.wasm ≠ s.wasm

/-- The roles are kept apart in the step. -/
structure Separated (T : TokenContract Address Ledger) (e : LogEntry Address Ledger contract) :
    Prop where
  debit : e.post.tracked.val < e.pre.tracked.val → Deducts T e
  credit : e.pre.tracked.val < e.post.tracked.val → Deposits T e
  outflow : ∀ token, T.balance e.post.ledger token contract <
    T.balance e.pre.ledger token contract → Deducts T e ∨ Sweeps T e
  ownerSettings : OwnerSettingsDiffer e.pre e.post → OwnerActs e
  pause : isPaused e.pre = false → isPaused e.post = true → OwnerActs e ∨ AdminActs e
  adminSlots : AdminSlotsDiffer e.pre e.post → AdminActs e
  admin : e.post.admin ≠ e.pre.admin → SuccessorAccepts e
  pendingAdmin : e.post.pendingAdmin ≠ e.pre.pendingAdmin → AdminActs e ∨ SuccessorAccepts e
  fixed : e.post.owner = e.pre.owner ∧ e.post.usdcToken = e.pre.usdcToken ∧
    e.post.minDeposit = e.pre.minDeposit ∧ e.post.revenuePool = e.pre.revenuePool ∧
    e.post.depositor = e.pre.depositor

variable {T : ExactToken Address Ledger} {e : LogEntry Address Ledger contract}

theorem separated_of_funds {balance : Option I128} {ledger : Ledger}
    (hpost : e.post = { e.pre with balance := balance, ledger := ledger })
    (hdebit : e.post.tracked.val < e.pre.tracked.val → Deducts T.toTokenContract e)
    (hcredit : e.pre.tracked.val < e.post.tracked.val → Deposits T.toTokenContract e)
    (hheld : ∀ token, T.balance ledger token contract < T.balance e.pre.ledger token contract →
      Deducts T.toTokenContract e) : Separated T.toTokenContract e := by
  obtain ⟨s, input, r, s'⟩ := e
  obtain rfl : s' = { s with balance := balance, ledger := ledger } := hpost
  refine ⟨hdebit, hcredit, fun token h => .inl (hheld token h), ?_, ?_, ?_, ?_, ?_,
    ⟨rfl, rfl, rfl, rfl, rfl⟩⟩
  · intro h
    simp [OwnerSettingsDiffer, isPaused] at h
  · intro hpre hpost
    exact absurd (hpre.symm.trans hpost) Bool.false_ne_true
  · intro h
    simp [AdminSlotsDiffer] at h
  · exact fun h => absurd rfl h
  · exact fun h => absurd rfl h

theorem separated_of_settings (htracked : e.post.tracked = e.pre.tracked)
    (hledger : e.post.ledger = e.pre.ledger)
    (hsettings : OwnerSettingsDiffer e.pre e.post → OwnerActs e)
    (hpause : isPaused e.pre = false → isPaused e.post = true → OwnerActs e ∨ AdminActs e)
    (hslots : AdminSlotsDiffer e.pre e.post → AdminActs e)
    (hadmin : e.post.admin ≠ e.pre.admin → SuccessorAccepts e)
    (hpending : e.post.pendingAdmin ≠ e.pre.pendingAdmin → AdminActs e ∨ SuccessorAccepts e)
    (hfixed : e.post.owner = e.pre.owner ∧ e.post.usdcToken = e.pre.usdcToken ∧
      e.post.minDeposit = e.pre.minDeposit ∧ e.post.revenuePool = e.pre.revenuePool ∧
      e.post.depositor = e.pre.depositor) : Separated T.toTokenContract e := by
  refine ⟨?_, ?_, ?_, hsettings, hpause, hslots, hadmin, hpending, hfixed⟩
  · intro h
    rw [htracked] at h
    exact absurd h (lt_irrefl _)
  · intro h
    rw [htracked] at h
    exact absurd h (lt_irrefl _)
  · intro token h
    rw [hledger] at h
    exact absurd h (lt_irrefl _)

theorem separated_of_acts {T : ExactToken Address Ledger} {r : Unit}
    (h : Acts T.toTokenContract env s op s') :
    Separated T.toTokenContract (⟨s, .call env op, r, s'⟩ : LogEntry Address Ledger contract) := by
  cases h with
  | @charge _ caller usdc settlement items newBal ledger isCharge charge =>
    have hdeducts : Deducts T.toTokenContract (⟨s, .call env op, r,
        { s with balance := some newBal, ledger := ledger }⟩ :
          LogEntry Address Ledger contract) :=
      ⟨env, op, caller, items, usdc, settlement, rfl, isCharge, charge.authorized,
        charge.permitted, charge.unpaused, charge.configured, charge.payee, charge.paid⟩
    have hnonneg := charged_nonneg charge.accepted.pos
    have hdebited : (State.tracked { s with balance := some newBal, ledger := ledger }).val =
      s.tracked.val - charged (items.map Prod.fst) := charge.debited
    refine separated_of_funds rfl (fun _ => hdeducts) ?_ (fun _ _ => hdeducts)
    intro h
    dsimp only at h
    omega
  | @deposit caller usdc amount newBal ledger deposit =>
    obtain ⟨owner, howner, heligible⟩ := deposit.eligible
    have hpos := deposit.positive
    have htotal : (State.tracked { s with balance := some newBal, ledger := ledger }).val =
      s.tracked.val + amount.val := deposit.total
    refine separated_of_funds rfl ?_ ?_ ?_
    · intro h
      dsimp only at h
      omega
    · intro _
      refine ⟨env, caller, amount, usdc, rfl, deposit.authorized, heligible.imp_left ?_,
        deposit.unpaused, deposit.configured, htotal, deposit.paid⟩
      rintro rfl
      exact howner
    · intro token h
      have hle := T.le_balance_of_ne deposit.paid (env.ne_contract deposit.authorized).symm token
      exact absurd h hle.not_gt
  | @owner _ caller _ _ _ _ _ _ _ owner =>
    have hacts {s'} : OwnerActs (⟨s, .call env op, r, s'⟩ : LogEntry Address Ledger contract) :=
      ⟨env, op, caller, rfl, owner⟩
    refine separated_of_settings rfl rfl (fun _ => hacts) (fun _ _ => .inl hacts) ?_ ?_ ?_
      ⟨rfl, rfl, rfl, rfl, rfl⟩
    · intro h
      simp [AdminSlotsDiffer] at h
    · exact fun h => absurd rfl h
    · exact fun h => absurd rfl h
  | @admin _ caller _ _ _ _ _ paused _ _ _ admin pauses =>
    have hacts {s'} : AdminActs (⟨s, .call env op, r, s'⟩ : LogEntry Address Ledger contract) :=
      ⟨env, op, caller, rfl, admin⟩
    refine separated_of_settings rfl rfl ?_ (fun _ _ => .inr hacts) (fun _ => hacts) ?_
      (fun _ => .inl hacts) ⟨rfl, rfl, rfl, rfl, rfl⟩
    · intro h
      rcases pauses with rfl | rfl
      · simp [OwnerSettingsDiffer, isPaused] at h
      · simp [OwnerSettingsDiffer, isPaused] at h
    · exact fun h => absurd rfl h
  | @sweep caller usdc proposal ledger events admin pending configured paid =>
    have hacts {s'} : AdminActs (⟨s, .call env (.executeSweep caller), r, s'⟩ :
        LogEntry Address Ledger contract) := ⟨env, _, caller, rfl, admin⟩
    refine ⟨fun h => absurd h (lt_irrefl _), fun h => absurd h (lt_irrefl _), ?_, ?_, ?_,
      fun _ => hacts, fun h => absurd rfl h, fun h => absurd rfl h, ⟨rfl, rfl, rfl, rfl, rfl⟩⟩
    · exact fun _ _ => .inr ⟨env, caller, usdc, proposal, rfl, admin, pending, configured, paid⟩
    · intro h
      simp [OwnerSettingsDiffer, isPaused] at h
    · intro hpre hpost
      exact absurd (hpre.symm.trans hpost) Bool.false_ne_true
  | @accept newAdmin nominated authorized =>
    have hacts : SuccessorAccepts (⟨s, .call env .acceptAdmin, r,
        { s with admin := some newAdmin, pendingAdmin := none }⟩ :
          LogEntry Address Ledger contract) := ⟨env, newAdmin, rfl, nominated, authorized, rfl⟩
    refine separated_of_settings rfl rfl ?_ ?_ ?_ (fun _ => hacts) (fun _ => .inr hacts)
      ⟨rfl, rfl, rfl, rfl, rfl⟩
    · intro h
      simp [OwnerSettingsDiffer, isPaused] at h
    · intro hpre hpost
      exact absurd (hpre.symm.trans hpost) Bool.false_ne_true
    · intro h
      simp [AdminSlotsDiffer] at h

theorem separated_of_step {input : Input Address contract} {r : Unit} (hs : s.owner ≠ none)
    (h : (vault T.toTokenContract contract).step s input = some (r, s')) :
    Separated T.toTokenContract ⟨s, input, r, s'⟩ := by
  obtain ⟨env, op, rfl, heff⟩ | ⟨token, «from», «to», amount, external, ledger, rfl, hpaid, rfl⟩ :=
    effect_of_step h
  · exact separated_of_acts (acts_of_effect hs heff)
  · refine separated_of_funds rfl ?_ ?_ ?_
    · exact fun h => absurd h (lt_irrefl _)
    · exact fun h => absurd h (lt_irrefl _)
    · exact fun t h => absurd h (T.le_balance_of_ne hpaid external.symm t).not_gt

/-! Runs without the parties. -/

def State.HoldsRole (s : State Address Ledger) (who : Address) : Prop :=
  s.owner = some who ∨ s.admin = some who ∨ s.pendingAdmin = some who ∨
    s.authorizedCaller = some who ∨ (s.depositor who).getD false = true

omit [DecidableEq Address] in
theorem holdsRole_of_acts {T : TokenContract Address Ledger} (h : Acts T env s op s') :
    ∃ who ∈ env.signers, s.HoldsRole who := by
  cases h with
  | charge isCharge charge =>
    exact ⟨_, charge.authorized, .inr (.inr (.inr (.inl charge.permitted)))⟩
  | deposit deposit =>
    refine ⟨_, deposit.authorized, ?_⟩
    obtain ⟨owner, howner, rfl | hallowed⟩ := deposit.eligible
    · exact .inl howner
    · exact .inr (.inr (.inr (.inr hallowed)))
  | owner owner => exact ⟨_, owner.1, .inl owner.2⟩
  | admin admin | sweep admin => exact ⟨_, admin.1, .inr (.inl admin.2)⟩
  | accept nominated authorized => exact ⟨_, authorized, .inr (.inr (.inl nominated))⟩

theorem run_of_outsiders (T : ExactToken Address Ledger) {s : State Address Ledger}
    (hs : s.owner ≠ none) (inputs : List (Input Address contract))
    (hout : ∀ js env op ks, inputs = js ++ .call env op :: ks → ∀ who ∈ env.signers,
      ¬((vault T.toTokenContract contract).run s js).HoldsRole who) :
    ∃ ledger, (vault T.toTokenContract contract).run s inputs = { s with ledger := ledger } ∧
      ∀ token, T.balance s.ledger token contract ≤ T.balance ledger token contract := by
  refine Machine.invariant_of_forall (m := vault T.toTokenContract contract)
    (P := fun t => ∃ ledger, t = { s with ledger := ledger } ∧
      ∀ token, T.balance s.ledger token contract ≤ T.balance ledger token contract)
    (A := fun t input => ∀ env op, input = .call env op → ∀ who ∈ env.signers, ¬t.HoldsRole who)
    ⟨s.ledger, rfl, fun token => le_rfl⟩ ?_ inputs ?_
  · intro t input r t' ht hout hstep
    obtain ⟨ledger, rfl, hheld⟩ := ht
    obtain ⟨env, op, rfl, heff⟩ | ⟨token, «from», «to», amount, external, ledger', rfl, hpaid,
      rfl⟩ := effect_of_step hstep
    · have howner : State.owner { s with ledger := ledger } ≠ none := hs
      obtain ⟨who, hsigned, hrole⟩ := holdsRole_of_acts (acts_of_effect howner heff)
      exact absurd hrole (hout env op rfl who hsigned)
    · refine ⟨ledger', rfl, fun t => ?_⟩
      exact (hheld t).trans (T.le_balance_of_ne hpaid external.symm t)
  · rintro js input ks hjs env op rfl
    exact hout js env op ks hjs

/-- In every step of an initialized vault the roles are kept apart; and while none of the parties
authorizes a call, no storage changes and no token leaves the vault. -/
theorem roles_separated (T : ExactToken Address Ledger) {s : State Address Ledger}
    (hs : s.owner ≠ none) (inputs : List (Input Address contract)) :
    (∀ e ∈ (vault T.toTokenContract contract).log s inputs, Separated T.toTokenContract e) ∧
    ∀ segment : List (Input Address contract),
      let t := (vault T.toTokenContract contract).run s inputs
      (∀ js env op ks, segment = js ++ .call env op :: ks → ∀ who ∈ env.signers,
        ¬((vault T.toTokenContract contract).run t js).HoldsRole who) →
      ∃ ledger, (vault T.toTokenContract contract).run t segment = { t with ledger := ledger } ∧
        ∀ token, T.balance t.ledger token contract ≤ T.balance ledger token contract := by
  have howner (js : List (Input Address contract)) :
      ((vault T.toTokenContract contract).run s js).owner ≠ none := by
    apply Machine.invariant (P := fun t : State Address Ledger => t.owner ≠ none) hs
    intro t input r t' ht hstep
    rw [owner_of_step ht hstep]
    exact ht
  constructor
  · intro e he
    obtain ⟨js, ks, -, hpre, hstep⟩ := Machine.mem_log.1 he
    exact separated_of_step (hpre ▸ howner js) hstep
  · intro segment t hout
    exact run_of_outsiders T (howner inputs) segment hout

theorem roles_separated_backed :
    let m := vault (balanceToken ℕ).toTokenContract 0
    let charge : Input ℕ 0 :=
      .call (.signedBy 2 0 (by decide)) (.deduct 2 ⟨60, by decide⟩ 7)
    let attempt : Input ℕ 0 :=
      .call (.signedBy 5 0 (by decide)) (.deduct 5 ⟨10, by decide⟩ 8)
    let t := m.run backedVault [charge]
    (∀ e ∈ m.log backedVault [charge], Separated (balanceToken ℕ).toTokenContract e) ∧
      ∃ ledger, m.run t [attempt] = { t with ledger := ledger } ∧
        ∀ token, t.ledger token 0 ≤ ledger token 0 := by
  intro m charge attempt t
  obtain ⟨hlog, hsegment⟩ :=
    roles_separated (balanceToken ℕ) (s := backedVault) (Option.some_ne_none 1) [charge]
  refine ⟨hlog, hsegment [attempt] ?_⟩
  intro js env op ks hjs who hwho
  rcases js with _ | ⟨i, js⟩
  · obtain ⟨rfl, -⟩ := Input.call.inj (List.cons.inj hjs).1
    obtain rfl := List.mem_singleton.1 hwho
    rintro (h | h | h | h | h) <;> cases h
  · exact absurd (List.cons.inj hjs).2 (by simp)

end Callora.Vault
