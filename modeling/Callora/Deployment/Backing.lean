import Callora.Deployment.Conservation
import Callora.Settlement.Redemption

/-! What backs the developers' balances. The settlement contract pays out what its books owe, so the
gap between what it holds of a token and what it owes in it is opened by credits and closed by
tokens that come in, in any interleaving with the vault, the pool and everybody else. -/

namespace Callora

def Payment.into {Address : Type} [DecidableEq Address] (token who : Address)
    (p : Payment Address) : ℤ :=
  if token = p.token ∧ p.to = who ∧ p.from ≠ who then p.amount else 0

section
variable {Address : Type} [DecidableEq Address] {token who : Address}

theorem Payment.net_of_from_ne {p : Payment Address} (h : p.from ≠ who) :
    p.net token who = p.into token who := by
  unfold net into
  simp [h, h.symm, eq_comm]

theorem Payment.net_of_to_ne {usdc «to» : Address} {amount : ℤ} (h : «to» ≠ who) :
    (⟨usdc, who, «to», amount⟩ : Payment Address).net token who =
      -if usdc = token then amount else 0 := by
  unfold net
  simp [h.symm, eq_comm]

theorem Payment.into_of_to_ne {p : Payment Address} (h : p.to ≠ who) : p.into token who = 0 :=
  if_neg fun hp => h hp.2.1

end

namespace Settlement
open Library
variable {Address Ledger : Type} [LinearOrder Address] {contract : Address}
  {T : TokenContract Address Ledger} {env : Env Address contract} {s s' : State Address Ledger}
  {op : Op Address} {r : Ret}

theorem net_withdrawalMoves {developer usdc : Address} {amount newBalance : I128}
    {«to» : Option Address} {ledger : Ledger} (token : Address)
    (h : Withdrawal T env s developer amount («to».getD developer) usdc newBalance ledger) :
    let ps := s.withdrawalMoves contract developer amount «to»
    (ps.map (Payment.net token contract)).sum =
        -Journal.net (InToken token) [⟨.developer developer usdc, amount.val⟩] ∧
      (ps.map (Payment.into token contract)).sum = 0 := by
  intro ps
  have hps : ps = [⟨usdc, contract, «to».getD developer, amount.val⟩] := by
    simp only [ps, State.withdrawalMoves, h.configured, Option.toList_some, List.map_cons,
      List.map_nil]
  rw [hps, List.map_singleton, List.map_singleton, List.sum_singleton, List.sum_singleton]
  refine ⟨?_, Payment.into_of_to_ne h.recipient_ne⟩
  rw [Payment.net_of_to_ne h.recipient_ne, Journal.net_cons, Journal.net_nil, Int.add_zero]
  by_cases htoken : usdc = token
  · rw [if_pos htoken]
    exact congrArg Neg.neg (if_pos htoken).symm
  · rw [if_neg htoken]
    exact congrArg Neg.neg (if_neg htoken).symm

theorem net_settledMoves {settlements : List (SettleInput Address)}
    {outcomes : List SettleOutcome} (token : Address)
    (h : Settled T env s settlements outcomes s') :
    let ps := s.settledMoves contract settlements outcomes
    (ps.map (Payment.net token contract)).sum =
        -Journal.net (InToken token) (settledPostings s.usdc settlements outcomes) ∧
      (ps.map (Payment.into token contract)).sum = 0 := by
  induction h with
  | nil => exact ⟨rfl, rfl⟩
  | @success s s₁ s' input inputs outcomes item _ ih =>
    obtain ⟨usdc, newBalance, ledger, hw, rfl⟩ := run_withdrawDeveloperBalance_eq_ok.1 item
    obtain ⟨hnet, hinto⟩ := net_withdrawalMoves token hw
    have hmoves : s.settledMoves contract (input :: inputs) (.success :: outcomes) =
        s.withdrawalMoves contract input.developer input.amount input.to ++
          s.settledMoves contract inputs outcomes := by
      simp only [State.settledMoves, List.zip_cons_cons, List.flatMap_cons, if_true]
    have hrest : (s.withdrawn env.timestamp input.developer (input.to.getD input.developer) usdc
        input.amount newBalance ledger).settledMoves contract inputs outcomes =
          s.settledMoves contract inputs outcomes := rfl
    rw [hrest] at ih
    intro ps
    simp only [ps, hmoves, List.map_append, List.sum_append, hnet, hinto, ih.1, ih.2]
    refine ⟨?_, Int.add_zero 0⟩
    rw [hw.configured, settledPostings_success, Journal.net_cons, Journal.net_cons,
      Journal.net_nil, State.withdrawn, hw.configured]
    ring
  | @failure s s' input inputs outcomes e _ _ ih =>
    have hmoves : s.settledMoves contract (input :: inputs) (.ofError e :: outcomes) =
        s.settledMoves contract inputs outcomes := by
      simp only [State.settledMoves, List.zip_cons_cons, List.flatMap_cons,
        SettleOutcome.ofError_ne_success, if_false, List.nil_append]
    rw [hmoves, settledPostings_failure]
    exact ih

theorem net_moves (token : Address) (h : Effect T env s op r s') :
    let ps := op.moves contract s r
    let e : LogEntry Address Ledger contract := ⟨s, .call env op, r, s'⟩
    (ps.map (Payment.net token contract)).sum = -Journal.net (InToken token) (withdrawals e) ∧
      (ps.map (Payment.into token contract)).sum = 0 := by
  cases h with
  | @withdraw developer usdc amount newBalance «to» ledger withdrawal =>
    obtain ⟨hnet, hinto⟩ := net_withdrawalMoves token withdrawal
    refine ⟨hnet.trans ?_, hinto⟩
    simp only [withdrawals, withdrawal.configured, Option.toList_some, List.map_cons, List.map_nil]
  | settle size once settled => exact net_settledMoves token settled
  | @settleTooLarge settlements size =>
    have hmoves : Op.moves contract s (.batchSettle settlements)
        (.outcomes (settlements.map fun _ => .otherError)) = [] :=
      settledMoves_otherError settlements
    intro ps
    simp only [ps, hmoves, withdrawals, settledPostings_otherError]
    exact ⟨rfl, rfl⟩
  | _ => exact ⟨rfl, rfl⟩

end Settlement

namespace Deployment
open Library
variable {Address Ledger : Type} [LinearOrder Address] {sites : Sites Address}

def settlementAt {T : TokenContract Address Ledger} (e : LogEntry T sites) :
    Option (Settlement.LogEntry Address Ledger (sites.site .settlement)) :=
  SharedEntry.at (some Contract.settlement) e

def settlementLog {T : TokenContract Address Ledger} (l : List (LogEntry T sites)) :
    List (Settlement.LogEntry Address Ledger (sites.site .settlement)) :=
  l.filterMap settlementAt

def withdrawnAt {T : TokenContract Address Ledger} (token : Address) (e : LogEntry T sites) : ℤ :=
  Settlement.withdrawn (settlementLog [e]) token

theorem withdrawnAt_of_some {T : TokenContract Address Ledger} {e : LogEntry T sites}
    {e' : Settlement.LogEntry Address Ledger (sites.site .settlement)} (token : Address)
    (h : settlementAt e = some e') : withdrawnAt token e =
      Journal.net (Settlement.InToken token) (Settlement.withdrawals e') := by
  simp only [withdrawnAt, settlementLog, List.filterMap_cons, List.filterMap_nil, h,
    Settlement.withdrawn, List.flatMap_cons, List.flatMap_nil, List.append_nil]

theorem withdrawnAt_of_none {T : TokenContract Address Ledger} {e : LogEntry T sites}
    (token : Address) (h : settlementAt e = none) : withdrawnAt token e = 0 := by
  simp only [withdrawnAt, settlementLog, List.filterMap_cons, List.filterMap_nil, h,
    Settlement.withdrawn, List.flatMap_nil, Journal.net_nil]

theorem withdrawn_settlementLog {T : TokenContract Address Ledger} (token : Address)
    (l : List (LogEntry T sites)) :
    Settlement.withdrawn (settlementLog l) token = (l.map (withdrawnAt token)).sum := by
  induction l with
  | nil => rfl
  | cons e l ih =>
    have hsplit : settlementLog (e :: l) = settlementLog [e] ++ settlementLog l := by
      unfold settlementLog
      rw [← List.filterMap_append, List.singleton_append]
    rw [List.map_cons, List.sum_cons, ← ih, hsplit, withdrawnAt]
    unfold Settlement.withdrawn
    rw [List.flatMap_append, Journal.net_append]

def receivedAt {T : TokenContract Address Ledger} (token : Address) (e : LogEntry T sites) : ℤ :=
  ((moves T sites e).map (Payment.into token (sites.site .settlement))).sum

variable {T : ExactToken Address Ledger}

theorem net_movesAt (token : Address) {s s' : (clients T.toTokenContract sites
      (some .settlement)).State} {i : (clients T.toTokenContract sites (some .settlement)).Input}
    {r : (clients T.toTokenContract sites (some .settlement)).Output}
    (hown : (clients T.toTokenContract sites (some .settlement)).own i = true)
    (h : (clients T.toTokenContract sites (some .settlement)).machine.step s i = some (r, s')) :
    let ps := movesAt T.toTokenContract sites (some .settlement) ⟨s, i, r, s'⟩
    let e : Settlement.LogEntry Address Ledger (sites.site .settlement) := ⟨s, i, r, s'⟩
    (ps.map (Payment.net token (sites.site .settlement))).sum =
        -Journal.net (Settlement.InToken token) (Settlement.withdrawals e) ∧
      (ps.map (Payment.into token (sites.site .settlement))).sum = 0 := by
  cases i with
  | call env op => exact Settlement.net_moves token (Settlement.effect_of_commit h)
  | ledgerMoves ledger => cases hown

theorem net_settlement (token : Address) {s s' : State T.toTokenContract sites}
    {i : (clients T.toTokenContract sites (some .settlement)).Turn}
    {o : Σ k, (clients T.toTokenContract sites k).Output}
    (h : (deployment T.toTokenContract sites).step s ⟨some .settlement, i⟩ = some (o, s')) :
    let e : LogEntry T.toTokenContract sites := ⟨s, ⟨some .settlement, i⟩, o, s'⟩
    ((moves T.toTokenContract sites e).map (Payment.net token (sites.site .settlement))).sum =
      -withdrawnAt token e ∧ receivedAt token e = 0 := by
  obtain ⟨r, t, hstep, rfl, rfl⟩ := step_share_eq_some.1 h
  intro e
  have hat : settlementAt e = some ⟨s.part (some .settlement), i.input, r, t⟩ := by
    simp only [e, settlementAt, SharedEntry.at_self, Shared.part_handOn_self]
    rfl
  rw [withdrawnAt_of_some token hat, receivedAt, moves_eq, Shared.part_handOn_self]
  exact net_movesAt token i.own hstep

theorem held_of_step (token : Address) {s s' : State T.toTokenContract sites}
    {i : Input T.toTokenContract sites} {o : Σ k, (clients T.toTokenContract sites k).Output}
    (h : (deployment T.toTokenContract sites).step s i = some (o, s')) :
    let e : LogEntry T.toTokenContract sites := ⟨s, i, o, s'⟩
    T.balance s'.resource token (sites.site .settlement) =
      T.balance s.resource token (sites.site .settlement) +
        (receivedAt token e - withdrawnAt token e) := by
  intro e
  obtain ⟨hpaid, hpayer⟩ := payAll_moves h
  have hheld := T.balance_of_payAll hpaid token (sites.site .settlement)
  have hnet : ((moves T.toTokenContract sites e).map
      (Payment.net token (sites.site .settlement))).sum = receivedAt token e -
        withdrawnAt token e := by
    obtain ⟨k, i⟩ := i
    by_cases hk : k = some .settlement
    · subst hk
      obtain ⟨hnet, hreceived⟩ := net_settlement token h
      rw [hnet, hreceived, Int.zero_sub]
    -- another party pays, so its payments only come in
    · have hwithdrawn : withdrawnAt token e = 0 :=
        withdrawnAt_of_none token (SharedEntry.at_of_ne hk i o)
      rw [hwithdrawn, Int.sub_zero, receivedAt]
      apply congrArg List.sum
      apply List.map_congr_left
      intro p hp
      exact Payment.net_of_from_ne ((hpayer p hp).ne hk)
  rw [hheld, hnet]

omit [LinearOrder Address] in
theorem net_ownEntries {contract : Address} (S : Settlement.Account Address → Prop)
    [DecidablePred S]
    {f : Settlement.LogEntry Address Ledger contract → Settlement.Postings Address}
    (own : Settlement.LogEntry Address Ledger contract → Bool)
    (hf : ∀ e, own e = false → f e = []) (l : List (Settlement.LogEntry Address Ledger contract)) :
    Journal.net S ((l.filter own).flatMap f) = Journal.net S (l.flatMap f) := by
  induction l with
  | nil => rfl
  | cons e l ih =>
    rw [List.filter_cons]
    split_ifs with he
    · rw [List.flatMap_cons, List.flatMap_cons, Journal.net_append, Journal.net_append, ih]
    · rw [List.flatMap_cons, hf e (Bool.eq_false_of_not_eq_true he), List.nil_append, ih]

/-- Seen from settlement: its books after a run of the deployment. -/
theorem settlement_books (ledger : Ledger) (inputs : List (Input T.toTokenContract sites))
    (token : Address) :
    let t := (deployment T.toTokenContract sites).run (deployed T.toTokenContract sites ledger)
      inputs
    let st : Settlement.State Address Ledger := t.part (some .settlement)
    let l := settlementLog ((deployment T.toTokenContract sites).log
      (deployed T.toTokenContract sites ledger) inputs)
    ∑ᶠ d, (st.balanceOf d token).val =
      Settlement.credited l token - Settlement.withdrawn l token := by
  intro t st l
  have habsorbs (k : Option Contract) (hk : k ≠ some .settlement) (w w' : Ledger)
      (h : (clients T.toTokenContract sites k).Takes w w') :
      (clients T.toTokenContract sites (some .settlement)).Absorbs w w' := absorbs_of_takes hk h
  obtain ⟨js, hrun, hlog⟩ :=
    exists_part_run habsorbs (deployed T.toTokenContract sites ledger) inputs
  let own : Settlement.LogEntry Address Ledger (sites.site .settlement) → Bool :=
    fun e => (settlementClient T.toTokenContract sites).own e.input
  let l' := (Settlement.settlement T.toTokenContract (sites.site .settlement)).log
    (.deployed ledger) js
  have hl : l'.filter own = l := hlog
  have hst : (Settlement.settlement T.toTokenContract (sites.site .settlement)).run
    (.deployed ledger) js = st := hrun
  let calls : List (Settlement.Input Address Ledger (sites.site .settlement)) := js
  obtain ⟨-, hsum⟩ := Settlement.owed_of_run T.toTokenContract ledger calls token
  rw [hst] at hsum
  rw [hsum, ← hl]
  have hcall (e : Settlement.LogEntry Address Ledger (sites.site .settlement))
      (he : own e = false) : ∃ ledger, e.input = .ledgerMoves ledger := by
    obtain ⟨pre, input, output, post⟩ := e
    cases input with
    | call env op => cases he
    | ledgerMoves ledger => exact ⟨ledger, rfl⟩
  have hcredited : Settlement.credited (l'.filter own) token = Settlement.credited l' token := by
    apply net_ownEntries
    intro e he
    obtain ⟨ledger, hinput⟩ := hcall e he
    simp only [Settlement.payments, Settlement.forceCredits, hinput, List.nil_append]
  have hwithdrawn : Settlement.withdrawn (l'.filter own) token =
      Settlement.withdrawn l' token := by
    apply net_ownEntries
    intro e he
    obtain ⟨ledger, hinput⟩ := hcall e he
    simp only [Settlement.withdrawals, hinput]
  rw [hcredited, hwithdrawn]

/-- In every interleaving from deployment on, what settlement holds of a token beyond what it owes
its developers in it is what it held at first and has received, less what it has credited. So it
can pay all of them exactly as long as it has credited no more than that. -/
theorem settlement_backing (T : ExactToken Address Ledger) (sites : Sites Address)
    (ledger : Ledger) (inputs : List (Input T.toTokenContract sites)) (token : Address) :
    let t := (deployment T.toTokenContract sites).run (deployed T.toTokenContract sites ledger)
      inputs
    let st : Settlement.State Address Ledger := t.part (some .settlement)
    let l := (deployment T.toTokenContract sites).log (deployed T.toTokenContract sites ledger)
      inputs
    let received := (l.map (receivedAt token)).sum
    let credited := Settlement.credited (settlementLog l) token
    let owed := ∑ᶠ d, (st.balanceOf d token).val
    T.balance t.resource token (sites.site .settlement) - owed =
        T.balance ledger token (sites.site .settlement) + received - credited ∧
      (owed ≤ T.balance t.resource token (sites.site .settlement) ↔
        credited ≤ T.balance ledger token (sites.site .settlement) + received) := by
  intro t st l received credited owed
  have hheld : T.balance t.resource token (sites.site .settlement) =
      T.balance ledger token (sites.site .settlement) +
        (l.map fun e => receivedAt token e - withdrawnAt token e).sum :=
    Machine.run_eq_add_sum (m := deployment T.toTokenContract sites) (I := fun _ => True)
      (g := fun s => T.balance s.resource token (sites.site .settlement)) trivial
      (fun _ _ _ _ _ _ => trivial) (fun _ _ _ _ _ hstep => held_of_step token hstep) inputs
  have howed : owed = credited - Settlement.withdrawn (settlementLog l) token :=
    settlement_books ledger inputs token
  have hsplit : (l.map fun e => receivedAt token e - withdrawnAt token e).sum =
      received - Settlement.withdrawn (settlementLog l) token := by
    rw [withdrawn_settlementLog]
    have hsub := Multiset.sum_map_sub (m := (l : Multiset (LogEntry T.toTokenContract sites)))
      (f := receivedAt token) (g := withdrawnAt token)
    simpa only [Multiset.map_coe, Multiset.sum_coe] using hsub
  rw [hsplit] at hheld
  constructor
  · rw [hheld, howed]
    omega
  · rw [hheld, howed]
    omega

def threeSites : Sites ℕ where
  site
    | .vault => 0
    | .settlement => 3
    | .pool => 5
  injective := by
    intro c c' h
    cases c <;> cases c' <;> first | rfl | cases h

def vaultCall (signer : ℕ) (hsigner : signer ∉ threeSites.all) (op : Vault.Op ℕ) :
    Input (balanceToken ℕ).toTokenContract threeSites :=
  ⟨some .vault, Vault.Input.call
    ⟨0, [signer], fun h => hsigner (List.mem_singleton.1 h ▸ threeSites.mem_all .vault),
      fun _ => true⟩ op, rfl, decide_eq_true (List.forall_mem_singleton.2 hsigner)⟩

def settlementCall (signer : ℕ) (hsigner : signer ∉ threeSites.all) (op : Settlement.Op ℕ) :
    Input (balanceToken ℕ).toTokenContract threeSites :=
  ⟨some .settlement, Settlement.Input.call
    ⟨0, [signer], fun h => hsigner (List.mem_singleton.1 h ▸ threeSites.mem_all .settlement),
      fun _ => true⟩ op, rfl, decide_eq_true (List.forall_mem_singleton.2 hsigner)⟩

/-- The vault pays a charge of 60 to settlement, whose admin credits it to developer 7, who then
withdraws 50: settlement holds the 10 that it owes. -/
example :
    let inputs : List (Input (balanceToken ℕ).toTokenContract threeSites) :=
      [vaultCall 1 (by decide) (.init (Vault.ownedBy1 ⟨100, by decide⟩)),
        settlementCall 10 (by decide) (.init 10 0),
        settlementCall 10 (by decide) (.setUsdcToken 10 4),
        vaultCall 2 (by decide) (.deduct 2 ⟨60, by decide⟩ 7),
        settlementCall 10 (by decide) (.receivePayment 10 ⟨60, by decide⟩ false (some 7) 4 1),
        settlementCall 7 (by decide) (.withdrawDeveloperBalance 7 ⟨50, by decide⟩ none)]
    let t := (deployment (balanceToken ℕ).toTokenContract threeSites).run
      (deployed _ threeSites (Vault.hundredOf 0)) inputs
    let st : Settlement.State ℕ (Balances ℕ) := t.part (some .settlement)
    t.resource 4 3 = 10 ∧ st.balanceOf 7 4 = ⟨10, by decide⟩ ∧ t.resource 4 0 = 40 ∧
      t.resource 4 7 = 50 := by
  decide

end Deployment
end Callora
