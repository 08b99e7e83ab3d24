import Callora.Deployment.Conservation
import Callora.Settlement.Authority

/-! On whose say the contracts pay. A payment out of the vault is a charge of its authorized caller
or a sweep that the admin has waited for; one out of settlement is a withdrawal that the developer
signs; one out of the pool is a distribution or a drain of its admin. -/

namespace Callora

namespace Vault
variable {Address Ledger : Type} {contract : Address}

inductive PaysOut (env : Env Address contract) (s : State Address Ledger) (op : Op Address) :
    Payment Address → Prop
  | charge {caller usdc settlement : Address} {items : List (I128 × ℕ)}
      (charge : op.charge = some (caller, items)) (authorized : caller ∈ env.signers)
      (permitted : s.authorizedCaller = some caller) (unpaused : isPaused s = false)
      (accepted : s.AcceptsAmounts (items.map Prod.fst))
      (covered : charged (items.map Prod.fst) ≤ s.tracked.val)
      (configured : s.usdcToken = some usdc) (payee : s.settlement = some settlement) :
      PaysOut env s op ⟨usdc, contract, settlement, charged (items.map Prod.fst)⟩
  | sweep {caller usdc : Address} {proposal : PendingSweep Address}
      (execute : op = .executeSweep caller) (admin : s.ByAdmin env caller)
      (pending : s.pendingSweep = some proposal) (due : proposal.executeAfter ≤ env.timestamp)
      (configured : s.usdcToken = some usdc) :
      PaysOut env s op ⟨usdc, contract, proposal.action.to, proposal.action.amount.val⟩

variable [DecidableEq Address] {T : TokenContract Address Ledger} {env : Env Address contract}
  {s s' : State Address Ledger} {op : Op Address} {p : Payment Address}

omit [DecidableEq Address] in
theorem paysOut_of_charge {caller usdc settlement : Address} {items : List (I128 × ℕ)}
    {newBal : I128} {ledger : Ledger} (hop : op.charge = some (caller, items))
    (h : Charge T env s caller (items.map Prod.fst) newBal usdc settlement ledger)
    (hp : p ∈ s.chargeMoves contract (items.map Prod.fst)) : PaysOut env s op p := by
  simp only [State.chargeMoves, h.configured, h.payee] at hp
  obtain rfl := List.mem_singleton.1 hp
  exact .charge hop h.authorized h.permitted h.unpaused h.accepted h.covered h.configured h.payee

theorem paysOut_of_moves (h : Effect T env s op s') (hp : p ∈ op.moves contract s)
    (hfrom : p.from = contract) : PaysOut env s op p := by
  cases h with
  | @deposit caller usdc amount newBal ledger deposit =>
    simp only [Op.moves, deposit.configured, Option.toList_some, List.map_cons, List.map_nil] at hp
    obtain rfl := List.mem_singleton.1 hp
    exact absurd hfrom (env.ne_contract deposit.authorized)
  | @deduct caller usdc settlement amount newBal requestId ledger charge =>
    have hop : (Op.deduct caller amount requestId).charge =
        some (caller, [(amount, requestId)]) := rfl
    exact paysOut_of_charge hop charge hp
  | batchDeduct charge => exact paysOut_of_charge rfl charge hp
  | @executeSweep caller usdc proposal ledger admin pending due configured funded paid =>
    simp only [Op.moves, configured, pending] at hp
    obtain rfl := List.mem_singleton.1 hp
    exact .sweep rfl admin pending due configured
  | _ => exact absurd hp List.not_mem_nil

end Vault

namespace Settlement
variable {Address Ledger : Type} {contract : Address}

def Op.asks : Op Address → List (SettleInput Address)
  | .withdrawDeveloperBalance developer amount «to» => [⟨developer, amount, «to»⟩]
  | .batchSettle settlements => settlements
  | _ => []

/-- The developer signs for what is paid, may claim it now, and has it. -/
structure Claims (env : Env Address contract) (s : State Address Ledger)
    (input : SettleInput Address) (usdc : Address) : Prop where
  authorized : input.developer ∈ env.signers
  positive : 0 < input.amount.val
  claimOpen : s.ClaimOpen env input.developer
  configured : s.usdc = some usdc
  covered : input.amount.val ≤ (s.balanceOf input.developer usdc).val

inductive PaysOut (env : Env Address contract) (s : State Address Ledger) (op : Op Address) :
    Payment Address → Prop
  | withdrawal {usdc : Address} {input : SettleInput Address} (asked : input ∈ op.asks)
      (claims : Claims env s input usdc) :
      PaysOut env s op ⟨usdc, contract, input.to.getD input.developer, input.amount.val⟩

variable [LinearOrder Address] {T : TokenContract Address Ledger} {env : Env Address contract}
  {s s' : State Address Ledger} {op : Op Address} {r : Ret} {p : Payment Address}

omit [LinearOrder Address] in
theorem claims_of_withdrawal {developer usdc : Address} {amount newBalance : I128}
    {«to» : Option Address} {ledger : Ledger}
    (h : Withdrawal T env s developer amount («to».getD developer) usdc newBalance ledger) :
    Claims env s ⟨developer, amount, «to»⟩ usdc :=
  ⟨h.authorized, h.positive, h.claimOpen, h.configured, h.covered⟩

omit [LinearOrder Address] in
theorem mem_withdrawalMoves {developer usdc : Address} {amount : I128} {«to» : Option Address}
    (h : s.usdc = some usdc) (hp : p ∈ s.withdrawalMoves contract developer amount «to») :
    p = ⟨usdc, contract, «to».getD developer, amount.val⟩ := by
  simp only [State.withdrawalMoves, h, Option.toList_some, List.map_cons, List.map_nil] at hp
  exact List.mem_singleton.1 hp

theorem claims_of_withdrawn {developer recipient usdc : Address} {amount newBalance : I128}
    {ledger : Ledger} (h : Withdrawal T env s developer amount recipient usdc newBalance ledger)
    {input : SettleInput Address} {usdc' : Address}
    (hclaims : Claims env (s.withdrawn env.timestamp developer recipient usdc amount newBalance
      ledger) input usdc') : Claims env s input usdc' := by
  refine ⟨hclaims.authorized, hclaims.positive, hclaims.claimOpen, hclaims.configured, ?_⟩
  have hbalance := balanceOf_withdrawn h input.developer usdc'
  have hpos := h.positive
  refine hclaims.covered.trans (hbalance.trans_le ?_)
  split_ifs <;> omega

theorem claims_of_settled {settlements : List (SettleInput Address)}
    {outcomes : List SettleOutcome} (h : Settled T env s settlements outcomes s')
    (hp : p ∈ s.settledMoves contract settlements outcomes) :
    ∃ input ∈ settlements, ∃ usdc, Claims env s input usdc ∧
      p = ⟨usdc, contract, input.to.getD input.developer, input.amount.val⟩ := by
  induction h with
  | nil => exact absurd hp List.not_mem_nil
  | @success s s₁ s' input inputs outcomes item _ ih =>
    obtain ⟨usdc, newBalance, ledger, hw, rfl⟩ := run_withdrawDeveloperBalance_eq_ok.1 item
    simp only [State.settledMoves, List.zip_cons_cons, List.flatMap_cons, if_true,
      List.mem_append] at hp
    rcases hp with hp | hp
    · exact ⟨input, List.mem_cons_self, usdc, claims_of_withdrawal hw,
        mem_withdrawalMoves hw.configured hp⟩
    · obtain ⟨input', hinput, usdc', hclaims, hpayment⟩ := ih hp
      exact ⟨input', List.mem_cons_of_mem _ hinput, usdc', claims_of_withdrawn hw hclaims,
        hpayment⟩
  | @failure s s' input inputs outcomes e _ _ ih =>
    simp only [State.settledMoves, List.zip_cons_cons, List.flatMap_cons,
      SettleOutcome.ofError_ne_success, if_false, List.nil_append] at hp
    obtain ⟨input', hinput, hclaims⟩ := ih hp
    exact ⟨input', List.mem_cons_of_mem _ hinput, hclaims⟩

theorem paysOut_of_moves (h : Effect T env s op r s') (hp : p ∈ op.moves contract s r) :
    PaysOut env s op p := by
  cases h with
  | @withdraw developer usdc amount newBalance «to» ledger withdrawal =>
    obtain rfl := mem_withdrawalMoves withdrawal.configured hp
    have hasked : (⟨developer, amount, «to»⟩ : SettleInput Address) ∈
        (Op.withdrawDeveloperBalance developer amount «to»).asks := List.mem_cons_self
    exact .withdrawal hasked (claims_of_withdrawal withdrawal)
  | settle size once settled =>
    obtain ⟨input, hinput, usdc, hclaims, rfl⟩ := claims_of_settled settled hp
    exact .withdrawal hinput hclaims
  | @settleTooLarge settlements size =>
    have hnone : Op.moves contract s (.batchSettle settlements)
        (.outcomes (settlements.map fun _ => .otherError)) = [] :=
      settledMoves_otherError settlements
    rw [hnone] at hp
    exact absurd hp List.not_mem_nil
  | _ => exact absurd hp List.not_mem_nil

end Settlement

namespace RevenuePool
variable {Address Ledger : Type} {contract : Address}

inductive PaysOut (env : Env Address contract) (s : State Address Ledger) (op : Op Address) :
    Payment Address → Prop
  | distribution {caller usdc : Address} {leg : Address × I128} (leg_mem : leg ∈ op.legs)
      (admin : s.ByAdmin env caller) (unpaused : isPaused s = false)
      (capped : 0 < leg.2.val ∧ leg.2.val ≤ (getMaxDistribute s).val)
      (external : leg.1 ≠ contract) (configured : s.usdcToken = some usdc) :
      PaysOut env s op ⟨usdc, contract, leg.1, leg.2.val⟩
  | drain {caller usdc : Address} {drain : PendingEmergencyDrain Address}
      (execute : op = .executeEmergencyDrain caller) (admin : s.ByAdmin env caller)
      (pending : s.emergencyDrain = some drain) (due : drain.executeAfter ≤ env.timestamp)
      (configured : s.usdcToken = some usdc) :
      PaysOut env s op ⟨usdc, contract, drain.to, drain.amount.val⟩

variable {T : TokenContract Address Ledger} {env : Env Address contract}
  {s s' : State Address Ledger} {op : Op Address} {p : Payment Address}

theorem paysOut_of_distribution {caller usdc : Address} {payments : List (Address × I128)}
    {ledger : Ledger} (hlegs : op.legs = payments)
    (h : Distribution T env s caller payments usdc ledger)
    (hp : p ∈ payments.map fun leg => (⟨usdc, contract, leg.1, leg.2.val⟩ : Payment Address)) :
    PaysOut env s op p := by
  obtain ⟨leg, hleg, rfl⟩ := List.mem_map.1 hp
  exact .distribution (hlegs ▸ hleg) h.admin h.unpaused (h.capped leg hleg) (h.external leg hleg)
    h.configured

theorem paysOut_of_moves (h : Effect T env s op s') (hp : p ∈ op.moves contract s)
    (hfrom : p.from = contract) : PaysOut env s op p := by
  cases h with
  | @depositYield treasury usdc amount newTotal source ledger deposit =>
    simp only [Op.moves, deposit.configured] at hp
    obtain rfl := List.mem_singleton.1 hp
    exact absurd hfrom (env.ne_contract deposit.admin.1)
  | @distribute caller «to» usdc amount ledger distribution =>
    simp only [Op.moves, distribution.configured] at hp
    exact paysOut_of_distribution rfl distribution hp
  | @batchDistribute caller usdc payments ledger batch distribution =>
    simp only [Op.moves, distribution.configured] at hp
    exact paysOut_of_distribution rfl distribution hp
  | @executeEmergencyDrain caller usdc drain ledger executed =>
    simp only [Op.moves, executed.configured, executed.pending, Option.toList_some, List.map_cons,
      List.map_nil] at hp
    obtain rfl := List.mem_singleton.1 hp
    exact .drain rfl executed.admin executed.pending executed.due executed.configured
  | _ =>
    cases husdc : s.usdcToken with
    | none => simp only [Op.moves, husdc, List.not_mem_nil] at hp
    | some usdc => simp only [Op.moves, husdc, Op.legs, List.map_nil, List.not_mem_nil] at hp

end RevenuePool

namespace Deployment
open Library
variable {Address Ledger : Type} [LinearOrder Address] {T : TokenContract Address Ledger}
  {sites : Sites Address}

def PaysOutAt : ∀ c : Contract, Entry (clients T sites (some c)).State
    (clients T sites (some c)).Input (clients T sites (some c)).Output → Payment Address → Prop
  | .vault, e, p => ∃ env op, e.input = Vault.Input.call env op ∧ Vault.PaysOut env e.pre op p
  | .settlement, e, p =>
    ∃ env op, e.input = Settlement.Input.call env op ∧ Settlement.PaysOut env e.pre op p
  | .pool, e, p =>
    ∃ env op, e.input = RevenuePool.Input.call env op ∧ RevenuePool.PaysOut env e.pre op p

/-- The step calls the contract that `p` comes from, and the call is entitled to pay it. -/
def Entitled (e : LogEntry T sites) (p : Payment Address) : Prop :=
  ∃ c e', SharedEntry.at (some c) e = some e' ∧ p.from = sites.site c ∧ PaysOutAt c e' p

theorem paysOutAt_of_step {c : Contract} {s s' : (clients T sites (some c)).State}
    {i : (clients T sites (some c)).Input} {o : (clients T sites (some c)).Output}
    (hown : (clients T sites (some c)).own i = true)
    (h : (clients T sites (some c)).machine.step s i = some (o, s')) {p : Payment Address}
    (hp : p ∈ movesAt T sites (some c) ⟨s, i, o, s'⟩) (hfrom : p.from = sites.site c) :
    PaysOutAt c ⟨s, i, o, s'⟩ p := by
  cases c with
  | vault =>
    cases i with
    | call env op =>
      have heff := Vault.effect_of_call (Call.commit_eq_some.1 h)
      exact ⟨env, op, rfl, Vault.paysOut_of_moves heff hp hfrom⟩
    | thirdParty token «from» «to» amount external => cases hown
  | settlement =>
    cases i with
    | call env op =>
      exact ⟨env, op, rfl, Settlement.paysOut_of_moves (Settlement.effect_of_commit h) hp⟩
    | ledgerMoves ledger => cases hown
  | pool =>
    cases i with
    | call env op =>
      have heff := RevenuePool.effect_of_call (Call.commit_eq_some.1 h)
      exact ⟨env, op, rfl, RevenuePool.paysOut_of_moves heff hp hfrom⟩
    | thirdParty token «from» «to» amount external => cases hown

theorem entitled_of_step {s s' : State T sites} {i : Input T sites}
    {o : Σ k, (clients T sites k).Output}
    (h : (deployment T sites).step s i = some (o, s')) {p : Payment Address}
    (hp : p ∈ moves T sites ⟨s, i, o, s'⟩) (hfrom : p.from ∈ sites.all) :
    Entitled (⟨s, i, o, s'⟩ : LogEntry T sites) p := by
  have hpayer := (payAll_moves h).2 p hp
  obtain ⟨c, hc, hsite⟩ := hpayer.resolve_left (not_not.2 hfrom)
  obtain ⟨k, i⟩ := i
  obtain rfl : k = some c := hc
  obtain ⟨o', t, hstep, rfl, rfl⟩ := step_share_eq_some.1 h
  rw [moves_eq, Shared.part_handOn_self] at hp
  refine ⟨c, _, SharedEntry.at_self (some c) i o', hsite, ?_⟩
  rw [Shared.part_handOn_self]
  exact paysOutAt_of_step i.own hstep hp hsite

theorem exists_leaving_of_held_lt {T : ExactToken Address Ledger}
    {s s' : State T.toTokenContract sites} {i : Input T.toTokenContract sites}
    {o : Σ k, (clients T.toTokenContract sites k).Output}
    (h : (deployment T.toTokenContract sites).step s i = some (o, s')) {token : Address}
    (hlt : T.heldBy s'.resource token sites.all < T.heldBy s.resource token sites.all) :
    ∃ p ∈ moves T.toTokenContract sites ⟨s, i, o, s'⟩, p.token = token ∧ p.from ∈ sites.all ∧
      p.to ∉ sites.all ∧ 0 < p.amount := by
  have hheld := T.heldBy_of_payAll (payAll_moves h).1 token sites.all
  have hneg : ((moves T.toTokenContract sites ⟨s, i, o, s'⟩).map
      (Payment.netOf token sites.all)).sum < 0 := by omega
  obtain ⟨p, hp, hnet⟩ : ∃ p ∈ moves T.toTokenContract sites ⟨s, i, o, s'⟩,
      p.netOf token sites.all < 0 := by
    by_contra hnone
    push Not at hnone
    apply hneg.not_ge
    exact List.sum_nonneg (List.forall_mem_map.2 hnone)
  have hamount := T.nonneg_of_payAll (payAll_moves h).1 p hp
  rw [netOf_all] at hnet
  have hentering : 0 ≤ entering sites token p := by
    unfold entering
    split_ifs <;> omega
  have hleaving : 0 < leaving sites token p := by omega
  unfold leaving at hleaving
  split_ifs at hleaving with hout
  · exact ⟨p, hp, hout.1.symm, hout.2.1, hout.2.2, hleaving⟩
  · exact absurd hleaving (lt_irrefl 0)

/-- In every interleaving a contract pays only what its call is entitled to, and a step that takes
from what the three contracts hold together makes such a payment to the outside. -/
theorem outflow_entitled (T : ExactToken Address Ledger) (sites : Sites Address)
    (s : State T.toTokenContract sites) (inputs : List (Input T.toTokenContract sites)) :
    let l := (deployment T.toTokenContract sites).log s inputs
    (∀ e ∈ l, ∀ p ∈ moves T.toTokenContract sites e, p.from ∈ sites.all → Entitled e p) ∧
      ∀ e ∈ l, ∀ token,
        T.heldBy e.post.resource token sites.all < T.heldBy e.pre.resource token sites.all →
        ∃ p ∈ moves T.toTokenContract sites e, p.token = token ∧ p.to ∉ sites.all ∧
          0 < p.amount ∧ Entitled e p := by
  intro l
  have hentitled : ∀ e ∈ l, ∀ p ∈ moves T.toTokenContract sites e, p.from ∈ sites.all →
      Entitled e p := by
    intro e he p hp hfrom
    obtain ⟨-, -, -, -, hstep⟩ := Machine.mem_log.1 he
    exact entitled_of_step hstep hp hfrom
  refine ⟨hentitled, ?_⟩
  intro e he token hlt
  obtain ⟨-, -, -, -, hstep⟩ := Machine.mem_log.1 he
  rcases exists_leaving_of_held_lt hstep hlt with ⟨p, hp, htoken, hfrom, hto, hamount⟩
  exact ⟨p, hp, htoken, hto, hamount, hentitled e he p hp hfrom⟩

end Deployment
end Callora
