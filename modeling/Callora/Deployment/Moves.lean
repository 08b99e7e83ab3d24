import Callora.Payments
import Callora.RevenuePool.Accounting
import Callora.Settlement.Accounting
import Callora.Vault.Run

/-! The payments of every call. A log entry of a contract names the tokens that its call has moved,
and applied to the ledger before the call they give the ledger after it. -/

namespace Callora

/-- Every payment comes from the contract or from somebody who has signed the call. -/
def Env.Pays {Address : Type} {contract : Address} (env : Env Address contract)
    (ps : List (Payment Address)) : Prop :=
  ∀ p ∈ ps, p.from = contract ∨ p.from ∈ env.signers

section
variable {Address : Type} {contract : Address} {env : Env Address contract}

theorem Env.pays_nil : env.Pays [] := List.forall_mem_nil _

theorem Env.pays_contract {token «to» : Address} {amount : ℤ} :
    env.Pays [⟨token, contract, «to», amount⟩] := List.forall_mem_singleton.2 (.inl rfl)

theorem Env.pays_signer {token who «to» : Address} {amount : ℤ} (h : who ∈ env.signers) :
    env.Pays [⟨token, who, «to», amount⟩] := List.forall_mem_singleton.2 (.inr h)

end

namespace Vault
variable {Address Ledger : Type} {contract : Address}

def State.chargeMoves (contract : Address) (s : State Address Ledger) (amounts : List I128) :
    List (Payment Address) :=
  match s.usdcToken, s.settlement with
  | some usdc, some settlement => [⟨usdc, contract, settlement, charged amounts⟩]
  | _, _ => []

def Op.moves (contract : Address) (s : State Address Ledger) : Op Address → List (Payment Address)
  | .deposit caller amount =>
    s.usdcToken.toList.map fun usdc => ⟨usdc, caller, contract, amount.val⟩
  | .deduct _ amount _ => s.chargeMoves contract [amount]
  | .batchDeduct _ items => s.chargeMoves contract (items.map Prod.fst)
  | .executeSweep _ =>
    match s.usdcToken, s.pendingSweep with
    | some usdc, some proposal => [⟨usdc, contract, proposal.action.to, proposal.action.amount.val⟩]
    | _, _ => []
  | _ => []

variable [DecidableEq Address] {T : TokenContract Address Ledger} {env : Env Address contract}
  {s s' : State Address Ledger} {op : Op Address}

omit [DecidableEq Address] in
theorem payAll_chargeMoves {caller usdc settlement : Address} {amounts : List I128} {newBal : I128}
    {ledger : Ledger} (h : Charge T env s caller amounts newBal usdc settlement ledger) :
    T.payAll s.ledger (s.chargeMoves contract amounts) = some ledger ∧
      env.Pays (s.chargeMoves contract amounts) := by
  have hmoves : s.chargeMoves contract amounts =
      [⟨usdc, contract, settlement, charged amounts⟩] := by
    simp only [State.chargeMoves, h.configured, h.payee]
  rw [hmoves]
  exact ⟨(TokenContract.payAll_singleton _).trans h.paid, Env.pays_contract⟩

theorem payAll_moves (h : Effect T env s op s') :
    T.payAll s.ledger (op.moves contract s) = some s'.ledger ∧
      env.Pays (op.moves contract s) := by
  cases h with
  | @deposit caller usdc amount newBal ledger deposit =>
    have hmoves : Op.moves contract s (.deposit caller amount) =
        [⟨usdc, caller, contract, amount.val⟩] := by
      simp only [Op.moves, deposit.configured, Option.toList_some, List.map_cons, List.map_nil]
    rw [hmoves]
    exact ⟨(TokenContract.payAll_singleton _).trans deposit.paid,
      Env.pays_signer deposit.authorized⟩
  | deduct charge => exact payAll_chargeMoves charge
  | batchDeduct charge => exact payAll_chargeMoves charge
  | @executeSweep caller usdc proposal ledger admin pending due configured funded paid =>
    have hmoves : Op.moves contract s (.executeSweep caller) =
        [⟨usdc, contract, proposal.action.to, proposal.action.amount.val⟩] := by
      simp only [Op.moves, configured, pending]
    rw [hmoves]
    exact ⟨(TokenContract.payAll_singleton _).trans paid, Env.pays_contract⟩
  | _ => exact ⟨TokenContract.payAll_nil, Env.pays_nil⟩

end Vault

namespace Settlement
variable {Address Ledger : Type} {contract : Address}

def State.withdrawalMoves (contract : Address) (s : State Address Ledger) (developer : Address)
    (amount : I128) («to» : Option Address) : List (Payment Address) :=
  s.usdc.toList.map fun usdc => ⟨usdc, contract, «to».getD developer, amount.val⟩

def State.settledMoves (contract : Address) (s : State Address Ledger)
    (settlements : List (SettleInput Address)) (outcomes : List SettleOutcome) :
    List (Payment Address) :=
  (settlements.zip outcomes).flatMap fun p =>
    if p.2 = .success then s.withdrawalMoves contract p.1.developer p.1.amount p.1.to else []

def Op.moves (contract : Address) (s : State Address Ledger) (op : Op Address) (r : Ret) :
    List (Payment Address) :=
  match op, r with
  | .withdrawDeveloperBalance developer amount «to», _ =>
    s.withdrawalMoves contract developer amount «to»
  | .batchSettle settlements, .outcomes outcomes => s.settledMoves contract settlements outcomes
  | _, _ => []

variable [LinearOrder Address] {T : TokenContract Address Ledger} {env : Env Address contract}
  {s s' : State Address Ledger} {op : Op Address} {r : Ret}

omit [LinearOrder Address] in
theorem payAll_withdrawalMoves {developer usdc : Address} {amount newBalance : I128}
    {«to» : Option Address} {ledger : Ledger}
    (h : Withdrawal T env s developer amount («to».getD developer) usdc newBalance ledger) :
    T.payAll s.ledger (s.withdrawalMoves contract developer amount «to») = some ledger ∧
      env.Pays (s.withdrawalMoves contract developer amount «to») := by
  have hmoves : s.withdrawalMoves contract developer amount «to» =
      [⟨usdc, contract, «to».getD developer, amount.val⟩] := by
    simp only [State.withdrawalMoves, h.configured, Option.toList_some, List.map_cons,
      List.map_nil]
  rw [hmoves]
  exact ⟨(TokenContract.payAll_singleton _).trans h.paid, Env.pays_contract⟩

theorem payAll_settledMoves {settlements : List (SettleInput Address)}
    {outcomes : List SettleOutcome} (h : Settled T env s settlements outcomes s') :
    T.payAll s.ledger (s.settledMoves contract settlements outcomes) = some s'.ledger ∧
      env.Pays (s.settledMoves contract settlements outcomes) := by
  induction h with
  | nil => exact ⟨TokenContract.payAll_nil, Env.pays_nil⟩
  | @success s s₁ s' input inputs outcomes item _ ih =>
    obtain ⟨usdc, newBalance, ledger, hw, rfl⟩ := run_withdrawDeveloperBalance_eq_ok.1 item
    obtain ⟨hpaid, hsenders⟩ := payAll_withdrawalMoves hw
    have hmoves : s.settledMoves contract (input :: inputs) (.success :: outcomes) =
        s.withdrawalMoves contract input.developer input.amount input.to ++
          s.settledMoves contract inputs outcomes := by
      simp only [State.settledMoves, List.zip_cons_cons, List.flatMap_cons, if_true]
    rw [hmoves, TokenContract.payAll_append_of_eq_some hpaid]
    exact ⟨ih.1, List.forall_mem_append.2 ⟨hsenders, ih.2⟩⟩
  | @failure s s' input inputs outcomes e _ _ ih =>
    have hmoves : s.settledMoves contract (input :: inputs) (.ofError e :: outcomes) =
        s.settledMoves contract inputs outcomes := by
      simp only [State.settledMoves, List.zip_cons_cons, List.flatMap_cons,
        SettleOutcome.ofError_ne_success, if_false, List.nil_append]
    rw [hmoves]
    exact ih

omit [LinearOrder Address] in
theorem settledMoves_otherError (settlements : List (SettleInput Address)) :
    s.settledMoves contract settlements (settlements.map fun _ => .otherError) = [] := by
  apply List.flatMap_eq_nil_iff.2
  rintro ⟨input, outcome⟩ h
  obtain ⟨_, -, rfl⟩ := List.mem_map.1 (List.of_mem_zip h).2
  rfl

theorem payAll_moves (h : Effect T env s op r s') :
    T.payAll s.ledger (op.moves contract s r) = some s'.ledger ∧
      env.Pays (op.moves contract s r) := by
  cases h with
  | withdraw withdrawal => exact payAll_withdrawalMoves withdrawal
  | @settle settlements outcomes ledger balances today events size once settled =>
    exact payAll_settledMoves settled
  | @settleTooLarge settlements size =>
    change T.payAll s.ledger (s.settledMoves contract settlements _) = _ ∧
      env.Pays (s.settledMoves contract settlements _)
    rw [settledMoves_otherError]
    exact ⟨TokenContract.payAll_nil, Env.pays_nil⟩
  | _ => exact ⟨TokenContract.payAll_nil, Env.pays_nil⟩

end Settlement

namespace RevenuePool
variable {Address Ledger : Type} {contract : Address}

def Op.moves (contract : Address) (s : State Address Ledger) (op : Op Address) :
    List (Payment Address) :=
  match op, s.usdcToken with
  | .depositYield treasury amount _, some usdc => [⟨usdc, treasury, contract, amount.val⟩]
  | .executeEmergencyDrain _, some usdc =>
    s.emergencyDrain.toList.map fun drain => ⟨usdc, contract, drain.to, drain.amount.val⟩
  | _, some usdc => op.legs.map fun leg => ⟨usdc, contract, leg.1, leg.2.val⟩
  | _, none => []

variable [DecidableEq Address] {T : TokenContract Address Ledger} {env : Env Address contract}
  {s s' : State Address Ledger} {op : Op Address}

omit [DecidableEq Address] in
theorem payAll_legs (usdc : Address) (l : Ledger) (payments : List (Address × I128)) :
    T.payAll l (payments.map fun leg => ⟨usdc, contract, leg.1, leg.2.val⟩) =
      payAll T contract usdc l payments := by
  induction payments generalizing l with
  | nil => rfl
  | cons p payments ih =>
    unfold payAll
    simp only [List.map_cons, TokenContract.payAll, ih]

omit [DecidableEq Address] in
theorem payAll_distribution {caller usdc : Address} {payments : List (Address × I128)}
    {ledger : Ledger} (h : Distribution T env s caller payments usdc ledger) :
    T.payAll s.ledger (payments.map fun leg => ⟨usdc, contract, leg.1, leg.2.val⟩) = some ledger ∧
      env.Pays (payments.map fun leg => ⟨usdc, contract, leg.1, leg.2.val⟩) := by
  refine ⟨(payAll_legs usdc s.ledger payments).trans h.paid, ?_⟩
  intro p hp
  obtain ⟨leg, -, rfl⟩ := List.mem_map.1 hp
  exact .inl rfl

omit [DecidableEq Address] in
theorem payAll_moves (h : Effect T env s op s') :
    T.payAll s.ledger (op.moves contract s) = some s'.ledger ∧
      env.Pays (op.moves contract s) := by
  cases h with
  | @depositYield treasury usdc amount newTotal source ledger deposit =>
    have hmoves : Op.moves contract s (.depositYield treasury amount source) =
        [⟨usdc, treasury, contract, amount.val⟩] := by
      simp only [Op.moves, deposit.configured]
    rw [hmoves]
    exact ⟨(TokenContract.payAll_singleton _).trans deposit.paid,
      Env.pays_signer deposit.admin.1⟩
  | @distribute caller «to» usdc amount ledger distribution =>
    have hmoves : Op.moves contract s (.distribute caller «to» amount) =
        [(«to», amount)].map fun leg => ⟨usdc, contract, leg.1, leg.2.val⟩ := by
      simp only [Op.moves, distribution.configured, Op.legs]
    rw [hmoves]
    exact payAll_distribution distribution
  | @batchDistribute caller usdc payments ledger batch distribution =>
    have hmoves : Op.moves contract s (.batchDistribute caller payments) =
        payments.map fun leg => ⟨usdc, contract, leg.1, leg.2.val⟩ := by
      simp only [Op.moves, distribution.configured, Op.legs]
    rw [hmoves]
    exact payAll_distribution distribution
  | @executeEmergencyDrain caller usdc drain ledger executed =>
    have hmoves : Op.moves contract s (.executeEmergencyDrain caller) =
        [⟨usdc, contract, drain.to, drain.amount.val⟩] := by
      simp only [Op.moves, executed.configured, executed.pending, Option.toList_some,
        List.map_cons, List.map_nil]
    rw [hmoves]
    exact ⟨(TokenContract.payAll_singleton _).trans executed.paid, Env.pays_contract⟩
  | _ =>
    unfold Op.moves
    cases s.usdcToken <;> exact ⟨TokenContract.payAll_nil, Env.pays_nil⟩

end RevenuePool
end Callora
