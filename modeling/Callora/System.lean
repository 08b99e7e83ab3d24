import Callora.Settlement.Accounting
import Callora.Vault.Run

/-! The vault together with the settlement contract it pays. What lies outside the vault is the
settlement contract with the token ledger they share, so the state of the system is a vault state
over it. -/

namespace Callora.System
open Library Machine

abbrev State (Address Ledger : Type) : Type :=
  Vault.State Address (Settlement.State Address Ledger)

inductive Input (Address Ledger : Type) (vaultAddr settlementAddr : Address) where
  | vault (env : Env Address vaultAddr) (op : Vault.Op Address)
  | settlement (env : Env Address settlementAddr) (op : Settlement.Op Address)
  | ledgerMoves (ledger : Ledger)

variable {Address Ledger : Type} [LinearOrder Address] {vaultAddr settlementAddr : Address}
  {T : TokenContract Address Ledger} {s s' : State Address Ledger}

def underSettlement (T : TokenContract Address Ledger) :
    TokenContract Address (Settlement.State Address Ledger) where
  balance st token who := T.balance st.ledger token who
  transfer st token «from» «to» amount :=
    (T.transfer st.ledger token «from» «to» amount).map fun ledger => { st with ledger := ledger }

def system (T : TokenContract Address Ledger) (vaultAddr settlementAddr : Address) :
    Machine (State Address Ledger) (Input Address Ledger vaultAddr settlementAddr) Unit where
  step s
    | .vault env op => (Vault.call (underSettlement T) env op).commit s
    | .settlement env op => ((Settlement.call T env op).commit s.ledger).map fun r =>
      ((), { s with ledger := r.2 })
    | .ledgerMoves ledger => some ((), { s with ledger := { s.ledger with ledger := ledger } })

abbrev LogEntry (Address Ledger : Type) (vaultAddr settlementAddr : Address) : Type :=
  Entry (State Address Ledger) (Input Address Ledger vaultAddr settlementAddr) Unit

def deployed (ledger : Ledger) : State Address Ledger := .deployed (.deployed ledger)

/-! What the vault does to the settlement contract. -/

omit [LinearOrder Address] in
theorem frame_of_transfer {st st' : Settlement.State Address Ledger}
    {token «from» «to» : Address} {amount : ℤ}
    (h : (underSettlement T).transfer st token «from» «to» amount = some st') :
    ∃ ledger, st' = { st with ledger := ledger } := by
  obtain ⟨ledger, -, hst⟩ := Option.map_eq_some_iff.1 h
  exact ⟨ledger, hst.symm⟩

theorem settlement_of_effect {env : Env Address vaultAddr} {op : Vault.Op Address}
    (h : Vault.Effect (underSettlement T) env s op s') :
    ∃ ledger, s'.ledger = { s.ledger with ledger := ledger } := by
  cases h with
  | deposit deposit => exact frame_of_transfer deposit.paid
  | deduct charge => exact frame_of_transfer charge.paid
  | batchDeduct charge => exact frame_of_transfer charge.paid
  | executeSweep admin pending due configured funded paid => exact frame_of_transfer paid
  | _ => exact ⟨s.ledger.ledger, rfl⟩

theorem exists_settlement_run (T : TokenContract Address Ledger)
    (vaultAddr settlementAddr : Address) (ledger : Ledger)
    (inputs : List (Input Address Ledger vaultAddr settlementAddr)) :
    ∃ inputs', (Settlement.settlement T settlementAddr).run (.deployed ledger) inputs' =
      ((system T vaultAddr settlementAddr).run (deployed ledger) inputs).ledger := by
  refine exists_run_eq (m := system T vaultAddr settlementAddr) (f := Vault.State.ledger) ?_
    (deployed ledger) inputs
  intro s input r s' hstep
  cases input with
  | vault env op =>
    have heff := Vault.effect_of_call (Call.commit_eq_some.1 hstep)
    obtain ⟨ledger, hledger⟩ := settlement_of_effect heff
    exact ⟨.ledgerMoves ledger, .unit, by rw [hledger]; rfl⟩
  | settlement env op =>
    obtain ⟨⟨ret, st⟩, hcall, hs⟩ := Option.map_eq_some_iff.1 hstep
    obtain rfl := (Prod.ext_iff.1 hs).2
    exact ⟨.call env op, ret, hcall⟩
  | ledgerMoves ledger =>
    obtain rfl := (Prod.ext_iff.1 (Option.some.inj hstep)).2
    exact ⟨.ledgerMoves ledger, .unit, rfl⟩

/-! Value conservation across the two contracts. -/

noncomputable def accounted (st : Settlement.State Address Ledger) : ℤ :=
  Settlement.poolTotal st + ∑ᶠ k : Address × Address, (st.balanceOf k.1 k.2).val

/-- The settlement contract is initialized, it has the vault registered, and the vault pays it. -/
def Linked (vaultAddr settlementAddr : Address) (s : State Address Ledger) : Prop :=
  s.settlement = some settlementAddr ∧ s.ledger.admin ≠ none ∧ s.ledger.vault = some vaultAddr

instance (vaultAddr settlementAddr : Address) (s : State Address Ledger) :
    Decidable (Linked vaultAddr settlementAddr s) := inferInstanceAs (Decidable (_ ∧ _ ∧ _))

def Input.charge : Input Address Ledger vaultAddr settlementAddr →
    Option (Address × List (I128 × ℕ))
  | .vault _ op => op.charge
  | _ => none

/-- The charges of a linked vault that a log records. -/
def charges (l : List (LogEntry Address Ledger vaultAddr settlementAddr)) :
    List (LogEntry Address Ledger vaultAddr settlementAddr) :=
  l.filter fun e => e.input.charge.isSome ∧ Linked vaultAddr settlementAddr e.pre

def deducted (e : LogEntry Address Ledger vaultAddr settlementAddr) : ℤ :=
  e.pre.tracked.val - e.post.tracked.val

noncomputable def credited (e : LogEntry Address Ledger vaultAddr settlementAddr) : ℤ :=
  accounted e.post.ledger - accounted e.pre.ledger

theorem credited_of_charge {env : Env Address vaultAddr} {op : Vault.Op Address}
    (h : (Vault.call (underSettlement T) env op).run s = .ok () s') :
    credited (⟨s, .vault env op, (), s'⟩ : LogEntry Address Ledger vaultAddr settlementAddr) =
      0 := by
  obtain ⟨ledger, hledger⟩ := settlement_of_effect (Vault.effect_of_call h)
  change accounted s'.ledger - accounted s.ledger = 0
  rw [hledger]
  exact Int.sub_self _

theorem deducted_of_charge {env : Env Address vaultAddr} {op : Vault.Op Address}
    {caller : Address} {items : List (I128 × ℕ)} (hop : op.charge = some (caller, items))
    (h : (Vault.call (underSettlement T) env op).run s = .ok () s') :
    deducted (⟨s, .vault env op, (), s'⟩ : LogEntry Address Ledger vaultAddr settlementAddr) =
      Vault.charged (items.map Prod.fst) := by
  obtain ⟨newBal, usdc, settlement, ledger, hcharge, rfl⟩ := (Vault.run_charge_eq_ok hop).1 h
  have hdebited := hcharge.debited
  change s.tracked.val - newBal.val = _
  omega

theorem mem_charges {l : List (LogEntry Address Ledger vaultAddr settlementAddr)}
    {e : LogEntry Address Ledger vaultAddr settlementAddr} :
    e ∈ charges l ↔ e ∈ l ∧ e.input.charge.isSome ∧ Linked vaultAddr settlementAddr e.pre := by
  simp only [charges, List.mem_filter, decide_eq_true_eq]

/-- The charges of a run are credited in settlement, each and in sum, exactly if the guards refuse
every charge of a linked vault but the empty batches: what is deducted is credited nowhere. -/
theorem charges_credited_iff (T : TokenContract Address Ledger)
    (vaultAddr settlementAddr : Address) (ledger : Ledger)
    (inputs : List (Input Address Ledger vaultAddr settlementAddr)) :
    let run := (system T vaultAddr settlementAddr).run (deployed ledger)
    let l := charges ((system T vaultAddr settlementAddr).log (deployed ledger) inputs)
    ((∀ e ∈ l, credited e = deducted e) ∧ (l.map credited).sum = (l.map deducted).sum) ↔
    ∀ js env op ks caller items, inputs = js ++ .vault env op :: ks →
      op.charge = some (caller, items) → items ≠ [] → Linked vaultAddr settlementAddr (run js) →
      ¬(run js).Charges (underSettlement T) env op := by
  intro run l
  constructor
  -- a charge that goes through deducts a positive amount and credits none
  · rintro ⟨heach, -⟩ js env op ks caller items rfl hop hitems hlinked hcharges
    obtain ⟨s', hrun⟩ := (Vault.charge_succeeds hop).2 hcharges
    have hmem : ⟨run js, .vault env op, (), s'⟩ ∈ l := by
      refine mem_charges.2 ⟨mem_log.2 ⟨js, ks, rfl, rfl, Call.commit_eq_some.2 hrun⟩, ?_, hlinked⟩
      exact Option.isSome_iff_exists.2 ⟨_, hop⟩
    have hpos := Vault.pos_of_charge hop hrun
    have hzero := heach _ hmem
    rw [credited_of_charge hrun, deducted_of_charge hop hrun] at hzero
    exact (Vault.charged_pos hpos (mt List.map_eq_nil_iff.1 hitems)).ne hzero
  -- what goes through under the condition is an empty batch
  · intro hrefused
    have heach : ∀ e ∈ l, credited e = deducted e := by
      rintro ⟨t, input, r, t'⟩ he
      obtain ⟨hlog, hcharge, hlinked⟩ := mem_charges.1 he
      obtain ⟨js, ks, hinputs, rfl, hstep⟩ := mem_log.1 hlog
      cases input with
      | vault env op =>
        obtain ⟨⟨caller, items⟩, hop⟩ := Option.isSome_iff_exists.1 hcharge
        have hrun := Call.commit_eq_some.1 hstep
        have hcharges := (Vault.charge_succeeds hop).1 ⟨t', hrun⟩
        have hempty : items = [] := by
          by_contra hne
          exact hrefused js env op ks caller items hinputs hop hne hlinked hcharges
        rw [credited_of_charge hrun, deducted_of_charge hop hrun, hempty]
        rfl
      | settlement env op => cases hcharge
      | ledgerMoves ledger => cases hcharge
    exact ⟨heach, by rw [List.map_congr_left heach]⟩

/-- A first charge of 60 by a linked vault: its balance falls, and settlement accounts for what it
did before. -/
theorem deduct_credits_nothing :
    let setup : List (Input ℕ (Balances ℕ) 0 3) :=
      [.settlement ⟨0, [10], by decide, fun _ => true⟩ (.init 10 0),
        .vault (.signedBy 1 0 (by decide)) (.init (Vault.ownedBy1 ⟨100, by decide⟩))]
    let deduct : Input ℕ (Balances ℕ) 0 3 :=
      .vault (.signedBy 2 0 (by decide)) (.deduct 2 ⟨60, by decide⟩ 7)
    let sys := system (balanceToken ℕ).toTokenContract 0 3
    let s := sys.run (deployed (Vault.hundredOf 0)) setup
    let s' := sys.run (deployed (Vault.hundredOf 0)) (setup ++ [deduct])
    Linked 0 3 s ∧ sys.step s deduct = some ((), s') ∧ s.tracked.val - s'.tracked.val = 60 ∧
      s'.ledger.ledger 4 3 = 60 ∧ accounted s'.ledger - accounted s.ledger ≠ 60 := by
  intro setup deduct sys s s'
  have hsame : accounted s'.ledger = accounted s.ledger := rfl
  refine ⟨by decide, rfl, by decide, by decide, ?_⟩
  rw [hsame, Int.sub_self]
  decide

end Callora.System
