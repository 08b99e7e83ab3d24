import Callora.Vault.Solvency

/-! What the owner's settings are good for: the reserve cap that deposits should keep to, the bounds
between which an amount can be deducted, and the caller that may deduct it. -/

namespace Callora.Vault
open Library Machine

variable {Address Ledger : Type} [DecidableEq Address] {contract : Address}
  {T : TokenContract Address Ledger} {env : Env Address contract} {s s' : State Address Ledger}
  {u : Unit}

/-! The reserve cap. -/

def getReserveCap (s : State Address Ledger) (token : Address) : I128 :=
  (s.reserveCap token).getD I128.max

def State.ExceedsCap (s : State Address Ledger) (amount : I128) : Prop :=
  ∃ usdc, s.usdcToken = some usdc ∧ (getReserveCap s usdc).val < s.tracked.val + amount.val

/-- Every deposit of the run ends within the cap of the moment, and one that would exceed it is
rejected and changes nothing. -/
def CapRespected (T : TokenContract Address Ledger) (s₀ : State Address Ledger)
    (inputs : List (Input Address contract)) : Prop :=
  ∀ js env caller amount ks, inputs = js ++ .call env (.deposit caller amount) :: ks →
    let s := (vault T contract).run s₀ js
    let deposit : Input Address contract := .call env (.deposit caller amount)
    (∀ r s', (vault T contract).step s deposit = some (r, s') →
      ∀ usdc, s.usdcToken = some usdc → s'.tracked.val ≤ (getReserveCap s usdc).val) ∧
    (s.ExceedsCap amount → (vault T contract).step s deposit = none ∧
      (vault T contract).run s₀ (js ++ [deposit]) = s)

theorem step_deposit_eq_some {caller : Address} {amount : I128} {r : Unit} :
    (vault T contract).step s (.call env (.deposit caller amount)) = some (r, s') ↔
      ∃ newBal usdc ledger, Deposit T env s caller amount newBal usdc ledger ∧
        s' = { s with balance := some newBal, ledger := ledger } :=
  Call.commit_eq_some.trans run_deposit_eq_ok

theorem step_deposit_eq_none {caller : Address} {amount : I128} :
    (vault T contract).step s (.call env (.deposit caller amount)) = none ↔
      ¬s.TakesDeposit T env caller amount := by
  rw [← exists_deposit_iff, Option.eq_none_iff_forall_ne_some]
  constructor
  · intro hnone h
    obtain ⟨newBal, usdc, ledger, h⟩ := h
    exact hnone ((), _) (step_deposit_eq_some.2 ⟨newBal, usdc, ledger, h, rfl⟩)
  · intro hnot p hp
    obtain ⟨newBal, usdc, ledger, h, -⟩ := step_deposit_eq_some.1 hp
    exact hnot ⟨newBal, usdc, ledger, h⟩

/-- A run keeps to its reserve caps exactly if each of its deposits in excess of one meets a state
whose other guards refuse it. -/
theorem capRespected_iff (T : TokenContract Address Ledger) (s₀ : State Address Ledger)
    (inputs : List (Input Address contract)) :
    CapRespected T s₀ inputs ↔
      ∀ js env caller amount ks, inputs = js ++ .call env (.deposit caller amount) :: ks →
        ((vault T contract).run s₀ js).ExceedsCap amount →
        ¬((vault T contract).run s₀ js).TakesDeposit T env caller amount := by
  constructor
  · intro h js env caller amount ks hjs hexceeds
    exact step_deposit_eq_none.1 ((h js env caller amount ks hjs).2 hexceeds).1
  · intro h js env caller amount ks hjs
    have hrefused := h js env caller amount ks hjs
    constructor
    · intro r s' hstep usdc husdc
      by_contra hover
      obtain ⟨newBal, usdc', ledger, hdeposit, rfl⟩ := step_deposit_eq_some.1 hstep
      have hexceeds : ((vault T contract).run s₀ js).ExceedsCap amount := by
        refine ⟨usdc, husdc, ?_⟩
        rw [← hdeposit.total]
        exact not_le.1 hover
      exact hrefused hexceeds (exists_deposit_iff.1 ⟨newBal, usdc', ledger, hdeposit⟩)
    · intro hexceeds
      have hnone := step_deposit_eq_none.2 (hrefused hexceeds)
      refine ⟨hnone, ?_⟩
      rw [run_concat]
      exact next_of_rollback hnone

/-- The owner caps token 4 at 50 and then deposits 100. -/
theorem deposit_exceeds_cap :
    let inputs : List (Input ℕ 0) :=
      [.call (.signedBy 1 0 (by decide)) (.init (ownedBy1 0)),
        .call (.signedBy 1 0 (by decide)) (.setReserveCap 1 4 ⟨50, by decide⟩)]
    let deposit : Input ℕ 0 := .call (.signedBy 1 0 (by decide)) (.deposit 1 ⟨100, by decide⟩)
    let run := (vault (balanceToken ℕ).toTokenContract 0).run (.deployed (hundredOf 1))
    (getReserveCap (run inputs) 4).val = 50 ∧ (run (inputs ++ [deposit])).tracked.val = 100 ∧
      ¬CapRespected (balanceToken ℕ).toTokenContract (.deployed (hundredOf 1))
        (inputs ++ [deposit]) := by
  intro inputs deposit run
  refine ⟨by decide, by decide, ?_⟩
  intro h
  have hbound := (h inputs _ 1 ⟨100, by decide⟩ [] rfl).1 () _ rfl 4 rfl
  exact absurd hbound (by decide)

/-! The bounds on a deduction. -/

structure State.Configured (s : State Address Ledger) : Prop where
  minDeposit : s.minDeposit ≠ none
  maxDeduct : s.maxDeduct ≠ none
  settlement : s.settlement ≠ none

def State.OrderedBounds (s : State Address Ledger) : Prop :=
  ∀ minDep maxDeduct, s.minDeposit = some minDep → s.maxDeduct = some maxDeduct →
    0 < minDep.val ∧ minDep.val ≤ maxDeduct.val

/-- A vault that is unpaused, solvent and tracks its minimum can be charged some amount. -/
def State.Deductible (T : TokenContract Address Ledger) (contract : Address)
    (s : State Address Ledger) : Prop :=
  isPaused s = false → s.Solvent T contract →
    (∀ minDep, s.minDeposit = some minDep → minDep.val ≤ s.tracked.val) →
    ∀ (env : Env Address contract) caller, s.authorizedCaller = some caller →
      caller ∈ env.signers →
      ∃ amount, ∀ requestId, ∃ s', (deduct T env caller amount requestId).run s = .ok () s'

def State.KeepsBounds (s : State Address Ledger) : Input Address contract → Prop
  | .call _ (.setMaxDeduct _ maxDeduct) =>
    ∀ minDep, s.minDeposit = some minDep → minDep.val ≤ maxDeduct.val
  | _ => True

theorem configured_of_effect {op : Op Address} (hs : s.owner ≠ none → s.Configured)
    (h : Effect T env s op s') : s'.owner ≠ none → s'.Configured := by
  cases h with
  | init => exact fun _ => ⟨Option.some_ne_none _, Option.some_ne_none _, Option.some_ne_none _⟩
  | setMaxDeduct =>
    intro howner
    exact ⟨(hs howner).minDeposit, Option.some_ne_none _, (hs howner).settlement⟩
  | setSettlement =>
    intro howner
    exact ⟨(hs howner).minDeposit, (hs howner).maxDeduct, Option.some_ne_none _⟩
  | _ => exact fun howner => ⟨(hs howner).minDeposit, (hs howner).maxDeduct, (hs howner).settlement⟩

theorem configured_of_step {input : Input Address contract} {r : Unit}
    (hs : s.owner ≠ none → s.Configured)
    (h : (vault T contract).step s input = some (r, s')) : s'.owner ≠ none → s'.Configured := by
  obtain ⟨env, op, rfl, heff⟩ | ⟨token, «from», «to», amount, external, ledger, rfl, -, rfl⟩ :=
    effect_of_step h
  · exact configured_of_effect hs heff
  · exact fun howner => ⟨(hs howner).minDeposit, (hs howner).maxDeduct, (hs howner).settlement⟩

theorem configured_run (T : TokenContract Address Ledger) (ledger : Ledger)
    (inputs : List (Input Address contract)) :
    ((vault T contract).run (.deployed ledger) inputs).owner ≠ none →
      ((vault T contract).run (.deployed ledger) inputs).Configured := by
  refine Machine.invariant (P := fun s : State Address Ledger => s.owner ≠ none → s.Configured)
    (fun h => absurd rfl h) ?_ inputs
  exact fun _ _ _ _ hs hstep => configured_of_step hs hstep

theorem orderedBounds_effect_iff {op : Op Address} (hconf : s.owner ≠ none → s.Configured)
    (hs : s.OrderedBounds) (h : Effect T env s op s') :
    s'.OrderedBounds ↔ s.KeepsBounds (.call env op) := by
  cases h with
  | init fresh bounds =>
    refine iff_of_true ?_ trivial
    intro minDep maxDeduct hmin hmax
    obtain rfl := Option.some.inj hmin
    obtain rfl := Option.some.inj hmax
    exact ⟨bounds.1, bounds.2.2⟩
  | setMaxDeduct owner positive =>
    constructor
    · intro h minDep hmin
      exact (h minDep _ hmin rfl).2
    · intro h minDep maxDeduct hmin hmax
      obtain rfl := Option.some.inj hmax
      -- that the minimum is positive is known from the maximum it replaces
      have howner : s.owner ≠ none := by
        rw [owner.2]
        exact Option.some_ne_none _
      obtain ⟨old, hold⟩ := Option.ne_none_iff_exists'.1 (hconf howner).maxDeduct
      exact ⟨(hs minDep old hmin hold).1, h minDep hmin⟩
  | _ => exact iff_of_true hs trivial

theorem deductible_of_orderedBounds {T : ExactToken Address Ledger}
    (hconf : s.owner ≠ none → s.Configured) (hs : s.OrderedBounds) :
    s.Deductible T.toTokenContract contract := by
  intro hpaused hsolvent hcovered env caller hcaller hsigned
  have hset := hconf hsolvent.1.owner
  obtain ⟨minDep, hmin⟩ := Option.ne_none_iff_exists'.1 hset.minDeposit
  obtain ⟨maxDeduct, hmax⟩ := Option.ne_none_iff_exists'.1 hset.maxDeduct
  obtain ⟨settlement, hsettle⟩ := Option.ne_none_iff_exists'.1 hset.settlement
  obtain ⟨usdc, husdc⟩ := Option.ne_none_iff_exists'.1 hsolvent.1.usdcToken
  obtain ⟨hpos, hle⟩ := hs minDep maxDeduct hmin hmax
  have hcharged : charged [minDep] = minDep.val := by
    rw [charged_cons, charged_nil, Int.add_zero]
  have hheld : s.tracked.val ≤ T.balance s.ledger usdc contract := by
    have hbacked := hsolvent.2.2
    rw [State.custody_eq husdc] at hbacked
    exact hbacked
  have hfunds : (T.transfer s.ledger usdc contract settlement (charged [minDep])).isSome := by
    rw [T.transfer_isSome, hcharged]
    exact ⟨hpos.le, (hcovered minDep hmin).trans hheld⟩
  have haccepts : s.AcceptsAmounts [minDep] :=
    ⟨minDep, maxDeduct, hmin, hmax, List.forall_mem_singleton.2 ⟨hpos, le_rfl, hle⟩⟩
  refine ⟨minDep, fun requestId => ?_⟩
  obtain ⟨newBal, usdc, settlement, ledger, hcharge⟩ := exists_charge_iff.2
    ⟨hsigned, hcaller, hpaused, haccepts, hcharged.trans_le (hcovered minDep hmin), usdc,
      settlement, husdc, hsettle, hfunds⟩
  exact ⟨_, run_deduct_eq_ok.2 ⟨newBal, usdc, settlement, ledger, hcharge, rfl⟩⟩

/-- In every state of a run the bounds are positive and ordered, and a solvent vault deductible,
exactly if the owner never sets the maximum below the minimum. -/
theorem deductible_iff (T : ExactToken Address Ledger) (contract : Address) (ledger : Ledger)
    (inputs : List (Input Address contract)) :
    (∀ js ks, inputs = js ++ ks →
      ((vault T.toTokenContract contract).run (.deployed ledger) js).OrderedBounds ∧
      ((vault T.toTokenContract contract).run (.deployed ledger) js).Deductible
        T.toTokenContract contract) ↔
    ∀ e ∈ (vault T.toTokenContract contract).log (.deployed ledger) inputs,
      e.pre.KeepsBounds e.input := by
  have hdeductible (js : List (Input Address contract))
      (h : ((vault T.toTokenContract contract).run (.deployed ledger) js).OrderedBounds) :
      ((vault T.toTokenContract contract).run (.deployed ledger) js).Deductible
        T.toTokenContract contract :=
    deductible_of_orderedBounds (configured_run T.toTokenContract ledger js) h
  have hbounds : (∀ js ks, inputs = js ++ ks →
      ((vault T.toTokenContract contract).run (.deployed ledger) js).OrderedBounds) ↔
      ∀ e ∈ (vault T.toTokenContract contract).log (.deployed ledger) inputs,
        e.pre.KeepsBounds e.input := by
    apply Machine.always_run_iff_of_invariant
      (I := fun s : State Address Ledger => s.owner ≠ none → s.Configured)
    · exact fun h => absurd rfl h
    · exact fun _ _ _ _ hs hstep => configured_of_step hs hstep
    · exact fun minDep maxDeduct hmin _ => absurd hmin (Option.some_ne_none _ ∘ Eq.symm)
    · intro s input r s' hconf hs hstep
      obtain ⟨env, op, rfl, heff⟩ | ⟨token, «from», «to», amount, external, ledger, rfl, -, rfl⟩ :=
        effect_of_step hstep
      · exact orderedBounds_effect_iff hconf hs heff
      · exact iff_of_true hs trivial
  rw [← hbounds]
  constructor
  · intro h js ks hjs
    exact (h js ks hjs).1
  · intro h js ks hjs
    exact ⟨h js ks hjs, hdeductible js (h js ks hjs)⟩

/-- With a minimum of 10 the owner sets the maximum to 5: the vault tracks and holds 100, and no
amount can be deducted. -/
theorem no_amount_deductible :
    let args : InitArgs ℕ := { ownedBy1 ⟨100, by decide⟩ with minDeposit := ⟨10, by decide⟩ }
    let inputs : List (Input ℕ 0) :=
      [.call (.signedBy 1 0 (by decide)) (.init args),
        .call (.signedBy 1 0 (by decide)) (.setMaxDeduct 1 ⟨5, by decide⟩)]
    let s := (vault (balanceToken ℕ).toTokenContract 0).run (.deployed (hundredOf 0)) inputs
    isPaused s = false ∧ s.Solvent (balanceToken ℕ).toTokenContract 0 ∧ s.tracked.val = 100 ∧
      ¬s.OrderedBounds ∧ ¬s.Deductible (balanceToken ℕ).toTokenContract 0 := by
  intro args inputs s
  refine ⟨by decide, by decide, by decide, ?_, ?_⟩
  · intro h
    exact absurd (h ⟨10, by decide⟩ ⟨5, by decide⟩ rfl rfl).2 (by decide)
  · intro h
    have hcovered (minDep : I128) (hmin : s.minDeposit = some minDep) :
        minDep.val ≤ s.tracked.val := by
      obtain rfl := Option.some.inj hmin
      decide
    obtain ⟨amount, hamount⟩ := h rfl (by decide) hcovered (.signedBy 2 0 (by decide)) 2 rfl
      (by decide)
    obtain ⟨s', hrun⟩ := hamount 7
    obtain ⟨newBal, usdc, settlement, ledger, hcharge, -⟩ := run_deduct_eq_ok.1 hrun
    obtain ⟨minDep, maxDeduct, hmin, hmax, hvalid⟩ := hcharge.accepted
    obtain rfl := Option.some.inj hmin
    obtain rfl := Option.some.inj hmax
    obtain ⟨-, hge, hle⟩ := hvalid amount List.mem_cons_self
    exact absurd (hge.trans hle) (by decide)

/-! The authorized caller. -/

def State.Affords (T : TokenContract Address Ledger) (contract : Address)
    (s : State Address Ledger) (amounts : List I128) : Prop :=
  isPaused s = false ∧ s.AcceptsAmounts amounts ∧ charged amounts ≤ s.tracked.val ∧
    ∃ usdc settlement, s.usdcToken = some usdc ∧ s.settlement = some settlement ∧
      (T.transfer s.ledger usdc contract settlement (charged amounts)).isSome

/-- `who` is the authorized caller: its charges go through whenever the vault affords them, and
those of anybody else never do. -/
def State.BilledBy (T : TokenContract Address Ledger) (contract : Address)
    (s : State Address Ledger) (who : Address) : Prop :=
  s.authorizedCaller = some who ∧ ∀ (env : Env Address contract) op caller items,
    op.charge = some (caller, items) →
    (caller = who → caller ∈ env.signers → ((∃ s', (call T env op).run s = .ok () s') ↔
      s.Affords T contract (items.map Prod.fst))) ∧
    (caller ≠ who → ∀ s', (call T env op).run s ≠ .ok () s')

/-- The owner can authorize a call of `set_authorized_caller` that makes `who` the authorized
caller. -/
def State.RotatesTo (T : TokenContract Address Ledger) (contract : Address)
    (s : State Address Ledger) (who : Address) : Prop :=
  ∃ (env : Env Address contract) (owner caller : Address) (s' : State Address Ledger),
    s.owner = some owner ∧ owner ∈ env.signers ∧
    (vault T contract).step s (.call env (.setAuthorizedCaller caller)) = some ((), s') ∧
    s'.BilledBy T contract who

def State.CallerGuarded (T : TokenContract Address Ledger) (contract : Address)
    (s : State Address Ledger) : Prop :=
  ∀ (input : Input Address contract) r s', (vault T contract).step s input = some (r, s') →
    s'.authorizedCaller ≠ s.authorizedCaller →
    ∃ env op owner, input = .call env op ∧ s.owner = some owner ∧ owner ∈ env.signers

theorem charges_iff {op : Op Address} {caller : Address} {items : List (I128 × ℕ)}
    (hop : op.charge = some (caller, items)) :
    (∃ s', (call T env op).run s = .ok () s') ↔ caller ∈ env.signers ∧
      s.authorizedCaller = some caller ∧ s.Affords T contract (items.map Prod.fst) := by
  rw [charge_succeeds hop]
  constructor
  · intro h
    obtain ⟨caller', items', hop', htakes⟩ := h
    obtain ⟨rfl, rfl⟩ := Prod.mk.inj (Option.some.inj (hop.symm.trans hop'))
    exact htakes
  · intro htakes
    exact ⟨caller, items, hop, htakes⟩

theorem billedBy_iff {who : Address} :
    s.BilledBy T contract who ↔ s.authorizedCaller = some who := by
  apply and_iff_left_of_imp
  intro hwho env op caller items hop
  constructor
  · rintro rfl hsigned
    rw [charges_iff hop, and_iff_right hsigned, and_iff_right hwho]
  · intro hne s' hrun
    obtain ⟨-, hcaller, -⟩ := (charges_iff hop).1 ⟨s', hrun⟩
    exact hne (Option.some.inj (hcaller.symm.trans hwho))

theorem authorizedCaller_of_step {input : Input Address contract} {r : Unit} {owner : Address}
    (hs : s.owner = some owner) (h : (vault T contract).step s input = some (r, s')) :
    s'.authorizedCaller = s.authorizedCaller ∨
      s'.authorizedCaller = some owner ∧ ∃ env op, input = .call env op ∧
        owner ∈ env.signers := by
  obtain ⟨env, op, rfl, heff⟩ | ⟨token, «from», «to», amount, external, ledger, rfl, -, rfl⟩ :=
    effect_of_step h
  · cases heff with
    | init fresh => exact absurd (hs.symm.trans fresh) (Option.some_ne_none owner)
    | setAuthorizedCaller byOwner =>
      obtain rfl := Option.some.inj (hs.symm.trans byOwner.2)
      exact .inr ⟨rfl, env, _, rfl, byOwner.1⟩
    | _ => exact .inl rfl
  · exact .inl rfl

theorem authorizedCaller_run (T : TokenContract Address Ledger) {owner : Address}
    (hs : s.owner = some owner) (inputs : List (Input Address contract)) :
    ((vault T contract).run s inputs).owner = some owner ∧
      (((vault T contract).run s inputs).authorizedCaller = s.authorizedCaller ∨
        ((vault T contract).run s inputs).authorizedCaller = some owner) := by
  refine Machine.invariant (P := fun t : State Address Ledger => t.owner = some owner ∧
    (t.authorizedCaller = s.authorizedCaller ∨ t.authorizedCaller = some owner))
    ⟨hs, .inl rfl⟩ ?_ inputs
  intro t input r t' ht hstep
  have howner : t'.owner = some owner := by
    rw [owner_of_step (ht.1 ▸ Option.some_ne_none owner) hstep]
    exact ht.1
  rcases authorizedCaller_of_step ht.1 hstep with hsame | ⟨hnew, -⟩
  · exact ⟨howner, hsame ▸ ht.2⟩
  · exact ⟨howner, .inr hnew⟩

theorem rotatesTo_iff {who : Address} (hwho : who ≠ contract) :
    s.RotatesTo T contract who ↔ s.owner = some who := by
  constructor
  · intro h
    obtain ⟨env, owner, caller, s', howner, -, hstep, hbilled⟩ := h
    obtain ⟨hby, rfl⟩ := run_setAuthorizedCaller_eq_ok.1 (Call.commit_eq_some.1 hstep)
    rw [hby.2]
    exact hbilled.1
  · intro howner
    let env : Env Address contract := ⟨0, [who], by simpa using hwho.symm, fun _ => true⟩
    have hsigned : who ∈ env.signers := List.mem_singleton_self who
    refine ⟨env, who, who, { s with authorizedCaller := some who }, howner, hsigned, ?_,
      billedBy_iff.2 rfl⟩
    exact Call.commit_eq_some.2 (run_setAuthorizedCaller_eq_ok.2 ⟨⟨hsigned, howner⟩, rfl⟩)

/-- The owner can rotate the authorized caller to itself and to nobody else; nobody else can rotate
it at all. -/
theorem authorizedCaller_rotation_iff (T : TokenContract Address Ledger) (contract : Address)
    (ledger : Ledger) (inputs : List (Input Address contract)) {who : Address}
    (hwho : who ≠ contract) :
    let s := (vault T contract).run (.deployed ledger) inputs
    (s.RotatesTo T contract who ∧ s.CallerGuarded T contract ↔ s.owner = some who) ∧
      (s.owner ≠ none → s.CallerGuarded T contract) := by
  intro s
  have hguarded (howner : s.owner ≠ none) : s.CallerGuarded T contract := by
    obtain ⟨owner, howner⟩ := Option.ne_none_iff_exists'.1 howner
    intro input r s' hstep hchanged
    obtain hsame | ⟨-, env, op, hin, hsigned⟩ := authorizedCaller_of_step howner hstep
    · exact absurd hsame hchanged
    · exact ⟨env, op, owner, hin, howner, hsigned⟩
  refine ⟨?_, hguarded⟩
  rw [rotatesTo_iff hwho]
  apply and_iff_left_of_imp
  intro howner
  exact hguarded (howner ▸ Option.some_ne_none who)

theorem authorizedCaller_rotation_owner :
    let s := (vault (balanceToken ℕ).toTokenContract 0).run (.deployed (hundredOf 0))
      [.call (.signedBy 1 0 (by decide)) (.init (ownedBy1 0))]
    (s.RotatesTo (balanceToken ℕ).toTokenContract 0 1 ∧
      s.CallerGuarded (balanceToken ℕ).toTokenContract 0 ↔ s.owner = some 1) ∧
      (s.owner ≠ none → s.CallerGuarded (balanceToken ℕ).toTokenContract 0) :=
  authorizedCaller_rotation_iff (balanceToken ℕ).toTokenContract 0 (hundredOf 0) _ (by decide)

/-- Owner 1 cannot replace the authorized caller 2 by 5. -/
theorem authorizedCaller_not_replaced :
    let s := (vault (balanceToken ℕ).toTokenContract 0).run (.deployed (hundredOf 0))
      [.call (.signedBy 1 0 (by decide)) (.init (ownedBy1 0))]
    s.owner = some 1 ∧ s.authorizedCaller = some 2 ∧
      ¬s.RotatesTo (balanceToken ℕ).toTokenContract 0 5 := by
  intro s
  refine ⟨rfl, rfl, ?_⟩
  intro h
  cases (rotatesTo_iff (by decide)).1 h

end Callora.Vault
