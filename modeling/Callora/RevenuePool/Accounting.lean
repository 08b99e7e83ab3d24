import Callora.RevenuePool.Run

/-! What the pool holds, accounted for step by step: it grows with what others pay in and with the
deposits of yield, and shrinks with the legs of distributions and with executed drains. The yield
counter is written before the transfer it counts, and stands or falls with it. -/

namespace Callora.RevenuePool
open Library

variable {Address Ledger : Type} [DecidableEq Address] {contract : Address}
  {env : Env Address contract} {s s' : State Address Ledger} {op : Op Address} {usdc : Address}

/-! What a committed step moves. -/

def Op.legs : Op Address → List (Address × I128)
  | .distribute _ «to» amount => [(«to», amount)]
  | .batchDistribute _ payments => payments
  | _ => []

def inflow (usdc : Address) (e : LogEntry Address Ledger contract) : ℤ :=
  match e.input with
  | .thirdParty token _ «to» amount _ => if token = usdc ∧ «to» = contract then amount else 0
  | .call _ _ => 0

def yielded (e : LogEntry Address Ledger contract) : ℤ :=
  match e.input with
  | .call _ (.depositYield _ amount _) => amount.val
  | _ => 0

def legs (e : LogEntry Address Ledger contract) : List (Address × I128) :=
  match e.input with
  | .call _ op => op.legs
  | .thirdParty _ _ _ _ _ => []

def distributed (e : LogEntry Address Ledger contract) : ℤ := totalAmount (legs e)

def drained (e : LogEntry Address Ledger contract) : ℤ :=
  match e.input with
  | .call _ (.executeEmergencyDrain _) =>
    (e.pre.emergencyDrain.map fun drain => drain.amount.val).getD 0
  | _ => 0

def net (usdc : Address) (e : LogEntry Address Ledger contract) : ℤ :=
  inflow usdc e + yielded e - distributed e - drained e

/-- Initialized with the token `usdc`, and never about to drain to itself. -/
structure State.PaysOut (contract usdc : Address) (s : State Address Ledger) : Prop where
  initialized : s.admin ≠ none
  configured : s.usdcToken = some usdc
  external : ∀ drain, s.emergencyDrain = some drain → drain.to ≠ contract

omit [DecidableEq Address] in
theorem paysOut_of_effect {T : TokenContract Address Ledger} (hs : s.PaysOut contract usdc)
    (h : Effect T env s op s') : s'.PaysOut contract usdc := by
  obtain ⟨hinit, husdc, hdrain⟩ := hs
  cases h with
  | init fresh => exact absurd fresh hinit
  | acceptAdmin | claimAdmin => exact ⟨Option.some_ne_none _, husdc, hdrain⟩
  | proposeEmergencyDrain admin staged =>
    refine ⟨hinit, husdc, fun drain hpending => ?_⟩
    obtain rfl := Option.some.inj hpending
    rw [staged.stored]
    exact staged.external
  | executeEmergencyDrain | cancelEmergencyDrain =>
    exact ⟨hinit, husdc, fun drain hpending => absurd hpending (Option.some_ne_none drain).symm⟩
  | _ => exact ⟨hinit, husdc, hdrain⟩

theorem paysOut_of_step {T : TokenContract Address Ledger} {input : Input Address contract}
    {r : Unit} (hs : s.PaysOut contract usdc)
    (h : (revenuePool T contract).step s input = some (r, s')) : s'.PaysOut contract usdc := by
  obtain ⟨env, op, rfl, heff⟩ | ⟨token, «from», «to», amount, external, ledger, rfl, hpaid, rfl⟩ :=
    effect_of_step h
  · exact paysOut_of_effect hs heff
  · exact ⟨hs.initialized, hs.configured, hs.external⟩

variable {T : ExactToken Address Ledger}

theorem balance_payAll {payments : List (Address × I128)} {l l' : Ledger}
    (hext : ∀ p ∈ payments, p.1 ≠ contract)
    (h : payAll T.toTokenContract contract usdc l payments = some l') :
    T.balance l' usdc contract = T.balance l usdc contract - totalAmount payments := by
  induction payments generalizing l with
  | nil =>
    obtain rfl := Option.some.inj h
    rw [totalAmount_nil, Int.sub_zero]
  | cons p payments ih =>
    obtain ⟨mid, hmid, hrest⟩ := Option.bind_eq_some_iff.1 h
    obtain ⟨hp, hext⟩ := List.forall_mem_cons.1 hext
    have hleg := T.balance_sender hmid
    rw [if_neg hp.symm, Int.add_zero] at hleg
    rw [ih hext hrest, hleg, totalAmount_cons, Int.sub_sub]

theorem held_of_effect {r : Unit} (hs : s.PaysOut contract usdc)
    (h : Effect T.toTokenContract env s op s') :
    T.balance s'.ledger usdc contract = T.balance s.ledger usdc contract +
      net usdc (⟨s, .call env op, r, s'⟩ : LogEntry Address Ledger contract) := by
  have hconfigured {usdc'} (h : s.usdcToken = some usdc') : usdc' = usdc :=
    Option.some.inj (h.symm.trans hs.configured)
  cases h with
  | @depositYield treasury usdc' amount newTotal source ledger deposit =>
    obtain rfl := hconfigured deposit.configured
    -- the treasury signed, so it is not the pool
    have hreceived := T.balance_receiver deposit.paid (env.ne_contract deposit.admin.1).symm
    simpa [net, inflow, yielded, distributed, legs, Op.legs, drained] using hreceived
  | @distribute caller «to» usdc' amount ledger distribution =>
    obtain rfl := hconfigured distribution.configured
    have hpaid := balance_payAll distribution.external distribution.paid
    simpa [net, inflow, yielded, distributed, legs, Op.legs, drained, Int.sub_eq_add_neg]
      using hpaid
  | @batchDistribute caller usdc' payments ledger batch distribution =>
    obtain rfl := hconfigured distribution.configured
    have hpaid := balance_payAll distribution.external distribution.paid
    simpa [net, inflow, yielded, distributed, legs, Op.legs, drained, Int.sub_eq_add_neg]
      using hpaid
  | @executeEmergencyDrain caller usdc' drain ledger executed =>
    obtain rfl := hconfigured executed.configured
    have hpaid := T.balance_sender executed.paid
    rw [if_neg (hs.external drain executed.pending).symm, Int.add_zero] at hpaid
    simpa [net, inflow, yielded, distributed, legs, Op.legs, drained, executed.pending,
      Int.sub_eq_add_neg] using hpaid
  | _ => simp [net, inflow, yielded, distributed, legs, Op.legs, drained]

theorem held_of_step {input : Input Address contract} {r : Unit} (hs : s.PaysOut contract usdc)
    (h : (revenuePool T.toTokenContract contract).step s input = some (r, s')) :
    T.balance s'.ledger usdc contract = T.balance s.ledger usdc contract +
      net usdc ⟨s, input, r, s'⟩ := by
  obtain ⟨env, op, rfl, heff⟩ | ⟨token, «from», «to», amount, external, ledger, rfl, hpaid, rfl⟩ :=
    effect_of_step h
  · exact held_of_effect hs heff
  · have hmoved := T.balance_transfer hpaid usdc contract
    rw [if_neg fun hk => external hk.2.symm, Int.sub_zero] at hmoved
    simpa [net, inflow, yielded, distributed, legs, drained, eq_comm] using hmoved

omit [DecidableEq Address] in
theorem cumulative_of_effect {T : TokenContract Address Ledger} {r : Unit}
    (h : Effect T env s op s') :
    let e : LogEntry Address Ledger contract := ⟨s, .call env op, r, s'⟩
    (getCumulativeYieldDeposited s').val = (getCumulativeYieldDeposited s).val + yielded e ∧
      0 ≤ yielded e := by
  cases h with
  | depositYield deposit => exact ⟨deposit.total, deposit.positive.le⟩
  | _ => exact ⟨(Int.add_zero _).symm, le_rfl⟩

theorem cumulative_of_step {T : TokenContract Address Ledger} {input : Input Address contract}
    {r : Unit} (h : (revenuePool T contract).step s input = some (r, s')) :
    let e : LogEntry Address Ledger contract := ⟨s, input, r, s'⟩
    (getCumulativeYieldDeposited s').val = (getCumulativeYieldDeposited s).val + yielded e ∧
      0 ≤ yielded e := by
  obtain ⟨env, op, rfl, heff⟩ | ⟨token, «from», «to», amount, external, ledger, rfl, hpaid, rfl⟩ :=
    effect_of_step h
  · exact cumulative_of_effect heff
  · exact ⟨(Int.add_zero _).symm, le_rfl⟩

omit [DecidableEq Address] in
theorem legs_of_effect {T : TokenContract Address Ledger} (h : Effect T env s op s') :
    ∀ leg ∈ op.legs, leg.2.val ≤ (getMaxDistribute s).val ∧ isPaused s = false := by
  cases h with
  | distribute distribution | batchDistribute batch distribution =>
    exact fun leg hleg => ⟨(distribution.capped leg hleg).2, distribution.unpaused⟩
  | _ => exact List.forall_mem_nil _

theorem legs_of_step {T : TokenContract Address Ledger} {input : Input Address contract} {r : Unit}
    (h : (revenuePool T contract).step s input = some (r, s')) :
    ∀ leg ∈ legs (⟨s, input, r, s'⟩ : LogEntry Address Ledger contract),
      leg.2.val ≤ (getMaxDistribute s).val ∧ isPaused s = false := by
  obtain ⟨env, op, rfl, heff⟩ | ⟨token, «from», «to», amount, external, ledger, rfl, hpaid, rfl⟩ :=
    effect_of_step h
  · exact legs_of_effect heff
  · exact List.forall_mem_nil _

/-! Runs. -/

theorem paysOut_of_init {ledger : Ledger} {admin : Address}
    (h : (init contract admin usdc).run (.deployed ledger) = .ok () s) :
    s.PaysOut contract usdc ∧ s.ledger = ledger ∧ s.cumulativeYieldDeposited = none := by
  obtain ⟨-, -, -, rfl⟩ := run_init_eq_ok.1 h
  refine ⟨⟨Option.some_ne_none _, rfl, fun drain hdrain => ?_⟩, rfl, rfl⟩
  exact absurd hdrain (Option.some_ne_none drain).symm

theorem sum_net (usdc : Address) (l : List (LogEntry Address Ledger contract)) :
    (l.map (net usdc)).sum = (l.map (inflow usdc)).sum + (l.map yielded).sum -
      (l.map distributed).sum - (l.map drained).sum := by
  induction l with
  | nil => rfl
  | cons e l ih =>
    simp only [List.map_cons, List.sum_cons, ih, net]
    omega

/-- From `init` on, the pool holds what it started with and what came in, less what it paid; the
counter is the sum of the yield and never goes back; and no leg of a distribution exceeds the cap
in force or is paid while the pool is paused. -/
theorem holdings_accounted (T : ExactToken Address Ledger) {ledger : Ledger}
    {admin usdc : Address} {s : State Address Ledger}
    (hinit : (init contract admin usdc).run (.deployed ledger) = .ok () s)
    (inputs : List (Input Address contract)) :
    let m := revenuePool T.toTokenContract contract
    let t := m.run s inputs
    let l := m.log s inputs
    (balance T.toTokenContract contract).run t = .ok (T.balance ledger usdc contract +
      (l.map (inflow usdc)).sum + (l.map yielded).sum - (l.map distributed).sum -
        (l.map drained).sum) t ∧
    (getCumulativeYieldDeposited t).val = (l.map yielded).sum ∧
    (∀ js ks, inputs = js ++ ks → (getCumulativeYieldDeposited (m.run s js)).val ≤
      (getCumulativeYieldDeposited t).val) ∧
    ∀ e ∈ l, ∀ leg ∈ legs e, leg.2.val ≤ (getMaxDistribute e.pre).val ∧ isPaused e.pre = false := by
  intro m t l
  obtain ⟨hs, hledger, hyield⟩ := paysOut_of_init hinit
  have hpays : t.PaysOut contract usdc :=
    Machine.invariant hs (fun _ _ _ _ ht hstep => paysOut_of_step ht hstep) inputs
  have hheld : T.balance t.ledger usdc contract =
      T.balance s.ledger usdc contract + (l.map (net usdc)).sum :=
    Machine.run_eq_add_sum (m := m) (g := fun t => T.balance t.ledger usdc contract) hs
      (fun _ _ _ _ ht hstep => paysOut_of_step ht hstep)
      (fun _ _ _ _ ht hstep => held_of_step ht hstep) inputs
  have hcumulative : (getCumulativeYieldDeposited t).val =
      (getCumulativeYieldDeposited s).val + (l.map yielded).sum :=
    Machine.run_eq_add_sum (m := m) (I := fun _ => True)
      (g := fun t => (getCumulativeYieldDeposited t).val) trivial (fun _ _ _ _ _ _ => trivial)
      (fun _ _ _ _ _ hstep => (cumulative_of_step hstep).1) inputs
  refine ⟨?_, ?_, ?_, ?_⟩
  · apply run_balance_eq_ok.2
    refine ⟨usdc, hpays.configured, ?_, rfl⟩
    rw [hheld, hledger, sum_net]
    omega
  · have hzero : getCumulativeYieldDeposited s = 0 := by
      unfold getCumulativeYieldDeposited
      rw [hyield, Option.getD_none]
    rw [hcumulative, hzero, I128.zero_val, Int.zero_add]
  · intro js ks hjs
    have hrun : t = m.run (m.run s js) ks := by
      rw [← Machine.run_append, ← hjs]
    rw [hrun]
    apply Machine.invariant (P := fun t' : State Address Ledger =>
      (getCumulativeYieldDeposited (m.run s js)).val ≤ (getCumulativeYieldDeposited t').val) le_rfl
    intro t' input r t'' hle hstep
    obtain ⟨hmoved, hnonneg⟩ := cumulative_of_step hstep
    rw [hmoved]
    exact hle.trans (Int.le_add_of_nonneg_right hnonneg)
  · intro e he
    obtain ⟨-, -, -, -, hstep⟩ := Machine.mem_log.1 he
    exact legs_of_step hstep

theorem holdings_accounted_small :
    let ledger : Balances ℕ := fun token _ => if token = 4 then 100 else 0
    let s := { State.deployed ledger with
      admin := some 1, usdcToken := some 4, paused := some false, events := [.init 1 4] }
    let inputs : List (Input ℕ 0) :=
      [.call (.signedBy 1 0 (by decide)) (.depositYield 1 ⟨100, by decide⟩ "fees"),
        .thirdParty 4 8 0 15 (by decide),
        .call (.signedBy 1 0 (by decide)) (.distribute 1 5 ⟨30, by decide⟩),
        .call (.signedBy 1 0 (by decide))
          (.batchDistribute 1 [(6, ⟨10, by decide⟩), (7, ⟨20, by decide⟩)])]
    let t := (revenuePool (balanceToken ℕ).toTokenContract 0).run s inputs
    (balance (balanceToken ℕ).toTokenContract 0).run t = .ok (100 + 15 + 100 - 60 - 0) t ∧
      (getCumulativeYieldDeposited t).val = 100 := by
  intro ledger s inputs t
  let l := (revenuePool (balanceToken ℕ).toTokenContract 0).log s inputs
  have hinit : (init 0 1 4).run (.deployed ledger) = .ok () s := rfl
  obtain ⟨hheld, hyield, -⟩ := holdings_accounted (balanceToken ℕ) hinit inputs
  have hstart : (balanceToken ℕ).balance ledger 4 0 = 100 := rfl
  have hinflow : (l.map (inflow 4)).sum = 15 := by decide +kernel
  have hyielded : (l.map yielded).sum = 100 := by decide +kernel
  have hdistributed : (l.map distributed).sum = 60 := by decide +kernel
  have hdrained : (l.map drained).sum = 0 := by decide +kernel
  constructor
  · rw [hstart, hinflow, hyielded, hdistributed, hdrained] at hheld
    exact hheld
  · rw [hyielded] at hyield
    exact hyield

end Callora.RevenuePool
