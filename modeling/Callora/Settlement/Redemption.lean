import Mathlib.Algebra.Order.BigOperators.Group.Finset
import Callora.Settlement.Authority
import Callora.Settlement.Withdrawals

/-! A run on the contract: developers whom no limit restricts withdraw what they are owed, each in
any number of parts and all in any order. Whether every one of them is paid depends on nothing but
the sum, and where the contract holds what it owes they always are. -/

namespace Callora.Settlement
open Library

/-! What the contract owes. -/

section
variable {Address Ledger : Type} [LinearOrder Address] {contract : Address}

theorem owed_of_run (T : TokenContract Address Ledger) (ledger : Ledger)
    (inputs : List (Input Address Ledger contract)) (token : Address) :
    let s := (settlement T contract).run (.deployed ledger) inputs
    let l := (settlement T contract).log (.deployed ledger) inputs
    (Function.support fun d => (s.balanceOf d token).val).Finite ∧
      ∑ᶠ d, (s.balanceOf d token).val = credited l token - withdrawn l token := by
  intro s l
  have hinjective : Function.Injective fun d : Address => Account.developer d token :=
    inToken_injective token
  have hzero : (Function.support fun _ : Account Address => (0 : ℤ)).Finite := by simp
  obtain ⟨-, hbooks⟩ := books_run T ledger inputs
  have hbalances (d : Address) : (s.balanceOf d token).val =
      Journal.post (fun _ => 0) (l.flatMap postings) (.developer d token) :=
    congrFun hbooks (.developer d token)
  simp only [hbalances]
  constructor
  · exact (Journal.finite_support_post hzero _).preimage hinjective.injOn
  · rw [Journal.finsum_post hzero hinjective (InToken token) (inToken_iff token), finsum_zero,
      zero_add, net_inToken]

end

/-! Requests. -/

/-- A withdrawal that its developer signs for, to a recipient that is not the contract. -/
structure Request (Address : Type) (contract : Address) where
  env : Env Address contract
  developer : Address
  amount : I128
  «to» : Option Address
  authorized : developer ∈ env.signers
  positive : 0 < amount.val
  external : «to».getD developer ≠ contract

variable {Address Ledger : Type} [LinearOrder Address] {contract : Address}

namespace Request

def input (q : Request Address contract) : Input Address Ledger contract :=
  .call q.env (.withdrawDeveloperBalance q.developer q.amount q.to)

def total (qs : List (Request Address contract)) : ℤ := (qs.map fun q => q.amount.val).sum

def totalOf (developer : Address) (qs : List (Request Address contract)) : ℤ :=
  total (qs.filter fun q => q.developer = developer)

variable {q : Request Address contract} {qs : List (Request Address contract)}

omit [LinearOrder Address] in
@[simp] theorem total_nil : total ([] : List (Request Address contract)) = 0 := rfl

omit [LinearOrder Address] in
@[simp] theorem total_cons (q : Request Address contract) (qs : List (Request Address contract)) :
    total (q :: qs) = q.amount.val + total qs := by
  simp only [total, List.map_cons, List.sum_cons]

omit [LinearOrder Address] in
theorem total_nonneg (qs : List (Request Address contract)) : 0 ≤ total qs := by
  apply List.sum_nonneg
  intro a ha
  obtain ⟨q, -, rfl⟩ := List.mem_map.1 ha
  exact q.positive.le

theorem totalOf_cons (developer : Address) (q : Request Address contract)
    (qs : List (Request Address contract)) : totalOf developer (q :: qs) =
      (if q.developer = developer then q.amount.val else 0) + totalOf developer qs := by
  unfold totalOf
  rw [List.filter_cons]
  by_cases h : q.developer = developer
  · simp [h]
  · simp [h]

theorem sum_totalOf {W : Finset Address} (h : ∀ q ∈ qs, q.developer ∈ W) :
    ∑ d ∈ W, totalOf d qs = total qs := by
  induction qs with
  | nil => exact Finset.sum_const_zero
  | cons q qs ih =>
    obtain ⟨hq, hqs⟩ := List.forall_mem_cons.1 h
    simp only [totalOf_cons, Finset.sum_add_distrib, ih hqs, total_cons]
    rw [Finset.sum_ite_eq W q.developer fun _ => q.amount.val, if_pos hq]

omit [LinearOrder Address] in
theorem total_perm {qs qs' : List (Request Address contract)} (h : qs.Perm qs') :
    total qs = total qs' := (h.map _).sum_eq

theorem totalOf_perm {qs qs' : List (Request Address contract)} (h : qs.Perm qs')
    (developer : Address) : totalOf developer qs = totalOf developer qs' :=
  total_perm (h.filter _)

end Request

structure State.Unrestricted (s : State Address Ledger) (q : Request Address contract) : Prop where
  claimOpen : s.ClaimOpen q.env q.developer
  minBalance : (getDeveloperMinBalance s q.developer).val = 0
  cap : (getDailyWithdrawCap s q.developer).val ≤ 0

structure State.Affords (s : State Address Ledger) (usdc : Address)
    (qs : List (Request Address contract)) : Prop where
  configured : s.usdc = some usdc
  unrestricted : ∀ q ∈ qs, s.Unrestricted q
  covered : ∀ d, Request.totalOf d qs ≤ (s.balanceOf d usdc).val

variable {T : ExactToken Address Ledger} {s s' : State Address Ledger} {usdc : Address}
  {q : Request Address contract} {qs : List (Request Address contract)}

theorem State.Affords.perm {qs' : List (Request Address contract)} (h : s.Affords usdc qs)
    (hperm : qs.Perm qs') : s.Affords usdc qs' := by
  refine ⟨h.configured, fun q hq => h.unrestricted q (hperm.mem_iff.2 hq), fun d => ?_⟩
  rw [← Request.totalOf_perm hperm]
  exact h.covered d

theorem step_request {r : Ret}
    (h : (settlement T.toTokenContract contract).step s q.input = some (r, s')) :
    ∃ usdc newBalance ledger,
      Withdrawal T.toTokenContract q.env s q.developer q.amount (q.to.getD q.developer) usdc
        newBalance ledger ∧
      s' = s.withdrawn q.env.timestamp q.developer (q.to.getD q.developer) usdc q.amount
        newBalance ledger := by
  obtain ⟨u, hrun, -⟩ := run_returning_eq_ok.1 (Call.commit_eq_some.1 h)
  exact run_withdrawDeveloperBalance_eq_ok.1 hrun

theorem step_request_iff (h : s.Affords usdc (q :: qs)) :
    (∃ r s', (settlement T.toTokenContract contract).step s q.input = some (r, s')) ↔
      q.amount.val ≤ T.balance s.ledger usdc contract := by
  constructor
  · intro hstep
    obtain ⟨r, s', hstep⟩ := hstep
    obtain ⟨usdc', newBalance, ledger, hw, -⟩ := step_request hstep
    obtain rfl := Option.some.inj (h.configured.symm.trans hw.configured)
    exact hw.funded
  · intro hfunded
    obtain ⟨hopen, hmin, hcap⟩ := h.unrestricted q List.mem_cons_self
    have hcovered := h.covered q.developer
    rw [Request.totalOf_cons, if_pos rfl] at hcovered
    have hrest : 0 ≤ Request.totalOf q.developer qs := Request.total_nonneg _
    have hbalance : q.amount.val ≤ (s.balanceOf q.developer usdc).val := by omega
    obtain ⟨newBalance, ledger, hw⟩ := (exists_withdrawal_iff (T := T) q.authorized).2
      ⟨q.positive, q.external, hopen, h.configured, hbalance, .inl hmin, .inl hcap, hfunded⟩
    have hrun := (run_withdrawDeveloperBalance_eq_ok (u := ())).2
      ⟨usdc, newBalance, ledger, hw, rfl⟩
    exact ⟨.unit, _, Call.commit_eq_some.2 (run_returning_eq_ok.2 ⟨(), hrun, rfl⟩)⟩

theorem affords_of_request {r : Ret} (h : s.Affords usdc (q :: qs))
    (hstep : (settlement T.toTokenContract contract).step s q.input = some (r, s')) :
    s'.Affords usdc qs ∧
      (∀ d t, (s'.balanceOf d t).val = (s.balanceOf d t).val -
        if d = q.developer ∧ t = usdc then q.amount.val else 0) ∧
      T.balance s'.ledger usdc contract = T.balance s.ledger usdc contract - q.amount.val := by
  obtain ⟨usdc', newBalance, ledger, hw, rfl⟩ := step_request hstep
  obtain rfl := Option.some.inj (h.configured.symm.trans hw.configured)
  have hbalance (d t : Address) := balanceOf_withdrawn hw d t
  simp only [Prod.mk.injEq] at hbalance
  refine ⟨⟨h.configured, ?_, ?_⟩, hbalance, ?_⟩
  · intro q' hq'
    obtain ⟨hopen, hmin, hcap⟩ := h.unrestricted q' (List.mem_cons_of_mem q hq')
    exact ⟨hopen, hmin, hcap⟩
  · intro d
    have hcovered := h.covered d
    rw [Request.totalOf_cons] at hcovered
    rw [hbalance]
    by_cases hd : q.developer = d
    · rw [if_pos hd] at hcovered
      rw [if_pos ⟨hd.symm, rfl⟩]
      omega
    · rw [if_neg hd] at hcovered
      rw [if_neg fun hk => hd hk.1.symm]
      omega
  · have hpaid := T.balance_sender hw.paid
    rw [if_neg hw.recipient_ne.symm, Int.add_zero] at hpaid
    exact hpaid

theorem log_requests_iff (h : s.Affords usdc qs)
    (hnonneg : 0 ≤ T.balance s.ledger usdc contract) :
    ((settlement T.toTokenContract contract).log s (qs.map Request.input)).map Entry.input =
        qs.map Request.input ↔ Request.total qs ≤ T.balance s.ledger usdc contract := by
  induction qs generalizing s with
  | nil => exact iff_of_true rfl hnonneg
  | cons q qs ih =>
    rw [List.map_cons, Machine.log_inputs_cons_iff, Request.total_cons]
    have hrest : 0 ≤ Request.total qs := Request.total_nonneg qs
    constructor
    · intro hall
      obtain ⟨r, s', hstep, hall⟩ := hall
      have hfunded := (step_request_iff h).1 ⟨r, s', hstep⟩
      obtain ⟨haffords, -, hheld⟩ := affords_of_request h hstep
      have hqs := (ih haffords (by omega)).1 hall
      omega
    · intro hsum
      have hfunded : q.amount.val ≤ T.balance s.ledger usdc contract := by omega
      obtain ⟨r, s', hstep⟩ := (step_request_iff h).2 hfunded
      obtain ⟨haffords, -, hheld⟩ := affords_of_request h hstep
      exact ⟨r, s', hstep, (ih haffords (by omega)).2 (by omega)⟩

theorem run_requests (h : s.Affords usdc qs)
    (hsum : Request.total qs ≤ T.balance s.ledger usdc contract) :
    let s' := (settlement T.toTokenContract contract).run s (qs.map Request.input)
    (∀ d t, (s'.balanceOf d t).val =
      (s.balanceOf d t).val - if t = usdc then Request.totalOf d qs else 0) ∧
    T.balance s'.ledger usdc contract = T.balance s.ledger usdc contract - Request.total qs := by
  induction qs generalizing s with
  | nil =>
    refine ⟨fun d t => ?_, (Int.sub_zero _).symm⟩
    have hzero : Request.totalOf d ([] : List (Request Address contract)) = 0 := rfl
    rw [hzero, ite_self, Int.sub_zero]
    rfl
  | cons q qs ih =>
    have hrest : 0 ≤ Request.total qs := Request.total_nonneg qs
    rw [Request.total_cons] at hsum
    have hfunded : q.amount.val ≤ T.balance s.ledger usdc contract := by omega
    obtain ⟨r, s₁, hstep⟩ := (step_request_iff h).2 hfunded
    obtain ⟨haffords, hbalance, hheld⟩ := affords_of_request h hstep
    obtain ⟨hbalances, hledger⟩ := ih haffords (by omega)
    intro s'
    have hrun : s' = (settlement T.toTokenContract contract).run s₁ (qs.map Request.input) := by
      simp only [s', List.map_cons, Machine.run, Machine.next_of_step hstep]
    rw [hrun, hledger, hheld, Request.total_cons]
    constructor
    · intro d t
      rw [hbalances, hbalance, Request.totalOf_cons]
      by_cases ht : t = usdc
      · by_cases hd : q.developer = d
        · rw [if_pos ht, if_pos ⟨hd.symm, ht⟩, if_pos ht, if_pos hd]
          omega
        · rw [if_pos ht, if_neg fun hk => hd hk.1.symm, if_pos ht, if_neg hd]
          omega
      · rw [if_neg ht, if_neg fun hk => ht hk.2, if_neg ht]
        omega
    · omega

theorem total_le_owed (h : s.Affords usdc qs)
    (hfinite : (Function.support fun d => (s.balanceOf d usdc).val).Finite) :
    Request.total qs ≤ ∑ᶠ d, (s.balanceOf d usdc).val := by
  have hnonneg (d : Address) : 0 ≤ (s.balanceOf d usdc).val :=
    (Request.total_nonneg _).trans (h.covered d)
  let W : Finset Address := hfinite.toFinset ∪ (qs.map Request.developer).toFinset
  have hmem : ∀ q ∈ qs, q.developer ∈ W := by
    intro q hq
    apply Finset.mem_union_right
    exact List.mem_toFinset.2 (List.mem_map_of_mem hq)
  have hsupport : (Function.support fun d => (s.balanceOf d usdc).val) ⊆ ↑W := by
    intro d hd
    exact Finset.mem_coe.2 (Finset.mem_union_left _ (hfinite.mem_toFinset.2 hd))
  rw [finsum_eq_sum_of_support_subset _ hsupport, ← Request.sum_totalOf hmem]
  apply Finset.sum_le_sum
  intro d _
  exact h.covered d

/-- From any reachable state unrestricted developers who ask for no more than they have are all paid
in full, in whatever order they come, exactly if the contract holds the sum of what they ask for;
and where it holds what it owes to all developers together, it does hold that. -/
theorem redemption_any_order (T : ExactToken Address Ledger) (ledger : Ledger)
    (inputs : List (Input Address Ledger contract)) {usdc : Address}
    {qs : List (Request Address contract)}
    (hqs : ((settlement T.toTokenContract contract).run (.deployed ledger) inputs).Affords usdc qs)
    (hnonneg : 0 ≤ T.balance ((settlement T.toTokenContract contract).run (.deployed ledger)
      inputs).ledger usdc contract) :
    let m := settlement T.toTokenContract contract
    let s := m.run (.deployed ledger) inputs
    let held := T.balance s.ledger usdc contract
    let owed := ∑ᶠ d, (s.balanceOf d usdc).val
    (∀ qs', qs.Perm qs' →
      ((m.log s (qs'.map Request.input)).map Entry.input = qs'.map Request.input ↔
        Request.total qs ≤ held) ∧
      (Request.total qs ≤ held →
        (∀ d t, ((m.run s (qs'.map Request.input)).balanceOf d t).val =
          (s.balanceOf d t).val - if t = usdc then Request.totalOf d qs else 0) ∧
        T.balance (m.run s (qs'.map Request.input)).ledger usdc contract =
          held - Request.total qs)) ∧
    (owed ≤ held → Request.total qs ≤ held) := by
  intro m s held owed
  constructor
  · intro qs' hperm
    have haffords := hqs.perm hperm
    have htotal : Request.total qs = Request.total qs' := Request.total_perm hperm
    rw [htotal]
    refine ⟨log_requests_iff haffords hnonneg, ?_⟩
    intro hsum
    obtain ⟨hbalances, hheld⟩ := run_requests haffords hsum
    refine ⟨fun d t => ?_, hheld⟩
    rw [Request.totalOf_perm hperm]
    exact hbalances d t
  · intro hbacked
    have hfinite := (owed_of_run T.toTokenContract ledger inputs usdc).1
    exact (total_le_owed hqs hfinite).trans hbacked

theorem redemption_any_order_two :
    let setup : List (Input ℕ (Balances ℕ) 0) :=
      [.call ⟨0, [1], by decide, fun _ => true⟩ (.init 1 2),
        .call ⟨0, [1], by decide, fun _ => true⟩ (.setUsdcToken 1 3),
        .call ⟨0, [2], by decide, fun _ => true⟩
          (.receivePayment 2 ⟨100, by decide⟩ false (some 4) 3 1),
        .call ⟨0, [2], by decide, fun _ => true⟩
          (.receivePayment 2 ⟨100, by decide⟩ false (some 5) 3 1)]
    let q₄ : Request ℕ 0 := ⟨twoSigners, 4, ⟨40, by decide⟩, none, by decide, by decide, by decide⟩
    let q₅ : Request ℕ 0 := ⟨twoSigners, 5, ⟨100, by decide⟩, none, by decide, by decide, by decide⟩
    let m := settlement (balanceToken ℕ).toTokenContract 0
    let s := m.run (.deployed fun _ _ => 200) setup
    let reversed := [q₅, q₄].map Request.input
    (m.log s reversed).map Entry.input = reversed ∧
      (balanceToken ℕ).balance (m.run s reversed).ledger 3 0 = 60 := by
  intro setup q₄ q₅ m s reversed
  have hfree : ∀ q ∈ [q₄, q₅], s.Unrestricted q := by
    intro q hq
    have hwindow (d : ℕ) : s.developerClaimWindow d = none := rfl
    have hmin : s.developerMinBalance q.developer = none := rfl
    have hcap : s.dailyWithdrawCap q.developer = none := rfl
    have hopen : s.ClaimOpen q.env q.developer := by
      intro window hw
      rw [hwindow] at hw
      cases hw
    refine ⟨hopen, ?_, ?_⟩
    · rw [getDeveloperMinBalance, hmin, Option.getD_none, I128.zero_val]
    · rw [getDailyWithdrawCap, hcap, Option.getD_none, I128.zero_val]
  have hcovered (d : ℕ) : Request.totalOf d [q₄, q₅] ≤ (s.balanceOf d 3).val := by
    by_cases h₄ : d = 4
    · rw [h₄]
      decide
    · by_cases h₅ : d = 5
      · rw [h₅]
        decide
      · have hnone : Request.totalOf d [q₄, q₅] = 0 := by
          simp only [Request.totalOf_cons, q₄, q₅, if_neg (Ne.symm h₄), if_neg (Ne.symm h₅)]
          rfl
        have hbalance : 0 ≤ (s.balanceOf d 3).val :=
          (books_run (balanceToken ℕ).toTokenContract (fun _ _ => 200) setup).1.nonneg
            (.developer d 3)
        rw [hnone]
        exact hbalance
  have hany := redemption_any_order (balanceToken ℕ) (fun _ _ => 200) setup
    ⟨rfl, hfree, hcovered⟩ (by decide)
  obtain ⟨horders, -⟩ := hany
  obtain ⟨hmet, hcost⟩ := horders [q₅, q₄] (List.Perm.swap q₅ q₄ [])
  have hsum : Request.total [q₄, q₅] ≤ (balanceToken ℕ).balance s.ledger 3 0 := by decide
  have hheld := (hcost hsum).2
  have hrest : (balanceToken ℕ).balance s.ledger 3 0 - Request.total [q₄, q₅] = 60 := by decide
  constructor
  · exact hmet.2 hsum
  · dsimp only [m, s, reversed]
    rw [hheld]
    exact hrest

end Callora.Settlement
