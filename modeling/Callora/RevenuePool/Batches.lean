import Callora.RevenuePool.Accounting

/-! Batches of distributions. A batch is the distributions of its legs one after the other, checked
as a whole; a payout of any length is cut into batches that follow one another. -/

namespace Callora.RevenuePool
open Library

variable {Address Ledger : Type} [DecidableEq Address] {contract : Address}
  {env : Env Address contract} {s s' : State Address Ledger} {caller usdc : Address}
  {payments : List (Address × I128)} {u : Unit} {T : ExactToken Address Ledger}

/-! Paying in order. -/

omit [DecidableEq Address] in
theorem payAll_append {T : TokenContract Address Ledger} {xs ys : List (Address × I128)}
    {l : Ledger} : payAll T contract usdc l (xs ++ ys) =
      (payAll T contract usdc l xs).bind fun mid => payAll T contract usdc mid ys := by
  induction xs generalizing l with
  | nil => rfl
  | cons p xs ih => simp only [List.cons_append, payAll, ih, Option.bind_assoc]

omit [DecidableEq Address] in
theorem totalAmount_append (xs ys : List (Address × I128)) :
    totalAmount (xs ++ ys) = totalAmount xs + totalAmount ys := by
  unfold totalAmount
  rw [List.map_append, List.sum_append]

theorem exists_payAll {l : Ledger} (hext : ∀ p ∈ payments, p.1 ≠ contract)
    (hpos : ∀ p ∈ payments, 0 < p.2.val)
    (hcov : totalAmount payments ≤ T.balance l usdc contract) :
    ∃ l', payAll T.toTokenContract contract usdc l payments = some l' := by
  induction payments generalizing l with
  | nil => exact ⟨l, rfl⟩
  | cons p payments ih =>
    obtain ⟨hp, hext⟩ := List.forall_mem_cons.1 hext
    obtain ⟨hamount, hpos⟩ := List.forall_mem_cons.1 hpos
    have hrest := totalAmount_nonneg hpos
    rw [totalAmount_cons] at hcov
    have hfunds : p.2.val ≤ T.balance l usdc contract := by omega
    have hsome := (T.transfer_isSome l usdc contract p.1 p.2.val).2 ⟨hamount.le, hfunds⟩
    obtain ⟨mid, hmid⟩ := Option.isSome_iff_exists.1 hsome
    have hsender := T.balance_sender hmid
    rw [if_neg hp.symm, Int.add_zero] at hsender
    obtain ⟨l', hpaid⟩ := ih hext hpos (by rw [hsender]; omega)
    exact ⟨l', Option.bind_eq_some_iff.2 ⟨mid, hmid, hpaid⟩⟩

structure State.Affords (T : ExactToken Address Ledger) (contract : Address)
    (s : State Address Ledger) (admin : Address) (payments : List (Address × I128))
    (usdc : Address) : Prop where
  admin : s.admin = some admin
  unpaused : isPaused s = false
  capped : ∀ p ∈ payments, 0 < p.2.val ∧ p.2.val ≤ (getMaxDistribute s).val
  external : ∀ p ∈ payments, p.1 ≠ contract
  configured : s.usdcToken = some usdc
  covered : totalAmount payments ≤ T.balance s.ledger usdc contract

theorem Distribution.affords {ledger : Ledger}
    (h : Distribution T.toTokenContract env s caller payments usdc ledger) :
    s.Affords T contract caller payments usdc :=
  ⟨h.admin.2, h.unpaused, h.capped, h.external, h.configured, h.covered⟩

theorem State.Affords.distribution {ledger : Ledger}
    (h : s.Affords T contract caller payments usdc) (hauth : caller ∈ env.signers)
    (hpaid : payAll T.toTokenContract contract usdc s.ledger payments = some ledger) :
    Distribution T.toTokenContract env s caller payments usdc ledger :=
  ⟨⟨hauth, h.admin⟩, h.unpaused, h.capped, h.external, h.configured, h.covered, hpaid⟩

theorem State.Affords.exists_payAll (h : s.Affords T contract caller payments usdc) :
    ∃ ledger, payAll T.toTokenContract contract usdc s.ledger payments = some ledger :=
  RevenuePool.exists_payAll h.external (fun p hp => (h.capped p hp).1) h.covered

theorem exists_distribution_iff :
    (∃ ledger, Distribution T.toTokenContract env s caller payments usdc ledger) ↔
      caller ∈ env.signers ∧ s.Affords T contract caller payments usdc := by
  constructor
  · intro h
    obtain ⟨ledger, hdist⟩ := h
    exact ⟨hdist.admin.1, hdist.affords⟩
  · intro h
    obtain ⟨hauth, haffords⟩ := h
    obtain ⟨ledger, hpaid⟩ := haffords.exists_payAll
    exact ⟨ledger, haffords.distribution hauth hpaid⟩

theorem distribution_append_iff {xs ys : List (Address × I128)} {mid ledger : Ledger}
    {events : List (Event Address)}
    (hmid : payAll T.toTokenContract contract usdc s.ledger xs = some mid) :
    Distribution T.toTokenContract env s caller (xs ++ ys) usdc ledger ↔
      Distribution T.toTokenContract env s caller xs usdc mid ∧
      Distribution T.toTokenContract env { s with ledger := mid, events := events } caller ys usdc
        ledger := by
  constructor
  · intro h
    obtain ⟨hcapped, hcapped'⟩ := List.forall_mem_append.1 h.capped
    obtain ⟨hext, hext'⟩ := List.forall_mem_append.1 h.external
    have hheld := balance_payAll hext hmid
    have hcov := h.covered
    have hrest := totalAmount_nonneg fun q hq => (hcapped' q hq).1
    have hpaid := h.paid
    rw [totalAmount_append] at hcov
    rw [payAll_append, hmid, Option.bind_some] at hpaid
    refine ⟨⟨h.admin, h.unpaused, hcapped, hext, h.configured, ?_, hmid⟩,
      ⟨h.admin, h.unpaused, hcapped', hext', h.configured, ?_, hpaid⟩⟩
    · omega
    · rw [hheld]
      omega
  · intro h
    obtain ⟨hfirst, hrest⟩ := h
    have hheld := balance_payAll hfirst.external hmid
    have hcov := hrest.covered
    rw [hheld] at hcov
    have hcapped' : ∀ q ∈ ys, 0 < q.2.val ∧ q.2.val ≤ (getMaxDistribute s).val := hrest.capped
    refine ⟨hfirst.admin, hfirst.unpaused, List.forall_mem_append.2 ⟨hfirst.capped, hcapped'⟩,
      List.forall_mem_append.2 ⟨hfirst.external, hrest.external⟩, hfirst.configured, ?_, ?_⟩
    · rw [totalAmount_append]
      omega
    · rw [payAll_append, hmid, Option.bind_some]
      exact hrest.paid

/-! Distributing the legs one by one. -/

def distributes (T : TokenContract Address Ledger) (env : Env Address contract) (caller : Address)
    (payments : List (Address × I128)) : Tx Address Ledger Unit :=
  forM payments fun p => distribute T env caller p.1 p.2

theorem run_distributes_eq_ok (hne : payments ≠ []) :
    (distributes T.toTokenContract env caller payments).run s = .ok u s' ↔
      ∃ usdc ledger, Distribution T.toTokenContract env s caller payments usdc ledger ∧
        s' = { s with
          ledger := ledger
          events := s.events ++ payments.map fun p => .distribute p.1 p.2 } := by
  unfold distributes
  induction payments generalizing s with
  | nil => exact absurd rfl hne
  | cons p payments ih =>
    simp only [Call.run_forM_cons_eq_ok, run_distribute_eq_ok, List.map_cons]
    rcases payments with _ | ⟨q, payments⟩
    · constructor
      · intro h
        obtain ⟨s₁, ⟨usdc, ledger, hone, rfl⟩, hnil⟩ := h
        obtain rfl := Call.run_forM_nil_eq_ok.1 hnil
        exact ⟨usdc, ledger, hone, rfl⟩
      · intro h
        obtain ⟨usdc, ledger, hone, rfl⟩ := h
        exact ⟨_, ⟨usdc, ledger, hone, rfl⟩, Call.run_forM_nil_eq_ok.2 rfl⟩
    · constructor
      · intro h
        obtain ⟨s₁, ⟨usdc, mid, hone, rfl⟩, hrest⟩ := h
        obtain ⟨usdc', ledger, hmore, rfl⟩ := (ih (List.cons_ne_nil _ _)).1 hrest
        obtain rfl := Option.some.inj (hone.configured.symm.trans hmore.configured)
        refine ⟨usdc, ledger, (distribution_append_iff hone.paid).2 ⟨hone, hmore⟩, ?_⟩
        rw [List.append_assoc]
        rfl
      · intro h
        obtain ⟨usdc, ledger, hall, rfl⟩ := h
        obtain ⟨mid, hmid, -⟩ := Option.bind_eq_some_iff.1 hall.paid
        rw [← payAll_singleton] at hmid
        obtain ⟨hone, hmore⟩ := (distribution_append_iff hmid).1 hall
        refine ⟨_, ⟨usdc, mid, hone, rfl⟩, (ih (List.cons_ne_nil _ _)).2 ⟨usdc, ledger, hmore, ?_⟩⟩
        rw [List.append_assoc]
        rfl

/-- When a batch is accepted, as a condition on the state it meets. -/
def State.TakesPayout (T : ExactToken Address Ledger) (s : State Address Ledger)
    (env : Env Address contract) (caller : Address) (payments : List (Address × I128)) : Prop :=
  ValidBatch payments ∧ caller ∈ env.signers ∧ ∃ usdc, s.Affords T contract caller payments usdc

theorem batchDistribute_isSome_iff :
    ((batchDistribute T.toTokenContract env caller payments).commit s).isSome ↔
      s.TakesPayout T env caller payments := by
  rw [Call.commit_isSome]
  constructor
  · intro h
    obtain ⟨s', hrun⟩ := h
    obtain ⟨hbatch, usdc, ledger, hdist, -⟩ := run_batchDistribute_eq_ok.1 hrun
    obtain ⟨hauth, haffords⟩ := exists_distribution_iff.1 ⟨ledger, hdist⟩
    exact ⟨hbatch, hauth, usdc, haffords⟩
  · intro h
    obtain ⟨hbatch, hauth, usdc, haffords⟩ := h
    obtain ⟨ledger, hdist⟩ := exists_distribution_iff.2 ⟨hauth, haffords⟩
    exact ⟨_, run_batchDistribute_eq_ok.2 ⟨hbatch, usdc, ledger, hdist, rfl⟩⟩

theorem distributes_isSome_iff (hne : payments ≠ []) :
    ((distributes T.toTokenContract env caller payments).commit s).isSome ↔
      caller ∈ env.signers ∧ ∃ usdc, s.Affords T contract caller payments usdc := by
  rw [Call.commit_isSome]
  constructor
  · intro h
    obtain ⟨s', hrun⟩ := h
    obtain ⟨usdc, ledger, hdist, -⟩ := (run_distributes_eq_ok hne).1 hrun
    obtain ⟨hauth, haffords⟩ := exists_distribution_iff.1 ⟨ledger, hdist⟩
    exact ⟨hauth, usdc, haffords⟩
  · intro h
    obtain ⟨hauth, usdc, haffords⟩ := h
    obtain ⟨ledger, hdist⟩ := exists_distribution_iff.2 ⟨hauth, haffords⟩
    exact ⟨_, (run_distributes_eq_ok hne).2 ⟨usdc, ledger, hdist, rfl⟩⟩

/-- A batch of 1 to 50 legs to different recipients goes through exactly if its legs do one after
the other, and leaves the same ledger; it is accepted exactly under the conditions listed, and what
is refused changes nothing. What the pool holds of its token is an `i128`. -/
theorem batchDistribute_eq_distributes (T : ExactToken Address Ledger) (env : Env Address contract)
    (s : State Address Ledger) (caller : Address) (payments : List (Address × I128))
    (hheld : ∀ usdc, s.usdcToken = some usdc →
      T.balance s.ledger usdc contract ≤ I128.max.val) :
    let batch := (batchDistribute T.toTokenContract env caller payments).commit s
    let singles := (distributes T.toTokenContract env caller payments).commit s
    (0 < payments.length → payments.length ≤ 50 → (payments.map Prod.fst).Nodup →
      (batch.isSome ↔ singles.isSome) ∧ ∀ s₁ s₂, batch = some ((), s₁) →
        singles = some ((), s₂) → s₁.ledger = s₂.ledger) ∧
    (batch.isSome ↔ caller ∈ env.signers ∧ s.admin = some caller ∧ isPaused s = false ∧
      0 < payments.length ∧ payments.length ≤ 50 ∧ (payments.map Prod.fst).Nodup ∧
      (∀ p ∈ payments, p.1 ≠ contract ∧ 0 < p.2.val ∧ p.2.val ≤ (getMaxDistribute s).val) ∧
      ∃ usdc, s.usdcToken = some usdc ∧ totalAmount payments ≤ I128.max.val ∧
        totalAmount payments ≤ T.balance s.ledger usdc contract) ∧
    (batch = none → (revenuePool T.toTokenContract contract).next s
      (.call env (.batchDistribute caller payments)) = s) := by
  intro batch singles
  refine ⟨?_, ?_, ?_⟩
  · intro hpos hlen hnodup
    have hne := List.ne_nil_of_length_pos hpos
    constructor
    · have hbatch : batch.isSome ↔ s.TakesPayout T env caller payments := batchDistribute_isSome_iff
      have hsingles : singles.isSome ↔ caller ∈ env.signers ∧
          ∃ usdc, s.Affords T contract caller payments usdc := distributes_isSome_iff hne
      rw [hbatch, hsingles]
      constructor
      · intro h
        exact h.2
      · intro h
        obtain ⟨hauth, usdc, haffords⟩ := h
        -- a total that the pool holds does not overflow
        have htotal := haffords.covered.trans (hheld usdc haffords.configured)
        exact ⟨⟨hne, hlen, hnodup, htotal⟩, hauth, usdc, haffords⟩
    · intro s₁ s₂ hbatch hsingles
      obtain ⟨-, usdc, ledger, hdist, rfl⟩ :=
        run_batchDistribute_eq_ok.1 (Call.commit_eq_some.1 hbatch)
      obtain ⟨usdc', ledger', hdist', rfl⟩ :=
        (run_distributes_eq_ok hne).1 (Call.commit_eq_some.1 hsingles)
      obtain rfl := Option.some.inj (hdist.configured.symm.trans hdist'.configured)
      exact Option.some.inj (hdist.paid.symm.trans hdist'.paid)
  · have hbatch : batch.isSome ↔ s.TakesPayout T env caller payments := batchDistribute_isSome_iff
    rw [hbatch]
    constructor
    · intro h
      obtain ⟨⟨hne, hlen, hnodup, htotal⟩, hauth, usdc, haffords⟩ := h
      have hlegs : ∀ p ∈ payments, p.1 ≠ contract ∧ 0 < p.2.val ∧
          p.2.val ≤ (getMaxDistribute s).val :=
        fun p hp => ⟨haffords.external p hp, haffords.capped p hp⟩
      exact ⟨hauth, haffords.admin, haffords.unpaused, List.length_pos_of_ne_nil hne, hlen, hnodup,
        hlegs, usdc, haffords.configured, htotal, haffords.covered⟩
    · intro h
      obtain ⟨hauth, hadmin, hpaused, hpos, hlen, hnodup, hlegs, usdc, husdc, htotal, hcov⟩ := h
      refine ⟨⟨List.ne_nil_of_length_pos hpos, hlen, hnodup, htotal⟩, hauth, usdc, hadmin,
        hpaused, ?_, ?_, husdc, hcov⟩
      · intro p hp
        exact (hlegs p hp).2
      · intro p hp
        exact (hlegs p hp).1
  · intro hfails
    exact Machine.next_of_rollback hfails

theorem batchDistribute_eq_distributes_guarded :
    let T := balanceToken ℕ
    let env : Env ℕ 0 := .signedBy 1 0 (by decide)
    let payments : List (ℕ × I128) := [(5, ⟨30, by decide⟩), (6, ⟨70, by decide⟩)]
    let batch := (batchDistribute T.toTokenContract env 1 payments).commit guardedPool
    let singles := (distributes T.toTokenContract env 1 payments).commit guardedPool
    batch.isSome ∧ (batch.isSome ↔ singles.isSome) := by
  intro T env payments batch singles
  have hheld : ∀ usdc, guardedPool.usdcToken = some usdc →
      T.balance guardedPool.ledger usdc 0 ≤ I128.max.val := by
    intro usdc husdc
    obtain rfl : 4 = usdc := Option.some.inj husdc
    decide
  obtain ⟨hsame, -⟩ := batchDistribute_eq_distributes T env guardedPool 1 payments hheld
  exact ⟨rfl, (hsame (by decide) (by decide) (by decide)).1⟩

end Callora.RevenuePool
