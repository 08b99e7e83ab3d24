import Callora.Settlement.Redemption

/-! Winding the contract down. Whatever limits a run has left in place and whatever token it pays
in, the admin alone can free the developers, and then they are all paid what they are owed. -/

namespace Callora.Settlement
open Library

variable {Address Ledger : Type} [LinearOrder Address] {contract : Address}
  {T : TokenContract Address Ledger} {env : Env Address contract} {s : State Address Ledger}
  {admin token developer d : Address} {developers : List Address}

/-! The admin's part. -/

/-- The calls that lift what restricts `developer`. -/
def freeing (env : Env Address contract) (admin developer : Address) :
    List (Input Address Ledger contract) :=
  [.call env (.clearDeveloperClaimWindow admin developer),
    .call env (.setDailyWithdrawCap admin developer 0),
    .call env (.setDeveloperMinBalance admin developer 0)]

/-- The calls that make the contract pay in `token`, and lift what restricts the `developers`. -/
def unlocking (env : Env Address contract) (admin token : Address) (developers : List Address) :
    List (Input Address Ledger contract) :=
  .call env (.setUsdcToken admin token) :: developers.flatMap (freeing env admin)

def State.free (s : State Address Ledger) (admin developer : Address) : State Address Ledger :=
  { s with
    developerClaimWindow := s.developerClaimWindow.remove developer
    dailyWithdrawCap := s.dailyWithdrawCap.set developer 0
    developerMinBalance := s.developerMinBalance.set developer 0
    events := s.events ++ [.claimWindowChanged developer 0 0 false] ++
      [.dailyWithdrawCapChanged admin developer 0] ++ [.developerMinBalanceChanged developer 0] }

def State.freeAll (s : State Address Ledger) (admin : Address) (developers : List Address) :
    State Address Ledger :=
  developers.foldl (fun s developer => s.free admin developer) s

theorem step_liftWindow (h : s.ByAdmin env admin) :
    (settlement T contract).step s (.call env (.clearDeveloperClaimWindow admin developer)) =
      some (.unit, { s with
        developerClaimWindow := s.developerClaimWindow.remove developer
        events := s.events ++ [.claimWindowChanged developer 0 0 false] }) := by
  apply Call.commit_eq_some.2
  apply run_returning_eq_ok.2
  exact ⟨(), run_clearDeveloperClaimWindow_eq_ok.2 ⟨h, rfl⟩, rfl⟩

theorem step_liftCap (h : s.ByAdmin env admin) :
    (settlement T contract).step s (.call env (.setDailyWithdrawCap admin developer 0)) =
      some (.unit, { s with
        dailyWithdrawCap := s.dailyWithdrawCap.set developer 0
        events := s.events ++ [.dailyWithdrawCapChanged admin developer 0] }) := by
  apply Call.commit_eq_some.2
  apply run_returning_eq_ok.2
  exact ⟨(), run_setDailyWithdrawCap_eq_ok.2 ⟨h, rfl⟩, rfl⟩

theorem step_liftMinBalance (h : s.ByAdmin env admin) :
    (settlement T contract).step s (.call env (.setDeveloperMinBalance admin developer 0)) =
      some (.unit, { s with
        developerMinBalance := s.developerMinBalance.set developer 0
        events := s.events ++ [.developerMinBalanceChanged developer 0] }) := by
  apply Call.commit_eq_some.2
  apply run_returning_eq_ok.2
  exact ⟨(), run_setDeveloperMinBalance_eq_ok.2 ⟨h, le_rfl, rfl⟩, rfl⟩

theorem commits_freeing (h : s.ByAdmin env admin) :
    (settlement T contract).Commits s (freeing env admin developer) (s.free admin developer) := by
  refine .cons (step_liftWindow h) (.cons (step_liftCap ?_) (.cons (step_liftMinBalance ?_) ?_))
  · exact h
  · exact h
  · exact Machine.Commits.nil ..

theorem commits_freeing_all (h : s.ByAdmin env admin) :
    (settlement T contract).Commits s (developers.flatMap (freeing env admin))
      (s.freeAll admin developers) := by
  induction developers generalizing s with
  | nil => exact Machine.Commits.nil ..
  | cons developer developers ih =>
    have hadmin : (s.free admin developer).ByAdmin env admin := h
    exact (commits_freeing h).append (ih hadmin)

theorem commits_unlocking (h : s.ByAdmin env admin) (htoken : token ≠ contract) :
    (settlement T contract).Commits s (unlocking env admin token developers)
      (State.freeAll { s with usdc := some token } admin developers) := by
  have hset := (run_setUsdcToken_eq_ok (u := ())).2 ⟨h, htoken, rfl⟩
  apply Machine.Commits.cons (Call.commit_eq_some.2 (run_returning_eq_ok.2 ⟨(), hset, rfl⟩))
  exact commits_freeing_all h

structure State.Free (s : State Address Ledger) (developer : Address) : Prop where
  window : s.developerClaimWindow developer = none
  cap : s.dailyWithdrawCap developer = some 0
  minBalance : s.developerMinBalance developer = some 0

theorem State.Free.free (h : s.Free d) : (s.free admin developer).Free d := by
  by_cases hd : d = developer
  · rw [hd]
    exact ⟨Store.remove_self .., Store.set_self .., Store.set_self ..⟩
  · exact ⟨(Store.remove_of_ne hd).trans h.window, (Store.set_of_ne hd).trans h.cap,
      (Store.set_of_ne hd).trans h.minBalance⟩

theorem State.Free.freeAll (h : s.Free d) : (s.freeAll admin developers).Free d := by
  induction developers generalizing s with
  | nil => exact h
  | cons developer developers ih => exact ih h.free

theorem free_freeAll (hd : d ∈ developers) : (s.freeAll admin developers).Free d := by
  induction developers generalizing s with
  | nil => cases hd
  | cons developer developers ih =>
    rcases List.mem_cons.1 hd with rfl | hd
    · have hfree : (s.free admin d).Free d :=
        ⟨Store.remove_self .., Store.set_self .., Store.set_self ..⟩
      exact hfree.freeAll
    · exact ih hd

theorem frame_freeAll : (s.freeAll admin developers).usdc = s.usdc ∧
    (s.freeAll admin developers).developerBalance = s.developerBalance ∧
    (s.freeAll admin developers).ledger = s.ledger := by
  induction developers generalizing s with
  | nil => exact ⟨rfl, rfl, rfl⟩
  | cons developer developers ih => exact ih (s := s.free admin developer)

omit [LinearOrder Address] in
theorem State.Free.unrestricted {q : Request Address contract} (h : s.Free q.developer) :
    s.Unrestricted q := by
  refine ⟨?_, ?_, ?_⟩
  · intro window hwindow
    rw [h.window] at hwindow
    cases hwindow
  · rw [getDeveloperMinBalance, h.minBalance, Option.getD_some, I128.zero_val]
  · rw [getDailyWithdrawCap, h.cap, Option.getD_some, I128.zero_val]

/-! The developers' part. -/

/-- In every reachable state in which the contract holds of a token what it owes in it, the admin
can, by its own calls alone, free the developers so that they are all paid everything, in as many
parts and in whatever order they please. -/
theorem settlement_winds_down (T : ExactToken Address Ledger) (ledger : Ledger)
    (inputs : List (Input Address Ledger contract)) (env : Env Address contract)
    (admin token : Address) (qs : List (Request Address contract)) :
    let m := settlement T.toTokenContract contract
    let s := m.run (.deployed ledger) inputs
    let held := T.balance s.ledger token contract
    let owed := ∑ᶠ d, (s.balanceOf d token).val
    s.ByAdmin env admin → token ≠ contract → owed ≤ held →
    (∀ d, d ≠ contract → Request.totalOf d qs = (s.balanceOf d token).val) →
    ∀ qs', qs.Perm qs' → ∃ t,
      m.Commits s
        (unlocking env admin token (qs.map Request.developer) ++ qs'.map Request.input) t ∧
        (∀ d, d ≠ contract → (t.balanceOf d token).val = 0) ∧
        (∀ d token', token' ≠ token → t.balanceOf d token' = s.balanceOf d token') ∧
        T.balance t.ledger token contract = held - Request.total qs := by
  intro m s held owed hadmin htoken hbacked hqs qs' hperm
  have hmember : ∀ q ∈ qs', q.developer ∈ qs.map Request.developer := by
    intro q hq
    exact List.mem_map_of_mem (hperm.mem_iff.2 hq)
  let u : State Address Ledger :=
    State.freeAll { s with usdc := some token } admin (qs.map Request.developer)
  have hunlock : m.Commits s (unlocking env admin token (qs.map Request.developer)) u :=
    commits_unlocking hadmin htoken
  obtain ⟨hconfigured, hbalances, hledger⟩ :
      u.usdc = some token ∧ u.developerBalance = s.developerBalance ∧ u.ledger = s.ledger :=
    frame_freeAll
  have hsame (d t : Address) : u.balanceOf d t = s.balanceOf d t := by
    unfold State.balanceOf
    rw [hbalances]
  have hnonneg (d : Address) : 0 ≤ (s.balanceOf d token).val :=
    (books_run T.toTokenContract ledger inputs).1.nonneg (.developer d token)
  -- the contract signs nothing, so it requests nothing
  have hself : Request.totalOf contract qs = 0 := by
    have hnone : (qs.filter fun q => q.developer = contract) = [] := by
      apply List.filter_eq_nil_iff.2
      intro q _
      rw [decide_eq_true_eq]
      exact Env.ne_contract q.authorized
    rw [Request.totalOf, hnone, Request.total_nil]
  have haffords : u.Affords token qs' := by
    refine ⟨hconfigured, fun q hq => (free_freeAll (hmember q hq)).unrestricted, ?_⟩
    intro d
    rw [hsame, ← Request.totalOf_perm hperm]
    by_cases hd : d = contract
    · rw [hd, hself]
      exact hnonneg contract
    · exact (hqs d hd).le
  have hfinite : (Function.support fun d => (u.balanceOf d token).val).Finite := by
    simp only [hsame]
    exact (owed_of_run T.toTokenContract ledger inputs token).1
  have hsum : Request.total qs' ≤ T.balance u.ledger token contract := by
    have howed := total_le_owed haffords hfinite
    simp only [hsame] at howed
    rw [hledger]
    exact howed.trans hbacked
  have hheld : 0 ≤ T.balance u.ledger token contract := (Request.total_nonneg qs').trans hsum
  rcases run_requests haffords hsum with ⟨hpaid, hleft⟩
  refine ⟨m.run u (qs'.map Request.input),
    hunlock.append ⟨(log_requests_iff haffords hheld).2 hsum, rfl⟩, ?_, ?_, ?_⟩
  · intro d hd
    rw [hpaid, if_pos rfl, ← Request.totalOf_perm hperm, hqs d hd, hsame]
    exact Int.sub_self _
  · intro d token' htoken'
    apply MachineInt.ext
    rw [hpaid, if_neg htoken', hsame, Int.sub_zero]
  · rw [hleft, hledger, Request.total_perm hperm]

theorem settlement_winds_down_restricted :
    let byAdmin : Env ℕ 0 := ⟨0, [1], by decide, fun _ => true⟩
    let byVault : Env ℕ 0 := ⟨0, [2], by decide, fun _ => true⟩
    let setup : List (Input ℕ (Balances ℕ) 0) :=
      [.call byAdmin (.init 1 2),
        .call byVault (.receivePayment 2 ⟨100, by decide⟩ false (some 4) 3 1),
        .call byVault (.receivePayment 2 ⟨100, by decide⟩ false (some 5) 3 1),
        .call byAdmin (.setDailyWithdrawCap 1 4 ⟨10, by decide⟩),
        .call byAdmin (.setDeveloperMinBalance 1 4 ⟨50, by decide⟩),
        .call byAdmin (.setDeveloperClaimWindow 1 5 7 8),
        .call byAdmin (.setUsdcToken 1 6)]
    let q₄ : Request ℕ 0 := ⟨twoSigners, 4, ⟨40, by decide⟩, none, by decide, by decide, by decide⟩
    let q₄' : Request ℕ 0 := ⟨twoSigners, 4, ⟨60, by decide⟩, none, by decide, by decide, by decide⟩
    let q₅ : Request ℕ 0 := ⟨twoSigners, 5, ⟨100, by decide⟩, none, by decide, by decide, by decide⟩
    let m := settlement (balanceToken ℕ).toTokenContract 0
    let s := m.run (.deployed fun _ _ => 200) setup
    ∃ t, m.Commits s (unlocking byAdmin 1 3 [4, 4, 5] ++ [q₄', q₄, q₅].map Request.input) t ∧
      (t.balanceOf 4 3).val = 0 ∧ (t.balanceOf 5 3).val = 0 ∧
      (balanceToken ℕ).balance t.ledger 3 0 = 0 := by
  intro byAdmin byVault setup q₄ q₄' q₅ m s
  have hbalances : s.developerBalance =
      (Store.empty.set (4, 3) ⟨100, by decide⟩).set (5, 3) ⟨100, by decide⟩ := rfl
  have hqs (d : ℕ) (hd : d ≠ 0) :
      Request.totalOf d [q₄, q₄', q₅] = (s.balanceOf d 3).val := by
    by_cases h₄ : d = 4
    · rw [h₄]
      decide
    · by_cases h₅ : d = 5
      · rw [h₅]
        decide
      · have hnone : s.balanceOf d 3 = 0 := by
          simp [State.balanceOf, hbalances, h₄, h₅]
        rw [hnone]
        simp only [Request.totalOf_cons, q₄, q₄', q₅, if_neg (Ne.symm h₄), if_neg (Ne.symm h₅)]
        rfl
  have hbacked : ∑ᶠ d, (s.balanceOf d 3).val ≤ (balanceToken ℕ).balance s.ledger 3 0 := by
    have howed := (owed_of_run (balanceToken ℕ).toTokenContract (fun _ _ => 200) setup 3).2
    rw [howed]
    decide
  have hperm : [q₄, q₄', q₅].Perm [q₄', q₄, q₅] := List.Perm.swap q₄' q₄ [q₅]
  rcases settlement_winds_down (balanceToken ℕ) (fun _ _ => 200) setup byAdmin 1 3 [q₄, q₄', q₅]
    ⟨by decide, rfl⟩ (by decide) hbacked hqs [q₄', q₄, q₅] hperm with ⟨t, hcommits, hpaid, -, hheld⟩
  refine ⟨t, hcommits, hpaid 4 (by decide), hpaid 5 (by decide), ?_⟩
  rw [hheld]
  decide

end Callora.Settlement
