import Callora.Library.Journal
import Callora.Settlement.Run

/-! The books of the settlement contract. A state shows one account for every developer and token
and one for the pool; a committed step posts the payments, force credits, withdrawals and transfers
that its log entry names, and the contract's balances are the journal of everything posted. -/

namespace Callora.Settlement
open Library

inductive Account (Address : Type) where
  | developer (developer token : Address)
  | pool
deriving DecidableEq

abbrev Postings (Address : Type) : Type := List (Posting (Account Address))

variable {Address Ledger : Type} [LinearOrder Address] {contract : Address}
  {T : TokenContract Address Ledger} {env : Env Address contract} {s s' : State Address Ledger}

def booksOf (balances : Store (Address × Address) I128) (pool : Option GlobalPool) :
    Account Address → ℤ
  | .developer developer token => ((balances (developer, token)).getD 0).val
  | .pool => (pool.map fun p => p.totalBalance.val).getD 0

def poolTotal (s : State Address Ledger) : ℤ :=
  (s.globalPool.map fun p => p.totalBalance.val).getD 0

def books (s : State Address Ledger) : Account Address → ℤ :=
  booksOf s.developerBalance s.globalPool

/-! What a log entry posts. -/

def payments (e : LogEntry Address Ledger contract) : Postings Address :=
  match e.input with
  | .call _ (.receivePayment _ amount true _ _ _) => [⟨.pool, amount.val⟩]
  | .call _ (.receivePayment _ amount false developer token _) =>
    developer.toList.map fun d => ⟨.developer d token, amount.val⟩
  | .call _ (.batchReceivePayment _ items token _) =>
    items.map fun item => ⟨.developer item.1 token, item.2.val⟩
  | _ => []

def forceCredits (e : LogEntry Address Ledger contract) : Postings Address :=
  match e.input with
  | .call _ (.forceCreditDeveloper _ developer amount token _) =>
    [⟨.developer developer token, amount.val⟩]
  | _ => []

def settledPostings (usdc : Option Address) (settlements : List (SettleInput Address))
    (outcomes : List SettleOutcome) : Postings Address :=
  (settlements.zip outcomes).filterMap fun p =>
    if p.2 = .success then usdc.map fun token => ⟨.developer p.1.developer token, p.1.amount.val⟩
    else none

def withdrawals (e : LogEntry Address Ledger contract) : Postings Address :=
  match e.input, e.output with
  | .call _ (.withdrawDeveloperBalance developer amount _), _ =>
    e.pre.usdc.toList.map fun token => ⟨.developer developer token, amount.val⟩
  | .call _ (.batchSettle settlements), .outcomes outcomes =>
    settledPostings e.pre.usdc settlements outcomes
  | _, _ => []

def transfers (e : LogEntry Address Ledger contract) : Postings Address :=
  match e.input, e.pre.usdc with
  | .call _ (.executeBalanceMigration _ «from»), some token =>
    (e.pre.pendingDeveloperMigration «from»).toList.flatMap fun migration =>
      [⟨.developer «from» token, -migration.amount.val⟩,
        ⟨.developer migration.to token, migration.amount.val⟩]
  | _, _ => []

def postings (e : LogEntry Address Ledger contract) : Postings Address :=
  payments e ++ forceCredits e ++ transfers e ++ Journal.reverse (withdrawals e)

/-! Reading the books after a write. -/

theorem booksOf_set (balances : Store (Address × Address) I128) (pool : Option GlobalPool)
    (d t : Address) (balance : I128) :
    booksOf (balances.set (d, t) balance) pool =
      Function.update (booksOf balances pool) (.developer d t) balance.val := by
  funext k
  cases k with
  | developer d' t' =>
    by_cases h : (d', t') = (d, t)
    · obtain ⟨rfl, rfl⟩ := Prod.ext_iff.1 h
      simp [booksOf]
    · have hne : Account.developer d' t' ≠ .developer d t := fun hk => by
        cases hk
        exact h rfl
      rw [Function.update_of_ne hne]
      simp only [booksOf, Store.set_of_ne h]
  | pool =>
    rw [Function.update_of_ne (by simp)]
    rfl

theorem booksOf_credit {balances : Store (Address × Address) I128} {pool : Option GlobalPool}
    {d t : Address} {amount balance : I128}
    (h : balance.val = ((balances (d, t)).getD 0).val + amount.val) :
    booksOf (balances.set (d, t) balance) pool =
      Journal.post (booksOf balances pool) [⟨.developer d t, amount.val⟩] := by
  rw [booksOf_set, Journal.post_singleton, h]
  rfl

theorem booksOf_debit {balances : Store (Address × Address) I128} {pool : Option GlobalPool}
    {d t : Address} {amount balance : I128}
    (h : balance.val = ((balances (d, t)).getD 0).val - amount.val) :
    booksOf (balances.set (d, t) balance) pool =
      Journal.post (booksOf balances pool) [⟨.developer d t, -amount.val⟩] := by
  rw [booksOf_set, Journal.post_singleton, h, Int.sub_eq_add_neg]
  rfl

theorem booksOf_pool (balances : Store (Address × Address) I128) (now : ℕ) {pool : GlobalPool}
    {amount total : I128} (h : total.val = pool.totalBalance.val + amount.val) :
    booksOf balances (some ⟨total, now⟩) =
      Journal.post (booksOf balances (some pool)) [⟨.pool, amount.val⟩] := by
  rw [Journal.post_singleton]
  funext k
  cases k with
  | developer d t =>
    rw [Function.update_of_ne (by simp)]
    rfl
  | pool => simp [booksOf, h]

theorem nonneg_set {balances : Store (Address × Address) I128} {pool : Option GlobalPool}
    {d t : Address} {balance : I128} (hb : ∀ k, 0 ≤ booksOf balances pool k)
    (h : 0 ≤ balance.val) (k : Account Address) :
    0 ≤ booksOf (balances.set (d, t) balance) pool k := by
  rw [booksOf_set, Function.update_apply]
  split_ifs
  · exact h
  · exact hb k

theorem books_creditItems {token : Address} {items : List (Address × I128)} {u : Unit}
    (h : (forM items (creditItem token) : Tx Address Ledger Unit).run s = .ok u s') :
    books s' = Journal.post (books s)
      (items.map fun item => ⟨.developer item.1 token, item.2.val⟩) := by
  induction items generalizing s with
  | nil =>
    obtain rfl := Call.run_forM_nil_eq_ok.1 h
    exact (Journal.post_nil _).symm
  | cons item items ih =>
    obtain ⟨s₁, hitem, hitems⟩ := Call.run_forM_cons_eq_ok.1 h
    obtain ⟨newBalance, htotal, rfl⟩ := run_creditItem_eq_ok.1 hitem
    rw [ih hitems, List.map_cons, Journal.post_cons]
    exact congrArg (Journal.post · _) (booksOf_credit htotal)

theorem books_withdrawn {developer recipient usdc : Address} {amount newBalance : I128}
    {ledger : Ledger} (h : Withdrawal T env s developer amount recipient usdc newBalance ledger) :
    books (s.withdrawn env.timestamp developer recipient usdc amount newBalance ledger) =
      Journal.post (books s) (Journal.reverse [⟨.developer developer usdc, amount.val⟩]) :=
  booksOf_debit h.remaining

omit [LinearOrder Address] in
theorem settledPostings_success {usdc : Address} {input : SettleInput Address}
    {inputs : List (SettleInput Address)} {outcomes : List SettleOutcome} :
    settledPostings (some usdc) (input :: inputs) (.success :: outcomes) =
      ⟨.developer input.developer usdc, input.amount.val⟩ ::
        settledPostings (some usdc) inputs outcomes := by
  simp [settledPostings]

omit [LinearOrder Address] in
theorem settledPostings_failure {usdc : Option Address} {input : SettleInput Address}
    {inputs : List (SettleInput Address)} {outcomes : List SettleOutcome} {e : SettlementError} :
    settledPostings usdc (input :: inputs) (.ofError e :: outcomes) =
      settledPostings usdc inputs outcomes := by
  simp [settledPostings, SettleOutcome.ofError_ne_success]

theorem books_settled {settlements : List (SettleInput Address)} {outcomes : List SettleOutcome}
    (h : Settled T env s settlements outcomes s') :
    books s' = Journal.post (books s)
      (Journal.reverse (settledPostings s.usdc settlements outcomes)) := by
  induction h with
  | nil => exact (Journal.post_nil _).symm
  | success item _ ih =>
    obtain ⟨usdc, newBalance, ledger, hw, rfl⟩ := run_withdrawDeveloperBalance_eq_ok.1 item
    rw [ih, books_withdrawn hw, ← Journal.post_append, State.withdrawn, hw.configured,
      settledPostings_success]
    rfl
  | failure _ _ ih =>
    rw [ih, settledPostings_failure]

omit [LinearOrder Address] in
theorem settledPostings_otherError (usdc : Option Address)
    (settlements : List (SettleInput Address)) :
    settledPostings usdc settlements (settlements.map fun _ => .otherError) = [] := by
  refine List.filterMap_eq_nil_iff.2 ?_
  rintro ⟨input, outcome⟩ h
  obtain ⟨_, -, rfl⟩ := List.mem_map.1 (List.of_mem_zip h).2
  rfl

/-! The invariant under which the books balance. -/

theorem eq_of_migrated {usdcToken : Address} (hlegacy : s.developerBalanceV1 = .empty)
    (h : Migrated usdcToken s s') : s' = s := by
  cases h.cases_head with
  | inl h => exact h.symm
  | inr h =>
    obtain ⟨_, ⟨addr, v1, merged, hv1, -, -⟩, -⟩ := h
    rw [hlegacy] at hv1
    cases hv1

structure WellFormed (s : State Address Ledger) : Prop where
  initialized : s.admin = none ↔ s.globalPool = none
  legacy : s.developerBalanceV1 = .empty
  nonneg : ∀ k, 0 ≤ books s k
  migrations : ∀ d m, s.pendingDeveloperMigration d = some m → m.to ≠ d ∧ 0 < m.amount.val

omit [LinearOrder Address] in
theorem wellFormed_deployed (ledger : Ledger) :
    WellFormed (State.deployed ledger : State Address Ledger) where
  initialized := iff_of_true rfl rfl
  legacy := rfl
  nonneg := by
    rintro (_ | _)
    · exact le_rfl
    · exact le_rfl
  migrations := by
    rintro d m ⟨⟩

theorem books_or_migrated {op : Op Address} {r : Ret}
    (hinit : ∀ admin vaultAddress, op = .init admin vaultAddress → s.admin = none →
      s.globalPool = none)
    (hmigrations : ∀ d m, s.pendingDeveloperMigration d = some m → m.to ≠ d)
    (h : Effect T env s op r s') :
    (s'.developerBalanceV1 = s.developerBalanceV1 ∧
      books s' = Journal.post (books s) (postings ⟨s, .call env op, r, s'⟩)) ∨
    (postings ⟨s, .call env op, r, s'⟩ = [] ∧ ∃ usdcToken t, s.usdc = some usdcToken ∧
      Migrated usdcToken s t ∧ (s' = t ∨ s' = t.migrationDone)) := by
  cases h with
  | init authorized fresh principals =>
    have hpool : booksOf s.developerBalance (some ⟨0, env.timestamp⟩) =
        booksOf s.developerBalance s.globalPool := by
      rw [hinit _ _ rfl fresh]
      funext k
      cases k <;> rfl
    exact .inl ⟨rfl, hpool.trans (Journal.post_nil _).symm⟩
  | receivePool accepted unseen stored total =>
    have h := booksOf_pool s.developerBalance env.timestamp total
    rw [← stored] at h
    exact .inl ⟨rfl, h⟩
  | receiveDeveloper accepted unseen total => exact .inl ⟨rfl, booksOf_credit total⟩
  | receiveBatch authorized accepted size positive distinct unseen credits =>
    refine .inl ⟨rfl, ?_⟩
    simp only [postings, payments, forceCredits, transfers, withdrawals, Journal.reverse,
      List.map_nil, List.append_nil]
    have h := books_creditItems credits
    exact h
  | @executeBalanceMigration _ «from» usdcToken migration newSourceBalance _ admin pending expired
      configured source covered destination =>
    have hne := hmigrations _ _ pending
    refine .inl ⟨rfl, ?_⟩
    simp only [postings, payments, forceCredits, transfers, withdrawals, Journal.reverse,
      configured, pending, Option.toList_some, List.map_nil, List.append_nil, List.nil_append,
      List.flatMap_cons, List.flatMap_nil]
    rw [Journal.post_cons]
    -- the two legs are on different accounts, so the credit reads the balance from before the debit
    have hto : (s.developerBalance.set («from», usdcToken) newSourceBalance)
        (migration.to, usdcToken) = s.developerBalance (migration.to, usdcToken) :=
      Store.set_of_ne fun h => hne (Prod.ext_iff.1 h).1
    exact (booksOf_credit (hto ▸ destination)).trans
      (congrArg (Journal.post · _) (booksOf_debit source))
  | withdraw withdrawal =>
    refine .inl ⟨rfl, ?_⟩
    simp only [postings, payments, forceCredits, transfers, withdrawals, List.append_nil,
      List.nil_append, withdrawal.configured, Option.toList_some, List.map_cons, List.map_nil]
    exact books_withdrawn withdrawal
  | forceCredit admin positive total => exact .inl ⟨rfl, booksOf_credit total⟩
  | settle size once settled => exact .inl ⟨rfl, books_settled settled⟩
  | settleTooLarge size =>
    refine .inl ⟨rfl, ?_⟩
    simp only [postings, payments, forceCredits, transfers, withdrawals, List.append_nil,
      List.nil_append, settledPostings_otherError]
    exact (Journal.post_nil _).symm
  | migrateDeveloperBalance admin configured slot | migrateSingleDevV2 admin configured slot =>
    exact .inr ⟨rfl, _, _, configured, migrated_of_migrateDeveloperSlot slot, .inl rfl⟩
  | migrateAll admin undone configured slots =>
    exact .inr ⟨rfl, _, _, configured, migrated_of_forM slots, .inr rfl⟩
  | migratePage admin undone configured size bound slots more =>
    exact .inr ⟨rfl, _, _, configured, migrated_of_migratePage slots, .inl rfl⟩
  | migrateLastPage admin undone configured size bound slots last =>
    exact .inr ⟨rfl, _, _, configured, migrated_of_migratePage slots, .inr rfl⟩
  | _ => exact .inl ⟨rfl, (Journal.post_nil _).symm⟩

theorem books_of_effect {op : Op Address} {r : Ret} (hs : WellFormed s)
    (h : Effect T env s op r s') :
    books s' = Journal.post (books s) (postings ⟨s, .call env op, r, s'⟩) := by
  obtain ⟨-, hbooks⟩ | ⟨hnone, usdcToken, t, -, hmigrated, hs'⟩ :=
    books_or_migrated (fun _ _ _ => hs.initialized.1) (fun d m hm => (hs.migrations d m hm).1) h
  · exact hbooks
  · obtain rfl := eq_of_migrated hs.legacy hmigrated
    rw [hnone, Journal.post_nil]
    rcases hs' with rfl | rfl <;> rfl

theorem nonneg_of_withdrawal {developer recipient usdc : Address} {amount newBalance : I128}
    {ledger : Ledger} (hs : ∀ k, 0 ≤ books s k)
    (h : Withdrawal T env s developer amount recipient usdc newBalance ledger) :
    ∀ k, 0 ≤ books (s.withdrawn env.timestamp developer recipient usdc amount newBalance ledger)
      k := by
  -- the comparison with the stored balance is what rules out a negative result
  have hnew : 0 ≤ newBalance.val := by
    rw [h.remaining]
    exact Int.sub_nonneg_of_le h.covered
  exact nonneg_set hs hnew

theorem nonneg_of_settled {settlements : List (SettleInput Address)}
    {outcomes : List SettleOutcome} (hs : ∀ k, 0 ≤ books s k)
    (h : Settled T env s settlements outcomes s') : ∀ k, 0 ≤ books s' k := by
  induction h with
  | nil => exact hs
  | success item _ ih =>
    obtain ⟨usdc, newBalance, ledger, hw, rfl⟩ := run_withdrawDeveloperBalance_eq_ok.1 item
    exact ih (nonneg_of_withdrawal hs hw)
  | failure _ _ ih => exact ih hs

theorem nonneg_of_effect {op : Op Address} {r : Ret} (hs : WellFormed s)
    (h : Effect T env s op r s') : ∀ k, 0 ≤ books s' k := by
  have hbooks := books_of_effect hs h
  cases h with
  | init | migrateDeveloperBalance | migrateSingleDevV2 | migrateAll | migratePage
  | migrateLastPage =>
    rw [hbooks]
    exact Journal.post_nonneg hs.nonneg (List.forall_mem_nil _)
  | receivePool accepted unseen stored total =>
    rw [hbooks]
    exact Journal.post_nonneg hs.nonneg (List.forall_mem_singleton.2 accepted.2.2.le)
  | receiveDeveloper accepted unseen total =>
    rw [hbooks]
    exact Journal.post_nonneg hs.nonneg (List.forall_mem_singleton.2 accepted.2.2.le)
  | forceCredit admin positive total =>
    rw [hbooks]
    exact Journal.post_nonneg hs.nonneg (List.forall_mem_singleton.2 positive.le)
  | receiveBatch authorized accepted size positive distinct unseen credits =>
    rw [books_creditItems credits]
    apply Journal.post_nonneg hs.nonneg
    intro p hp
    obtain ⟨item, hitem, rfl⟩ := List.mem_map.1 hp
    exact (positive item hitem).le
  | @executeBalanceMigration _ _ usdcToken migration _ newDestinationBalance admin pending expired
      configured source covered destination =>
    have hdest := hs.nonneg (.developer migration.to usdcToken)
    have hamount := (hs.migrations _ _ pending).2
    have hnew : 0 ≤ newDestinationBalance.val := by
      rw [destination]
      exact add_nonneg hdest hamount.le
    apply nonneg_set _ hnew
    exact nonneg_set hs.nonneg covered
  | withdraw withdrawal => exact nonneg_of_withdrawal hs.nonneg withdrawal
  | settle size once settled => exact nonneg_of_settled hs.nonneg settled
  | _ => exact hs.nonneg

theorem legacy_empty_of_effect {op : Op Address} {r : Ret} (hs : WellFormed s)
    (h : Effect T env s op r s') : s'.developerBalanceV1 = .empty := by
  have hmigrations : ∀ d m, s.pendingDeveloperMigration d = some m → m.to ≠ d :=
    fun d m hm => (hs.migrations d m hm).1
  obtain ⟨hsame, -⟩ | ⟨-, usdcToken, t, -, hmigrated, hs'⟩ :=
    books_or_migrated (fun _ _ _ => hs.initialized.1) hmigrations h
  · rw [hsame, hs.legacy]
  · obtain rfl := eq_of_migrated hs.legacy hmigrated
    rcases hs' with rfl | rfl
    · exact hs.legacy
    · exact hs.legacy

theorem forall_pending_of_effect {op : Op Address} {r : Ret}
    {P : Address → PendingDeveloperMigration Address → Prop}
    (hs : ∀ d m, s.pendingDeveloperMigration d = some m → P d m)
    (hnew : ∀ d m, m.to ≠ d → 0 < m.amount.val → P d m) (h : Effect T env s op r s') :
    ∀ d m, s'.pendingDeveloperMigration d = some m → P d m := by
  cases h with
  | proposeBalanceMigration admin distinct configured positive inTime snapshot =>
    apply Store.forall_set hs
    rw [snapshot]
    exact hnew _ _ distinct.1.symm positive
  | executeBalanceMigration => exact Store.forall_remove hs
  | _ => exact hs

theorem wellFormed_of_effect {op : Op Address} {r : Ret} (hs : WellFormed s)
    (h : Effect T env s op r s') : WellFormed s' := by
  have hlegacy := legacy_empty_of_effect hs h
  have hnonneg := nonneg_of_effect hs h
  have hmigrations := forall_pending_of_effect hs.migrations (fun _ _ => And.intro) h
  refine ⟨?_, hlegacy, hnonneg, hmigrations⟩
  cases h with
  | init authorized fresh principals => simp
  | receivePool accepted unseen stored total =>
    obtain ⟨-, ⟨_, _, -, hadmin, -⟩, -⟩ := accepted
    simp [hadmin]
  | acceptAdmin nominated authorized old =>
    have hpool : s.globalPool ≠ none := fun h => by simp [hs.initialized.2 h] at old
    simp [hpool]
  | _ => exact hs.initialized

/-! The books of a whole run. -/

theorem books_of_step {input : Input Address Ledger contract} {r : Ret} (hs : WellFormed s)
    (h : (settlement T contract).step s input = some (r, s')) :
    WellFormed s' ∧ books s' = Journal.post (books s) (postings ⟨s, input, r, s'⟩) := by
  obtain ⟨env, op, rfl, heff⟩ | ⟨ledger, rfl, rfl, rfl⟩ := effect_of_step h
  · exact ⟨wellFormed_of_effect hs heff, books_of_effect hs heff⟩
  · exact ⟨⟨hs.initialized, hs.legacy, hs.nonneg, hs.migrations⟩, (Journal.post_nil _).symm⟩

/-- The contract refines the journal: in every reachable state the books are what the log of the
run posted. -/
theorem books_run (T : TokenContract Address Ledger) (ledger : Ledger)
    (inputs : List (Input Address Ledger contract)) :
    WellFormed ((settlement T contract).run (.deployed ledger) inputs) ∧
    books ((settlement T contract).run (.deployed ledger) inputs) = Journal.post (fun _ => 0)
      (((settlement T contract).log (.deployed ledger) inputs).flatMap postings) := by
  refine Machine.log_invariant (P := fun l s =>
    WellFormed s ∧ books s = Journal.post (fun _ => 0) (l.flatMap postings)) ?_ ?_ inputs
  · refine ⟨wellFormed_deployed ledger, ?_⟩
    funext k
    cases k <;> rfl
  · rintro l s input r s' ⟨hs, hl⟩ hstep
    obtain ⟨hs', hb⟩ := books_of_step hs hstep
    refine ⟨hs', ?_⟩
    rw [hb, hl, List.flatMap_append, Journal.post_append]
    simp only [List.flatMap_cons, List.flatMap_nil, List.append_nil]

/-! Totals over the log. -/

def InToken (token : Address) : Account Address → Prop
  | .developer _ t => t = token
  | .pool => False

instance (token : Address) : DecidablePred (InToken token)
  | .developer _ t => inferInstanceAs (Decidable (t = token))
  | .pool => inferInstanceAs (Decidable False)

omit [LinearOrder Address] in
theorem inToken_injective (token : Address) :
    Function.Injective fun d => Account.developer d token := by
  rintro d d' h
  cases h
  rfl

omit [LinearOrder Address] in
theorem inToken_iff (token : Address) (a : Account Address) :
    InToken token a ↔ a ∈ Set.range fun d => Account.developer d token := by
  cases a <;> simp [InToken, eq_comm]

omit [LinearOrder Address] in
theorem developer_injective :
    Function.Injective fun k : Address × Address => Account.developer k.1 k.2 := by
  rintro ⟨d, t⟩ ⟨d', t'⟩ h
  cases h
  rfl

omit [LinearOrder Address] in
theorem developer_iff (a : Account Address) :
    ¬a = .pool ↔ a ∈ Set.range fun k : Address × Address => Account.developer k.1 k.2 := by
  cases a <;> simp

section Totals
variable (l : List (LogEntry Address Ledger contract))

/-- Everything credited to developers in `token`. -/
def credited (token : Address) : ℤ :=
  Journal.net (InToken token) (l.flatMap fun e => payments e ++ forceCredits e)

def withdrawn (token : Address) : ℤ := Journal.net (InToken token) (l.flatMap withdrawals)

def pooled : ℤ := Journal.net (fun a => a = .pool) (l.flatMap payments)

/-- Everything that payments brought in, to the pool and to developers, in all tokens. -/
def paidIn : ℤ := Journal.net (fun _ => True) (l.flatMap payments)

def forceCredited : ℤ := Journal.net (fun _ => True) (l.flatMap forceCredits)

def paidOut : ℤ := Journal.net (fun _ => True) (l.flatMap withdrawals)

end Totals

omit [LinearOrder Address] in
theorem net_transfers (S : Account Address → Prop) [DecidablePred S]
    (hS : ∀ d d' t, S (.developer d t) ↔ S (.developer d' t))
    (e : LogEntry Address Ledger contract) : Journal.net S (transfers e) = 0 := by
  unfold transfers
  split
  next env caller «from» token hin hu =>
    rcases e.pre.pendingDeveloperMigration «from» with _ | migration
    · rfl
    · simp only [Option.toList_some, List.flatMap_cons, List.flatMap_nil, List.append_nil,
        Journal.net_cons, Journal.net_nil, hS «from» migration.to]
      split_ifs <;> ring
  next => rfl

omit [LinearOrder Address] in
theorem forceCredits_ne_pool (e : LogEntry Address Ledger contract) :
    ∀ p ∈ forceCredits e, p.account ≠ .pool := by
  unfold forceCredits
  split <;> simp

omit [LinearOrder Address] in
theorem settledPostings_ne_pool {usdc : Option Address}
    {settlements : List (SettleInput Address)} {outcomes : List SettleOutcome} :
    ∀ p ∈ settledPostings usdc settlements outcomes, p.account ≠ .pool := by
  intro p hp
  obtain ⟨q, -, hq⟩ := List.mem_filterMap.1 hp
  split_ifs at hq
  obtain ⟨token, -, rfl⟩ := Option.map_eq_some_iff.1 hq
  simp

omit [LinearOrder Address] in
theorem withdrawals_ne_pool (e : LogEntry Address Ledger contract) :
    ∀ p ∈ withdrawals e, p.account ≠ .pool := by
  unfold withdrawals
  split
  · simp
  · exact settledPostings_ne_pool
  · simp

omit [LinearOrder Address] in
theorem transfers_ne_pool (e : LogEntry Address Ledger contract) :
    ∀ p ∈ transfers e, p.account ≠ .pool := by
  unfold transfers
  split
  · intro p hp
    obtain ⟨migration, -, hp⟩ := List.mem_flatMap.1 hp
    rcases List.mem_pair.1 hp with rfl | rfl
    · simp
    · simp
  · simp

theorem net_inToken (l : List (LogEntry Address Ledger contract)) (token : Address) :
    Journal.net (InToken token) (l.flatMap postings) = credited l token - withdrawn l token := by
  refine Journal.net_flatMap_sub _ l fun e _ => ?_
  simp only [postings, Journal.net_append, Journal.net_reverse,
    net_transfers (InToken token) fun _ _ _ => Iff.rfl]
  ring

theorem net_pool_eq_zero {ps : Postings Address} (h : ∀ p ∈ ps, p.account ≠ .pool) :
    Journal.net (fun a => a = .pool) ps = 0 := Journal.net_eq_zero _ h

theorem net_pool (l : List (LogEntry Address Ledger contract)) :
    Journal.net (fun a => a = .pool) (l.flatMap postings) = pooled l := by
  refine Journal.net_flatMap_congr _ l fun e _ => ?_
  simp only [postings, Journal.net_append, Journal.net_reverse,
    net_pool_eq_zero (forceCredits_ne_pool e), net_pool_eq_zero (transfers_ne_pool e),
    net_pool_eq_zero (withdrawals_ne_pool e)]
  ring

omit [LinearOrder Address] in
theorem net_all (l : List (LogEntry Address Ledger contract)) :
    Journal.net (fun _ => True) (l.flatMap postings) =
      paidIn l + forceCredited l - paidOut l := by
  rw [paidIn, forceCredited, ← Journal.net_flatMap_append]
  refine Journal.net_flatMap_sub _ l fun e _ => ?_
  simp only [postings, Journal.net_append, Journal.net_reverse,
    net_transfers (fun _ : Account Address => True) fun _ _ _ => Iff.rfl]
  ring

/-- For every token the developers' balances sum to what was credited in it less what was withdrawn
in it, the pool holds what was paid to it, and no balance leaves the range of an amount. -/
theorem balances_conserved (T : TokenContract Address Ledger) (ledger : Ledger)
    (inputs : List (Input Address Ledger contract)) :
    let s := (settlement T contract).run (.deployed ledger) inputs
    let l := (settlement T contract).log (.deployed ledger) inputs
    (∀ token, (Function.support fun d => (s.balanceOf d token).val).Finite ∧
      ∑ᶠ d, (s.balanceOf d token).val = credited l token - withdrawn l token) ∧
    (s.admin ≠ none → ∃ pool, s.globalPool = some pool ∧ pool.totalBalance.val = pooled l ∧
      0 ≤ pool.totalBalance.val ∧ pool.totalBalance.val ≤ I128.max.val) ∧
    ∀ d token balance, s.developerBalance (d, token) = some balance →
      0 ≤ balance.val ∧ balance.val ≤ I128.max.val := by
  intro s l
  obtain ⟨hs, hbooks⟩ := books_run T ledger inputs
  have hzero : (Function.support fun _ : Account Address => (0 : ℤ)).Finite := by simp
  refine ⟨fun token => ⟨?_, ?_⟩, fun hinit => ?_, fun d token balance hb => ?_⟩
  · have hfin := Journal.finite_support_post hzero (l.flatMap postings)
    rw [← hbooks] at hfin
    exact hfin.preimage (inToken_injective token).injOn
  · have hsum := Journal.finsum_post hzero (inToken_injective token) (InToken token)
      (inToken_iff token) (l.flatMap postings)
    rw [← hbooks, net_inToken, finsum_zero, zero_add] at hsum
    exact hsum
  · obtain ⟨pool, hpool⟩ : ∃ pool, s.globalPool = some pool :=
      Option.ne_none_iff_exists'.1 (mt hs.initialized.2 hinit)
    have htotal : books s .pool = pool.totalBalance.val := by simp [books, booksOf, hpool]
    refine ⟨pool, hpool, ?_, htotal ▸ hs.nonneg .pool, pool.totalBalance.le_hi⟩
    rw [← htotal, hbooks, Journal.post_apply, net_pool, zero_add]
  · have hval : (s.balanceOf d token).val = balance.val := by simp [State.balanceOf, hb]
    exact ⟨hval ▸ hs.nonneg (.developer d token), balance.le_hi⟩

/-! The total-received counter. -/

def State.TakesPayment (s : State Address Ledger) (env : Env Address contract) :
    Op Address → Prop
  | .receivePayment caller amount true developer _ ledgerSeq =>
    s.TakesPoolPayment env caller amount developer ledgerSeq
  | .receivePayment caller amount false developer token ledgerSeq =>
    s.TakesDeveloperPayment env caller amount developer token ledgerSeq
  | .batchReceivePayment caller items token ledgerSeq =>
    s.TakesBatch env caller items token ledgerSeq
  | _ => False

theorem totalReceived_of_effect {op : Op Address} {r : Ret} (hs : (getTotalReceived s).val = 0)
    (h : Effect T env s op r s') : (getTotalReceived s').val = 0 := by
  cases h with
  | init => rfl
  | _ => exact hs

theorem totalReceived_run (T : TokenContract Address Ledger) (ledger : Ledger)
    (inputs : List (Input Address Ledger contract)) :
    (getTotalReceived ((settlement T contract).run (.deployed ledger) inputs)).val = 0 := by
  refine Machine.invariant (P := fun s => (getTotalReceived s).val = 0) rfl ?_ inputs
  intro s input r s' hs hstep
  obtain ⟨env, op, rfl, heff⟩ | ⟨ledger, rfl, rfl, rfl⟩ := effect_of_step hstep
  · exact totalReceived_of_effect hs heff
  · exact hs

theorem takesPayment_of_call {op : Op Address} {r : Ret}
    (h : (call T env op).run s = .ok r s') (hp : payments ⟨s, .call env op, r, s'⟩ ≠ []) :
    s.TakesPayment env op := by
  cases op with
  | receivePayment caller amount toPool developer token ledgerSeq =>
    obtain ⟨_, h, -⟩ := run_returning_eq_ok.1 h
    cases toPool with
    | true => exact receivePayment_pool_succeeds.1 ⟨s', h⟩
    | false => exact receivePayment_developer_succeeds.1 ⟨s', h⟩
  | batchReceivePayment caller items token ledgerSeq =>
    obtain ⟨_, h, -⟩ := run_returning_eq_ok.1 h
    exact batchReceivePayment_succeeds.1 ⟨s', h⟩
  | _ => exact absurd rfl hp

theorem call_of_takesPayment {op : Op Address} (h : s.TakesPayment env op) :
    ∃ r s', (call T env op).run s = .ok r s' ∧ payments ⟨s, .call env op, r, s'⟩ ≠ [] := by
  cases op with
  | receivePayment caller amount toPool developer token ledgerSeq =>
    cases toPool with
    | true =>
      obtain ⟨s', hrun⟩ := receivePayment_pool_succeeds.2 h
      refine ⟨.unit, s', ?_, by simp [payments]⟩
      exact run_returning_eq_ok.2 ⟨(), hrun, rfl⟩
    | false =>
      obtain ⟨s', hrun⟩ := receivePayment_developer_succeeds.2 h
      obtain ⟨-, dev, rfl, -⟩ := h
      refine ⟨.unit, s', ?_, by simp [payments]⟩
      exact run_returning_eq_ok.2 ⟨(), hrun, rfl⟩
  | batchReceivePayment caller items token ledgerSeq =>
    obtain ⟨s', hrun⟩ := batchReceivePayment_succeeds.2 h
    have hne : items ≠ [] := List.ne_nil_of_length_pos h.1.2.2.1
    refine ⟨.unit, s', ?_, by simp [payments, hne]⟩
    exact run_returning_eq_ok.2 ⟨(), hrun, rfl⟩
  | _ => exact h.elim

theorem payments_pos {op : Op Address} {r : Ret} (h : Effect T env s op r s') :
    ∀ p ∈ payments ⟨s, .call env op, r, s'⟩, 0 < p.amount := by
  cases h with
  | receivePool accepted | receiveDeveloper accepted =>
    exact List.forall_mem_singleton.2 accepted.2.2
  | receiveBatch authorized accepted size positive =>
    exact List.forall_mem_map.2 positive
  | _ => exact List.forall_mem_nil _

theorem paidIn_eq_zero_iff {ledger : Ledger} {inputs : List (Input Address Ledger contract)} :
    paidIn ((settlement T contract).log (.deployed ledger) inputs) = 0 ↔
      ∀ e ∈ (settlement T contract).log (.deployed ledger) inputs, payments e = [] := by
  rw [← List.flatMap_eq_nil_iff]
  constructor
  · intro h
    by_contra hne
    refine (Journal.net_pos _ hne fun p hp => ⟨trivial, ?_⟩).ne' h
    obtain ⟨⟨s, input, r, s'⟩, he, hp⟩ := List.mem_flatMap.1 hp
    obtain ⟨-, -, -, -, hstep⟩ := Machine.mem_log.1 he
    obtain ⟨env, op, rfl, heff⟩ | ⟨ledger, rfl, -⟩ := effect_of_step hstep
    · exact payments_pos heff p hp
    · exact absurd hp List.not_mem_nil
  · intro h
    rw [paidIn, h, Journal.net_nil]

theorem paidIn_eq (T : TokenContract Address Ledger) (ledger : Ledger)
    (inputs : List (Input Address Ledger contract)) :
    let s := (settlement T contract).run (.deployed ledger) inputs
    let l := (settlement T contract).log (.deployed ledger) inputs
    paidIn l = poolTotal s + ∑ᶠ k : Address × Address, (s.balanceOf k.1 k.2).val + paidOut l -
      forceCredited l := by
  intro s l
  obtain ⟨hs, hbooks⟩ := books_run T ledger inputs
  have hzero : (Function.support fun _ : Account Address => (0 : ℤ)).Finite := by simp
  have hsum := Journal.finsum_post hzero developer_injective (fun a => ¬a = .pool)
    developer_iff (l.flatMap postings)
  have hpool : poolTotal s = Journal.net (fun a => a = .pool) (l.flatMap postings) := by
    have h := congrFun hbooks .pool
    rwa [Journal.post_apply, zero_add] at h
  have hall := Journal.net_add_net_not (fun a => a = .pool) (l.flatMap postings)
  rw [← hbooks, finsum_zero, zero_add] at hsum
  rw [net_all, ← hpool, ← hsum] at hall
  change paidIn l = poolTotal s + ∑ᶠ k : Address × Address, books s (.developer k.1 k.2) +
    paidOut l - forceCredited l
  rw [hall]
  ring

/-- The counter stays at zero, so it counts the payments of a run iff the run has none: every
payment call of it is refused by the guards. -/
theorem totalReceived_eq_paidIn_iff (T : TokenContract Address Ledger) (ledger : Ledger)
    (inputs : List (Input Address Ledger contract)) :
    let s := (settlement T contract).run (.deployed ledger) inputs
    let l := (settlement T contract).log (.deployed ledger) inputs
    ((getTotalReceived s).val = paidIn l ∧
      (getTotalReceived s).val = poolTotal s +
        ∑ᶠ k : Address × Address, (s.balanceOf k.1 k.2).val + paidOut l - forceCredited l) ↔
    ∀ js env op ks, inputs = js ++ .call env op :: ks →
      ¬((settlement T contract).run (.deployed ledger) js).TakesPayment env op := by
  intro s l
  -- the second equation says what the first does, so both ask that nothing was paid in
  rw [← paidIn_eq T ledger inputs, and_self, totalReceived_run, eq_comm, paidIn_eq_zero_iff]
  constructor
  · rintro h js env op ks rfl htakes
    obtain ⟨r, s', hrun, hne⟩ := call_of_takesPayment (T := T) htakes
    exact hne (h ⟨_, .call env op, r, s'⟩
      (Machine.mem_log.2 ⟨js, ks, rfl, rfl, Call.commit_eq_some.2 hrun⟩))
  · rintro h ⟨s, input, r, s'⟩ he
    obtain ⟨js, ks, his, hrun, hstep⟩ := Machine.mem_log.1 he
    by_contra hne
    cases input with
    | call env op =>
      refine h js env op ks his ?_
      rw [hrun]
      exact takesPayment_of_call (Call.commit_eq_some.1 hstep) hne
    | ledgerMoves ledger => exact hne rfl

/-- After one payment of 100 to the pool the counter still reads 0. -/
theorem totalReceived_ne_paidIn :
    let inputs : List (Input ℕ (Balances ℕ) 0) :=
      [.call ⟨0, [1], by decide, fun _ => true⟩ (.init 1 2),
        .call ⟨0, [2], by decide, fun _ => true⟩
          (.receivePayment 2 ⟨100, by decide⟩ true none 3 1)]
    let s := (settlement (balanceToken ℕ).toTokenContract 0).run (.deployed fun _ _ => 0) inputs
    let l := (settlement (balanceToken ℕ).toTokenContract 0).log (.deployed fun _ _ => 0) inputs
    (getTotalReceived s).val = 0 ∧ paidIn l = 100 ∧ (getTotalReceived s).val ≠ paidIn l := by
  decide

end Callora.Settlement
