import Callora.Settlement.Accounting

/-! Who may move what: developer balances, and the address of the vault. -/

namespace Callora.Settlement
open Library

variable {Address Ledger : Type} [LinearOrder Address] {contract : Address}
  {T : TokenContract Address Ledger} {env : Env Address contract} {s s' : State Address Ledger}

/-! Developer balances. -/

/-- The call withdraws for `developer`, who authorized it, alone or as an item of a batch. -/
def WithdrawnBy (env : Env Address contract) (op : Op Address) (r : Ret) (developer : Address) :
    Prop :=
  developer ∈ env.signers ∧ ((∃ amount «to», op = .withdrawDeveloperBalance developer amount «to») ∨
    ∃ settlements outcomes, op = .batchSettle settlements ∧ r = .outcomes outcomes ∧
      ∃ item, (item, SettleOutcome.success) ∈ settlements.zip outcomes ∧
        item.developer = developer)

theorem balanceOf_withdrawn {developer recipient usdc : Address} {amount newBalance : I128}
    {ledger : Ledger} (h : Withdrawal T env s developer amount recipient usdc newBalance ledger)
    (d t : Address) :
    ((s.withdrawn env.timestamp developer recipient usdc amount newBalance ledger).balanceOf
      d t).val = (s.balanceOf d t).val - if (d, t) = (developer, usdc) then amount.val else 0 := by
  simp only [State.withdrawn, State.balanceOf, Store.set_apply]
  split_ifs with hk
  · obtain ⟨rfl, rfl⟩ := Prod.mk.inj hk
    exact h.remaining
  · rw [Int.sub_zero]

theorem balanceOf_settled {settlements : List (SettleInput Address)}
    {outcomes : List SettleOutcome} (h : Settled T env s settlements outcomes s') (d t : Address) :
    (s'.balanceOf d t).val ≤ (s.balanceOf d t).val ∧
      ((s'.balanceOf d t).val < (s.balanceOf d t).val → d ∈ env.signers ∧
        ∃ item, (item, SettleOutcome.success) ∈ settlements.zip outcomes ∧ item.developer = d) := by
  induction h with
  | nil => exact ⟨le_rfl, fun h => absurd h (lt_irrefl _)⟩
  | @success s s₁ s' input inputs outcomes item rest ih =>
    obtain ⟨usdc, newBalance, ledger, hw, rfl⟩ := run_withdrawDeveloperBalance_eq_ok.1 item
    have hbalance := balanceOf_withdrawn hw d t
    have hpos := hw.positive
    by_cases hd : input.developer = d
    · refine ⟨?_, fun _ => ⟨hd ▸ hw.authorized, input, List.mem_cons_self, hd⟩⟩
      refine ih.1.trans (hbalance.trans_le ?_)
      split_ifs <;> omega
    · rw [if_neg fun hk => hd (Prod.mk.inj hk).1.symm, Int.sub_zero] at hbalance
      rw [hbalance] at ih
      refine ⟨ih.1, fun hlt => ?_⟩
      obtain ⟨hsigned, x, hx, hxd⟩ := ih.2 hlt
      exact ⟨hsigned, x, List.mem_cons_of_mem _ hx, hxd⟩
  | failure item rest ih =>
    refine ⟨ih.1, fun hlt => ?_⟩
    obtain ⟨hsigned, x, hx, hxd⟩ := ih.2 hlt
    exact ⟨hsigned, x, List.mem_cons_of_mem _ hx, hxd⟩

theorem debit_of_effect {op : Op Address} {r : Ret} (hs : WellFormed s)
    (h : Effect T env s op r s') {d t : Address}
    (hlt : (s'.balanceOf d t).val < (s.balanceOf d t).val) :
    WithdrawnBy env op r d ∨ ∃ caller migration, op = .executeBalanceMigration caller d ∧
      s.ByAdmin env caller ∧ s.pendingDeveloperMigration d = some migration ∧
      migration.executeAfter ≤ env.timestamp := by
  have hbooks := books_of_effect hs h
  -- a step that posts only credits lowers no balance
  have hcredit {ps : Postings Address} (hbooks : books s' = Journal.post (books s) ps)
      (hps : ∀ p ∈ ps, 0 ≤ p.amount) : False := by
    have hle := Journal.le_post (books s) hps (.developer d t)
    rw [← hbooks] at hle
    exact hlt.not_ge hle
  cases h with
  | receiveDeveloper accepted =>
    exact (hcredit hbooks (List.forall_mem_singleton.2 accepted.2.2.le)).elim
  | receiveBatch authorized accepted size positive distinct unseen credits =>
    have hitems := books_creditItems credits
    exact (hcredit hitems
      (List.forall_mem_map.2 fun item hitem => (positive item hitem).le)).elim
  | forceCredit admin positive =>
    exact (hcredit hbooks (List.forall_mem_singleton.2 positive.le)).elim
  | @executeBalanceMigration caller «from» usdcToken migration _ _ admin pending expired
      configured source covered destination =>
    by_cases hd : d = «from»
    · subst hd
      exact .inr ⟨caller, migration, rfl, admin, pending, expired⟩
    · have hamount := (hs.migrations _ _ pending).2
      simp only [State.balanceOf, Store.set_apply] at hlt destination
      split_ifs at hlt with hto hfrom
      · obtain ⟨rfl, rfl⟩ := Prod.mk.inj hto
        simp only [Option.getD_some] at hlt
        omega
      · exact absurd (Prod.mk.inj hfrom).1 hd
      · exact absurd hlt (lt_irrefl _)
  | @withdraw developer usdc _ _ «to» _ withdrawal =>
    have hpos := withdrawal.positive
    rw [balanceOf_withdrawn withdrawal] at hlt
    split_ifs at hlt with hk
    · obtain ⟨rfl, -⟩ := Prod.mk.inj hk
      exact .inl ⟨withdrawal.authorized, .inl ⟨_, «to», rfl⟩⟩
    · omega
  | settle size once settled =>
    obtain ⟨hsigned, hitem⟩ := (balanceOf_settled settled d t).2 hlt
    exact .inl ⟨hsigned, .inr ⟨_, _, rfl, rfl, hitem⟩⟩
  | migrateDeveloperBalance | migrateSingleDevV2 | migrateAll | migratePage | migrateLastPage =>
    exact (hcredit hbooks (List.forall_mem_nil _)).elim
  | _ => exact absurd hlt (lt_irrefl _)

theorem credit_of_effect {op : Op Address} {r : Ret} (h : Effect T env s op r s') {d t : Address}
    (hlt : (s.balanceOf d t).val < (s'.balanceOf d t).val) :
    ∃ caller ∈ env.signers, s.admin = some caller ∨ s.vault = some caller := by
  have hpayment {caller : Address} (hsigned : caller ∈ env.signers)
      (hcaller : s.AuthorizedCaller caller) :
      ∃ caller ∈ env.signers, s.admin = some caller ∨ s.vault = some caller := by
    obtain ⟨vault, admin, hv, ha, rfl | rfl⟩ := hcaller
    · exact ⟨_, hsigned, .inr hv⟩
    · exact ⟨_, hsigned, .inl ha⟩
  cases h with
  | receiveDeveloper accepted => exact hpayment accepted.1 accepted.2.1
  | receiveBatch authorized accepted => exact hpayment authorized accepted
  | executeBalanceMigration admin | forceCredit admin | migrateDeveloperBalance admin
  | migrateSingleDevV2 admin | migrateAll admin | migratePage admin | migrateLastPage admin =>
    exact ⟨_, admin.1, .inl admin.2⟩
  | withdraw withdrawal =>
    have hpos := withdrawal.positive
    rw [balanceOf_withdrawn withdrawal] at hlt
    split_ifs at hlt <;> omega
  | settle size once settled => exact absurd hlt (balanceOf_settled settled d t).1.not_gt
  | _ => exact absurd hlt (lt_irrefl _)

/-! Migration proposals. -/

def ProposedMigration (source : Address) (migration : PendingDeveloperMigration Address)
    (e : LogEntry Address Ledger contract) : Prop :=
  ∃ env caller, e.input = .call env (.proposeBalanceMigration caller source migration.to) ∧
    e.post.pendingDeveloperMigration source = some migration ∧
    migration.proposedAt = env.timestamp ∧
    migration.executeAfter = env.timestamp + DEVELOPER_MIGRATION_TIMELOCK_SECONDS

def LeavesMigration (source : Address) (e : LogEntry Address Ledger contract) : Prop :=
  ∀ env caller, (∀ «to», e.input ≠ .call env (.proposeBalanceMigration caller source «to»)) ∧
    e.input ≠ .call env (.executeBalanceMigration caller source)

theorem pending_of_step {input : Input Address Ledger contract} {r : Ret} {source : Address}
    {migration : PendingDeveloperMigration Address}
    (h : (settlement T contract).step s input = some (r, s'))
    (hpending : s'.pendingDeveloperMigration source = some migration) :
    ProposedMigration source migration ⟨s, input, r, s'⟩ ∨
      (s.pendingDeveloperMigration source = some migration ∧
        LeavesMigration source ⟨s, input, r, s'⟩) := by
  obtain ⟨env, op, rfl, heff⟩ | ⟨ledger, rfl, rfl, rfl⟩ := effect_of_step h
  · cases heff with
    | @proposeBalanceMigration caller «from» «to» _ m admin distinct configured positive inTime
        snapshot =>
      by_cases hd : source = «from»
      · subst hd
        obtain rfl : m = migration := by simpa using hpending
        exact .inl ⟨env, caller, by rw [snapshot], hpending, by rw [snapshot], by rw [snapshot]⟩
      · refine .inr ⟨by simpa [Store.set_of_ne hd] using hpending, fun _ _ => ⟨fun _ => ?_, ?_⟩⟩
        · simp [Ne.symm hd]
        · simp
    | @executeBalanceMigration _ «from» =>
      by_cases hd : source = «from»
      · subst hd
        simp at hpending
      · refine .inr ⟨by simpa [Store.remove_of_ne hd] using hpending, fun _ _ => ⟨fun _ => ?_, ?_⟩⟩
        · simp
        · simp [Ne.symm hd]
    | _ => exact .inr ⟨hpending, fun _ _ => ⟨fun _ => by simp, by simp⟩⟩
  · exact .inr ⟨hpending, fun _ _ => ⟨fun _ => by simp, by simp⟩⟩

theorem pending_since (T : TokenContract Address Ledger) (ledger : Ledger)
    (inputs : List (Input Address Ledger contract)) {source : Address}
    {migration : PendingDeveloperMigration Address}
    (h : ((settlement T contract).run (.deployed ledger) inputs).pendingDeveloperMigration source =
      some migration) :
    Machine.Since (ProposedMigration source migration) (LeavesMigration source)
      ((settlement T contract).log (.deployed ledger) inputs) := by
  refine Machine.since_of_run
    (H := fun s => s.pendingDeveloperMigration source = some migration) ?_ ?_ inputs h
  · rintro ⟨⟩
  · exact fun _ _ _ _ hstep hpending => pending_of_step hstep hpending

/-- A developer's balance falls only by a withdrawal the developer authorized, or when the admin
executes a migration of that developer proposed at least a day before and left alone since; it
rises only with the authorization of the admin or the vault. -/
theorem developer_funds_safe (T : TokenContract Address Ledger) (ledger : Ledger)
    (inputs : List (Input Address Ledger contract))
    (l₁ l₂ : List (LogEntry Address Ledger contract)) (e : LogEntry Address Ledger contract)
    (h : (settlement T contract).log (.deployed ledger) inputs = l₁ ++ e :: l₂) (d t : Address) :
    ((e.post.balanceOf d t).val < (e.pre.balanceOf d t).val → ∃ env op, e.input = .call env op ∧
      (WithdrawnBy env op e.output d ∨ ∃ caller migration,
        op = .executeBalanceMigration caller d ∧ e.pre.ByAdmin env caller ∧
        migration.proposedAt + 86400 ≤ env.timestamp ∧
        Machine.Since (ProposedMigration d migration) (LeavesMigration d) l₁)) ∧
    ((e.pre.balanceOf d t).val < (e.post.balanceOf d t).val → ∃ env op, e.input = .call env op ∧
      ∃ caller ∈ env.signers, e.pre.admin = some caller ∨ e.pre.vault = some caller) := by
  obtain ⟨js, ks, rfl, rfl, hrun, hstep⟩ := Machine.log_split h
  have hs := (books_run T ledger js).1
  have hsince {migration : PendingDeveloperMigration Address}
      (hp : ((settlement T contract).run (.deployed ledger) js).pendingDeveloperMigration d =
        some migration) := pending_since T ledger js hp
  rw [hrun] at hs hsince
  obtain ⟨env, op, hin, heff⟩ | ⟨ledger, hin, -, hpost⟩ := effect_of_step hstep
  · constructor
    · intro hlt
      refine ⟨env, op, hin, ?_⟩
      rcases debit_of_effect hs heff hlt with hw | ⟨caller, migration, rfl, hadmin, hpending, hexp⟩
      · exact .inl hw
      · refine .inr ⟨caller, migration, rfl, hadmin, ?_, hsince hpending⟩
        obtain ⟨l₁, p, l₂, -, ⟨env', caller', -, -, hat, hafter⟩, -⟩ := hsince hpending
        rw [hat, ← DEVELOPER_MIGRATION_TIMELOCK_SECONDS, ← hafter]
        exact hexp
    · exact fun hlt => ⟨env, op, hin, credit_of_effect heff hlt⟩
  · rw [hpost]
    exact ⟨fun hlt => absurd hlt (lt_irrefl _), fun hlt => absurd hlt (lt_irrefl _)⟩

theorem developer_funds_safe_withdrawal :
    let credited : List (Input ℕ (Balances ℕ) 0) :=
      [.call (.signedBy 1 0 (by decide)) (.init 1 2),
        .call (.signedBy 1 0 (by decide)) (.setUsdcToken 1 3),
        .call (.signedBy 2 0 (by decide))
          (.receivePayment 2 ⟨100, by decide⟩ false (some 4) 3 1)]
    let withdrawal : Input ℕ (Balances ℕ) 0 := .call (.signedBy 4 0 (by decide))
      (.withdrawDeveloperBalance 4 ⟨40, by decide⟩ none)
    let m := settlement (balanceToken ℕ).toTokenContract 0
    let s := m.run (.deployed fun _ _ => 1000) credited
    ∃ env op, withdrawal = .call env op ∧ (WithdrawnBy env op .unit 4 ∨ ∃ caller migration,
      op = .executeBalanceMigration caller 4 ∧ s.ByAdmin env caller ∧
      migration.proposedAt + 86400 ≤ env.timestamp ∧
      Machine.Since (ProposedMigration 4 migration) (LeavesMigration 4)
        (m.log (.deployed fun _ _ => 1000) credited)) := by
  intro credited withdrawal m s
  exact (developer_funds_safe _ _ (credited ++ [withdrawal]) _ []
    ⟨s, withdrawal, .unit, m.next s withdrawal⟩ rfl 4 3).1 (by decide)

/-! Vault rotation. -/

def ProposedVault (caller vault : Address) (e : LogEntry Address Ledger contract) : Prop :=
  ∃ env, e.input = .call env (.proposeVault caller vault) ∨
    e.input = .call env (.setVault caller vault)

def LeavesVault (e : LogEntry Address Ledger contract) : Prop :=
  ∀ env caller, (∀ vault, e.input ≠ .call env (.proposeVault caller vault) ∧
    e.input ≠ .call env (.setVault caller vault)) ∧ e.input ≠ .call env (.acceptVault caller)

def PassesOffice (e : LogEntry Address Ledger contract) : Prop :=
  ∃ env, e.input = .call env .acceptAdmin

/-- Whenever the vault changes, the proposal that was pending came from the admin in office, or the
admin in office accepts the new vault. -/
def VaultChangesAuthorized (l : List (LogEntry Address Ledger contract)) : Prop :=
  ∀ l₁ e l₂, l = l₁ ++ e :: l₂ → ∀ old vault, e.pre.vault = some old → e.post.vault = some vault →
    old ≠ vault → ∃ admin, e.pre.admin = some admin ∧
      (Machine.Since (ProposedVault admin vault) LeavesVault l₁ ∨
        ∃ env, e.input = .call env (.acceptVault admin))

/-- The office of the admin is not passed on in `l`, or the last time to `holder`. -/
def OfficeKept (holder : Option Address) (l : List (LogEntry Address Ledger contract)) : Prop :=
  (∀ e ∈ l, ¬PassesOffice e) ∨
    Machine.Since (fun e => PassesOffice e ∧ e.post.admin = holder) (fun e => ¬PassesOffice e) l

/-- What the rotation protocol needs besides its own guards: when a proposed vault accepts for
itself in place of another one, it is the admin, or the office has not been passed on since the
latest proposal, or the last time back to whoever held it at that proposal. -/
def AcceptsInTerm (T : TokenContract Address Ledger) (ledger : Ledger)
    (inputs : List (Input Address Ledger contract)) : Prop :=
  ∀ js env vault ks, inputs = js ++ .call env (.acceptVault vault) :: ks →
    let s := (settlement T contract).run (.deployed ledger) js
    vault ∈ env.signers → s.pendingVault = some vault → s.vault ≠ some vault →
    s.admin = some vault ∨ ∀ l₁ p l₂,
      (settlement T contract).log (.deployed ledger) js = l₁ ++ p :: l₂ →
      (∃ caller, ProposedVault caller vault p) → (∀ e ∈ l₂, LeavesVault e) →
      OfficeKept p.pre.admin l₂

structure Governed (s : State Address Ledger) : Prop where
  admin_iff : s.admin = none ↔ s.vault = none
  pendingVault : s.pendingVault ≠ none → s.vault ≠ none

theorem governed_of_effect {op : Op Address} {r : Ret} (hs : Governed s)
    (h : Effect T env s op r s') : Governed s' := by
  cases h with
  | init => exact ⟨by simp, by simp⟩
  | acceptAdmin nominated authorized old =>
    exact ⟨by simp [← hs.admin_iff, old], hs.pendingVault⟩
  | proposeVault admin external current | setVault admin external current =>
    exact ⟨hs.admin_iff, by simp [current]⟩
  | acceptVault authorized proposed inOffice party old =>
    exact ⟨by simp [inOffice], by simp⟩
  | _ => exact ⟨hs.admin_iff, hs.pendingVault⟩

theorem governed_run (T : TokenContract Address Ledger) (ledger : Ledger)
    (inputs : List (Input Address Ledger contract)) :
    Governed ((settlement T contract).run (.deployed ledger) inputs) := by
  have hdeployed : Governed (.deployed ledger : State Address Ledger) :=
    ⟨Iff.rfl, fun h => absurd rfl h⟩
  refine Machine.invariant hdeployed ?_ inputs
  intro s input r s' hs hstep
  obtain ⟨env, op, rfl, heff⟩ | ⟨ledger, rfl, rfl, rfl⟩ := effect_of_step hstep
  · exact governed_of_effect hs heff
  · exact ⟨hs.admin_iff, hs.pendingVault⟩

theorem acceptVault_of_effect {op : Op Address} {r : Ret} {old vault : Address} (hs : Governed s)
    (h : Effect T env s op r s') (hold : s.vault = some old) (hnew : s'.vault = some vault)
    (hne : old ≠ vault) :
    ∃ caller admin, op = .acceptVault caller ∧ caller ∈ env.signers ∧
      s.pendingVault = some vault ∧ s.admin = some admin ∧ (caller = vault ∨ caller = admin) := by
  cases h with
  | init authorized fresh => simp [hs.admin_iff.1 fresh] at hold
  | @acceptVault caller pending admin _ authorized proposed inOffice party =>
    obtain rfl : pending = vault := by simpa using hnew
    exact ⟨caller, admin, rfl, authorized, proposed, inOffice, party⟩
  | _ => exact absurd (Option.some.inj (hold.symm.trans hnew)) hne

omit [LinearOrder Address] in
theorem not_leavesVault_of_proposedVault {caller vault : Address}
    {e : LogEntry Address Ledger contract} (h : ProposedVault caller vault e) :
    ¬LeavesVault e := by
  intro hleaves
  obtain ⟨env, hin | hin⟩ := h
  · exact ((hleaves env caller).1 vault).1 hin
  · exact ((hleaves env caller).1 vault).2 hin

theorem admin_of_proposedVault {input : Input Address Ledger contract} {r : Ret}
    {caller vault : Address} (hstep : (settlement T contract).step s input = some (r, s'))
    (h : ProposedVault caller vault ⟨s, input, r, s'⟩) :
    s.admin = some caller ∧ s'.admin = some caller := by
  obtain ⟨env, rfl | rfl⟩ := h
  · cases effect_of_commit hstep with
    | proposeVault admin => exact ⟨admin.2, admin.2⟩
  · cases effect_of_commit hstep with
    | setVault admin => exact ⟨admin.2, admin.2⟩

theorem pendingVault_of_step {input : Input Address Ledger contract} {r : Ret} {vault : Address}
    (h : (settlement T contract).step s input = some (r, s'))
    (hpending : s'.pendingVault = some vault) :
    (∃ caller, ProposedVault caller vault ⟨s, input, r, s'⟩) ∨
      (s.pendingVault = some vault ∧ LeavesVault ⟨s, input, r, s'⟩) := by
  obtain ⟨env, op, rfl, heff⟩ | ⟨ledger, rfl, rfl, rfl⟩ := effect_of_step h
  · cases heff with
    | @proposeVault caller pending =>
      obtain rfl : pending = vault := by simpa using hpending
      exact .inl ⟨caller, env, .inl rfl⟩
    | @setVault caller pending =>
      obtain rfl : pending = vault := by simpa using hpending
      exact .inl ⟨caller, env, .inr rfl⟩
    | acceptVault => cases hpending
    | _ => exact .inr ⟨hpending, fun _ _ => ⟨fun _ => ⟨by simp, by simp⟩, by simp⟩⟩
  · exact .inr ⟨hpending, fun _ _ => ⟨fun _ => ⟨by simp, by simp⟩, by simp⟩⟩

theorem pendingVault_since (T : TokenContract Address Ledger) (ledger : Ledger)
    (inputs : List (Input Address Ledger contract)) {vault : Address}
    (h : ((settlement T contract).run (.deployed ledger) inputs).pendingVault = some vault) :
    Machine.Since (fun e => ∃ caller, ProposedVault caller vault e) LeavesVault
      ((settlement T contract).log (.deployed ledger) inputs) := by
  refine Machine.since_of_run (H := fun s => s.pendingVault = some vault) ?_ ?_ inputs h
  · rintro ⟨⟩
  · exact fun _ _ _ _ hstep hpending => pendingVault_of_step hstep hpending

theorem admin_of_step {input : Input Address Ledger contract} {r : Ret}
    (hadmin : s.admin ≠ none) (h : (settlement T contract).step s input = some (r, s')) :
    s'.admin ≠ none ∧ (PassesOffice ⟨s, input, r, s'⟩ ∨
      (s'.admin = s.admin ∧ ¬PassesOffice ⟨s, input, r, s'⟩)) := by
  obtain ⟨env, op, rfl, heff⟩ | ⟨ledger, rfl, rfl, rfl⟩ := effect_of_step h
  · cases heff with
    | init authorized fresh => exact absurd fresh hadmin
    | acceptAdmin => exact ⟨by simp, .inl ⟨env, rfl⟩⟩
    | _ => exact ⟨hadmin, .inr ⟨rfl, by simp [PassesOffice]⟩⟩
  · exact ⟨hadmin, .inr ⟨rfl, by simp [PassesOffice]⟩⟩

/-- Whoever is admin is still admin after a run, or again, exactly if the office was not passed on
in it, or the last time back. -/
theorem admin_run_iff (hadmin : s.admin ≠ none) (inputs : List (Input Address Ledger contract)) :
    ((settlement T contract).run s inputs).admin = s.admin ↔
      OfficeKept s.admin ((settlement T contract).log s inputs) := by
  have hkept := Machine.run_iff_always_or_since (m := settlement T contract)
    (I := fun u => u.admin ≠ none) (H := fun u => u.admin = s.admin)
    (Q := fun e => PassesOffice e ∧ e.post.admin = s.admin) (R := fun e => ¬PassesOffice e) hadmin
    (fun _ _ _ _ hu hstep => (admin_of_step hu hstep).1) ?_ inputs
  · rw [hkept, OfficeKept]
    simp only [true_and]
  · intro u input r u' hu hstep
    rcases (admin_of_step hu hstep).2 with hpasses | ⟨hsame, hkeeps⟩
    · simp only [hpasses, true_and, not_true_eq_false, and_false, or_false]
    · simp only [hkeeps, hsame, false_and, not_false_eq_true, and_true, false_or]

theorem officeKept_iff {ledger : Ledger} {js : List (Input Address Ledger contract)}
    {l₁ l₂ : List (LogEntry Address Ledger contract)} {p : LogEntry Address Ledger contract}
    {caller vault : Address}
    (hlog : (settlement T contract).log (.deployed ledger) js = l₁ ++ p :: l₂)
    (hp : ProposedVault caller vault p) :
    OfficeKept p.pre.admin l₂ ↔
      ((settlement T contract).run (.deployed ledger) js).admin = some caller := by
  obtain ⟨-, -, -, -, -, hstep⟩ := Machine.log_split hlog
  obtain ⟨ks, hafter, hrun⟩ := Machine.log_after hlog
  obtain ⟨hpre, hpost⟩ := admin_of_proposedVault hstep hp
  have hkept := admin_run_iff (T := T) (s := p.post) (by simp [hpost]) ks
  rw [hafter, hrun, hpost] at hkept
  rw [hpre]
  exact hkept.symm

theorem acceptVault_commits {vault : Address} (hs : Governed s) (hsigned : vault ∈ env.signers)
    (hpending : s.pendingVault = some vault) :
    ∃ old s', s.vault = some old ∧ s'.vault = some vault ∧
      (settlement T contract).step s (.call env (.acceptVault vault)) = some (.unit, s') := by
  obtain ⟨old, hold⟩ := Option.ne_none_iff_exists'.1 (hs.pendingVault (by simp [hpending]))
  obtain ⟨admin, hadmin⟩ := Option.ne_none_iff_exists'.1 (mt hs.admin_iff.1 (by simp [hold]))
  let s' : State Address Ledger := { s with
    vault := some vault
    pendingVault := none
    events := s.events ++ [.vaultAccepted old vault vault] }
  have haccept : (acceptVault env vault).run s = .ok () s' := run_acceptVault_eq_ok.2
    ⟨hsigned, vault, admin, old, hpending, hadmin, .inl rfl, hold, rfl⟩
  refine ⟨old, s', hold, rfl, ?_⟩
  apply Call.commit_eq_some.2
  exact run_returning_eq_ok.2 ⟨(), haccept, rfl⟩

/-- Vault changes are authorized by the admin in office exactly when no proposed vault accepts for
itself while the office is with somebody else than at the latest proposal. -/
theorem vaultChangesAuthorized_iff (T : TokenContract Address Ledger) (ledger : Ledger)
    (inputs : List (Input Address Ledger contract)) :
    VaultChangesAuthorized ((settlement T contract).log (.deployed ledger) inputs) ↔
      AcceptsInTerm T ledger inputs := by
  constructor
  -- the acceptance in question commits, and the change of vault it makes is authorized
  · rintro h js env vault ks rfl s hsigned hpending hvault
    have hs : Governed s := governed_run T ledger js
    obtain ⟨old, s', hold, hnew, hstep⟩ := acceptVault_commits (T := T) hs hsigned hpending
    obtain ⟨a, ha, hsince | ⟨env', he⟩⟩ :=
      h _ _ _ (Machine.log_step js ks hstep) old vault hold hnew fun he => hvault (he ▸ hold)
    · right
      intro l₁ p l₂ hlog hp hl₂
      obtain ⟨caller, hcaller⟩ := hp
      rw [hlog] at hsince
      have hlatest : ProposedVault a vault p := by
        apply hsince.latest _ (not_leavesVault_of_proposedVault hcaller) hl₂
        intro e he
        exact not_leavesVault_of_proposedVault he
      exact (officeKept_iff hlog hlatest).2 ha
    · obtain ⟨-, rfl⟩ : env = env' ∧ vault = a := by simpa using he
      exact .inl ha
  -- a change of vault is an acceptance, by the proposed vault or by the admin itself
  · intro h l₁ e l₂ hl old vault hold hnew hne
    obtain ⟨js, ks, rfl, rfl, hrun, hstep⟩ := Machine.log_split hl
    have hs : Governed e.pre := hrun ▸ governed_run T ledger js
    obtain ⟨env, op, hin, heff⟩ | ⟨ledger, -, -, hpost⟩ := effect_of_step hstep
    · obtain ⟨caller, admin, rfl, hsigned, hpending, hadmin, rfl | rfl⟩ :=
        acceptVault_of_effect hs heff hold hnew hne
      · rw [hin] at h
        have hvault : e.pre.vault ≠ some caller := by
          intro hsame
          exact hne (Option.some.inj (hold.symm.trans hsame))
        have hterm := h js env caller ks rfl
        rw [hrun] at hterm
        rcases hterm hsigned hpending hvault with ha | hkept
        · exact ⟨caller, ha, .inr ⟨env, hin⟩⟩
        · rw [← hrun] at hpending
          obtain ⟨l, p, l', hlog, ⟨a, hp⟩, hl'⟩ := pendingVault_since T ledger js hpending
          have ha := (officeKept_iff hlog hp).1 (hkept l p l' hlog ⟨a, hp⟩ hl')
          rw [hrun] at ha
          exact ⟨a, ha, .inl ⟨l, p, l', hlog, hp, hl'⟩⟩
      · exact ⟨caller, hadmin, .inr ⟨env, hin⟩⟩
    · rw [hpost] at hnew
      exact absurd (Option.some.inj (hold.symm.trans hnew)) hne

/-- Admin 1 proposes the vault 5 and hands the office to 6; 5 then makes itself the vault. -/
theorem vaultChanges_of_former_admin :
    let m := settlement (balanceToken ℕ).toTokenContract 0
    let inputs : List (Input ℕ (Balances ℕ) 0) :=
      [.call (.signedBy 1 0 (by decide)) (.init 1 2),
        .call (.signedBy 1 0 (by decide)) (.proposeVault 1 5),
        .call (.signedBy 1 0 (by decide)) (.setAdmin 1 6),
        .call (.signedBy 6 0 (by decide)) .acceptAdmin,
        .call (.signedBy 5 0 (by decide)) (.acceptVault 5)]
    (m.run (.deployed fun _ _ => 0) inputs).vault = some 5 ∧
      ¬VaultChangesAuthorized (m.log (.deployed fun _ _ => 0) inputs) := by
  intro m inputs
  refine ⟨rfl, fun h => ?_⟩
  obtain ⟨admin, hadmin, hcase⟩ := h (m.log (.deployed fun _ _ => 0) (inputs.take 4))
    ⟨m.run (.deployed fun _ _ => 0) (inputs.take 4), .call (.signedBy 5 0 (by decide))
      (.acceptVault 5), .unit, m.run (.deployed fun _ _ => 0) inputs⟩ [] rfl 2 5 rfl rfl (by decide)
  obtain rfl : 6 = admin := Option.some.inj hadmin
  rcases hcase with ⟨l₁, p, l₂, hsplit, ⟨env, hin⟩, -⟩ | ⟨env, hin⟩
  · have hp : p ∈ m.log (.deployed fun _ _ => 0) (inputs.take 4) := by simp [hsplit]
    have hmem : p.input ∈ inputs.take 4 := List.mem_map_of_mem (f := Entry.input) hp
    rcases hin with hin | hin
    · simp [hin, inputs] at hmem
    · simp [hin, inputs] at hmem
  · simp at hin

end Callora.Settlement
