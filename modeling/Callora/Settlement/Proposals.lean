import Callora.Settlement.Authority

/-! Balance migrations over whole runs: an execution consumes the latest proposal for its source,
a day old at least, and moves the amount approved then, in the token that pays at execution. -/

namespace Callora.Settlement
open Library

variable {Address Ledger : Type} [LinearOrder Address] {contract : Address}
  {T : TokenContract Address Ledger} {env : Env Address contract} {s s' : State Address Ledger}

def Proposes («from» «to» : Address) (e : LogEntry Address Ledger contract) : Prop :=
  ∃ env caller, e.input = .call env (.proposeBalanceMigration caller «from» «to»)

def Executes («from» : Address) (e : LogEntry Address Ledger contract) : Prop :=
  ∃ env caller, e.input = .call env (.executeBalanceMigration caller «from»)

/-- In the log `l` the entry `e` executes the proposal made by `p`, the latest one for `from`. -/
def Consumes (l : List (LogEntry Address Ledger contract)) («from» «to» : Address)
    (p e : LogEntry Address Ledger contract) : Prop :=
  ∃ l₁ l₂ l₃, l = l₁ ++ p :: (l₂ ++ e :: l₃) ∧ Proposes «from» «to» p ∧
    (∀ x ∈ l₂, LeavesMigration «from» x) ∧ Executes «from» e

def Moves (token «from» «to» : Address) (amount : ℤ) (e : LogEntry Address Ledger contract) :
    Prop :=
  ∀ d t, (e.post.balanceOf d t).val = (e.pre.balanceOf d t).val +
    if t = token then (if d = «to» then amount else 0) - (if d = «from» then amount else 0) else 0

/-- The execution `e` moves what `p` took a snapshot of, in the token of the snapshot. -/
def MovesAsApproved («from» «to» : Address) (p e : LogEntry Address Ledger contract) : Prop :=
  ∃ token, p.pre.usdc = some token ∧
    Moves token «from» «to» (p.pre.balanceOf «from» token).val e

theorem effect_of_proposes {r : Ret} {caller «from» «to» : Address}
    (h : Effect T env s (.proposeBalanceMigration caller «from» «to») r s') :
    «from» ≠ «to» ∧ ∃ token, s.usdc = some token ∧ 0 < (s.balanceOf «from» token).val ∧
      s'.pendingDeveloperMigration = s.pendingDeveloperMigration.set «from» ⟨«from», «to»,
        s.balanceOf «from» token, env.timestamp, env.timestamp + 86400⟩ := by
  cases h with
  | proposeBalanceMigration admin distinct configured positive inTime snapshot =>
    exact ⟨distinct.1, _, configured, positive, by rw [snapshot]; rfl⟩

theorem effect_of_executes {input : Input Address Ledger contract} {r : Ret}
    {caller «from» : Address} (hin : input = .call env (.executeBalanceMigration caller «from»))
    (h : Effect T env s (.executeBalanceMigration caller «from») r s') :
    ∃ migration token, s.pendingDeveloperMigration «from» = some migration ∧
      migration.executeAfter ≤ env.timestamp ∧ s.usdc = some token ∧
      s'.pendingDeveloperMigration = s.pendingDeveloperMigration.remove «from» ∧
      («from» ≠ migration.to →
        Moves token «from» migration.to migration.amount.val ⟨s, input, r, s'⟩) := by
  cases h with
  | @executeBalanceMigration _ _ token migration newSource newDestination admin pending expired
      configured source covered destination =>
    refine ⟨migration, token, pending, expired, configured, rfl, fun hne d t => ?_⟩
    simp only [State.balanceOf, Store.set_apply] at source destination ⊢
    by_cases ht : t = token
    · subst ht
      by_cases hto : d = migration.to
      · subst hto
        simp [destination, hne.symm]
      · by_cases hfrom : d = «from»
        · subst hfrom
          simp [source, hto, Int.sub_eq_add_neg]
        · simp [hto, hfrom]
    · simp [ht]

theorem pending_of_leaves {input : Input Address Ledger contract} {r : Ret} {source : Address}
    (h : (settlement T contract).step s input = some (r, s'))
    (hleaves : LeavesMigration source ⟨s, input, r, s'⟩) :
    s'.pendingDeveloperMigration source = s.pendingDeveloperMigration source := by
  obtain ⟨env, op, rfl, heff⟩ | ⟨ledger, rfl, rfl, rfl⟩ := effect_of_step h
  · cases heff with
    | @proposeBalanceMigration caller «from» «to» =>
      have hne : source ≠ «from» := by
        intro hsame
        exact (hleaves env caller).1 «to» (by rw [hsame])
      exact Store.set_of_ne hne
    | @executeBalanceMigration caller «from» =>
      have hne : source ≠ «from» := by
        intro hsame
        exact (hleaves env caller).2 (by rw [hsame])
      exact Store.remove_of_ne hne
    | _ => rfl
  · rfl

theorem moves_of_consumes {s₀ : State Address Ledger}
    {inputs : List (Input Address Ledger contract)}
    {«from» «to» : Address} {p e : LogEntry Address Ledger contract}
    (h : Consumes ((settlement T contract).log s₀ inputs) «from» «to» p e) :
    ∃ env env' caller caller' token token',
      p.input = .call env (.proposeBalanceMigration caller «from» «to») ∧
      e.input = .call env' (.executeBalanceMigration caller' «from») ∧
      env.timestamp + 86400 ≤ env'.timestamp ∧ «from» ≠ «to» ∧
      p.pre.usdc = some token ∧ e.pre.usdc = some token' ∧
      0 < (p.pre.balanceOf «from» token).val ∧
      e.pre.pendingDeveloperMigration «from» = some ⟨«from», «to», p.pre.balanceOf «from» token,
        env.timestamp, env.timestamp + 86400⟩ ∧
      e.post.pendingDeveloperMigration = e.pre.pendingDeveloperMigration.remove «from» ∧
      Moves token' «from» «to» (p.pre.balanceOf «from» token).val e := by
  obtain ⟨l₁, l₂, l₃, hlog, ⟨env, caller, hp⟩, hleaves, env', caller', he⟩ := h
  obtain ⟨hpstep, hestep, js, rfl, hrun⟩ := Machine.log_between hlog
  rw [hp] at hpstep
  rw [he] at hestep
  obtain ⟨hne, token, husdc, hpos, hpost⟩ := effect_of_proposes (effect_of_commit hpstep)
  obtain ⟨migration, token', hpending, hexpired, husdc', hremoved, hmoves⟩ :=
    effect_of_executes he (effect_of_commit hestep)
  have hkept : e.pre.pendingDeveloperMigration «from» =
      p.post.pendingDeveloperMigration «from» := by
    rw [← hrun]
    refine Machine.stable_of_log (P := fun t => t.pendingDeveloperMigration «from» =
      p.post.pendingDeveloperMigration «from») rfl ?_ js hleaves
    intro s input r s' hs hstep hl
    exact (pending_of_leaves hstep hl).trans hs
  rw [hpost, Store.set_self] at hkept
  obtain rfl := Option.some.inj (hpending.symm.trans hkept)
  exact ⟨env, env', caller, caller', token, token', hp, he, hexpired, hne, husdc, husdc', hpos,
    hkept, hremoved, hmoves hne⟩

theorem eq_of_moves {token token' «from» «to» : Address} {amount : ℤ}
    {e : LogEntry Address Ledger contract} (hne : «from» ≠ «to») (hpos : 0 < amount)
    (h : Moves token «from» «to» amount e) (h₂ : Moves token' «from» «to» amount e) :
    token = token' := by
  by_contra htoken
  have hto := (h «to» token).symm.trans (h₂ «to» token)
  simp [htoken, hne.symm] at hto
  omega

/-- Executions move what was approved exactly when each meets the token that was configured at its
proposal; one that fails changes nothing. -/
theorem migrations_as_approved_iff (T : TokenContract Address Ledger)
    (s₀ : State Address Ledger) (inputs : List (Input Address Ledger contract)) :
    let s := (settlement T contract).run s₀ inputs
    let l := (settlement T contract).log s₀ inputs
    ((∀ «from» «to» p e, Consumes l «from» «to» p e → MovesAsApproved «from» «to» p e) ∧
      ∀ env caller «from»,
        (settlement T contract).step s (.call env (.executeBalanceMigration caller «from»)) = none →
        (settlement T contract).next s (.call env (.executeBalanceMigration caller «from»)) = s) ↔
    ∀ «from» «to» p e, Consumes l «from» «to» p e → e.pre.usdc = p.pre.usdc := by
  intro s l
  constructor
  · intro h «from» «to» p e hconsumes
    obtain ⟨env, env', caller, caller', token, token', -, -, -, hne, husdc, husdc', hpos, -, -,
      hmoved⟩ := moves_of_consumes hconsumes
    obtain ⟨approved, happroved, hmoved'⟩ := h.1 «from» «to» p e hconsumes
    obtain rfl : token = approved := Option.some.inj (husdc.symm.trans happroved)
    have hsame : token' = token := eq_of_moves hne hpos hmoved hmoved'
    rw [husdc, husdc', hsame]
  · intro husdc
    constructor
    · intro «from» «to» p e hconsumes
      obtain ⟨env, env', caller, caller', token, token', -, -, -, -, hp, he, -, -, -, hmoved⟩ :=
        moves_of_consumes hconsumes
      have hsame := husdc «from» «to» p e hconsumes
      rw [hp, he] at hsame
      obtain rfl : token' = token := Option.some.inj hsame
      exact ⟨token', hp, hmoved⟩
    · intro env caller «from» hfails
      exact Machine.next_of_rollback hfails

/-- The migration of 100 in token 3 is approved; the token is changed to 7 before the day is over,
and 100 of token 7 move instead. -/
theorem execution_moves_other_token :
    let m := settlement (balanceToken ℕ).toTokenContract 0
    let day : Env ℕ 0 := .signedBy 1 86400 (by decide)
    let setup : List (Input ℕ (Balances ℕ) 0) :=
      [.call (.signedBy 1 0 (by decide)) (.init 1 2),
        .call (.signedBy 1 0 (by decide)) (.setUsdcToken 1 3),
        .call (.signedBy 2 0 (by decide)) (.receivePayment 2 ⟨100, by decide⟩ false (some 4) 3 1),
        .call (.signedBy 2 0 (by decide)) (.receivePayment 2 ⟨100, by decide⟩ false (some 4) 7 2)]
    let propose : Input ℕ (Balances ℕ) 0 :=
      .call (.signedBy 1 0 (by decide)) (.proposeBalanceMigration 1 4 5)
    let reconfigure : Input ℕ (Balances ℕ) 0 :=
      .call (.signedBy 1 0 (by decide)) (.setUsdcToken 1 7)
    let execute : Input ℕ (Balances ℕ) 0 := .call day (.executeBalanceMigration 1 4)
    let inputs := setup ++ [propose, reconfigure, execute]
    ∃ p e, Consumes (m.log (.deployed fun _ _ => 0) inputs) 4 5 p e ∧
      ¬MovesAsApproved 4 5 p e ∧ (e.post.balanceOf 4 3).val = 100 ∧
      (e.post.balanceOf 5 7).val = 100 := by
  intro m day setup propose reconfigure execute inputs
  let s : State ℕ (Balances ℕ) := m.run (.deployed fun _ _ => 0) setup
  let p : LogEntry ℕ (Balances ℕ) 0 := ⟨s, propose, .unit, m.next s propose⟩
  let q : LogEntry ℕ (Balances ℕ) 0 :=
    ⟨p.post, reconfigure, .unit, m.next p.post reconfigure⟩
  let e : LogEntry ℕ (Balances ℕ) 0 := ⟨q.post, execute, .unit, m.next q.post execute⟩
  have htail : m.log s [propose, reconfigure, execute] = [p, q, e] := by
    rw [Machine.log_cons_of_output (o := .unit) (by decide),
      Machine.log_cons_of_output (o := .unit) (by decide),
      Machine.log_cons_of_output (o := .unit) (by decide)]
    rfl
  have hlog : m.log (.deployed fun _ _ => 0) inputs =
      m.log (.deployed fun _ _ => 0) setup ++ p :: ([q] ++ e :: []) := by
    rw [Machine.log_append]
    exact congrArg _ htail
  refine ⟨p, e, ⟨_, [q], [], hlog, ⟨_, 1, rfl⟩, ?_, _, 1, rfl⟩, ?_, by decide, by decide⟩
  · intro x hx env caller
    obtain rfl := List.mem_singleton.1 hx
    exact ⟨fun _ => by simp [q, reconfigure], by simp [q, reconfigure]⟩
  · intro happroved
    obtain ⟨token, htoken, hmoves⟩ := happroved
    obtain rfl : 3 = token := Option.some.inj htoken
    exact absurd (hmoves 4 3) (by decide)

/-! The timelock. -/

theorem exists_proposal (T : TokenContract Address Ledger) (ledger : Ledger)
    (inputs : List (Input Address Ledger contract))
    {l₁ l₂ : List (LogEntry Address Ledger contract)} {e : LogEntry Address Ledger contract}
    {caller «from» : Address}
    (hlog : (settlement T contract).log (.deployed ledger) inputs = l₁ ++ e :: l₂)
    (he : e.input = .call env (.executeBalanceMigration caller «from»)) :
    ∃ a p b env' caller' «to» token token', l₁ = a ++ p :: b ∧
      p.input = .call env' (.proposeBalanceMigration caller' «from» «to») ∧
      (∀ x ∈ b, LeavesMigration «from» x) ∧ env'.timestamp + 86400 ≤ env.timestamp ∧
      p.pre.usdc = some token ∧ e.pre.usdc = some token' ∧
      e.pre.pendingDeveloperMigration «from» = some ⟨«from», «to», p.pre.balanceOf «from» token,
        env'.timestamp, env'.timestamp + 86400⟩ ∧
      e.post.pendingDeveloperMigration «from» = none ∧
      Moves token' «from» «to» (p.pre.balanceOf «from» token).val e := by
  obtain ⟨js, ks, -, hjs, hrun, hstep⟩ := Machine.log_split hlog
  rw [he] at hstep
  obtain ⟨migration, -, hpending, -⟩ := effect_of_executes he (effect_of_commit hstep)
  rw [← hrun] at hpending
  obtain ⟨a, p, b, hsplit, ⟨env', caller', hp, -⟩, hb⟩ := pending_since T ledger js hpending
  rw [hjs] at hsplit
  have hconsumes : Consumes ((settlement T contract).log (.deployed ledger) inputs) «from»
      migration.to p e := by
    refine ⟨a, b, l₂, ?_, ⟨env', caller', hp⟩, hb, env, caller, he⟩
    rw [hlog, hsplit, List.append_assoc, List.cons_append]
  obtain ⟨env₁, env₂, caller₁, caller₂, token, token', hp', he', hexpired, -, husdc, husdc', -,
    hstored, hremoved, hmoves⟩ := moves_of_consumes hconsumes
  obtain ⟨rfl, -⟩ := Input.call.inj (hp'.symm.trans hp)
  obtain ⟨rfl, -⟩ := Input.call.inj (he'.symm.trans he)
  refine ⟨a, p, b, _, caller₁, migration.to, token, token', hsplit, hp', hb, hexpired, husdc,
    husdc', hstored, ?_, hmoves⟩
  rw [hremoved, Store.remove_self]

theorem exists_proposes_between (T : TokenContract Address Ledger) (ledger : Ledger)
    (inputs : List (Input Address Ledger contract))
    {l₁ l₂ l₃ : List (LogEntry Address Ledger contract)} {e₁ e₂ : LogEntry Address Ledger contract}
    {«from» : Address}
    (hlog : (settlement T contract).log (.deployed ledger) inputs = l₁ ++ e₁ :: (l₂ ++ e₂ :: l₃))
    (h₁ : Executes «from» e₁) (h₂ : Executes «from» e₂) :
    ∃ p ∈ l₂, ∃ «to», Proposes «from» «to» p := by
  obtain ⟨env₁, caller₁, hin₁⟩ := h₁
  obtain ⟨env₂, caller₂, hin₂⟩ := h₂
  rw [← List.cons_append, ← List.append_assoc] at hlog
  obtain ⟨a, p, b, env, caller, «to», -, -, hsplit, hp, hb, -⟩ :=
    exists_proposal T ledger inputs hlog hin₂
  have hsince : Machine.Since (fun x => ∃ «to», Proposes «from» «to» x) (LeavesMigration «from»)
      (l₁ ++ e₁ :: l₂) := ⟨a, p, b, hsplit, ⟨«to», env, caller, hp⟩, hb⟩
  have hother : ¬∃ «to», Proposes «from» «to» e₁ := by
    intro h
    obtain ⟨«to», env', caller', hin⟩ := h
    rw [hin₁] at hin
    simp at hin
  have hwrites : ¬LeavesMigration «from» e₁ := fun h => (h env₁ caller₁).2 hin₁
  -- the proposal comes after the first execution, which does not leave proposals alone
  obtain ⟨a', p', b', rfl, hproposes, -⟩ := hsince.of_append_cons hother hwrites
  exact ⟨p', by simp, hproposes⟩

/-- Every execution consumes the latest proposal for its source, at least 86400 seconds old, with
the destination and the amount proposed; no proposal is executed twice; proposals for different
sources are independent; a new proposal replaces the old one and restarts the delay. -/
theorem migrations_timelocked (T : TokenContract Address Ledger) (ledger : Ledger)
    (inputs : List (Input Address Ledger contract)) :
    let l := (settlement T contract).log (.deployed ledger) inputs
    (∀ l₁ e l₂ env caller «from», l = l₁ ++ e :: l₂ →
      e.input = .call env (.executeBalanceMigration caller «from») →
      ∃ a p b env' caller' «to» token token', l₁ = a ++ p :: b ∧
        p.input = .call env' (.proposeBalanceMigration caller' «from» «to») ∧
        (∀ x ∈ b, LeavesMigration «from» x) ∧ env'.timestamp + 86400 ≤ env.timestamp ∧
        p.pre.usdc = some token ∧ e.pre.usdc = some token' ∧
        e.pre.pendingDeveloperMigration «from» = some ⟨«from», «to», p.pre.balanceOf «from» token,
          env'.timestamp, env'.timestamp + 86400⟩ ∧
        e.post.pendingDeveloperMigration «from» = none ∧
        Moves token' «from» «to» (p.pre.balanceOf «from» token).val e) ∧
    (∀ l₁ e₁ l₂ e₂ l₃ «from», l = l₁ ++ e₁ :: (l₂ ++ e₂ :: l₃) → Executes «from» e₁ →
      Executes «from» e₂ → ∃ p ∈ l₂, ∃ «to», Proposes «from» «to» p) ∧
    (∀ e ∈ l, ∀ «from» d, (Executes «from» e ∨ ∃ «to», Proposes «from» «to» e) → d ≠ «from» →
      e.post.pendingDeveloperMigration d = e.pre.pendingDeveloperMigration d) ∧
    ∀ e ∈ l, ∀ env caller «from» «to»,
      e.input = .call env (.proposeBalanceMigration caller «from» «to») →
      ∃ token, e.pre.usdc = some token ∧ e.post.pendingDeveloperMigration «from» = some ⟨«from»,
        «to», e.pre.balanceOf «from» token, env.timestamp, env.timestamp + 86400⟩ := by
  intro l
  refine ⟨?_, ?_, ?_, ?_⟩
  · intro l₁ e l₂ env caller «from» hl he
    exact exists_proposal T ledger inputs hl he
  · intro l₁ e₁ l₂ e₂ l₃ «from» hl h₁ h₂
    exact exists_proposes_between T ledger inputs hl h₁ h₂
  · intro e he «from» d hown hd
    obtain ⟨js, ks, -, -, hstep⟩ := Machine.mem_log.1 he
    apply pending_of_leaves hstep
    intro env caller
    rcases hown with ⟨env', caller', hin⟩ | ⟨«to», env', caller', hin⟩
    · simp [hin, hd.symm]
    · simp [hin, hd.symm]
  · intro e he env caller «from» «to» hin
    obtain ⟨js, ks, -, -, hstep⟩ := Machine.mem_log.1 he
    rw [hin] at hstep
    obtain ⟨-, token, husdc, -, hpost⟩ := effect_of_proposes (effect_of_commit hstep)
    refine ⟨token, husdc, ?_⟩
    rw [hpost, Store.set_self]

/-! What the timelock lets through. -/

theorem pending_of_proposal {s₀ : State Address Ledger}
    {inputs : List (Input Address Ledger contract)}
    {l₁ l₂ : List (LogEntry Address Ledger contract)} {p : LogEntry Address Ledger contract}
    {caller «from» «to» : Address} (hlog : (settlement T contract).log s₀ inputs = l₁ ++ p :: l₂)
    (hp : p.input = .call env (.proposeBalanceMigration caller «from» «to»))
    (hleaves : ∀ x ∈ l₂, LeavesMigration «from» x) :
    ∃ token, p.pre.usdc = some token ∧ 0 < (p.pre.balanceOf «from» token).val ∧
      ((settlement T contract).run s₀ inputs).pendingDeveloperMigration «from» =
        some ⟨«from», «to», p.pre.balanceOf «from» token, env.timestamp,
          env.timestamp + 86400⟩ := by
  obtain ⟨js, ks, rfl, rfl, hrun, hstep⟩ := Machine.log_split hlog
  have hcommit : (settlement T contract).step ((settlement T contract).run s₀ js) p.input =
      some (p.output, p.post) := by
    rw [hrun]
    exact hstep
  rw [hp] at hstep
  obtain ⟨-, token, husdc, hpos, hstored⟩ := effect_of_proposes (effect_of_commit hstep)
  have hpost : p.post.pendingDeveloperMigration «from» = some ⟨«from», «to»,
      p.pre.balanceOf «from» token, env.timestamp, env.timestamp + 86400⟩ := by
    rw [hstored, Store.set_self]
  have hsplit := Machine.log_step js ks hcommit
  rw [hlog] at hsplit
  have hrest := (List.cons.inj (List.append_cancel_left hsplit)).2
  rw [hrest] at hleaves
  have hend : (settlement T contract).run s₀ (js ++ p.input :: ks) =
      (settlement T contract).run p.post ks := by
    rw [List.append_cons, Machine.run_append, Machine.run_concat_of_step hcommit]
  refine ⟨token, husdc, hpos, ?_⟩
  rw [hend, ← hpost]
  refine Machine.stable_of_log (P := fun t => t.pendingDeveloperMigration «from» =
    p.post.pendingDeveloperMigration «from») rfl ?_ ks hleaves
  intro t input r t' ht hnext hl
  exact (pending_of_leaves hnext hl).trans ht

theorem exists_execution_iff {caller «from» : Address}
    (hpos : ∀ migration, s.pendingDeveloperMigration «from» = some migration →
      0 < migration.amount.val) :
    (∃ s', (executeBalanceMigration env caller «from» : Tx Address Ledger Unit).run s =
        .ok () s') ↔
      s.ByAdmin env caller ∧ ∃ migration token,
        s.pendingDeveloperMigration «from» = some migration ∧
        migration.executeAfter ≤ env.timestamp ∧ s.usdc = some token ∧
        migration.amount.val ≤ (s.balanceOf «from» token).val ∧
        (s.balanceOf migration.to token).val + migration.amount.val ≤ I128.max.val := by
  simp only [run_executeBalanceMigration_eq_ok]
  constructor
  · intro h
    rcases h with ⟨_, hadmin, migration, token, rest, total, hpending, hdue, husdc, hrest,
      hcovered, htotal, -⟩
    refine ⟨hadmin, migration, token, hpending, hdue, husdc, by omega, ?_⟩
    rw [← htotal]
    exact total.le_hi
  · intro h
    rcases h with ⟨hadmin, migration, token, hpending, hdue, husdc, hcovered, hroom⟩
    have hamount := hpos migration hpending
    have hhave := (s.balanceOf «from» token).le_hi
    obtain ⟨rest, hrest⟩ : ∃ rest : I128,
        rest.val = (s.balanceOf «from» token).val - migration.amount.val :=
      MachineInt.exists_val_eq.2 ⟨by omega, by omega⟩
    obtain ⟨total, htotal⟩ : ∃ total : I128,
        total.val = (s.balanceOf migration.to token).val + migration.amount.val :=
      (MachineInt.exists_val_eq_add hamount.le).2 hroom
    exact ⟨_, hadmin, migration, token, rest, total, hpending, hdue, husdc, hrest, by omega, htotal,
      rfl⟩

theorem proposal_of_pending (T : TokenContract Address Ledger) (ledger : Ledger)
    (inputs : List (Input Address Ledger contract)) {«from» : Address}
    {migration : PendingDeveloperMigration Address}
    (h : ((settlement T contract).run (.deployed ledger) inputs).pendingDeveloperMigration «from» =
      some migration) :
    ∃ l₁ p l₂ env caller «to» token,
      (settlement T contract).log (.deployed ledger) inputs = l₁ ++ p :: l₂ ∧
      p.input = .call env (.proposeBalanceMigration caller «from» «to») ∧
      (∀ x ∈ l₂, LeavesMigration «from» x) ∧ p.pre.usdc = some token ∧
      0 < (p.pre.balanceOf «from» token).val ∧ migration = ⟨«from», «to»,
        p.pre.balanceOf «from» token, env.timestamp, env.timestamp + 86400⟩ := by
  rcases pending_since T ledger inputs h with ⟨l₁, p, l₂, hlog, ⟨env, caller, hp, -⟩, hleaves⟩
  rcases pending_of_proposal hlog hp hleaves with ⟨token, husdc, hpos, hstored⟩
  have hsame := Option.some.inj (h.symm.trans hstored)
  exact ⟨l₁, p, l₂, env, caller, _, token, hlog, hp, hleaves, husdc, hpos, hsame⟩

theorem isSome_execution {caller «from» : Address} :
    ((settlement T contract).step s (.call env (.executeBalanceMigration caller «from»))).isSome ↔
      ∃ s', (executeBalanceMigration env caller «from» : Tx Address Ledger Unit).run s =
        .ok () s' := by
  rw [Option.isSome_iff_exists]
  constructor
  · intro h
    rcases h with ⟨⟨r, s'⟩, hcommit⟩
    rcases run_returning_eq_ok.1 (Call.commit_eq_some.1 hcommit) with ⟨_, hrun, -⟩
    exact ⟨s', hrun⟩
  · intro h
    rcases h with ⟨s', hrun⟩
    have hcall : (call T env (.executeBalanceMigration caller «from»)).run s = .ok .unit s' :=
      run_returning_eq_ok.2 ⟨(), hrun, rfl⟩
    exact ⟨_, Call.commit_eq_some.2 hcall⟩

/-- In every state that the settlement contract reaches, a migration is executed exactly when the
admin in office calls for it, its latest proposal has been left alone for a day, and the source
still has what it had then, in the token that pays now, with room for it at the destination. -/
theorem migration_iff_proposed (T : TokenContract Address Ledger) (ledger : Ledger)
    (inputs : List (Input Address Ledger contract)) (env : Env Address contract)
    (caller «from» : Address) :
    let m := settlement T contract
    let s := m.run (.deployed ledger) inputs
    (m.step s (.call env (.executeBalanceMigration caller «from»))).isSome ↔
      s.ByAdmin env caller ∧ ∃ l₁ p l₂ env' caller' «to» token token',
        m.log (.deployed ledger) inputs = l₁ ++ p :: l₂ ∧
        p.input = .call env' (.proposeBalanceMigration caller' «from» «to») ∧
        (∀ x ∈ l₂, LeavesMigration «from» x) ∧ env'.timestamp + 86400 ≤ env.timestamp ∧
        p.pre.usdc = some token ∧ s.usdc = some token' ∧
        (p.pre.balanceOf «from» token).val ≤ (s.balanceOf «from» token').val ∧
        (s.balanceOf «to» token').val + (p.pre.balanceOf «from» token).val ≤ I128.max.val := by
  intro m s
  have hpositive (migration : PendingDeveloperMigration Address)
      (hpending : s.pendingDeveloperMigration «from» = some migration) :
      0 < migration.amount.val := by
    rcases proposal_of_pending T ledger inputs hpending with
      ⟨_, _, _, _, _, _, _, -, -, -, -, hpos, rfl⟩
    exact hpos
  rw [isSome_execution, exists_execution_iff hpositive]
  apply and_congr_right
  intro _
  constructor
  · intro h
    rcases h with ⟨migration, token', hpending, hdue, husdc', hcovered, hroom⟩
    rcases proposal_of_pending T ledger inputs hpending with
      ⟨l₁, p, l₂, env', caller', «to», token, hlog, hp, hleaves, husdc, -, rfl⟩
    exact ⟨l₁, p, l₂, env', caller', «to», token, token', hlog, hp, hleaves, hdue, husdc, husdc',
      hcovered, hroom⟩
  · intro h
    rcases h with ⟨l₁, p, l₂, env', caller', «to», token, token', hlog, hp, hleaves, hdue, husdc,
      husdc', hcovered, hroom⟩
    rcases pending_of_proposal hlog hp hleaves with ⟨paid, hpaid, -, hstored⟩
    have hsame : token = paid := Option.some.inj (husdc.symm.trans hpaid)
    subst hsame
    exact ⟨_, token', hstored, hdue, husdc', hcovered, hroom⟩

end Callora.Settlement
