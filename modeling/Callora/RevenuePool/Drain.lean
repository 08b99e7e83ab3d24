import Callora.Library.Timelock
import Callora.RevenuePool.Run

/-! The emergency drain over whole runs. What is drained was proposed a day earlier, by the latest
proposal, and no proposal outlives its execution or its cancellation. -/

namespace Callora.RevenuePool
open Library

variable {Address Ledger : Type} [DecidableEq Address] {contract : Address}
  {env : Env Address contract} {s s' : State Address Ledger} {op : Op Address}

abbrev Transfer (Address : Type) : Type := Address × I128

def PendingEmergencyDrain.staged (drain : PendingEmergencyDrain Address) :
    StagedAction (Transfer Address) :=
  ⟨(drain.to, drain.amount), drain.proposedAt, drain.executeAfter⟩

def Op.drainAct : Op Address → Option (SlotAct (Transfer Address))
  | .proposeEmergencyDrain _ treasury amount => some (.propose (treasury, amount))
  | .executeEmergencyDrain _ => some .execute
  | .cancelEmergencyDrain _ => some .cancel
  | _ => none

omit [DecidableEq Address] in
theorem slotStep_of_effect {T : TokenContract Address Ledger} (h : Effect T env s op s') :
    SlotStep env.timestamp EMERGENCY_DRAIN_TIMELOCK_SECONDS
      (s.emergencyDrain.map PendingEmergencyDrain.staged)
      (s'.emergencyDrain.map PendingEmergencyDrain.staged) op.drainAct := by
  cases h with
  | proposeEmergencyDrain admin staged =>
    have hstored := staged.stored
    exact congrArg (fun drain => some drain.staged) hstored
  | executeEmergencyDrain executed =>
    have hpending := congrArg (Option.map PendingEmergencyDrain.staged) executed.pending
    exact ⟨rfl, _, hpending, executed.due⟩
  | _ => rfl

def drainLock (T : TokenContract Address Ledger) (contract : Address) :
    Timelock (revenuePool T contract) (Transfer Address) where
  pending s := s.emergencyDrain.map PendingEmergencyDrain.staged
  act
    | .call _ op => op.drainAct
    | .thirdParty _ _ _ _ _ => none
  time
    | .call env _ => env.timestamp
    | .thirdParty _ _ _ _ _ => 0
  delay _ := EMERGENCY_DRAIN_TIMELOCK_SECONDS
  slot_step h := by
    rcases effect_of_step h with ⟨env, op, rfl, heff⟩ | ⟨_, _, _, _, _, _, rfl, -, rfl⟩
    · exact slotStep_of_effect heff
    · rfl

def State.DrainsOut (contract : Address) (s : State Address Ledger) : Prop :=
  ∀ drain, s.emergencyDrain = some drain → drain.to ≠ contract ∧ 0 < drain.amount.val

theorem drainsOut_of_step {T : TokenContract Address Ledger} {input : Input Address contract}
    {r : Unit} (hs : s.DrainsOut contract)
    (h : (revenuePool T contract).step s input = some (r, s')) : s'.DrainsOut contract := by
  rcases effect_of_step h with ⟨env, op, rfl, heff⟩ | ⟨_, _, _, _, _, _, rfl, -, rfl⟩
  · cases heff with
    | proposeEmergencyDrain admin staged =>
      intro drain hdrain
      obtain rfl := Option.some.inj hdrain
      have hstored := staged.stored
      rw [hstored]
      exact ⟨staged.external, staged.positive⟩
    | executeEmergencyDrain | cancelEmergencyDrain =>
      intro drain hdrain
      cases hdrain
    | _ => exact hs
  · exact hs

theorem drainsOut_run (T : TokenContract Address Ledger) (ledger : Ledger)
    (inputs : List (Input Address contract)) :
    ((revenuePool T contract).run (.deployed ledger) inputs).DrainsOut contract := by
  apply Machine.invariant
  · intro drain hdrain
    cases hdrain
  · intro s input r s' hs hstep
    exact drainsOut_of_step hs hstep

variable {T : ExactToken Address Ledger}

/-- The entry moves `amount` of the pool's token from the pool to `treasury` and clears the
proposal, and changes nothing else but the published events. -/
def Drains (T : ExactToken Address Ledger) (treasury : Address) (amount : I128)
    (e : LogEntry Address Ledger contract) : Prop :=
  ∃ usdc events, e.pre.usdcToken = some usdc ∧
    (∀ t z, T.balance e.post.ledger t z = T.balance e.pre.ledger t z -
      (if t = usdc ∧ z = contract then amount.val else 0) +
      (if t = usdc ∧ z = treasury then amount.val else 0)) ∧
    e.post = { e.pre with emergencyDrain := none, ledger := e.post.ledger, events := events }

theorem drains_of_execute {caller : Address} {r : Unit}
    (h : Effect T.toTokenContract env s (.executeEmergencyDrain caller) s') :
    ∃ drain, s.emergencyDrain = some drain ∧
      Drains T drain.to drain.amount (⟨s, .call env (.executeEmergencyDrain caller), r, s'⟩ :
        LogEntry Address Ledger contract) := by
  cases h with
  | @executeEmergencyDrain _ usdc drain ledger executed =>
    have hmoved := T.balance_transfer executed.paid
    exact ⟨drain, executed.pending, usdc, _, executed.configured, hmoved, rfl⟩

/-- Every executed drain pays the recipient and the amount of the latest proposal, which was made at
least a day before and has been neither cancelled nor executed since; between two executions lies
a proposal; and an execution that fails changes nothing. -/
theorem drains_timelocked (T : ExactToken Address Ledger) (contract : Address) (ledger : Ledger)
    (inputs : List (Input Address contract)) :
    let m := revenuePool T.toTokenContract contract
    let lock := drainLock T.toTokenContract contract
    let l := m.log (.deployed ledger) inputs
    (∀ l₁ e l₂ env caller, l = l₁ ++ e :: l₂ →
      e.input = .call env (.executeEmergencyDrain caller) → ∃ treasury amount proposedAt,
        Machine.Since (lock.Proposes (treasury, amount) proposedAt 86400) lock.Leaves l₁ ∧
        proposedAt + 86400 ≤ env.timestamp ∧ treasury ≠ contract ∧ 0 < amount.val ∧
        Drains T treasury amount e) ∧
    (∀ l₁ e₁ l₂ e₂ l₃, l = l₁ ++ e₁ :: (l₂ ++ e₂ :: l₃) → lock.Executes e₁ → lock.Executes e₂ →
      ∃ p ∈ l₂, ∃ move proposedAt, lock.Proposes move proposedAt 86400 p) ∧
    ∀ js env caller, let s := m.run (.deployed ledger) js
      let execution := .call env (.executeEmergencyDrain caller)
      m.step s execution = none → m.next s execution = s := by
  intro m lock l
  have h₀ : lock.pending (.deployed ledger) = none := rfl
  refine ⟨?_, ?_, ?_⟩
  · intro l₁ e l₂ env caller hl hin
    obtain ⟨js, ks, -, -, hrun, hstep⟩ := Machine.log_split hl
    have hexecutes : lock.Executes e := by
      unfold Timelock.Executes
      rw [hin]
      rfl
    obtain ⟨p, delay, hpending, hdue, hsince⟩ := Timelock.exists_proposal h₀ hl hexecutes
    obtain ⟨pre, input, r, post⟩ := e
    obtain rfl : input = .call env (.executeEmergencyDrain caller) := hin
    obtain ⟨drain, hdrain, hdrains⟩ :=
      drains_of_execute (r := r) (effect_of_call (Call.commit_eq_some.1 hstep))
    have hstaged : lock.pending pre = some drain.staged :=
      congrArg (Option.map PendingEmergencyDrain.staged) hdrain
    obtain rfl : drain.staged = p := Option.some.inj (hstaged.symm.trans hpending)
    have hout := drainsOut_run T.toTokenContract ledger js
    rw [hrun] at hout
    obtain ⟨hto, hpos⟩ := hout drain hdrain
    have hdelay : delay = 86400 := by
      obtain ⟨_, q, _, -, hq, -⟩ := hsince
      exact hq.2.2.symm
    rw [hdelay] at hsince hdue
    exact ⟨drain.to, drain.amount, drain.proposedAt, hsince, hdue, hto, hpos, hdrains⟩
  · intro l₁ e₁ l₂ e₂ l₃ hl h₁ h₂
    obtain ⟨p, hp, move, proposedAt, delay, hproposes⟩ :=
      Timelock.exists_proposal_between h₀ hl h₁ h₂
    obtain rfl : 86400 = delay := hproposes.2.2
    exact ⟨p, hp, move, proposedAt, hproposes⟩
  · intro js env caller s execution hfails
    exact Machine.next_of_rollback hfails

theorem exists_drain_iff {caller : Address} (hs : s.DrainsOut contract) :
    (∃ s', (executeEmergencyDrain T.toTokenContract env caller).run s = .ok () s') ↔
      s.ByAdmin env caller ∧ ∃ drain usdc, s.emergencyDrain = some drain ∧
        drain.executeAfter ≤ env.timestamp ∧ s.usdcToken = some usdc ∧
        drain.amount.val ≤ T.balance s.ledger usdc contract := by
  simp only [run_executeEmergencyDrain_eq_ok]
  constructor
  · intro h
    rcases h with ⟨_, drain, usdc, ledger, executed, -⟩
    exact ⟨executed.admin, drain, usdc, executed.pending, executed.due, executed.configured,
      executed.covered⟩
  · intro h
    rcases h with ⟨hadmin, drain, usdc, hpending, hdue, husdc, hcovered⟩
    have hpos := (hs drain hpending).2
    have hpays := (T.transfer_isSome s.ledger usdc contract drain.to drain.amount.val).2
      ⟨hpos.le, hcovered⟩
    rcases Option.isSome_iff_exists.1 hpays with ⟨ledger, hpaid⟩
    exact ⟨_, drain, usdc, ledger, ⟨hadmin, hpending, hdue, husdc, hcovered, hpaid⟩, rfl⟩

theorem emergencyDrain_iff_since (T : TokenContract Address Ledger) (ledger : Ledger)
    (inputs : List (Input Address contract)) {drain : PendingEmergencyDrain Address} :
    ((revenuePool T contract).run (.deployed ledger) inputs).emergencyDrain = some drain ↔
      drain.executeAfter = drain.proposedAt + 86400 ∧
        Machine.Since ((drainLock T contract).Proposes (drain.to, drain.amount)
          drain.proposedAt 86400) (drainLock T contract).Leaves
          ((revenuePool T contract).log (.deployed ledger) inputs) := by
  have h₀ : (drainLock T contract).pending (.deployed ledger) = none := rfl
  have hlock := (drainLock T contract).pending_iff_since inputs h₀ (p := drain.staged)
  have hstaged : (drainLock T contract).pending
      ((revenuePool T contract).run (.deployed ledger) inputs) = some drain.staged ↔
      ((revenuePool T contract).run (.deployed ledger) inputs).emergencyDrain = some drain := by
    constructor
    · intro h
      rcases Option.map_eq_some_iff.1 h with ⟨other, hother, hsame⟩
      have heq : other = drain := by
        rcases other with ⟨_, _, _, _⟩
        rcases drain with ⟨_, _, _, _⟩
        simpa [PendingEmergencyDrain.staged, and_assoc] using hsame
      rw [hother, heq]
    · intro h
      exact congrArg (Option.map PendingEmergencyDrain.staged) h
  rw [← hstaged, hlock]
  constructor
  · intro hsince
    rcases hsince with ⟨l₁, e, l₂, hlog, ⟨delay, hdue, hproposes⟩, hleaves⟩
    have hday : 86400 = delay := hproposes.2.2
    subst hday
    exact ⟨hdue, l₁, e, l₂, hlog, hproposes, hleaves⟩
  · intro h
    exact h.2.mono (fun e he => ⟨86400, h.1, he⟩) fun e he => he

/-- In every state that a pool reaches, an emergency drain succeeds exactly when the admin in office
executes it, the latest proposal has since been neither executed nor cancelled and is a day old,
and the pool holds what it asks for. -/
theorem drain_iff_proposed (T : ExactToken Address Ledger) (contract : Address) (ledger : Ledger)
    (inputs : List (Input Address contract)) (env : Env Address contract) (caller : Address) :
    let m := revenuePool T.toTokenContract contract
    let lock := drainLock T.toTokenContract contract
    let s := m.run (.deployed ledger) inputs
    (m.step s (.call env (.executeEmergencyDrain caller))).isSome ↔
      s.ByAdmin env caller ∧ ∃ treasury amount proposedAt usdc,
        Machine.Since (lock.Proposes (treasury, amount) proposedAt 86400) lock.Leaves
          (m.log (.deployed ledger) inputs) ∧
        proposedAt + 86400 ≤ env.timestamp ∧ s.usdcToken = some usdc ∧
        amount.val ≤ T.balance s.ledger usdc contract := by
  intro m lock s
  have hout : s.DrainsOut contract := drainsOut_run T.toTokenContract ledger inputs
  have hstep : (m.step s (.call env (.executeEmergencyDrain caller))).isSome ↔
      ∃ s', (executeEmergencyDrain T.toTokenContract env caller).run s = .ok () s' :=
    Call.commit_isSome
  rw [hstep, exists_drain_iff hout]
  apply and_congr_right
  intro _
  constructor
  · intro h
    rcases h with ⟨drain, usdc, hpending, hdue, husdc, hcovered⟩
    have hproposed := (emergencyDrain_iff_since T.toTokenContract ledger inputs).1 hpending
    rw [hproposed.1] at hdue
    exact ⟨_, _, _, usdc, hproposed.2, hdue, husdc, hcovered⟩
  · intro h
    rcases h with ⟨treasury, amount, proposedAt, usdc, hsince, hdue, husdc, hcovered⟩
    refine ⟨⟨treasury, amount, proposedAt, proposedAt + 86400⟩, usdc, ?_, hdue, husdc, hcovered⟩
    exact (emergencyDrain_iff_since T.toTokenContract ledger inputs).2 ⟨rfl, hsince⟩

end Callora.RevenuePool
