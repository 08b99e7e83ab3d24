import Callora.Library.Breaker
import Callora.Rotation
import Callora.Vault.Surplus
import Callora.RevenuePool.Events

/-! Pauses as circuit breakers. A paused vault takes and charges nothing and loses only what is
swept from it; a paused pool distributes nothing and loses only what is drained from it. -/

namespace Callora
open Library

namespace Vault
variable {Address Ledger : Type} [DecidableEq Address] {contract usdc : Address}
  {env : Env Address contract} {s s' : State Address Ledger} {op : Op Address}

def Op.Pauses : Op Address → Prop
  | .pause _ | .executePause _ => True
  | _ => False

def Op.Unpauses : Op Address → Prop
  | .unpause _ => True
  | _ => False

structure State.Started (s : State Address Ledger) : Prop where
  vacant : OfficeVacant s
  unpaused : s.owner = none → isPaused s = false
  configured : s.owner ≠ none → s.usdcToken ≠ none

omit [DecidableEq Address] in
theorem State.Started.holds_of_paused (hs : s.Started) (hpaused : isPaused s = true) :
    ∃ usdc, s.Holds usdc := by
  have howner : s.owner ≠ none := by
    intro hnone
    have hunpaused := hs.unpaused hnone
    rw [hpaused] at hunpaused
    cases hunpaused
  rcases Option.ne_none_iff_exists'.1 (hs.configured howner) with ⟨usdc, husdc⟩
  exact ⟨usdc, howner, husdc⟩

theorem started_of_effect {T : TokenContract Address Ledger} (hs : s.Started)
    (h : Effect T env s op s') : s'.Started := by
  refine ⟨officeVacant_of_effect hs.vacant h, ?_, ?_⟩
  · intro howner
    cases h with
    | init => cases howner
    | pause owner =>
      have hsome := owner.2
      rw [howner] at hsome
      cases hsome
    | executePause admin =>
      have hvacant := (Office.mk.inj (hs.vacant howner)).1
      rw [admin.2] at hvacant
      cases hvacant
    | unpause => rfl
    | _ => exact hs.unpaused howner
  · intro howner
    cases h with
    | init => exact Option.some_ne_none _
    | _ => exact hs.configured howner

theorem paused_of_effect {T : TokenContract Address Ledger} (hs : s.Started)
    (h : Effect T env s op s') :
    isPaused s' = true ↔ op.Pauses ∨ (isPaused s = true ∧ ¬op.Unpauses) := by
  cases h with
  | init fresh =>
    have hunpaused := hs.unpaused fresh
    rw [hunpaused]
    simp [isPaused, Op.Pauses]
  | pause | executePause => exact iff_of_true rfl (.inl trivial)
  | unpause => simp [isPaused, Op.Pauses, Op.Unpauses]
  | _ => simp [isPaused, Op.Pauses, Op.Unpauses]

def pauseSwitch (T : TokenContract Address Ledger) (contract : Address) :
    Breaker (vault T contract) where
  tripped s := isPaused s = true
  Trips
    | .call _ op => op.Pauses
    | .thirdParty .. => False
  Resets
    | .call _ op => op.Unpauses
    | .thirdParty .. => False
  valid := State.Started
  valid_step hs h := by
    rcases effect_of_step h with ⟨env, op, rfl, heff⟩ | ⟨_, _, _, _, _, _, rfl, -, rfl⟩
    · exact started_of_effect hs heff
    · exact ⟨hs.vacant, hs.unpaused, hs.configured⟩
  tripped_step hs h := by
    rcases effect_of_step h with ⟨env, op, rfl, heff⟩ | ⟨_, _, _, _, _, _, rfl, -, rfl⟩
    · exact paused_of_effect hs heff
    · simp [isPaused]

theorem still_of_step {T : TokenContract Address Ledger} {input : Input Address contract}
    {r : Unit} (hpaused : isPaused s = true)
    (h : (vault T contract).step s input = some (r, s')) :
    let e : LogEntry Address Ledger contract := ⟨s, input, r, s'⟩
    deposited e = 0 ∧ deducted e = 0 ∧ kept e = 0 := by
  have hrefused (hunpaused : isPaused s = false) : False := by
    rw [hpaused] at hunpaused
    cases hunpaused
  rcases effect_of_step h with ⟨env, op, rfl, heff⟩ | ⟨_, _, _, _, _, _, rfl, -, rfl⟩
  · cases heff with
    | deposit deposit => exact (hrefused deposit.unpaused).elim
    | deduct charge => exact (hrefused charge.unpaused).elim
    | batchDeduct charge => exact (hrefused charge.unpaused).elim
    | _ => exact ⟨rfl, rfl, ite_self _⟩
  · exact ⟨rfl, rfl, rfl⟩

/-- In every run a vault is paused exactly if it was paused, at once or after the window, and no
owner has unpaused it since. All that time its tracked balance has stood still, and what it holds
has changed by what others gave it and by executed sweeps. -/
theorem paused_vault_still (T : ExactToken Address Ledger) (contract : Address) (ledger : Ledger)
    (inputs : List (Input Address contract)) :
    let m := vault T.toTokenContract contract
    let switch := pauseSwitch T.toTokenContract contract
    let t := m.run (.deployed ledger) inputs
    let l := m.log (.deployed ledger) inputs
    (isPaused t = true ↔ switch.Since l) ∧
      ∀ l₁ e l₂, l = l₁ ++ e :: l₂ → switch.Trips e.input →
        (∀ x ∈ l₂, ¬switch.Resets x.input) →
        t.tracked.val = e.post.tracked.val ∧ ∃ usdc, e.post.usdcToken = some usdc ∧
          T.balance t.ledger usdc contract = T.balance e.post.ledger usdc contract +
            (l₂.map fun x => given usdc x - swept x).sum := by
  intro m switch t l
  have hstart : switch.valid (.deployed ledger) :=
    ⟨fun _ => rfl, fun _ => rfl, fun h => (h rfl).elim⟩
  have hoff : ¬switch.tripped (.deployed ledger) := Bool.false_ne_true
  refine ⟨Breaker.tripped_iff_since hstart hoff inputs, ?_⟩
  intro l₁ e l₂ hlog htrips hkept
  rcases Breaker.tripped_post hstart hlog htrips with ⟨hstarted, hpaused⟩
  rcases hstarted.holds_of_paused hpaused with ⟨usdc, hholds⟩
  have htracked : t.tracked.val = e.post.tracked.val + (l₂.map fun _ => (0 : ℤ)).sum := by
    apply Breaker.guarded_since (b := switch) (I := State.Holds usdc)
      (g := fun s => s.tracked.val) ?_ ?_ hstart hlog htrips hkept hholds
    · intro _ _ _ _ hs h
      exact holds_of_step hs h
    · intro u input r u' hs hp h
      rcases still_of_step hp h with ⟨hdeposited, hdeducted, -⟩
      rw [(moved_of_step hs h).1, hdeposited, hdeducted]
      rfl
  have hheld : T.balance t.ledger usdc contract = T.balance e.post.ledger usdc contract +
      (l₂.map fun x => given usdc x - swept x).sum := by
    apply Breaker.guarded_since (b := switch) (I := State.Holds usdc)
      (g := fun s => T.balance s.ledger usdc contract) ?_ ?_ hstart hlog htrips hkept hholds
    · intro _ _ _ _ hs h
      exact holds_of_step hs h
    · intro u input r u' hs hp h
      rcases still_of_step hp h with ⟨hdeposited, hdeducted, hkept⟩
      rw [(moved_of_step hs h).2, hdeposited, hdeducted, hkept]
      omega
  rw [List.map_const', List.sum_replicate, nsmul_zero, Int.add_zero] at htracked
  exact ⟨htracked, usdc, hholds.configured, hheld⟩

end Vault

namespace RevenuePool
variable {Address Ledger : Type} [DecidableEq Address] {contract usdc : Address}
  {env : Env Address contract} {s s' : State Address Ledger} {op : Op Address}

def Op.Pauses : Op Address → Prop
  | .pause _ => True
  | _ => False

def Op.Unpauses : Op Address → Prop
  | .unpause _ => True
  | _ => False

structure State.Started (contract : Address) (s : State Address Ledger) : Prop where
  vacant : s.admin = none → s.pendingAdmin = none
  unpaused : s.admin = none → isPaused s = false
  configured : s.admin ≠ none → s.usdcToken ≠ none
  external : s.DrainsOut contract

omit [DecidableEq Address] in
theorem State.Started.paysOut_of_paused (hs : s.Started contract) (hpaused : isPaused s = true) :
    ∃ usdc, s.PaysOut contract usdc := by
  have hadmin : s.admin ≠ none := by
    intro hnone
    have hunpaused := hs.unpaused hnone
    rw [hpaused] at hunpaused
    cases hunpaused
  rcases Option.ne_none_iff_exists'.1 (hs.configured hadmin) with ⟨usdc, husdc⟩
  exact ⟨usdc, hadmin, husdc, fun drain hdrain => (hs.external drain hdrain).1⟩

omit [DecidableEq Address] in
theorem started_of_effect {T : TokenContract Address Ledger} (hs : s.Started contract)
    (h : Effect T env s op s') :
    (s'.admin = none → s'.pendingAdmin = none) ∧ (s'.admin = none → isPaused s' = false) ∧
      (s'.admin ≠ none → s'.usdcToken ≠ none) := by
  have hfilled {caller : Address} (hadmin : s.admin = some caller) (hnone : s.admin = none) :
      False := by
    rw [hadmin] at hnone
    cases hnone
  cases h with
  | init =>
    refine ⟨fun hnone => ?_, fun hnone => ?_, fun _ => Option.some_ne_none _⟩
    · cases hnone
    · cases hnone
  | setAdmin admin =>
    exact ⟨fun hnone => (hfilled admin.2 hnone).elim, hs.unpaused, hs.configured⟩
  | acceptAdmin authorized nominated | claimAdmin authorized nominated =>
    have hadmin : s.admin ≠ none := by
      intro hnone
      have hvacant := hs.vacant hnone
      rw [nominated] at hvacant
      cases hvacant
    exact ⟨fun _ => rfl, fun hnone => (Option.some_ne_none _ hnone).elim,
      fun _ => hs.configured hadmin⟩
  | cancelAdminTransfer => exact ⟨fun _ => rfl, hs.unpaused, hs.configured⟩
  | pause authorized initialized =>
    exact ⟨hs.vacant, fun hnone => (initialized hnone).elim, hs.configured⟩
  | unpause => exact ⟨hs.vacant, fun _ => rfl, hs.configured⟩
  | _ => exact ⟨hs.vacant, hs.unpaused, hs.configured⟩

omit [DecidableEq Address] in
theorem paused_of_effect {T : TokenContract Address Ledger} (hs : s.Started contract)
    (h : Effect T env s op s') :
    isPaused s' = true ↔ op.Pauses ∨ (isPaused s = true ∧ ¬op.Unpauses) := by
  cases h with
  | init fresh =>
    have hunpaused := hs.unpaused fresh
    rw [hunpaused]
    simp [isPaused, Op.Pauses]
  | pause => exact iff_of_true rfl (.inl trivial)
  | unpause => simp [isPaused, Op.Pauses, Op.Unpauses]
  | _ => simp [isPaused, Op.Pauses, Op.Unpauses]

def pauseSwitch (T : TokenContract Address Ledger) (contract : Address) :
    Breaker (revenuePool T contract) where
  tripped s := isPaused s = true
  Trips
    | .call _ op => op.Pauses
    | .thirdParty .. => False
  Resets
    | .call _ op => op.Unpauses
    | .thirdParty .. => False
  valid := State.Started contract
  valid_step hs h := by
    have hout := drainsOut_of_step hs.external h
    rcases effect_of_step h with ⟨env, op, rfl, heff⟩ | ⟨_, _, _, _, _, _, rfl, -, rfl⟩
    · rcases started_of_effect hs heff with ⟨hvacant, hunpaused, hconfigured⟩
      exact ⟨hvacant, hunpaused, hconfigured, hout⟩
    · exact ⟨hs.vacant, hs.unpaused, hs.configured, hout⟩
  tripped_step hs h := by
    rcases effect_of_step h with ⟨env, op, rfl, heff⟩ | ⟨_, _, _, _, _, _, rfl, -, rfl⟩
    · exact paused_of_effect hs heff
    · simp [isPaused]

theorem legs_of_paused {T : TokenContract Address Ledger} {input : Input Address contract}
    {r : Unit} (hpaused : isPaused s = true)
    (h : (revenuePool T contract).step s input = some (r, s')) :
    legs (⟨s, input, r, s'⟩ : LogEntry Address Ledger contract) = [] := by
  apply List.eq_nil_iff_forall_not_mem.2
  intro leg hleg
  have hunpaused := (legs_of_step h leg hleg).2
  rw [hpaused] at hunpaused
  cases hunpaused

/-- In every run a pool is paused exactly if it was paused and no admin has unpaused it since. All
that time what it holds has changed by what others paid it, by deposits of yield and by executed
drains. -/
theorem paused_pool_drains_only (T : ExactToken Address Ledger) (contract : Address)
    (ledger : Ledger) (inputs : List (Input Address contract)) :
    let m := revenuePool T.toTokenContract contract
    let switch := pauseSwitch T.toTokenContract contract
    let t := m.run (.deployed ledger) inputs
    let l := m.log (.deployed ledger) inputs
    (isPaused t = true ↔ switch.Since l) ∧
      ∀ l₁ e l₂, l = l₁ ++ e :: l₂ → switch.Trips e.input →
        (∀ x ∈ l₂, ¬switch.Resets x.input) →
        ∃ usdc, e.post.usdcToken = some usdc ∧
          T.balance t.ledger usdc contract = T.balance e.post.ledger usdc contract +
            (l₂.map fun x => inflow usdc x + yielded x - drained x).sum := by
  intro m switch t l
  have hstart : switch.valid (.deployed ledger) :=
    ⟨fun _ => rfl, fun _ => rfl, fun h => (h rfl).elim, fun _ hdrain => by cases hdrain⟩
  have hoff : ¬switch.tripped (.deployed ledger) := Bool.false_ne_true
  refine ⟨Breaker.tripped_iff_since hstart hoff inputs, ?_⟩
  intro l₁ e l₂ hlog htrips hkept
  rcases Breaker.tripped_post hstart hlog htrips with ⟨hstarted, hpaused⟩
  rcases hstarted.paysOut_of_paused hpaused with ⟨usdc, hpays⟩
  refine ⟨usdc, hpays.configured, ?_⟩
  apply Breaker.guarded_since (b := switch) (I := State.PaysOut contract usdc)
    (g := fun s => T.balance s.ledger usdc contract) ?_ ?_ hstart hlog htrips hkept hpays
  · intro _ _ _ _ hs h
    exact paysOut_of_step hs h
  · intro u input r u' hs hp h
    have hnone : distributed ⟨u, input, r, u'⟩ = 0 := by
      rw [distributed, legs_of_paused hp h, totalAmount_nil]
    rw [held_of_step hs h, net, hnone, Int.sub_zero]

end RevenuePool

end Callora
