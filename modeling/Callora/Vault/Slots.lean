import Callora.Library.Timelock
import Callora.Vault.Run

/-! The timelock over whole runs. The three staged actions are one protocol with three slots: what
is executed was proposed a full window earlier, the latest of its kind, and no slot knows of the
others. -/

namespace Callora.Vault
open Library

variable {Address Ledger : Type} [DecidableEq Address] {contract : Address}
  {T : TokenContract Address Ledger} {env : Env Address contract} {s s' : State Address Ledger}

inductive Slot where
  | pause
  | upgrade
  | sweep
deriving DecidableEq

abbrev Slot.Action (Address : Type) : Slot → Type
  | .pause => Unit
  | .upgrade => WasmHash
  | .sweep => Sweep Address

def Slot.pending : (slot : Slot) → State Address Ledger → Option (Proposal (slot.Action Address))
  | .pause => State.pendingPause
  | .upgrade => State.pendingUpgrade
  | .sweep => State.pendingSweep

inductive SlotCall (α : Type) where
  | propose (action : α)
  | execute
  | cancel

def Op.slotCall : (slot : Slot) → Op Address → Option (SlotCall (slot.Action Address))
  | .pause, .proposePause _ => some (.propose ())
  | .pause, .executePause _ => some .execute
  | .pause, .cancelPause _ => some .cancel
  | .upgrade, .proposeUpgrade _ newWasmHash => some (.propose newWasmHash)
  | .upgrade, .executeUpgrade _ => some .execute
  | .upgrade, .cancelUpgrade _ => some .cancel
  | .sweep, .proposeSweep _ «to» amount => some (.propose ⟨«to», amount⟩)
  | .sweep, .executeSweep _ => some .execute
  | .sweep, .cancelSweep _ => some .cancel
  | _, _ => none

omit [DecidableEq Address] in
theorem slotCall_of_ne {slot other : Slot} {op : Op Address} (h : op.slotCall slot ≠ none)
    (hne : other ≠ slot) : op.slotCall other = none := by
  cases slot <;> cases other <;> first
    | exact absurd rfl hne
    | cases op <;> first | rfl | exact absurd rfl h

/-- `s'` is `s` after the staged action, with its slot emptied and the events published. -/
def Slot.Applies (T : TokenContract Address Ledger) (contract : Address) :
    (slot : Slot) → slot.Action Address → State Address Ledger → State Address Ledger → Prop
  | .pause, _, s, s' => ∃ events,
      s' = { s with paused := some true, pendingPause := none, events := events }
  | .upgrade, wasmHash, s, s' => ∃ events, s' = { s with
      wasm := some wasmHash
      contractVersion := some wasmHash
      pendingUpgrade := none
      events := events }
  | .sweep, ⟨«to», amount⟩, s, s' => ∃ usdc ledger events, s.usdcToken = some usdc ∧
      T.transfer s.ledger usdc contract «to» amount.val = some ledger ∧
      s' = { s with ledger := ledger, pendingSweep := none, events := events }

theorem slot_of_effect (slot : Slot) {op : Op Address} (h : Effect T env s op s') :
    match op.slotCall slot with
    | some (.propose action) => slot.pending s' =
        some ⟨action, env.timestamp, env.timestamp + getTimelockWindow s⟩
    | some .execute => ∃ proposal, slot.pending s = some proposal ∧
        proposal.executeAfter ≤ env.timestamp ∧ slot.Applies T contract proposal.action s s'
    | some .cancel => slot.pending s' = none
    | none => slot.pending s' = slot.pending s := by
  cases h with
  | proposePause admin staged =>
    cases slot with
    | pause => exact congrArg some staged.1
    | _ => rfl
  | executePause admin pending due =>
    cases slot with
    | pause => exact ⟨_, pending, due, _, rfl⟩
    | _ => rfl
  | proposeUpgrade admin staged =>
    cases slot with
    | upgrade => exact congrArg some staged.1
    | _ => rfl
  | executeUpgrade admin pending due uploaded =>
    cases slot with
    | upgrade => exact ⟨_, pending, due, _, rfl⟩
    | _ => rfl
  | proposeSweep admin positive staged =>
    cases slot with
    | sweep => exact congrArg some staged.1
    | _ => rfl
  | executeSweep admin pending due configured funded paid =>
    cases slot with
    | sweep => exact ⟨_, pending, due, _, _, _, configured, paid, rfl⟩
    | _ => rfl
  | _ => cases slot <;> rfl

omit [DecidableEq Address] in
theorem pending_of_applies {slot : Slot} {action : slot.Action Address}
    (h : slot.Applies T contract action s s') : slot.pending s' = none := by
  cases slot with
  | pause | upgrade =>
    obtain ⟨events, rfl⟩ := h
    rfl
  | sweep =>
    obtain ⟨usdc, ledger, events, -, -, rfl⟩ := h
    rfl

/-! Each slot as a timelock. -/

def SlotCall.act {α : Type} : SlotCall α → SlotAct α
  | .propose action => .propose action
  | .execute => .execute
  | .cancel => .cancel

def Proposal.staged {α : Type} (proposal : Proposal α) : StagedAction α :=
  ⟨proposal.action, proposal.proposedAt, proposal.executeAfter⟩

theorem slotStep_of_effect (slot : Slot) {op : Op Address} (h : Effect T env s op s') :
    SlotStep env.timestamp (getTimelockWindow s) ((slot.pending s).map Proposal.staged)
      ((slot.pending s').map Proposal.staged) ((op.slotCall slot).map SlotCall.act) := by
  have hslot := slot_of_effect slot h
  rcases hcall : op.slotCall slot with _ | action | _ | _ <;> rw [hcall] at hslot
  · exact congrArg (Option.map Proposal.staged) hslot
  · exact congrArg (Option.map Proposal.staged) hslot
  · obtain ⟨proposal, hpending, hdue, happlies⟩ := hslot
    have hnone := pending_of_applies happlies
    exact ⟨congrArg (Option.map Proposal.staged) hnone, proposal.staged,
      congrArg (Option.map Proposal.staged) hpending, hdue⟩
  · exact congrArg (Option.map Proposal.staged) hslot

def slotLock (T : TokenContract Address Ledger) (contract : Address) (slot : Slot) :
    Timelock (vault T contract) (slot.Action Address) where
  pending s := (slot.pending s).map Proposal.staged
  act
    | .call _ op => (op.slotCall slot).map SlotCall.act
    | .thirdParty .. => none
  time
    | .call env _ => env.timestamp
    | .thirdParty .. => 0
  delay := getTimelockWindow
  slot_step h := by
    obtain ⟨env, op, rfl, heff⟩ | ⟨_, _, _, _, _, _, rfl, -, rfl⟩ := effect_of_step h
    · exact slotStep_of_effect slot heff
    · cases slot <;> rfl

/-! Entries of a log. -/

def Slot.Proposes (slot : Slot) (action : slot.Action Address) (proposedAt window : ℕ)
    (e : LogEntry Address Ledger contract) : Prop :=
  ∃ env op, e.input = .call env op ∧ op.slotCall slot = some (.propose action) ∧
    env.timestamp = proposedAt ∧ getTimelockWindow e.pre = window

def Slot.Executes (slot : Slot) (e : LogEntry Address Ledger contract) : Prop :=
  ∃ env op, e.input = .call env op ∧ op.slotCall slot = some .execute

def Slot.Leaves (slot : Slot) (e : LogEntry Address Ledger contract) : Prop :=
  ∀ env op, e.input = .call env op → op.slotCall slot = none

section
variable {slot : Slot} {e : LogEntry Address Ledger contract}

theorem proposes_of_slotLock {action : slot.Action Address} {proposedAt window : ℕ}
    (h : (slotLock T contract slot).Proposes action proposedAt window e) :
    slot.Proposes action proposedAt window e := by
  obtain ⟨hact, htime, hwindow⟩ := h
  rcases hin : e.input with ⟨env, op⟩ | _ <;> rw [hin] at hact htime
  · obtain ⟨call, hcall, hpropose⟩ := Option.map_eq_some_iff.1 hact
    cases call with
    | propose =>
      cases hpropose
      exact ⟨env, op, hin, hcall, htime, hwindow⟩
    | execute | cancel => cases hpropose
  · cases hact

theorem executes_slotLock (h : slot.Executes e) : (slotLock T contract slot).Executes e := by
  obtain ⟨env, op, hin, hcall⟩ := h
  unfold Timelock.Executes
  rw [hin]
  exact congrArg (Option.map SlotCall.act) hcall

theorem leaves_of_slotLock (h : (slotLock T contract slot).Leaves e) : slot.Leaves e := by
  intro env op hin
  unfold Timelock.Leaves at h
  rw [hin] at h
  exact Option.map_eq_none_iff.1 h

end

theorem pending_of_leaves {slot : Slot} {input : Input Address contract} {r : Unit}
    (h : (vault T contract).step s input = some (r, s')) (hleaves : slot.Leaves ⟨s, input, r, s'⟩) :
    slot.pending s' = slot.pending s := by
  obtain ⟨env, op, rfl, heff⟩ | ⟨token, «from», «to», amount, external, ledger, rfl, -, rfl⟩ :=
    effect_of_step h
  · have hslot := slot_of_effect slot heff
    rw [hleaves env op rfl] at hslot
    exact hslot
  · cases slot <;> rfl

/-! Whole runs. -/

theorem window_bounds_run (T : TokenContract Address Ledger) (ledger : Ledger)
    (inputs : List (Input Address contract)) :
    3600 ≤ getTimelockWindow ((vault T contract).run (.deployed ledger) inputs) ∧
      getTimelockWindow ((vault T contract).run (.deployed ledger) inputs) ≤ 2592000 := by
  refine Machine.invariant (P := fun s : State Address Ledger =>
    3600 ≤ getTimelockWindow s ∧ getTimelockWindow s ≤ 2592000) ?_ ?_ inputs
  · change 3600 ≤ DEFAULT_TIMELOCK_SECONDS ∧ DEFAULT_TIMELOCK_SECONDS ≤ 2592000
    decide
  intro s input r s' hs hstep
  obtain ⟨env, op, rfl, heff⟩ | ⟨token, «from», «to», amount, external, ledger, rfl, -, rfl⟩ :=
    effect_of_step hstep
  · cases heff with
    | setTimelockWindow admin bounds => exact bounds
    | _ => exact hs
  · exact hs

theorem slotLock_deployed (T : TokenContract Address Ledger) (contract : Address) (slot : Slot)
    (ledger : Ledger) : (slotLock T contract slot).pending (.deployed ledger) = none := by
  cases slot <;> rfl

theorem exists_proposal (T : TokenContract Address Ledger) (ledger : Ledger)
    (inputs : List (Input Address contract)) {slot : Slot}
    {l₁ l₂ : List (LogEntry Address Ledger contract)} {e : LogEntry Address Ledger contract}
    {op : Op Address} (hlog : (vault T contract).log (.deployed ledger) inputs = l₁ ++ e :: l₂)
    (he : e.input = .call env op) (hop : op.slotCall slot = some .execute) :
    ∃ action proposedAt window,
      Machine.Since (slot.Proposes action proposedAt window) slot.Leaves l₁ ∧
      3600 ≤ window ∧ window ≤ 2592000 ∧ proposedAt + window ≤ env.timestamp ∧
      slot.Applies T contract action e.pre e.post := by
  obtain ⟨p, window, hstaged, hdue, hsince⟩ := Timelock.exists_proposal
    (slotLock_deployed T contract slot ledger) hlog (executes_slotLock ⟨env, op, he, hop⟩)
  rw [he] at hdue
  obtain ⟨js, ks, -, hjs, -, hstep⟩ := Machine.log_split hlog
  rw [he] at hstep
  have hslot := slot_of_effect slot (effect_of_call (Call.commit_eq_some.1 hstep))
  rw [hop] at hslot
  obtain ⟨proposal, hpending, -, happlies⟩ := hslot
  have hstaged' := congrArg (Option.map Proposal.staged) hpending
  obtain rfl : proposal.staged = p := Option.some.inj (hstaged'.symm.trans hstaged)
  -- the window of the proposal is that of a state of the run
  obtain ⟨a, q, b, hsplit, hq, -⟩ := id hsince
  have hmem : q ∈ (vault T contract).log (.deployed ledger) js := by
    rw [hjs, hsplit]
    exact List.mem_append_right _ List.mem_cons_self
  obtain ⟨js', -, -, hpre, -⟩ := Machine.mem_log.1 hmem
  have hbounds := window_bounds_run T ledger js'
  have hwindow : getTimelockWindow q.pre = window := hq.2.2
  rw [hpre, hwindow] at hbounds
  exact ⟨_, _, window, hsince.mono (fun _ h => proposes_of_slotLock h)
    fun _ h => leaves_of_slotLock h, hbounds.1, hbounds.2, hdue, happlies⟩

/-- Every execution carries out the latest proposal for its slot, which was made when the window
was `window` and at least that long ago, and has been neither cancelled nor executed since; no
proposal is executed twice; a new window moves no deadline; what a call does in one slot leaves the
other two alone. -/
theorem actions_timelocked (T : TokenContract Address Ledger) (contract : Address)
    (ledger : Ledger) (inputs : List (Input Address contract)) :
    let l := (vault T contract).log (.deployed ledger) inputs
    (∀ (slot : Slot) l₁ e l₂ env op, l = l₁ ++ e :: l₂ → e.input = .call env op →
      op.slotCall slot = some .execute → ∃ action proposedAt window,
        Machine.Since (slot.Proposes action proposedAt window) slot.Leaves l₁ ∧
        3600 ≤ window ∧ window ≤ 2592000 ∧ proposedAt + window ≤ env.timestamp ∧
        slot.Applies T contract action e.pre e.post) ∧
    (∀ (slot : Slot) l₁ e₁ l₂ e₂ l₃, l = l₁ ++ e₁ :: (l₂ ++ e₂ :: l₃) → slot.Executes e₁ →
      slot.Executes e₂ → ∃ p ∈ l₂, ∃ action proposedAt window,
        slot.Proposes action proposedAt window p) ∧
    (∀ e ∈ l, ∀ env caller window, e.input = .call env (.setTimelockWindow caller window) →
      ∀ slot : Slot, slot.pending e.post = slot.pending e.pre) ∧
    ∀ e ∈ l, ∀ env op (slot other : Slot), e.input = .call env op → op.slotCall slot ≠ none →
      other ≠ slot → other.pending e.post = other.pending e.pre := by
  intro l
  refine ⟨?_, ?_, ?_, ?_⟩
  · intro slot l₁ e l₂ env op hl he hop
    exact exists_proposal T ledger inputs hl he hop
  · intro slot l₁ e₁ l₂ e₂ l₃ hl h₁ h₂
    obtain ⟨p, hp, action, proposedAt, window, hproposes⟩ := Timelock.exists_proposal_between
      (slotLock_deployed T contract slot ledger) hl (executes_slotLock h₁) (executes_slotLock h₂)
    exact ⟨p, hp, action, proposedAt, window, proposes_of_slotLock hproposes⟩
  · intro e he env caller window hin slot
    obtain ⟨js, ks, -, -, hstep⟩ := Machine.mem_log.1 he
    apply pending_of_leaves hstep
    intro env' op hin'
    obtain ⟨-, rfl⟩ := Input.call.inj (hin.symm.trans hin')
    cases slot <;> rfl
  · intro e he env op slot other hin hop hne
    obtain ⟨js, ks, -, -, hstep⟩ := Machine.mem_log.1 he
    apply pending_of_leaves hstep
    intro env' op' hin'
    obtain ⟨-, rfl⟩ := Input.call.inj (hin.symm.trans hin')
    exact slotCall_of_ne hop hne

end Callora.Vault
