import Callora.Vault.Slots

/-! What the timelock lets through. A staged action is neither lost nor held back: the admin in
office may execute it exactly while its proposal is the latest of its kind and undisturbed, its
window has passed and what it needs is there. -/

namespace Callora.Vault
open Library

variable {Address Ledger : Type} [DecidableEq Address] {contract : Address}
  {env : Env Address contract} {s s' : State Address Ledger} {caller : Address}

def Slot.execution : Slot → Address → Op Address
  | .pause, caller => .executePause caller
  | .upgrade, caller => .executeUpgrade caller
  | .sweep, caller => .executeSweep caller

/-- What an action needs beside its proposal: an upgrade the code that was uploaded, a sweep a
vault that holds as much. -/
def Slot.Feasible (T : TokenContract Address Ledger) (env : Env Address contract)
    (s : State Address Ledger) : (slot : Slot) → slot.Action Address → Prop
  | .pause, _ => True
  | .upgrade, wasmHash => env.uploaded wasmHash
  | .sweep, payout => ∃ usdc, s.usdcToken = some usdc ∧
      payout.amount.val ≤ T.balance s.ledger usdc contract

def State.SweepsPositive (s : State Address Ledger) : Prop :=
  ∀ proposal, s.pendingSweep = some proposal → 0 < proposal.action.amount.val

theorem sweepsPositive_of_step {T : TokenContract Address Ledger} {input : Input Address contract}
    {r : Unit} (hs : s.SweepsPositive) (h : (vault T contract).step s input = some (r, s')) :
    s'.SweepsPositive := by
  rcases effect_of_step h with ⟨env, op, rfl, heff⟩ | ⟨_, _, _, _, _, _, rfl, -, rfl⟩
  · cases heff with
    | proposeSweep admin positive staged =>
      intro proposal hproposal
      have hsame := Option.some.inj hproposal
      rw [← hsame, staged.1]
      exact positive
    | executeSweep | cancelSweep =>
      intro proposal hproposal
      cases hproposal
    | _ => exact hs
  · exact hs

theorem sweepsPositive_run (T : TokenContract Address Ledger) (ledger : Ledger)
    (inputs : List (Input Address contract)) :
    ((vault T contract).run (.deployed ledger) inputs).SweepsPositive := by
  apply Machine.invariant
  · intro proposal hproposal
    cases hproposal
  · intro s input r s' hs hstep
    exact sweepsPositive_of_step hs hstep

variable {T : ExactToken Address Ledger}

theorem exists_execution_iff (hs : s.SweepsPositive) (slot : Slot) :
    (∃ s', (call T.toTokenContract env (slot.execution caller)).run s = .ok () s') ↔
      s.ByAdmin env caller ∧ ∃ proposal, slot.pending s = some proposal ∧
        proposal.executeAfter ≤ env.timestamp ∧
        slot.Feasible T.toTokenContract env s proposal.action := by
  cases slot with
  | pause =>
    simp only [Slot.execution, call, run_executePause_eq_ok, Slot.pending, Slot.Feasible,
      and_true]
    constructor
    · intro h
      rcases h with ⟨_, hadmin, proposal, hpending, hdue, -⟩
      exact ⟨hadmin, proposal, hpending, hdue⟩
    · intro h
      rcases h with ⟨hadmin, proposal, hpending, hdue⟩
      exact ⟨_, hadmin, proposal, hpending, hdue, rfl⟩
  | upgrade =>
    simp only [Slot.execution, call, run_executeUpgrade_eq_ok, Slot.pending, Slot.Feasible]
    constructor
    · intro h
      rcases h with ⟨_, hadmin, proposal, hpending, hdue, huploaded, -⟩
      exact ⟨hadmin, proposal, hpending, hdue, huploaded⟩
    · intro h
      rcases h with ⟨hadmin, proposal, hpending, hdue, huploaded⟩
      exact ⟨_, hadmin, proposal, hpending, hdue, huploaded, rfl⟩
  | sweep =>
    simp only [Slot.execution, call, run_executeSweep_eq_ok, Slot.pending, Slot.Feasible]
    constructor
    · intro h
      rcases h with ⟨_, hadmin, proposal, usdc, ledger, hpending, hdue, husdc, hfunded, -⟩
      exact ⟨hadmin, proposal, hpending, hdue, usdc, husdc, hfunded⟩
    · intro h
      rcases h with ⟨hadmin, proposal, hpending, hdue, usdc, husdc, hfunded⟩
      have hpos := hs proposal hpending
      have hpays := (T.transfer_isSome s.ledger usdc contract proposal.action.to
        proposal.action.amount.val).2 ⟨hpos.le, hfunded⟩
      rcases Option.isSome_iff_exists.1 hpays with ⟨ledger, hpaid⟩
      exact ⟨_, hadmin, proposal, usdc, ledger, hpending, hdue, husdc, hfunded, hpaid, rfl⟩

/-! The slots in the terms of the calls. -/

section
variable {slot : Slot} {e : LogEntry Address Ledger contract} {T : TokenContract Address Ledger}

theorem slotLock_of_proposes {action : slot.Action Address} {proposedAt window : ℕ}
    (h : slot.Proposes action proposedAt window e) :
    (slotLock T contract slot).Proposes action proposedAt window e := by
  rcases h with ⟨env, op, hin, hcall, htime, hwindow⟩
  unfold Timelock.Proposes
  rw [hin]
  exact ⟨congrArg (Option.map SlotCall.act) hcall, htime, hwindow⟩

theorem slotLock_of_leaves (h : slot.Leaves e) : (slotLock T contract slot).Leaves e := by
  unfold Timelock.Leaves
  rcases hin : e.input with ⟨env, op⟩ | _
  · exact congrArg (Option.map SlotCall.act) (h env op hin)
  · rfl

end

theorem pending_iff_since (T : TokenContract Address Ledger) (ledger : Ledger)
    (inputs : List (Input Address contract)) {slot : Slot}
    {proposal : Proposal (slot.Action Address)} :
    slot.pending ((vault T contract).run (.deployed ledger) inputs) = some proposal ↔
      Machine.Since (fun e => ∃ window, proposal.executeAfter = proposal.proposedAt + window ∧
        slot.Proposes proposal.action proposal.proposedAt window e) slot.Leaves
        ((vault T contract).log (.deployed ledger) inputs) := by
  have hlock := (slotLock T contract slot).pending_iff_since inputs
    (slotLock_deployed T contract slot ledger) (p := proposal.staged)
  have hstaged : (slotLock T contract slot).pending
      ((vault T contract).run (.deployed ledger) inputs) = some proposal.staged ↔
      slot.pending ((vault T contract).run (.deployed ledger) inputs) = some proposal := by
    constructor
    · intro h
      rcases Option.map_eq_some_iff.1 h with ⟨other, hother, hsame⟩
      have heq : other = proposal := by
        rcases other with ⟨_, _, _⟩
        rcases proposal with ⟨_, _, _⟩
        simpa [Proposal.staged] using hsame
      rw [hother, heq]
    · intro h
      exact congrArg (Option.map Proposal.staged) h
  rw [← hstaged, hlock]
  constructor
  · intro hsince
    refine hsince.mono (fun e he => ?_) fun e he => leaves_of_slotLock he
    rcases he with ⟨window, hdue, hproposes⟩
    exact ⟨window, hdue, proposes_of_slotLock hproposes⟩
  · intro hsince
    refine hsince.mono (fun e he => ?_) fun e he => slotLock_of_leaves he
    rcases he with ⟨window, hdue, hproposes⟩
    exact ⟨window, hdue, slotLock_of_proposes hproposes⟩

/-- In every state that a vault reaches, an execution succeeds exactly when the admin in office
makes it, and the latest proposal for the slot has since been neither executed nor cancelled, has
waited out the window that was in force when it was made, and can be performed. -/
theorem execution_iff_proposed (T : ExactToken Address Ledger) (contract : Address)
    (ledger : Ledger) (inputs : List (Input Address contract)) (slot : Slot)
    (env : Env Address contract) (caller : Address) :
    let m := vault T.toTokenContract contract
    let s := m.run (.deployed ledger) inputs
    (m.step s (.call env (slot.execution caller))).isSome ↔
      s.ByAdmin env caller ∧ ∃ action proposedAt window,
        Machine.Since (slot.Proposes action proposedAt window) slot.Leaves
          (m.log (.deployed ledger) inputs) ∧
        proposedAt + window ≤ env.timestamp ∧
        slot.Feasible T.toTokenContract env s action := by
  intro m s
  have hpositive : s.SweepsPositive := sweepsPositive_run T.toTokenContract ledger inputs
  have hstep : (m.step s (.call env (slot.execution caller))).isSome ↔
      ∃ s', (call T.toTokenContract env (slot.execution caller)).run s = .ok () s' :=
    Call.commit_isSome
  rw [hstep, exists_execution_iff hpositive]
  apply and_congr_right
  intro _
  constructor
  · intro h
    rcases h with ⟨proposal, hpending, hdue, hfeasible⟩
    have hsince := (pending_iff_since T.toTokenContract ledger inputs).1 hpending
    rcases hsince with ⟨l₁, e, l₂, hlog, ⟨window, hwindow, hproposes⟩, hleaves⟩
    rw [hwindow] at hdue
    exact ⟨_, _, window, ⟨l₁, e, l₂, hlog, hproposes, hleaves⟩, hdue, hfeasible⟩
  · intro h
    rcases h with ⟨action, proposedAt, window, hsince, hdue, hfeasible⟩
    refine ⟨⟨action, proposedAt, proposedAt + window⟩, ?_, hdue, hfeasible⟩
    apply (pending_iff_since T.toTokenContract ledger inputs).2
    exact hsince.mono (fun e he => ⟨window, rfl, he⟩) fun e he => he

end Callora.Vault
