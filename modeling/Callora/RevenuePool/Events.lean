import Callora.RevenuePool.Accounting
import Callora.RevenuePool.Drain

/-! What the events of the pool tell. Every call that changes the pool publishes what it changed, so
that a reader of the events alone knows the whole storage, what the yield comes to, and what the
pool has paid out. -/

namespace Callora.RevenuePool
open Library

variable {Address Ledger : Type} [DecidableEq Address] {contract : Address}
  {env : Env Address contract} {s s' : State Address Ledger} {op : Op Address} {usdc : Address}

def State.stored (s : State Address Ledger) : State Address Unit where
  admin := s.admin
  usdcToken := s.usdcToken
  paused := s.paused
  pendingAdmin := s.pendingAdmin
  pauseGuardian := s.pauseGuardian
  maxDistribute := s.maxDistribute
  cumulativeYieldDeposited := s.cumulativeYieldDeposited
  version := s.version
  emergencyDrain := s.emergencyDrain
  ledger := ()
  wasm := s.wasm

def Event.replay (v : State Address Unit) : Event Address → State Address Unit
  | .init admin usdcToken =>
    { v with admin := some admin, usdcToken := some usdcToken, paused := some false }
  | .adminChanged _ newAdmin => { v with pendingAdmin := some newAdmin }
  | .adminTransferStarted _ newAdmin => { v with pendingAdmin := some newAdmin }
  | .adminTransferCompleted admin => { v with admin := some admin, pendingAdmin := none }
  | .adminCancelled _ _ => { v with pendingAdmin := none }
  | .pauseGuardianSet _ guardian => { v with pauseGuardian := some guardian }
  | .pauseGuardianCleared _ _ => { v with pauseGuardian := none }
  | .pauseSet _ paused => { v with paused := some paused }
  | .yieldDeposited _ _ _ cumulativeYieldDeposited =>
    { v with cumulativeYieldDeposited := some cumulativeYieldDeposited }
  | .setMaxDistribute _ _ newMax => { v with maxDistribute := some newMax }
  | .upgraded _ newWasmHash => { v with wasm := some newWasmHash, version := some newWasmHash }
  | .emergencyDrainProposed _ drain => { v with emergencyDrain := some drain }
  | .emergencyDrainExecuted _ _ _ _ _ => { v with emergencyDrain := none }
  | .emergencyDrainCancelled _ _ => { v with emergencyDrain := none }
  | .receivePayment _ _ _ | .distribute _ _ | .batchDistribute _ _ | .adminBroadcast _ _ _ => v

def Event.yielded : Event Address → ℤ
  | .yieldDeposited _ amount _ _ => amount.val
  | _ => 0

def Event.paidOut : Event Address → ℤ
  | .distribute _ amount | .batchDistribute _ amount => amount.val
  | .emergencyDrainExecuted _ _ amount _ _ => amount.val
  | _ => 0

/-! What a step publishes. -/

/-- The events `added` by an entry tell its changes of the storage, its yield and its payouts. -/
structure Tells (e : LogEntry Address Ledger contract) (added : List (Event Address)) : Prop where
  published : e.post.events = e.pre.events ++ added
  stored : e.post.stored = added.foldl Event.replay e.pre.stored
  yielded : (added.map Event.yielded).sum = RevenuePool.yielded e
  paidOut : (added.map Event.paidOut).sum = distributed e + drained e

omit [DecidableEq Address] in
theorem replay_legs (v : State Address Unit) (payments : List (Address × I128)) :
    (payments.map fun p => Event.batchDistribute p.1 p.2).foldl Event.replay v = v := by
  induction payments with
  | nil => rfl
  | cons p payments ih => exact ih

omit [DecidableEq Address] in
theorem yielded_legs (payments : List (Address × I128)) :
    ((payments.map fun p => Event.batchDistribute p.1 p.2).map Event.yielded).sum = 0 := by
  induction payments with
  | nil => rfl
  | cons p payments ih => exact (Int.zero_add _).trans ih

omit [DecidableEq Address] in
theorem paidOut_legs (payments : List (Address × I128)) :
    ((payments.map fun p => Event.batchDistribute p.1 p.2).map Event.paidOut).sum =
      totalAmount payments := by
  induction payments with
  | nil => rfl
  | cons p payments ih =>
    rw [totalAmount_cons, ← ih]
    rfl

omit [DecidableEq Address] in
theorem tells_of_effect {T : TokenContract Address Ledger} {r : Unit} (h : Effect T env s op s') :
    ∃ added, Tells (⟨s, .call env op, r, s'⟩ : LogEntry Address Ledger contract) added := by
  cases h with
  | @distribute caller «to» usdc amount ledger distribution =>
    refine ⟨_, rfl, rfl, rfl, ?_⟩
    simp [Event.paidOut, distributed, legs, Op.legs, drained]
  | @batchDistribute caller usdc payments ledger batch distribution =>
    refine ⟨_, rfl, (replay_legs _ _).symm, yielded_legs _, ?_⟩
    rw [paidOut_legs]
    exact (Int.add_zero _).symm
  | @executeEmergencyDrain caller usdc drain ledger executed =>
    refine ⟨_, rfl, rfl, rfl, ?_⟩
    simp [Event.paidOut, distributed, legs, Op.legs, drained, executed.pending]
  | depositYield deposit =>
    refine ⟨_, rfl, rfl, ?_, rfl⟩
    simp [Event.yielded, yielded]
  | _ => exact ⟨_, rfl, rfl, rfl, rfl⟩

theorem tells_of_step {T : TokenContract Address Ledger} {input : Input Address contract}
    {r : Unit} (h : (revenuePool T contract).step s input = some (r, s')) :
    ∃ added, Tells (⟨s, input, r, s'⟩ : LogEntry Address Ledger contract) added := by
  rcases effect_of_step h with ⟨env, op, rfl, heff⟩ | ⟨_, _, _, _, _, _, rfl, -, rfl⟩
  · exact tells_of_effect heff
  · exact ⟨[], (List.append_nil _).symm, rfl, rfl, rfl⟩

/-! Whole runs. -/

/-- The events of a pool tell the storage, and in sum what the log of the run yielded and paid. -/
structure Told (l : List (LogEntry Address Ledger contract)) (t : State Address Ledger) : Prop where
  stored : t.stored = t.events.foldl Event.replay (.deployed ())
  yielded : (t.events.map Event.yielded).sum = (l.map RevenuePool.yielded).sum
  paidOut : (t.events.map Event.paidOut).sum = (l.map distributed).sum + (l.map drained).sum

theorem told_run (T : TokenContract Address Ledger) (ledger : Ledger)
    (inputs : List (Input Address contract)) :
    Told ((revenuePool T contract).log (.deployed ledger) inputs)
      ((revenuePool T contract).run (.deployed ledger) inputs) := by
  refine Machine.log_invariant (P := Told) ⟨rfl, rfl, rfl⟩ ?_ inputs
  intro l t input r t' ht hstep
  rcases tells_of_step hstep with ⟨added, hadded⟩
  have hpublished : t'.events = t.events ++ added := hadded.published
  have hstored : t'.stored = added.foldl Event.replay t.stored := hadded.stored
  constructor
  · rw [hpublished, List.foldl_append, ← ht.stored, hstored]
  · rw [hpublished, List.map_append, List.sum_append, ht.yielded, hadded.yielded, List.map_append,
      List.sum_append, List.map_singleton, List.sum_singleton]
  · rw [hpublished, List.map_append, List.sum_append, ht.paidOut, hadded.paidOut]
    simp only [List.map_append, List.sum_append, List.map_singleton, List.sum_singleton]
    exact add_add_add_comm ..

/-! What the pool holds. -/

def State.TokenFromInit (s : State Address Ledger) : Prop := s.admin = none → s.usdcToken = none

omit [DecidableEq Address] in
theorem usdcToken_of_effect {T : TokenContract Address Ledger} (hs : s.TokenFromInit)
    (h : Effect T env s op s') :
    s'.TokenFromInit ∧ (s.usdcToken = none ∨ s.usdcToken = s'.usdcToken) := by
  cases h with
  | init fresh => exact ⟨fun hnone => absurd hnone (Option.some_ne_none _), .inl (hs fresh)⟩
  | acceptAdmin | claimAdmin =>
    exact ⟨fun hnone => absurd hnone (Option.some_ne_none _), .inr rfl⟩
  | _ => exact ⟨hs, .inr rfl⟩

omit [DecidableEq Address] in
theorem unmoved_of_effect {T : TokenContract Address Ledger} {r : Unit}
    (hnone : s.usdcToken = none) (h : Effect T env s op s') :
    s'.ledger = s.ledger ∧
      yielded (⟨s, .call env op, r, s'⟩ : LogEntry Address Ledger contract) = 0 ∧
      distributed (⟨s, .call env op, r, s'⟩ : LogEntry Address Ledger contract) = 0 ∧
      drained (⟨s, .call env op, r, s'⟩ : LogEntry Address Ledger contract) = 0 := by
  have hunset {token} (h : s.usdcToken = some token) : False := by
    rw [hnone] at h
    cases h
  cases h with
  | depositYield deposit => exact (hunset deposit.configured).elim
  | distribute distribution => exact (hunset distribution.configured).elim
  | batchDistribute batch distribution => exact (hunset distribution.configured).elim
  | executeEmergencyDrain executed => exact (hunset executed.configured).elim
  | _ => exact ⟨rfl, rfl, rfl, rfl⟩

variable {T : ExactToken Address Ledger}

/-- The holdings in `usdc`, which is the token of the pool or may still become it, are those at the
start moved by all that the log moves. -/
structure Reconciled (T : ExactToken Address Ledger) (contract : Address) (ledger : Ledger)
    (l : List (LogEntry Address Ledger contract)) (t : State Address Ledger) : Prop where
  fromInit : t.TokenFromInit
  external : t.DrainsOut contract
  held : ∀ usdc, t.usdcToken = none ∨ t.usdcToken = some usdc →
    T.balance t.ledger usdc contract = T.balance ledger usdc contract + (l.map (net usdc)).sum

theorem held_of_reconciled {ledger : Ledger} {l : List (LogEntry Address Ledger contract)}
    {input : Input Address contract} {r : Unit} (hs : Reconciled T contract ledger l s)
    (h : (revenuePool T.toTokenContract contract).step s input = some (r, s')) (usdc : Address)
    (hbefore : s.usdcToken = none ∨ s.usdcToken = some usdc) :
    T.balance s'.ledger usdc contract =
      T.balance s.ledger usdc contract + net usdc ⟨s, input, r, s'⟩ := by
  rcases hbefore with hnone | hsome
  · rcases effect_of_step h with
      ⟨env, op, rfl, heff⟩ | ⟨token, «from», «to», amount, external, ledger', rfl, hpaid, rfl⟩
    · rcases unmoved_of_effect (r := r) hnone heff with ⟨hsame, hyielded, hdistributed, hdrained⟩
      have hinflow : inflow usdc (⟨s, .call env op, r, s'⟩ :
          LogEntry Address Ledger contract) = 0 := rfl
      rw [net, hsame, hinflow, hyielded, hdistributed, hdrained, Int.add_zero, Int.sub_zero,
        Int.sub_zero, Int.add_zero]
    · have hmoved := T.balance_transfer hpaid usdc contract
      rw [if_neg fun hk => external hk.2.symm, Int.sub_zero] at hmoved
      simpa [net, inflow, yielded, distributed, legs, drained, eq_comm] using hmoved
  · have hinitialized : s.admin ≠ none := by
      intro hadmin
      have hnone := hs.fromInit hadmin
      rw [hsome] at hnone
      cases hnone
    have hpays : s.PaysOut contract usdc :=
      ⟨hinitialized, hsome, fun drain hdrain => (hs.external drain hdrain).1⟩
    exact held_of_step hpays h

theorem reconciled_run (T : ExactToken Address Ledger) (contract : Address) (ledger : Ledger)
    (inputs : List (Input Address contract)) :
    Reconciled T contract ledger
      ((revenuePool T.toTokenContract contract).log (.deployed ledger) inputs)
      ((revenuePool T.toTokenContract contract).run (.deployed ledger) inputs) := by
  refine Machine.log_invariant (P := Reconciled T contract ledger) ?_ ?_ inputs
  · refine ⟨fun _ => rfl, ?_, ?_⟩
    · intro drain hdrain
      cases hdrain
    · intro usdc _
      exact (Int.add_zero _).symm
  intro l t input r t' ht hstep
  have htoken : t'.TokenFromInit ∧ (t.usdcToken = none ∨ t.usdcToken = t'.usdcToken) := by
    rcases effect_of_step hstep with ⟨env, op, rfl, heff⟩ | ⟨_, _, _, _, _, _, rfl, -, rfl⟩
    · exact usdcToken_of_effect ht.fromInit heff
    · exact ⟨ht.fromInit, .inr rfl⟩
  refine ⟨htoken.1, drainsOut_of_step ht.external hstep, ?_⟩
  intro usdc hafter
  have hbefore : t.usdcToken = none ∨ t.usdcToken = some usdc := by
    rcases htoken.2 with hnone | hsame
    · exact .inl hnone
    · rw [hsame]
      exact hafter
  rw [held_of_reconciled ht hstep usdc hbefore, ht.held usdc hbefore, List.map_append,
    List.sum_append, List.map_singleton, List.sum_singleton, Int.add_assoc]

/-- The events of a pool are a complete record of every run. Replayed from nothing they give its
whole storage; the yield they report is the counter; and what the pool holds of its token is what
it held at deployment and what others have paid it since, with the yield that the events report,
less the payouts they report. -/
theorem events_tell_all (T : ExactToken Address Ledger) (contract : Address) (ledger : Ledger)
    (inputs : List (Input Address contract)) :
    let m := revenuePool T.toTokenContract contract
    let t := m.run (.deployed ledger) inputs
    t.stored = t.events.foldl Event.replay (.deployed ()) ∧
      (getCumulativeYieldDeposited t).val = (t.events.map Event.yielded).sum ∧
      ∀ usdc, t.usdcToken = some usdc →
        T.balance t.ledger usdc contract = T.balance ledger usdc contract +
          ((m.log (.deployed ledger) inputs).map (inflow usdc)).sum +
          (t.events.map Event.yielded).sum - (t.events.map Event.paidOut).sum := by
  intro m t
  have htold : Told (m.log (.deployed ledger) inputs) t :=
    told_run T.toTokenContract ledger inputs
  have hcumulative : (getCumulativeYieldDeposited t).val =
      0 + ((m.log (.deployed ledger) inputs).map yielded).sum :=
    Machine.run_eq_add_sum (m := m) (I := fun _ => True)
      (g := fun t => (getCumulativeYieldDeposited t).val) trivial (fun _ _ _ _ _ _ => trivial)
      (fun _ _ _ _ _ hstep => (cumulative_of_step hstep).1) inputs
  refine ⟨htold.stored, ?_, ?_⟩
  · rw [hcumulative, htold.yielded, Int.zero_add]
  · intro usdc husdc
    have hheld : T.balance t.ledger usdc contract = T.balance ledger usdc contract +
        ((m.log (.deployed ledger) inputs).map (net usdc)).sum :=
      (reconciled_run T contract ledger inputs).held usdc (.inr husdc)
    rw [hheld, sum_net, htold.yielded, htold.paidOut]
    omega

end Callora.RevenuePool
