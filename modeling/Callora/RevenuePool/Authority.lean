import Callora.RevenuePool.Run

/-! Who moves an initialized pool. Every successful call is authorized by the admin, by the pending
admin, or by the pause guardian who then raises the pause and does nothing else; in the hands of
anybody else the pool stays as it is and only receives. -/

namespace Callora.RevenuePool
open Library

variable {Address Ledger : Type} [DecidableEq Address] {contract : Address}
  {env : Env Address contract} {s s' : State Address Ledger} {op : Op Address}

def State.HoldsOffice (s : State Address Ledger) (who : Address) : Prop :=
  s.admin = some who ∨ s.pendingAdmin = some who

def State.InOffice (s : State Address Ledger) (env : Env Address contract) : Prop :=
  ∃ who ∈ env.signers, s.HoldsOffice who

def GuardianPauses (e : LogEntry Address Ledger contract) : Prop :=
  ∃ env guardian, e.input = .call env (.pause guardian) ∧ guardian ∈ env.signers ∧
    e.pre.pauseGuardian = some guardian ∧ isPaused e.pre = false ∧ ∃ events,
    e.post = { e.pre with paused := some true, events := events }

omit [DecidableEq Address] in
theorem State.ByAdmin.inOffice {caller : Address} (h : s.ByAdmin env caller) : s.InOffice env :=
  ⟨caller, h.1, .inl h.2⟩

omit [DecidableEq Address] in
theorem inOffice_or_guardianPauses {T : TokenContract Address Ledger} {r : Unit}
    (hs : s.admin ≠ none) (h : Effect T env s op s') :
    s.InOffice env ∨
      GuardianPauses (⟨s, .call env op, r, s'⟩ : LogEntry Address Ledger contract) := by
  cases h with
  | init fresh => exact absurd fresh hs
  | acceptAdmin authorized nominated | claimAdmin authorized nominated =>
    exact .inl ⟨_, authorized, .inr nominated⟩
  | pause authorized initialized role unpaused =>
    rcases role with hadmin | hguardian
    · exact .inl ⟨_, authorized, .inl hadmin⟩
    · exact .inr ⟨env, _, rfl, authorized, hguardian, unpaused, _, rfl⟩
  | depositYield deposit => exact .inl deposit.admin.inOffice
  | distribute distribution => exact .inl distribution.admin.inOffice
  | batchDistribute batch distribution => exact .inl distribution.admin.inOffice
  | executeEmergencyDrain executed => exact .inl executed.admin.inOffice
  | setAdmin admin | cancelAdminTransfer admin | setPauseGuardian admin | clearPauseGuardian admin
  | unpause admin | receivePayment admin | setMaxDistribute admin | upgrade admin
  | broadcast admin | proposeEmergencyDrain admin | cancelEmergencyDrain admin =>
    exact .inl admin.inOffice

variable {T : ExactToken Address Ledger}

/-- A step that nobody in office authorizes: a payment to others or to the pool, or the guardian's
pause. -/
inductive Outside (T : ExactToken Address Ledger) (e : LogEntry Address Ledger contract) : Prop
  | payment {ledger : Ledger} (post : e.post = { e.pre with ledger := ledger })
      (received : ∀ token, T.balance e.pre.ledger token contract ≤ T.balance ledger token contract)
  | pause (guardian : GuardianPauses e)

theorem outside_of_step {input : Input Address contract} {r : Unit} (hs : s.admin ≠ none)
    (hout : ∀ env op, input = .call env op → ¬s.InOffice env)
    (h : (revenuePool T.toTokenContract contract).step s input = some (r, s')) :
    Outside T ⟨s, input, r, s'⟩ := by
  obtain ⟨env, op, rfl, heff⟩ | ⟨token, «from», «to», amount, external, ledger, rfl, hpaid, rfl⟩ :=
    effect_of_step h
  · rcases inOffice_or_guardianPauses (r := r) hs heff with hoffice | hguardian
    · exact absurd hoffice (hout env op rfl)
    · exact .pause hguardian
  · exact .payment rfl fun t => T.le_balance_of_ne hpaid external.symm t

/-- What becomes of a pool that nobody in office acts on. -/
structure Kept (T : ExactToken Address Ledger) (contract : Address)
    (s t : State Address Ledger) : Prop where
  storage : t = { s with paused := t.paused, ledger := t.ledger, events := t.events }
  paused : t.paused = s.paused ∨ (isPaused s = false ∧ t.paused = some true)
  received : ∀ token, T.balance s.ledger token contract ≤ T.balance t.ledger token contract

theorem Kept.refl (T : ExactToken Address Ledger) (contract : Address)
    (s : State Address Ledger) : Kept T contract s s :=
  ⟨rfl, .inl rfl, fun _ => le_rfl⟩

theorem Kept.outside {e : LogEntry Address Ledger contract} (hkept : Kept T contract s e.pre)
    (h : Outside T e) : Kept T contract s e.post := by
  obtain ⟨t, input, r, t'⟩ := e
  obtain ⟨hstorage, hpaused, hreceived⟩ := hkept
  dsimp only at hstorage hpaused hreceived
  cases h with
  | @payment ledger post received =>
    obtain rfl : t' = { t with ledger := ledger } := post
    refine ⟨?_, hpaused, fun token => (hreceived token).trans (received token)⟩
    rw [hstorage]
  | pause guardian =>
    obtain ⟨env, who, -, -, -, hunpaused, events, hpost⟩ := guardian
    obtain rfl : t' = { t with paused := some true, events := events } := hpost
    refine ⟨?_, .inr ⟨?_, rfl⟩, hreceived⟩
    · rw [hstorage]
    · rcases hpaused with heq | ⟨hs, -⟩
      · unfold isPaused at hunpaused ⊢
        rw [← heq]
        exact hunpaused
      · exact hs

theorem Kept.admin {t : State Address Ledger} (h : Kept T contract s t) : t.admin = s.admin := by
  rw [h.storage]

/-- While neither the admin nor the pending admin authorizes a call, no token leaves the pool and
its storage stays as it is, unless the guardian pauses it. -/
theorem kept_out_of_office (T : ExactToken Address Ledger) {s : State Address Ledger}
    (hs : s.admin ≠ none) (inputs : List (Input Address contract))
    (hout : ∀ js env op ks, inputs = js ++ .call env op :: ks →
      ¬((revenuePool T.toTokenContract contract).run s js).InOffice env) :
    Kept T contract s ((revenuePool T.toTokenContract contract).run s inputs) ∧
      ∀ e ∈ (revenuePool T.toTokenContract contract).log s inputs, Outside T e := by
  have hstep (t : State Address Ledger) (input : Input Address contract) (r : Unit)
      (t' : State Address Ledger) (ht : Kept T contract s t)
      (hin : ∀ env op, input = .call env op → ¬t.InOffice env)
      (h : (revenuePool T.toTokenContract contract).step t input = some (r, t')) :
      Outside T ⟨t, input, r, t'⟩ :=
    outside_of_step (by rw [ht.admin]; exact hs) hin h
  have hrun (js ks : List (Input Address contract)) (hjs : inputs = js ++ ks) :
      Kept T contract s ((revenuePool T.toTokenContract contract).run s js) := by
    apply Machine.invariant_of_forall
      (A := fun t input => ∀ env op, input = .call env op → ¬State.InOffice t env)
      (.refl T contract s)
    · intro t input r t' ht hin h
      exact ht.outside (hstep t input r t' ht hin h)
    · rintro js' input ks' rfl env op rfl
      exact hout js' env op (ks' ++ ks) (by simp [hjs])
  constructor
  · exact hrun inputs [] (List.append_nil inputs).symm
  · intro e he
    obtain ⟨js, ks, hjs, hpre, h⟩ := Machine.mem_log.1 he
    apply hstep e.pre e.input e.output e.post (hpre ▸ hrun js (e.input :: ks) hjs) _ h
    intro env op hin
    rw [← hpre]
    exact hout js env op ks (by rw [hjs, hin])

theorem kept_out_of_office_guarded :
    let m := revenuePool (balanceToken ℕ).toTokenContract 0
    let inputs : List (Input ℕ 0) :=
      [.call (.signedBy 2 0 (by decide)) (.pause 2),
        .call (.signedBy 5 0 (by decide)) (.distribute 5 5 ⟨10, by decide⟩)]
    (m.run guardedPool inputs).paused = some true ∧
      Kept (balanceToken ℕ) 0 guardedPool (m.run guardedPool inputs) ∧
      ∀ e ∈ m.log guardedPool inputs, Outside (balanceToken ℕ) e := by
  intro m inputs
  refine ⟨rfl, kept_out_of_office (balanceToken ℕ) (Option.some_ne_none 1) inputs ?_⟩
  intro js env op ks h hoffice
  obtain ⟨who, hwho, hrole⟩ := hoffice
  rcases js with _ | ⟨i, _ | ⟨j, js⟩⟩
  · obtain ⟨rfl, -⟩ := Input.call.inj (List.cons.inj h).1
    obtain rfl := List.mem_singleton.1 hwho
    rcases hrole with hrole | hrole <;> cases hrole
  · obtain ⟨rfl, hrest⟩ := List.cons.inj h
    obtain ⟨rfl, -⟩ := Input.call.inj (List.cons.inj hrest).1
    obtain rfl := List.mem_singleton.1 hwho
    rcases hrole with hrole | hrole <;> cases hrole
  · exact absurd (List.cons.inj (List.cons.inj h).2).2 (by simp)

end Callora.RevenuePool
