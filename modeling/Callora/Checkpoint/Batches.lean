import Callora.Checkpoint.Run

/-! A batch of checkpoints and the same checkpoints created one by one. -/

namespace Callora.Checkpoint
open Library

variable {Address : Type} [DecidableEq Address] {contract : Address}
  {env : Env Address contract} {s s' : State Address} {caller : Address}
  {items : List (Item Address)} {calls : List (Input Address contract)}

/-- The call is by `caller`, with its authorization and at the time of `env`, and creates the
checkpoint of `item`. -/
structure Creates (env : Env Address contract) (caller : Address) (item : Item Address)
    (call : Input Address contract) : Prop where
  op : call.op = .createCheckpoint caller item.1 item.2.1 item.balance item.2.2.2
  timestamp : call.env.timestamp = env.timestamp
  authorized : caller ∈ call.env.signers

theorem step_creates {item : Item Address} {i : Input Address contract} {r : Ret}
    (hi : Creates env caller item i) (hadmin : s.ByAdmin env caller) :
    (checkpoint contract).step s i = some (r, s') ↔ 0 ≤ item.balance.val ∧
      getLatestCheckpointId s + 1 ≤ U64_MAX ∧ r = .id (getLatestCheckpointId s + 1) ∧
        s' = s.append env.timestamp item := by
  obtain ⟨env', op⟩ := i
  obtain ⟨rfl, htime, hauth⟩ := hi
  have hadmin' : s.ByAdmin env' caller := ⟨hauth, hadmin.2⟩
  change (call env' _).commit s = some (r, s') ↔ _
  rw [Call.commit_eq_some, ← htime]
  simp only [call, Call.run_bind_eq_ok, run_createCheckpoint_eq_ok, Call.run_pure_eq_ok]
  constructor
  · intro h
    obtain ⟨_, _, ⟨-, hsign, hroom, rfl, rfl⟩, rfl, rfl⟩ := h
    exact ⟨hsign, hroom, rfl, rfl⟩
  · intro h
    obtain ⟨hsign, hroom, rfl, rfl⟩ := h
    exact ⟨_, _, ⟨hadmin', hsign, hroom, rfl, rfl⟩, rfl, rfl⟩

theorem log_creates_of_room (hcalls : List.Forall₂ (Creates env caller) items calls)
    (hadmin : s.ByAdmin env caller) (hsign : ∀ item ∈ items, 0 ≤ item.balance.val)
    (hroom : items ≠ [] → getLatestCheckpointId s + items.length ≤ U64_MAX) :
    ((checkpoint contract).log s calls).map Entry.input = calls ∧
      ((checkpoint contract).log s calls).map Entry.output =
        (List.range' (getLatestCheckpointId s + 1) items.length).map .id ∧
      (checkpoint contract).run s calls = items.foldl (State.append env.timestamp) s := by
  induction hcalls generalizing s with
  | nil => exact ⟨rfl, rfl, rfl⟩
  | @cons item i items calls hi hcalls ih =>
    obtain ⟨hitem, hitems⟩ := List.forall_mem_cons.1 hsign
    have hall := hroom (List.cons_ne_nil _ _)
    rw [List.length_cons] at hall
    have hstep := (step_creates hi hadmin).2 ⟨hitem, by omega, rfl, rfl⟩
    have hadmin' : (s.append env.timestamp item).ByAdmin env caller := hadmin
    obtain ⟨hinput, houtput, hrun⟩ := ih hadmin' hitems fun _ => by
      rw [getLatestCheckpointId_append]
      omega
    refine ⟨Machine.log_inputs_cons_iff.2 ⟨_, _, hstep, hinput⟩, ?_, ?_⟩
    · rw [Machine.log, Machine.entries_of_step hstep, Machine.next_of_step hstep,
        List.singleton_append, List.map_cons, houtput, getLatestCheckpointId_append,
        List.length_cons, List.range'_succ, List.map_cons]
    · rw [Machine.run, Machine.next_of_step hstep, hrun, List.foldl_cons]

theorem room_of_log_creates (hcalls : List.Forall₂ (Creates env caller) items calls)
    (hadmin : s.ByAdmin env caller)
    (h : ((checkpoint contract).log s calls).map Entry.input = calls) :
    (∀ item ∈ items, 0 ≤ item.balance.val) ∧
      (items ≠ [] → getLatestCheckpointId s + items.length ≤ U64_MAX) := by
  induction hcalls generalizing s with
  | nil => exact ⟨List.forall_mem_nil _, fun hne => absurd rfl hne⟩
  | @cons item i items calls hi hcalls ih =>
    obtain ⟨_, _, hstep, hrest⟩ := Machine.log_inputs_cons_iff.1 h
    obtain ⟨hitem, hroom, -, rfl⟩ := (step_creates hi hadmin).1 hstep
    have hadmin' : (s.append env.timestamp item).ByAdmin env caller := hadmin
    obtain ⟨hitems, hroom'⟩ := ih hadmin' hrest
    refine ⟨List.forall_mem_cons.2 ⟨hitem, hitems⟩, fun _ => ?_⟩
    rcases items with _ | ⟨item', items⟩
    · exact hroom
    · have hlast := hroom' (List.cons_ne_nil _ _)
      rw [getLatestCheckpointId_append] at hlast
      rw [List.length_cons]
      omega

/-! Failures. -/

omit [DecidableEq Address] in
theorem run_ensureItems_of_neg (h : ∃ item ∈ items, item.balance.val < 0) :
    (forM items fun item => Call.ensure (¬item.balance.val < 0) .amountNegative :
      Tx Address Unit).run s = .err .amountNegative s := by
  induction items with
  | nil => simp at h
  | cons item items ih =>
    rw [List.forM_cons]
    rcases lt_or_ge item.balance.val 0 with hneg | hpos
    · exact Call.run_bind_eq_err.2 (.inl (Call.run_ensure_eq_err.2 ⟨not_not.2 hneg, rfl, rfl⟩))
    · have hrest : ∃ item ∈ items, item.balance.val < 0 := by
        obtain ⟨item', hmem, hneg⟩ := h
        rcases List.mem_cons.1 hmem with rfl | hmem
        · omega
        · exact ⟨item', hmem, hneg⟩
      rw [Call.run_bind_of_ok (a := ()) (Call.run_ensure_eq_ok.2 ⟨not_lt.2 hpos, rfl⟩)]
      exact ih hrest

omit [DecidableEq Address] in
theorem run_writeCheckpoint_of_overflow {timestamp : ℕ} {item : Item Address}
    (h : U64_MAX < getLatestCheckpointId s + 1) :
    (writeCheckpoint timestamp item).run s = .err .overflow s := by
  have hnone : checkedAddU64 (s.nextCheckpointId.getD 0) 1 = none := if_neg (not_le.2 h)
  simp [writeCheckpoint, nextCheckpointId, hnone]

omit [DecidableEq Address] in
theorem run_writeAll_of_overflow {timestamp : ℕ} (hne : items ≠ [])
    (h : U64_MAX < getLatestCheckpointId s + items.length) :
    ∃ s₁, (writeAll timestamp items).run s = .err .overflow s₁ := by
  induction items generalizing s with
  | nil => exact absurd rfl hne
  | cons item items ih =>
    rw [writeAll]
    rcases lt_or_ge U64_MAX (getLatestCheckpointId s + 1) with hover | hroom
    · exact ⟨s, Call.run_bind_eq_err.2 (.inl (run_writeCheckpoint_of_overflow hover))⟩
    · have hitem : (writeCheckpoint timestamp item).run s =
          .ok (getLatestCheckpointId s + 1) (s.append timestamp item) :=
        run_writeCheckpoint_eq_ok.2 ⟨hroom, rfl, rfl⟩
      rw [List.length_cons] at h
      have hrest : items ≠ [] := by
        rintro rfl
        rw [List.length_nil] at h
        omega
      obtain ⟨s₁, hover⟩ := ih (s := s.append timestamp item) hrest (by
        rw [getLatestCheckpointId_append]
        omega)
      rw [Call.run_bind_of_ok hitem]
      exact ⟨s₁, Call.run_bind_eq_err.2 (.inl hover)⟩

theorem run_batchCreateCheckpoints_eq_err (hadmin : s.ByAdmin env caller)
    (hlen : 1 ≤ items.length ∧ items.length ≤ MAX_BATCH_SIZE)
    (h : (∃ item ∈ items, item.balance.val < 0) ∨
      U64_MAX < getLatestCheckpointId s + items.length) :
    ∃ e s₁, (batchCreateCheckpoints env caller items).run s = .err e s₁ ∧
      (e = .amountNegative ∨ e = .overflow) := by
  have hadminRun : (requireAdmin env caller).run s = .ok () s :=
    run_requireAdmin_eq_ok.2 ⟨hadmin, rfl⟩
  have hempty : (Call.ensure (items.length ≠ 0) .batchEmpty : Tx Address Unit).run s = .ok () s :=
    Call.run_ensure_eq_ok.2 ⟨by omega, rfl⟩
  have hlarge : (Call.ensure (¬MAX_BATCH_SIZE < items.length) .batchTooLarge :
      Tx Address Unit).run s = .ok () s := Call.run_ensure_eq_ok.2 ⟨by omega, rfl⟩
  rw [batchCreateCheckpoints, Call.run_bind_of_ok hadminRun, Call.run_bind_of_ok hempty,
    Call.run_bind_of_ok hlarge]
  by_cases hneg : ∃ item ∈ items, item.balance.val < 0
  · exact ⟨_, _, Call.run_bind_eq_err.2 (.inl (run_ensureItems_of_neg hneg)), .inl rfl⟩
  · have hsign : ∀ item ∈ items, 0 ≤ item.balance.val := by simpa using hneg
    rw [Call.run_bind_of_ok (a := ()) (run_ensureItems_eq_ok.2 ⟨hsign, rfl⟩)]
    have hne : items ≠ [] := List.ne_nil_of_length_pos hlen.1
    obtain ⟨s₁, hover⟩ := run_writeAll_of_overflow hne (h.resolve_left hneg)
    exact ⟨_, s₁, hover, .inr rfl⟩

/-- A batch succeeds exactly if its items can be created one by one, at the same time; it gives them
the same ids and leaves the same state, events included. Otherwise it fails as a whole. -/
theorem batch_eq_creations (hadmin : s.ByAdmin env caller)
    (hlen : 1 ≤ items.length ∧ items.length ≤ MAX_BATCH_SIZE)
    (hcalls : List.Forall₂ (Creates env caller) items calls) :
    ((∃ ids s', (batchCreateCheckpoints env caller items).run s = .ok ids s') ↔
      ((checkpoint contract).log s calls).map Entry.input = calls) ∧
    (∀ ids s', (batchCreateCheckpoints env caller items).run s = .ok ids s' →
      ids = List.range' (getLatestCheckpointId s + 1) items.length ∧
      ((checkpoint contract).log s calls).map Entry.output = ids.map .id ∧
      (checkpoint contract).run s calls = s') ∧
    ((∃ item ∈ items, item.balance.val < 0) ∨
        U64_MAX < getLatestCheckpointId s + items.length →
      (∃ e s₁, (batchCreateCheckpoints env caller items).run s = .err e s₁ ∧
        (e = .amountNegative ∨ e = .overflow)) ∧
      (checkpoint contract).next s ⟨env, .batchCreateCheckpoints caller items⟩ = s) := by
  have hne : items ≠ [] := List.ne_nil_of_length_pos hlen.1
  refine ⟨?_, ?_, ?_⟩
  · constructor
    · intro h
      obtain ⟨ids, s', hrun⟩ := h
      obtain ⟨-, -, hsign, hroom, -, -⟩ := run_batchCreateCheckpoints_eq_ok.1 hrun
      exact (log_creates_of_room hcalls hadmin hsign fun _ => hroom).1
    · intro h
      obtain ⟨hsign, hroom⟩ := room_of_log_creates hcalls hadmin h
      exact ⟨_, _, run_batchCreateCheckpoints_eq_ok.2
        ⟨hadmin, ⟨hne, hlen.2⟩, hsign, hroom hne, rfl, rfl⟩⟩
  · intro ids s' hrun
    obtain ⟨-, -, hsign, hroom, rfl, rfl⟩ := run_batchCreateCheckpoints_eq_ok.1 hrun
    exact ⟨rfl, (log_creates_of_room hcalls hadmin hsign fun _ => hroom).2⟩
  · intro h
    obtain ⟨e, s₁, hrun, he⟩ := run_batchCreateCheckpoints_eq_err hadmin hlen h
    refine ⟨⟨e, s₁, hrun, he⟩, Machine.next_of_rollback ?_⟩
    have hcall : (call env (.batchCreateCheckpoints caller items)).run s = .err e s₁ :=
      Call.run_bind_eq_err.2 (.inl hrun)
    change (call env _).commit s = none
    rw [Call.commit_eq_none, hcall]
    intro a s' hok
    cases hok

def reported : List (Item ℕ) := [(2, 4, ⟨55, by decide⟩, "monthly"), (2, 6, 0, "monthly")]

theorem batch_eq_creations_reported :
    let env : Env ℕ 0 := .signedBy 7 21 (by decide)
    let s : State ℕ := { admin := some 7 }
    let calls : List (Input ℕ 0) := [⟨env, .createCheckpoint 7 2 4 ⟨55, by decide⟩ "monthly"⟩,
      ⟨env, .createCheckpoint 7 2 6 0 "monthly"⟩]
    (∃ s', (batchCreateCheckpoints env 7 reported).run s = .ok [1, 2] s') ∧
      ((checkpoint 0).log s calls).map Entry.output = [.id 1, .id 2] := by
  intro env s calls
  have hadmin : s.ByAdmin env 7 := ⟨List.mem_singleton_self _, rfl⟩
  have hcalls : List.Forall₂ (Creates env 7) reported calls :=
    .cons ⟨rfl, rfl, List.mem_singleton_self _⟩ (.cons ⟨rfl, rfl, List.mem_singleton_self _⟩ .nil)
  obtain ⟨hiff, hsame, -⟩ := batch_eq_creations hadmin (by decide) hcalls
  obtain ⟨ids, s', hrun⟩ := hiff.2 rfl
  obtain ⟨rfl, houtput, -⟩ := hsame ids s' hrun
  exact ⟨⟨s', hrun⟩, houtput⟩

end Callora.Checkpoint
